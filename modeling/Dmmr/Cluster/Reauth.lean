import Dmmr.Cluster.Gate
import Dmmr.Cluster.Handshake
import Dmmr.Store.Readers

/-!
# Re-authentication on an open connection

A session lasts ten minutes.  After that the sender starts a new exchange on the
connection it has, as the documentation says it does from time to time.  The server
does not take part: an `AUTH_REQUEST` is answered only on a connection that is not
yet authenticated, and nothing ever makes an authenticated one unauthenticated
again.  If the session has expired by the server's clock, the connection is closed;
if not, the request falls through the switch.

A `Link` is the sender's thread and the server's loop on one open connection, with
what each has sent and the other has not yet read.  The two take turns in any order
and each reads its own clock.
-/

namespace Dmmr.Cluster

open Words Store Wire Node

/-! ## An open connection -/

/-- The sender of a connection, the server, whose `stream` and `sent` hold what is
under way in the two directions, and whether neither side has closed it. -/
structure Link where
  sender : SenderState
  server : ConnState
  isOpen : Bool

/-- What can happen next: an iteration of the server's loop, or a pass through the
sender's, with the server's iterations while the sender waits for an answer. -/
inductive LinkEvent where
  | serve (env : ConnEnv)
  | pass (env : SenderEnv) (during : ℕ → ConnEnv)

/-- Iterations of the server's loop, for as long as there is a frame to read, with
whether the connection stays open. -/
def serveFrames (mac : Mac) (cfg : NodeConfig) : List ConnEnv → ConnState → Bool × ConnState
  | [], s => (true, s)
  | env :: envs, s =>
      if (clusterRecvFrame true s.stream).isNone then (true, s)
      else
        match connIteration mac cfg env s with
        | (true, s) => serveFrames mac cfg envs s
        | (false, s) => (false, s)

/-- Everything under way to the server is read.  A frame is not empty, so there are
no more iterations than bytes. -/
def serveAll (mac : Mac) (cfg : NodeConfig) (during : ℕ → ConnEnv) (s : ConnState) :
    Bool × ConnState :=
  serveFrames mac cfg ((List.range s.stream.length).map during) s

namespace Link

/-- The sender is at the check of its session and finds that it has expired. -/
def Expired (l : Link) (env : SenderEnv) : Prop :=
  l.sender.pc = .top ∧ env.active = true ∧ env.running = true ∧
    l.sender.authExpireAt ≤ env.authClock

instance instDecidableExpired (l : Link) (env : SenderEnv) : Decidable (l.Expired env) :=
  inferInstanceAs (Decidable (_ ∧ _))

variable (mac : Mac) (client server : NodeConfig)

/-- The frame the sender reads after the request of a new exchange. -/
def answer (env : SenderEnv) (during : ℕ → ConnEnv) (l : Link) : Option Received :=
  let request := requestBytes client env.exchange.nonceA
  let served := serveAll mac server during { l.server with stream := l.server.stream ++ request }
  served.2.sent.head?.bind fun bytes => (clusterRecvFrame true bytes).map Prod.fst

/-- A pass through the sender's loop in which everything can be sent.  The server
reads along only if the sender waits for it. -/
def pass (env : SenderEnv) (during : ℕ → ConnEnv) (l : Link) : Link :=
  let response := l.answer mac client server env during
  let (sender, sent) := senderStep mac client l.sender
    { env with exchange := ⟨env.exchange.nonceA, true, response, true⟩, sendOk := true }
  let s := { l.server with stream := l.server.stream ++ sent.flatten }
  if l.Expired env then
    let (go, s) := serveAll mac server during s
    ⟨sender, { s with sent := s.sent.tail }, sender.connected && go⟩
  else ⟨sender, s, sender.connected⟩

/-- One event.  Nothing happens on a connection that has been closed. -/
def step (l : Link) : LinkEvent → Link
  | .serve env =>
      if !l.isOpen then l
      else
        let (go, s) := serveFrames mac server [env] l.server
        { l with server := s, isOpen := go }
  | .pass env during => if !l.isOpen then l else l.pass mac client server env during

def run (l : Link) (events : List LinkEvent) : Link := events.foldl (step mac client server) l

end Link

/-! ## How a connection is opened -/

/-- The sender's thread when the handshake of a new connection has succeeded. -/
def SenderState.established (s : SenderState) (env : SenderEnv) (expireAt : Option UInt64) :
    SenderState :=
  { s with
    outbox := env.arrivals.foldl enqueueOutbox s.outbox
    connected := true, retryBackoff := peerRetryBase, authenticated := true
    authExpireAt := expireAt.getD 0, lastActivity := env.doneTime }

/-- From there on the pass that makes the connection is a pass on an open one. -/
theorem senderStep_established (mac : Mac) {cfg : NodeConfig} {env : SenderEnv} {s : SenderState}
    (hconnects : connects env s = true) {expireAt : Option UInt64} {sent : List Bytes}
    (hhandshake : clusterHandshakeClient mac cfg env.handshake = (true, expireAt, sent)) :
    senderStep mac cfg s env =
      let (s', sent') := senderStep mac cfg (s.established env expireAt)
        { env with arrivals := [] }
      (s', sent ++ sent') := by
  simp only [connects, Bool.and_eq_true, beq_iff_eq, Bool.not_eq_true', decide_eq_false_iff_not]
    at hconnects
  obtain ⟨⟨⟨⟨⟨hpc, hactive⟩, hrunning⟩, hconnected⟩, hretry⟩, hconnect⟩ := hconnects
  simp [senderStep, SenderState.established, hpc, hactive, hrunning, senderConnect, hconnected,
    hretry, hconnect, senderHandshake, hhandshake]
  exact ⟨rfl, rfl⟩

/-- The link after a handshake on a fresh connection. -/
def Link.Opened (mac : Mac) (client server : NodeConfig) (l : Link) : Prop :=
  ∃ (nonceA : UInt64) (env : ConnEnv) (shared : Server) (s : SenderState) (pass : SenderEnv),
    env.Healthy ∧ (clientSide mac client server nonceA env shared).1 = true ∧
    l.sender = s.established pass (clientSide mac client server nonceA env shared).2.1 ∧
    l.server = { (serverSide mac client server nonceA env shared).2 with sent := [] } ∧
    l.isOpen = true

/-! ## The property -/

section Property

variable (mac : Mac) (client server : NodeConfig)

/-- The server answers the request of the pass with a response that is valid, and
both sides end up with its expiry on an open connection. -/
def Link.Reauthenticates (env : SenderEnv) (during : ℕ → ConnEnv) (l : Link) : Prop :=
  ∃ response expireAt, l.answer mac client server env during = some response ∧
    checkAuthResponse mac client env.exchange.nonceA response = some expireAt ∧
    (l.pass mac client server env during).sender.authenticated = true ∧
    (l.pass mac client server env during).sender.authExpireAt = expireAt ∧
    (l.pass mac client server env during).server.authenticated = true ∧
    (l.pass mac client server env during).server.authExpireAt = expireAt ∧
    (l.pass mac client server env during).isOpen = true

/-- Whenever the sender finds its session expired on the open connection, the
session is renewed. -/
def Link.KeepsAlive (l : Link) (events : List LinkEvent) : Prop :=
  ∀ before env during after, events = before ++ .pass env during :: after →
    (l.run mac client server before).isOpen = true →
    (l.run mac client server before).Expired env →
    (l.run mac client server before).Reauthenticates mac client server env during

/-- The sender never finds its session expired on the open connection. -/
def Link.StaysFresh (l : Link) (events : List LinkEvent) : Prop :=
  ∀ before env during after, events = before ++ .pass env during :: after →
    (l.run mac client server before).isOpen = true →
    ¬ (l.run mac client server before).Expired env

end Property

/-! ## What an authenticated server sends -/

/-- The connection is authenticated, and the first frame the client has not read
is no `AUTH_RESPONSE`. -/
structure Settled (cfg : NodeConfig) (s : ConnState) : Prop where
  authenticated : s.authenticated = true
  head : ∀ bytes ∈ s.sent.head?, ∃ opcode value, opcode ≠ .authResponse ∧
    value.length ≤ maxValueLen ∧ bytes = controlFrame cfg opcode value

/-- A snapshot that has begun begins with `CLUSTER_SYNC_BEGIN`. -/
theorem head?_sendSnapshot (cfg : NodeConfig) (env : ConnEnv) (db : Database) :
    ∀ bytes ∈ (sendSnapshot cfg env db).head?, bytes = controlFrame cfg .clusterSyncBegin [] := by
  have hitem : ∀ (record : DbRecord) (sent : List Bytes),
      sent.head? = some (controlFrame cfg .clusterSyncBegin []) →
      (sendSnapshotItem cfg env.sendOk record sent).2.head? =
        some (controlFrame cfg .clusterSyncBegin []) := by
    intro record sent h
    unfold sendSnapshotItem
    simp only
    split
    · exact h
    · split_ifs
      · rw [List.head?_append, h]
        rfl
      · exact h
  have hbegin : [controlFrame cfg .clusterSyncBegin []].head? =
      some (controlFrame cfg .clusterSyncBegin []) := rfl
  have hall := dbSnapshotForeach_rule cfg.host env.bdb db hitem env.snapshotCalls hbegin
  intro bytes hmem
  unfold sendSnapshot at hmem
  split_ifs at hmem
  · simp at hmem
  · cases hresult : dbSnapshotForeach cfg.host env.bdb db (sendSnapshotItem cfg env.sendOk)
      env.snapshotCalls [controlFrame cfg .clusterSyncBegin []] with
    | mk res sent =>
        rw [hresult] at hall hmem
        have hsent : ∀ more, (sent ++ more).head? =
            some (controlFrame cfg .clusterSyncBegin []) := by
          intro more
          rw [List.head?_append, hall]
          rfl
        have hsame : bytes ∈ sent.head? → bytes = controlFrame cfg .clusterSyncBegin [] := by
          intro h
          rw [hall] at h
          exact (Option.some.inj h).symm
        cases res with
        | applied =>
            simp only at hmem
            split_ifs at hmem
            · rw [hsent] at hmem
              exact (Option.some.inj hmem).symm
            · exact hsame hmem
        | _ => exact hsame hmem

section Server

variable {mac : Mac} {cfg : NodeConfig} {s : ConnState}

/-- Appending to what is unread puts a new frame first only if there was none. -/
theorem settled_append (h : Settled cfg s) {s' : ConnState} {more : List Bytes}
    (hauth : s'.authenticated = s.authenticated) (hsent : s'.sent = s.sent ++ more)
    (hmore : ∀ bytes ∈ more.head?, ∃ opcode value, opcode ≠ .authResponse ∧
      value.length ≤ maxValueLen ∧ bytes = controlFrame cfg opcode value) : Settled cfg s' := by
  refine ⟨hauth.trans h.authenticated, ?_⟩
  intro bytes hmem
  rw [hsent] at hmem
  cases hunread : s.sent with
  | nil =>
      rw [hunread] at hmem
      exact hmore bytes hmem
  | cons first rest =>
      rw [hunread] at hmem
      exact h.head bytes (by rw [hunread]; exact hmem)

/-- The server's loop keeps this. -/
theorem settled_connIteration (mac : Mac) (h : Settled cfg s) (env : ConnEnv) :
    Settled cfg (connIteration mac cfg env s).2 := by
  have hquiet : ∀ bytes ∈ ([] : List Bytes).head?, ∃ opcode value, opcode ≠ .authResponse ∧
      value.length ≤ maxValueLen ∧ bytes = controlFrame cfg opcode value := by
    simp
  rcases connIteration_received mac cfg env s with ⟨heq, -⟩ | ⟨hrunning, r, rest, hrecv, -⟩
  · rw [heq]
    exact h
  · by_cases hbarred : Barred cfg env s r
    · rcases connIteration_of_barred mac hrunning hrecv hbarred with ⟨-, heq⟩ | ⟨-, hno, -⟩ | heq
      · rw [heq]
        have hsent : (hello cfg env r { s with stream := rest }).2.sent = s.sent ++
            if env.sendOk 0 then
              (handleClusterHello cfg env.allocOk env.time s.server.peers r).2.toList
            else [] := rfl
        refine settled_append h rfl hsent ?_
        rcases reply_handleClusterHello cfg r env.allocOk env.time s.server.peers with
          hreply | ⟨payload, hlen, hreply⟩
        · rw [hreply]
          cases env.sendOk 0 <;> exact hquiet
        · rw [hreply]
          cases env.sendOk 0 with
          | false => exact hquiet
          | true =>
              intro bytes hmem
              exact ⟨.clusterPeerList, payload, by decide, hlen, (Option.some.inj hmem).symm⟩
      · rw [h.authenticated] at hno
        exact absurd hno (by decide)
      · rw [heq]
        exact ⟨h.authenticated, h.head⟩
    · rw [connIteration_of_not_barred mac hrunning hrecv hbarred, dispatch_eq]
      cases dispatchCall cfg r with
      | none => exact ⟨h.authenticated, h.head⟩
      | some c =>
          cases c with
          | record r => exact ⟨h.authenticated, h.head⟩
          | snapshot r =>
              refine settled_append h rfl rfl fun bytes hmem => ?_
              exact ⟨.clusterSyncBegin, [], by decide, length_nil_le,
                head?_sendSnapshot cfg env s.server.db bytes hmem⟩

theorem settled_serveFrames (envs : List ConnEnv) (h : Settled cfg s) :
    Settled cfg (serveFrames mac cfg envs s).2 := by
  induction envs generalizing s with
  | nil => exact h
  | cons env envs ih =>
      have hstep := settled_connIteration mac h env
      unfold serveFrames
      split_ifs
      · exact h
      · split
        · rename_i s' heq
          rw [heq] at hstep
          exact ih hstep
        · rename_i s' heq
          rw [heq] at hstep
          exact hstep

/-- What the client reads from such a connection is not accepted. -/
theorem not_accepted_of_settled (h : Settled cfg s) {response : Received}
    (hread : (s.sent.head?.bind fun bytes => (clusterRecvFrame true bytes).map Prod.fst) =
      some response) (client : NodeConfig) (nonceA : UInt64) :
    checkAuthResponse mac client nonceA response = none := by
  obtain ⟨bytes, hmem, hresponse⟩ := Option.bind_eq_some_iff.mp hread
  obtain ⟨opcode, value, hne, hlen, rfl⟩ := h.head bytes hmem
  have hrecv := clusterRecvFrame_control cfg opcode hlen []
  rw [List.append_nil] at hrecv
  rw [hrecv] at hresponse
  obtain rfl : controlReceived cfg opcode hlen = response := Option.some.inj hresponse
  cases hcheck : checkAuthResponse mac client nonceA (controlReceived cfg opcode hlen) with
  | none => rfl
  | some expireAt =>
      have hcode := opcode_of_checkAuthResponse hcheck
      rw [opcode_controlReceived] at hcode
      exact absurd (Opcode.code_injective hcode) hne

end Server

/-! ## Over a whole run -/

/-- While the connection is open the server is settled. -/
def Link.Standing (server : NodeConfig) (l : Link) : Prop :=
  l.isOpen = true → l.sender.connected = true ∧ Settled server l.server

section Runs

variable {mac : Mac} {client server : NodeConfig} {l : Link}

/-- A pass that finds the session expired closes the connection. -/
theorem Link.pass_expired (h : Settled server l.server) (hconnected : l.sender.connected = true)
    {env : SenderEnv} (hexpired : l.Expired env) (during : ℕ → ConnEnv) :
    (l.pass mac client server env during).isOpen = false := by
  have hsettled : ∀ stream, Settled server
      (serveAll mac server during { l.server with stream := stream }).2 :=
    fun stream => settled_serveFrames _ ⟨h.authenticated, h.head⟩
  have hrefused : (l.answer mac client server env during).bind
      (checkAuthResponse mac client env.exchange.nonceA) = none := by
    cases hanswer : l.answer mac client server env during with
    | none => rfl
    | some response => exact not_accepted_of_settled (hsettled _) hanswer client _
  obtain ⟨hpc, hactive, hrunning, hclock⟩ := hexpired
  have hsender : (senderStep mac client l.sender
      { env with
        exchange := ⟨env.exchange.nonceA, true, l.answer mac client server env during, true⟩
        sendOk := true }).1.connected = false := by
    simp [senderStep, hpc, hactive, hrunning, senderConnect, hconnected, senderAuth, hclock,
      authExchange, hrefused, SenderState.disconnect]
  unfold Link.pass
  simp only
  rw [if_pos ⟨hpc, hactive, hrunning, hclock⟩]
  simp only [hsender, Bool.false_and]

theorem Link.not_reauthenticates (h : l.Standing server) (hopen : l.isOpen = true)
    {env : SenderEnv} (hexpired : l.Expired env) {during : ℕ → ConnEnv} :
    ¬ l.Reauthenticates mac client server env during := by
  rintro ⟨-, -, -, -, -, -, -, -, hstill⟩
  obtain ⟨hconnected, hsettled⟩ := h hopen
  rw [Link.pass_expired hsettled hconnected hexpired during] at hstill
  exact absurd hstill Bool.false_ne_true

theorem Link.standing_step (h : l.Standing server) (e : LinkEvent) :
    (l.step mac client server e).Standing server := by
  intro hopen
  cases hnow : l.isOpen with
  | false =>
      cases e <;> simp [Link.step, hnow] at hopen
  | true =>
      obtain ⟨hconnected, hsettled⟩ := h hnow
      cases e with
      | serve env =>
          simp only [Link.step, hnow, Bool.not_true, Bool.false_eq_true, if_false] at hopen ⊢
          exact ⟨hconnected, settled_serveFrames [env] hsettled⟩
      | pass env during =>
          simp only [Link.step, hnow, Bool.not_true, Bool.false_eq_true, if_false] at hopen ⊢
          by_cases hexpired : l.Expired env
          · rw [Link.pass_expired hsettled hconnected hexpired during] at hopen
            exact absurd hopen Bool.false_ne_true
          · unfold Link.pass at hopen ⊢
            simp only [if_neg hexpired] at hopen ⊢
            exact ⟨hopen, hsettled.authenticated, hsettled.head⟩

theorem Link.standing_run (h : l.Standing server) (events : List LinkEvent) :
    (l.run mac client server events).Standing server := by
  induction events generalizing l with
  | nil => exact h
  | cons e events ih => exact ih (Link.standing_step h e)

/-- A handshake leaves the server settled. -/
theorem Link.standing_of_opened (hne : client.clusterSecret ≠ [])
    (hsecret : server.clusterSecret = client.clusterSecret) (h : l.Opened mac client server) :
    l.Standing server := by
  obtain ⟨nonceA, env, shared, s, pass, henv, hok, hsender, hserver, -⟩ := h
  intro _
  have hclient := clientSide_eq mac hne hsecret nonceA henv shared
  split_ifs at hclient
  · have hstep := connIteration_requestOk mac client nonceA (hsecret.symm ▸ hne) henv
      (s := fresh shared) rfl
    rw [hsender, hserver, serverSide, hclient, hstep]
    exact ⟨rfl, rfl, by simp⟩
  · rw [hclient] at hok
    exact absurd hok Bool.false_ne_true

/-- **Re-authentication never succeeds.**  On a connection opened by a handshake a
run keeps its session alive exactly when the sender never finds it expired. -/
theorem Link.keepsAlive_iff (hne : client.clusterSecret ≠ [])
    (hsecret : server.clusterSecret = client.clusterSecret) (h : l.Opened mac client server)
    (events : List LinkEvent) :
    l.KeepsAlive mac client server events ↔ l.StaysFresh mac client server events := by
  constructor
  · intro hkeeps before env during after hevents hopen hexpired
    have hstanding : (l.run mac client server before).Standing server :=
      Link.standing_run (Link.standing_of_opened hne hsecret h) before
    exact Link.not_reauthenticates hstanding hopen hexpired
      (hkeeps before env during after hevents hopen hexpired)
  · -- there is never anything to renew
    intro hfresh before env during after hevents hopen hexpired
    exact absurd hexpired (hfresh before env during after hevents hopen)

end Runs

/-! ## A run -/

/-- A pass at the given time, with nothing in the outbox. -/
def idlePass (clock : UInt64) : SenderEnv where
  active := true
  running := true
  gateClock := clock
  now := 0
  connectOk := true
  handshake := ⟨5, true, none, true⟩
  authClock := clock
  exchange := ⟨7, true, none, true⟩
  arrivals := []
  waitActive := true
  waitRunning := true
  sendTime := 0
  sendOk := true
  doneTime := 0

/-- Two nodes just after a handshake at time zero. -/
def sampleLink : Link where
  sender := (SenderState.init 0).established (idlePass 0)
    (clientSide Mac.constant plainNode plainNode 5 .ok ⟨OrderedMap.empty, []⟩).2.1
  server := { (serverSide Mac.constant plainNode plainNode 5 .ok ⟨OrderedMap.empty, []⟩).2 with
    sent := [] }
  isOpen := true

theorem clientSide_sample :
    clientSide Mac.constant plainNode plainNode 5 .ok ⟨OrderedMap.empty, []⟩ =
      (true, some authTtlMicros,
        [requestBytes plainNode 5, controlFrame plainNode .authOk []]) := by
  have hne : plainNode.clusterSecret ≠ [] := by decide
  rw [clientSide_eq Mac.constant hne rfl 5 ConnEnv.healthy_ok]
  exact if_pos rfl

theorem opened_sampleLink : sampleLink.Opened Mac.constant plainNode plainNode :=
  ⟨5, .ok, ⟨OrderedMap.empty, []⟩, .init 0, idlePass 0, ConnEnv.healthy_ok,
    by rw [clientSide_sample], rfl, rfl, rfl⟩

theorem expired_sampleLink (clock : UInt64) :
    sampleLink.Expired (idlePass clock) ↔ authTtlMicros ≤ clock := by
  have hexpire : sampleLink.sender.authExpireAt = authTtlMicros := by
    rw [sampleLink, clientSide_sample]
    rfl
  rw [Link.Expired, hexpire]
  exact ⟨fun h => h.2.2.2, fun h => ⟨rfl, rfl, rfl, h⟩⟩

theorem Link.keepsAlive_iff_early :
    sampleLink.KeepsAlive Mac.constant plainNode plainNode [.pass (idlePass 0) fun _ => .ok] := by
  refine (Link.keepsAlive_iff (by decide) rfl opened_sampleLink _).mpr ?_
  intro before env during after hevents _ hexpired
  cases before with
  | nil =>
      obtain ⟨rfl, rfl⟩ := LinkEvent.pass.inj (List.cons.inj hevents).1
      exact absurd ((expired_sampleLink 0).mp hexpired) (by decide)
  | cons e before => exact absurd (List.cons.inj hevents).2.symm (by simp)

/-- Ten minutes after the handshake the sender's request ends the connection,
whatever the server's clock shows. -/
theorem Link.keepsAlive_fails :
    ¬ ∃ clock : UInt64, sampleLink.KeepsAlive Mac.constant plainNode plainNode
      [.pass (idlePass authTtlMicros) fun _ => { ConnEnv.ok with clock := clock }] := by
  rintro ⟨clock, hkeeps⟩
  have hexpired : sampleLink.Expired (idlePass authTtlMicros) :=
    (expired_sampleLink authTtlMicros).mpr (UInt64.le_refl _)
  have hne : plainNode.clusterSecret ≠ [] := by decide
  have hstanding := Link.standing_of_opened hne rfl opened_sampleLink
  exact Link.not_reauthenticates hstanding rfl hexpired (hkeeps [] _ _ [] rfl rfl hexpired)

end Dmmr.Cluster
