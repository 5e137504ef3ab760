import Dmmr.Cluster.Protection

/-!
# The gate of a cluster connection

On a node with a secret, a connection gets at the store in two ways: a record
that is passed to `db_apply_record`, and a snapshot that is sent.  `connCall` names
the one an iteration makes, and `connIteration_of_call` and `quiet_of_no_call` say
that this is all the iteration does to the store.

`authenticated` and `auth_expire_at` remember the one exchange that set them
(`Gated`), over every order of frames and every clock.  So a call follows an
exchange that has not run out, and before the exchange and after its expiry every
frame but a HELLO ends the connection.
-/

namespace Dmmr.Cluster

open Words Store Wire Node

/-! ## Calls to the store -/

/-- A call a connection makes, with the frame it is made for. -/
inductive StoreCall where
  | record (r : Received)
  | snapshot (r : Received)

namespace StoreCall

/-- The frame the call is made for. -/
def received : StoreCall → Received
  | record r => r
  | snapshot r => r

/-- The opcode that asks for the call. -/
def opcode : StoreCall → Opcode
  | record _ => .sync
  | snapshot _ => .clusterSyncRequest

/-- What the call does: `db_apply_record`, or `send_snapshot`. -/
def exec (cfg : NodeConfig) (env : ConnEnv) : StoreCall → ConnState → ConnState
  | record r, s =>
      { s with server := { s.server with
          db := ((syncCall env.bdb r).exec cfg.host 0 s.server.db).2 } }
  | snapshot _, s => { s with sent := s.sent ++ sendSnapshot cfg env s.server.db }

end StoreCall

/-- The call made for a frame that is dispatched. -/
def dispatchCall (cfg : NodeConfig) (r : Received) : Option StoreCall :=
  if !authenticateClusterFrame cfg.clusterName r.frame then none
  else if r.frame.opcode = Opcode.clusterSyncRequest.code then
    if r.frame.nodeId ≠ 0 ∧ r.frame.keyLen = 0 ∧ r.frame.valueLen = 0 then some (.snapshot r)
    else none
  else if r.frame.opcode = Opcode.sync.code then
    if r.frame.nodeId = 0 ∨ r.frame.keyLen = 0 ∨ r.payload = none then none else some (.record r)
  else none

/-- The call an iteration makes. -/
def connCall (cfg : NodeConfig) (env : ConnEnv) (s : ConnState) : Option StoreCall :=
  if !env.running then none
  else
    match clusterRecvFrame env.allocOk s.stream with
    | none => none
    | some (r, _) => if Barred cfg env s r then none else dispatchCall cfg r

section Calls

variable (mac : Mac) {cfg : NodeConfig} {env : ConnEnv} {s : ConnState} {r : Received}
  {c : StoreCall}

/-- What is dispatched does what its call does, or nothing. -/
theorem dispatch_eq (cfg : NodeConfig) (env : ConnEnv) (r : Received) (s : ConnState) :
    dispatch cfg env r s = (authenticateClusterFrame cfg.clusterName r.frame,
      (dispatchCall cfg r).elim s fun c => c.exec cfg env s) := by
  unfold dispatch dispatchCall
  cases authenticateClusterFrame cfg.clusterName r.frame with
  | false => rfl
  | true =>
      simp only [Bool.not_true, Bool.false_eq_true, if_false]
      by_cases hreq : r.frame.opcode = Opcode.clusterSyncRequest.code
      · simp only [if_pos hreq]
        split_ifs <;> rfl
      · simp only [if_neg hreq]
        by_cases hsync : r.frame.opcode = Opcode.sync.code
        · simp only [if_pos hsync]
          rcases handleClusterSync_cases cfg.host env.bdb s.server.db r with
            ⟨hguard, h⟩ | ⟨hguard, h⟩
          · rw [h, if_pos hguard]
            rfl
          · rw [h, if_neg hguard]
            rfl
        · simp only [if_neg hsync]
          rfl

/-- A frame that is dispatched into a call carries the opcode and passes. -/
theorem dispatchCall_eq_some (h : dispatchCall cfg r = some c) :
    c.received = r ∧ r.frame.opcode = c.opcode.code ∧
      authenticateClusterFrame cfg.clusterName r.frame = true := by
  unfold dispatchCall at h
  split_ifs at h with hpass hreq _ hsync
  · exact ⟨by rw [← Option.some.inj h]; rfl, by rw [← Option.some.inj h]; exact hreq,
      by simpa using hpass⟩
  · exact ⟨by rw [← Option.some.inj h]; rfl, by rw [← Option.some.inj h]; exact hsync,
      by simpa using hpass⟩

/-- A call is made by an iteration that takes the frame and does just that. -/
theorem connIteration_of_call (h : connCall cfg env s = some c) :
    ∃ rest, clusterRecvFrame true s.stream = some (c.received, rest) ∧
      c.received.frame.opcode = c.opcode.code ∧
      authenticateClusterFrame cfg.clusterName c.received.frame = true ∧
      ¬ Barred cfg env s c.received ∧
      connIteration mac cfg env s = (true, c.exec cfg env { s with stream := rest }) := by
  unfold connCall at h
  split_ifs at h with hrunning
  cases hrecv : clusterRecvFrame env.allocOk s.stream with
  | none =>
      rw [hrecv] at h
      exact absurd h (by simp)
  | some p =>
      obtain ⟨r, rest⟩ := p
      rw [hrecv] at h
      simp only at h
      split_ifs at h with hbarred
      obtain ⟨rfl, hop, hpass⟩ := dispatchCall_eq_some h
      refine ⟨rest, (clusterRecvFrame_inv hrecv).1, hop, hpass, hbarred, ?_⟩
      rw [connIteration_of_not_barred mac (by simpa using hrunning) hrecv hbarred, dispatch_eq, h,
        hpass]
      rfl

/-- An iteration stops, or receives a frame that is barred or dispatched. -/
theorem connIteration_received (cfg : NodeConfig) (env : ConnEnv) (s : ConnState) :
    connIteration mac cfg env s = (false, s) ∧ connCall cfg env s = none ∨
      env.running = true ∧ ∃ r rest, clusterRecvFrame env.allocOk s.stream = some (r, rest) ∧
        connCall cfg env s = if Barred cfg env s r then none else dispatchCall cfg r := by
  unfold connIteration connCall
  cases env.running with
  | false => exact Or.inl ⟨rfl, rfl⟩
  | true =>
      cases hrecv : clusterRecvFrame env.allocOk s.stream with
      | none => exact Or.inl ⟨rfl, rfl⟩
      | some p => exact Or.inr ⟨rfl, p.1, p.2, rfl, rfl⟩

/-- Without a call the store is left alone and no snapshot begins. -/
theorem quiet_of_no_call (h : connCall cfg env s = none) :
    Quiet cfg s (connIteration mac cfg env s).2 := by
  rcases connIteration_received mac cfg env s with ⟨heq, -⟩ | ⟨hrunning, r, rest, hrecv, hcall⟩
  · rw [heq]
    exact ⟨rfl, Or.inl rfl⟩
  · by_cases hbarred : Barred cfg env s r
    · rcases connIteration_of_barred mac hrunning hrecv hbarred with ⟨-, heq⟩ | ⟨-, -, heq⟩ | heq
      · rw [heq]
        exact quiet_hello cfg env r { s with stream := rest }
      · rw [heq]
        exact quiet_serverHandshake mac cfg env r { s with stream := rest }
      · rw [heq]
        exact ⟨rfl, Or.inl rfl⟩
    · rw [h, if_neg hbarred] at hcall
      rw [connIteration_of_not_barred mac hrunning hrecv hbarred, dispatch_eq, ← hcall]
      exact ⟨rfl, Or.inl rfl⟩

end Calls

/-! ## The exchange -/

/-- In the iteration an `AUTH_REQUEST` with at least 8 bytes of value is answered
and an `AUTH_OK` is received next. -/
def Authenticates (mac : Mac) (cfg : NodeConfig) (env : ConnEnv) (s : ConnState) : Prop :=
  ∃ request ok mid rest, clusterRecvFrame env.allocOk s.stream = some (request, mid) ∧
    request.frame.opcode = Opcode.authRequest.code ∧ 8 ≤ request.frame.valueLen.toNat ∧
    (connIteration mac cfg env s).2.sent = s.sent ++ [responseFrame mac cfg env request] ∧
    clusterRecvFrame env.okAllocOk mid = some (ok, rest) ∧
    ok.frame.opcode = Opcode.authOk.code

section Exchange

variable {mac : Mac} {cfg : NodeConfig} {env : ConnEnv} {s : ConnState}

/-- The answer is sent by the handshake of a connection that is not yet
authenticated, which then is. -/
theorem Authenticates.spec (h : Authenticates mac cfg env s) :
    s.authenticated = false ∧ (connIteration mac cfg env s).1 = true ∧
      (connIteration mac cfg env s).2.authenticated = true ∧
      (connIteration mac cfg env s).2.authExpireAt = env.requestClock + authTtlMicros := by
  obtain ⟨request, ok, mid, rest, hrecv, hop, hlen, hsent, hrecv', hok⟩ := h
  have hgrows : (connIteration mac cfg env s).2.sent ≠ s.sent := by
    rw [hsent]
    simp
  rcases connIteration_received mac cfg env s with ⟨heq, -⟩ | ⟨hrunning, r, stream, hr, hcall⟩
  · exact absurd (by rw [heq]) hgrows
  · rw [hrecv] at hr
    obtain ⟨rfl, rfl⟩ := Prod.mk.inj (Option.some.inj hr)
    by_cases hbarred : Barred cfg env s request
    · rcases connIteration_of_barred mac hrunning hrecv hbarred with
        ⟨hhello, -⟩ | ⟨-, hauth, heq⟩ | heq
      · rw [hop] at hhello
        exact absurd hhello (by decide)
      · rw [heq] at hgrows ⊢
        unfold serverHandshake at hgrows ⊢
        rw [if_neg (not_lt.mpr hlen)] at hgrows ⊢
        cases hsend : env.sendOk 0 with
        | false => simp [hsend] at hgrows
        | true => simp [hauth, hrecv', hok]
      · exact absurd (by rw [heq]) hgrows
    · -- a dispatched `AUTH_REQUEST` falls through the switch
      have hnone : dispatchCall cfg request = none := by
        unfold dispatchCall
        rw [if_neg (by rw [hop]; decide : request.frame.opcode ≠ Opcode.clusterSyncRequest.code),
          if_neg (by rw [hop]; decide : request.frame.opcode ≠ Opcode.sync.code), ite_self]
      refine absurd ?_ hgrows
      rw [connIteration_of_not_barred mac hrunning hrecv hbarred, dispatch_eq, hnone]
      rfl

/-- The loop goes on only after the exchange or after a frame that is
dispatched. -/
theorem connIteration_go (hgo : (connIteration mac cfg env s).1 = true) :
    s.authenticated = false ∧ Authenticates mac cfg env s ∨
      ∃ r rest, ¬ Barred cfg env s r ∧
        connIteration mac cfg env s = dispatch cfg env r { s with stream := rest } := by
  have hstop : ∀ s', connIteration mac cfg env s ≠ (false, s') := by
    intro s' heq
    rw [heq] at hgo
    exact Bool.false_ne_true hgo
  rcases connIteration_received mac cfg env s with ⟨heq, -⟩ | ⟨hrunning, r, rest, hrecv, -⟩
  · exact absurd heq (hstop s)
  · by_cases hbarred : Barred cfg env s r
    · rcases connIteration_of_barred mac hrunning hrecv hbarred with
        ⟨-, heq⟩ | ⟨hop, hauth, heq⟩ | heq
      · exact absurd heq (hstop _)
      · rcases serverHandshake_cases mac cfg env r { s with stream := rest } with
          hend | ⟨stream, hend⟩ | ⟨ok, rest', hlen, hrecv', hok, hcont⟩
        · exact absurd (heq.trans hend) (hstop _)
        · exact absurd (heq.trans hend) (hstop _)
        · exact Or.inl ⟨hauth, r, ok, rest, rest', hrecv, hop, hlen, by rw [heq, hcont], hrecv',
            hok⟩
      · exact absurd heq (hstop _)
    · exact Or.inr ⟨r, rest, hbarred, connIteration_of_not_barred mac hrunning hrecv hbarred⟩

/-- On a node with a secret a connection that is not authenticated goes on only
by the exchange. -/
theorem authenticates_of_go (hsecret : cfg.clusterSecret ≠ []) (hauth : s.authenticated = false)
    (hgo : (connIteration mac cfg env s).1 = true) : Authenticates mac cfg env s := by
  rcases connIteration_go hgo with ⟨-, h⟩ | ⟨r, rest, hbarred, -⟩
  · exact h
  · exact absurd ⟨hsecret, Or.inr (Or.inl hauth)⟩ hbarred

/-- An authenticated connection that goes on keeps its flag and its expiry. -/
theorem expiry_of_go (hauth : s.authenticated = true)
    (hgo : (connIteration mac cfg env s).1 = true) :
    (connIteration mac cfg env s).2.authenticated = true ∧
      (connIteration mac cfg env s).2.authExpireAt = s.authExpireAt := by
  rcases connIteration_go hgo with ⟨hno, -⟩ | ⟨r, rest, -, heq⟩
  · rw [hno] at hauth
    exact absurd hauth Bool.false_ne_true
  · rw [heq, dispatch_eq]
    cases dispatchCall cfg r with
    | none => exact ⟨hauth, rfl⟩
    | some c => cases c <;> exact ⟨hauth, rfl⟩

end Exchange

/-! ## Over a whole connection -/

/-- What a connection with the client's `stream` may have been through, as
`Visits`, with any store and table at any moment. -/
inductive Serving (mac : Mac) (cfg : NodeConfig) (stream : Bytes) :
    List (ConnEnv × ConnState) → ConnState → Prop
  | start (server : Server) : Serving mac cfg stream [] ⟨false, 0, stream, server, []⟩
  | next {past : List (ConnEnv × ConnState)} {s : ConnState} (h : Serving mac cfg stream past s)
      (env : ConnEnv) (hgo : (connIteration mac cfg env s).1 = true) (server : Server) :
      Serving mac cfg stream (past ++ [(env, s)])
        { (connIteration mac cfg env s).2 with server := server }

theorem Visits.serving {mac : Mac} {cfg : NodeConfig} {stream : Bytes}
    {past : List (ConnEnv × ConnState)} {s : ConnState} (h : Visits mac cfg stream past s) :
    Serving mac cfg stream past s := by
  induction h with
  | start server _ => exact .start server
  | next _ env hgo server _ ih => exact .next ih env hgo server

/-- The flag and the expiry of the connection are those of the exchange in its
past, if there is one. -/
def Gated (mac : Mac) (cfg : NodeConfig) (past : List (ConnEnv × ConnState)) (s : ConnState) :
    Prop :=
  s.authenticated = false ∧ (∀ e ∈ past, ¬ Authenticates mac cfg e.1 e.2) ∨
    s.authenticated = true ∧ (∃ e ∈ past, Authenticates mac cfg e.1 e.2) ∧
      ∀ e ∈ past, Authenticates mac cfg e.1 e.2 →
        s.authExpireAt = e.1.requestClock + authTtlMicros

section Runs

variable {mac : Mac} {cfg : NodeConfig} (hsecret : cfg.clusterSecret ≠ []) {stream : Bytes}
  {past : List (ConnEnv × ConnState)} {s : ConnState}
include hsecret

theorem gated_next (h : Gated mac cfg past s) {env : ConnEnv}
    (hgo : (connIteration mac cfg env s).1 = true) (server : Server) :
    Gated mac cfg (past ++ [(env, s)])
      { (connIteration mac cfg env s).2 with server := server } := by
  rcases h with ⟨hauth, hnone⟩ | ⟨hauth, ⟨e, he, hexchange⟩, hexpiry⟩
  · have hnow := authenticates_of_go hsecret hauth hgo
    obtain ⟨-, -, hset, hexpire⟩ := hnow.spec
    refine Or.inr ⟨hset, ⟨(env, s), by simp, hnow⟩, ?_⟩
    intro e he hexchange
    rcases List.mem_append.mp he with hmem | hmem
    · exact absurd hexchange (hnone e hmem)
    · rw [List.mem_singleton.mp hmem]
      exact hexpire
  · obtain ⟨hkeep, hsame⟩ := expiry_of_go hauth hgo
    refine Or.inr ⟨hkeep, ⟨e, List.mem_append_left _ he, hexchange⟩, ?_⟩
    intro e' he' hexchange'
    rcases List.mem_append.mp he' with hmem | hmem
    · exact hsame.trans (hexpiry e' hmem hexchange')
    · -- the connection was authenticated already, so this was no exchange
      rw [List.mem_singleton.mp hmem] at hexchange'
      rw [hexchange'.spec.1] at hauth
      exact absurd hauth Bool.false_ne_true

theorem Serving.gated (h : Serving mac cfg stream past s) : Gated mac cfg past s := by
  -- what other threads do to the store and the table does not touch the two variables
  induction h with
  | start server => exact Or.inl ⟨rfl, by simp⟩
  | next _ env hgo server ih => exact gated_next hsecret ih hgo server

/-- A call is made only while the exchange of the connection has not run out. -/
theorem Serving.exchange_of_call (h : Serving mac cfg stream past s) {env : ConnEnv}
    {c : StoreCall} (hcall : connCall cfg env s = some c) :
    ∃ e ∈ past, Authenticates mac cfg e.1 e.2 ∧
      env.clock < e.1.requestClock + authTtlMicros := by
  obtain ⟨-, -, -, -, hbarred, -⟩ := connIteration_of_call mac hcall
  obtain ⟨-, hauth, hclock⟩ := not_barred hsecret hbarred
  rcases h.gated hsecret with ⟨hno, -⟩ | ⟨-, ⟨e, he, hexchange⟩, hexpiry⟩
  · rw [hno] at hauth
    exact absurd hauth Bool.false_ne_true
  · exact ⟨e, he, hexchange, hexpiry e he hexchange ▸ hclock⟩

omit hsecret in
/-- A barred frame that is no HELLO and completes no exchange ends the
connection and leaves what it shares alone. -/
theorem ends_of_barred (mac : Mac) {env : ConnEnv} {r : Received} {rest : Bytes}
    (hrecv : clusterRecvFrame true s.stream = some (r, rest))
    (hhello : r.frame.opcode ≠ Opcode.clusterHello.code) (hbarred : Barred cfg env s r)
    (hexchange : ¬ Authenticates mac cfg env s) :
    (connIteration mac cfg env s).1 = false ∧
      (connIteration mac cfg env s).2.server = s.server := by
  rcases connIteration_received mac cfg env s with ⟨heq, -⟩ | ⟨hrunning, r', rest', hrecv', -⟩
  · rw [heq]
    exact ⟨rfl, rfl⟩
  · rw [(clusterRecvFrame_inv hrecv').1] at hrecv
    obtain ⟨rfl, rfl⟩ := Prod.mk.inj (Option.some.inj hrecv)
    rcases connIteration_of_barred mac hrunning hrecv' hbarred with
      ⟨hop, -⟩ | ⟨hop, hauth, heq⟩ | heq
    · exact absurd hop hhello
    · rcases serverHandshake_cases mac cfg env r' { s with stream := rest' } with
        hstop | ⟨stream, hstop⟩ | ⟨ok, last, hlen, hok', hok, hcont⟩
      · rw [heq, hstop]
        exact ⟨rfl, rfl⟩
      · rw [heq, hstop]
        exact ⟨rfl, rfl⟩
      · exact absurd ⟨r', ok, rest', last, hrecv', hop, hlen, by rw [heq, hcont], hok', hok⟩
          hexchange
    · rw [heq]
      exact ⟨rfl, rfl⟩

/-- **The gate.**  An iteration makes a call to the store and does nothing else, or
it makes none and is quiet.  A call is made only for a frame with the opcode that
asks for it and the identifier of the node's name, after an exchange on the
connection whose expiry the clock has not reached.  Before the exchange, and once
its expiry is reached, every other frame but a HELLO ends the connection and leaves
the store and the table as they are. -/
theorem Serving.gate (h : Serving mac cfg stream past s) (env : ConnEnv) :
    (connCall cfg env s = none → Quiet cfg s (connIteration mac cfg env s).2) ∧
    (∀ c, connCall cfg env s = some c →
      (∃ rest, clusterRecvFrame true s.stream = some (c.received, rest) ∧
        connIteration mac cfg env s = (true, c.exec cfg env { s with stream := rest })) ∧
      c.received.frame.opcode = c.opcode.code ∧
      (∃ e ∈ past, Authenticates mac cfg e.1 e.2 ∧
        env.clock < e.1.requestClock + authTtlMicros) ∧
      (cfg.clusterName ≠ [] → c.received.frame.clusterId = dmmrFnv1a32 cfg.clusterName)) ∧
    ∀ r rest, clusterRecvFrame true s.stream = some (r, rest) →
      r.frame.opcode ≠ Opcode.clusterHello.code →
      (∀ e ∈ past, ¬ Authenticates mac cfg e.1 e.2) ∧ ¬ Authenticates mac cfg env s ∨
        (∃ e ∈ past, Authenticates mac cfg e.1 e.2 ∧
          e.1.requestClock + authTtlMicros ≤ env.clock) →
      (connIteration mac cfg env s).1 = false ∧
        (connIteration mac cfg env s).2.server = s.server := by
  refine ⟨quiet_of_no_call mac, ?_, ?_⟩
  · intro c hcall
    obtain ⟨rest, hrecv, hop, hpass, -, heq⟩ := connIteration_of_call mac hcall
    refine ⟨⟨rest, hrecv, heq⟩, hop, h.exchange_of_call hsecret hcall, fun hname => ?_⟩
    exact ((authenticateClusterFrame_iff hname _).mp hpass).2
  · intro r rest hrecv hhello hcase
    rcases hcase with ⟨hnone, hnow⟩ | ⟨e, he, hexchange, hexpired⟩
    · rcases h.gated hsecret with ⟨hauth, -⟩ | ⟨-, ⟨e, he, hexchange⟩, -⟩
      · exact ends_of_barred mac hrecv hhello ⟨hsecret, Or.inr (Or.inl hauth)⟩ hnow
      · exact absurd hexchange (hnone e he)
    · rcases h.gated hsecret with ⟨-, hnone⟩ | ⟨hauth, -, hexpiry⟩
      · exact absurd hexchange (hnone e he)
      · refine ends_of_barred mac hrecv hhello ⟨hsecret, Or.inr (Or.inr ?_)⟩ fun hnow => ?_
        · rw [hexpiry e he hexchange]
          exact hexpired
        · rw [hnow.spec.1] at hauth
          exact absurd hauth Bool.false_ne_true

end Runs

/-- A record that is passed to the store on a connection that has completed the
exchange, and that ends a connection which has not. -/
theorem Serving.gate_record :
    (∃ stream past s, Serving Mac.constant plainNode stream past s ∧
      connCall plainNode .ok s = some (.record (sampleFrame [])) ∧
      ∃ e ∈ past, Authenticates Mac.constant plainNode e.1 e.2 ∧
        ConnEnv.ok.clock < e.1.requestClock + authTtlMicros) ∧
    (connIteration Mac.constant plainNode .ok
      ⟨false, 0, sampleBytes [], ⟨OrderedMap.empty, []⟩, []⟩).1 = false := by
  have hsecret : plainNode.clusterSecret ≠ [] := by decide
  have hstart : Serving Mac.constant plainNode (sampleBytes []) []
      ⟨false, 0, sampleBytes [], ⟨OrderedMap.empty, []⟩, []⟩ := .start _
  have hnow : ¬ Authenticates Mac.constant plainNode .ok
      ⟨false, 0, sampleBytes [], ⟨OrderedMap.empty, []⟩, []⟩ := by
    rintro ⟨request, ok, mid, rest, hrecv, hop, -⟩
    rw [show ConnEnv.ok.allocOk = true from rfl, recv_sampleBytes] at hrecv
    obtain ⟨rfl, -⟩ := Prod.mk.inj (Option.some.inj hrecv)
    exact absurd hop (by decide)
  refine ⟨?_, ((Serving.gate hsecret hstart .ok).2.2 _ _ (recv_sampleBytes []) (by decide)
    (Or.inl ⟨by simp, hnow⟩)).1⟩
  obtain ⟨stream, past, s, hvisits, hstream, -, hauth⟩ :=
    exists_visits Mac.constant plainNode (sampleBytes [])
  obtain ⟨hauth, hexpire⟩ := hauth hsecret
  have hrecv : clusterRecvFrame ConnEnv.ok.allocOk s.stream = some (sampleFrame [], []) :=
    hstream ▸ recv_sampleBytes []
  have hbarred : ¬ Barred plainNode .ok s (sampleFrame []) := by
    rintro ⟨-, h | h | h⟩
    · exact absurd h (by decide)
    · rw [h] at hauth
      exact absurd hauth Bool.false_ne_true
    · exact absurd h (not_le.mpr hexpire)
  have hcall : connCall plainNode .ok s = some (.record (sampleFrame [])) := by
    unfold connCall
    rw [hrecv]
    simp only
    rw [if_neg hbarred]
    rfl
  exact ⟨stream, past, s, hvisits.serving, hcall,
    ((Serving.gate hsecret hvisits.serving .ok).2.1 _ hcall).2.2.1⟩

end Dmmr.Cluster
