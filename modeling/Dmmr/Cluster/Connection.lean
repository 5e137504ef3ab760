import Dmmr.Cluster.Peers
import Dmmr.Node.Threads

/-!
# The server side of a cluster connection

`handle_cluster_connection` as a function of the bytes the client sends and of
what the environment does in each iteration of its loop.  A list of
environments stands for a stretch of the loop; when it is used up the thread is
waiting for the next frame.

The server's answer to an `AUTH_REQUEST` depends on the secret, but nothing it
does afterwards depends on what the client makes of that answer: the connection
counts as authenticated as soon as a frame with opcode `AUTH_OK` follows.
-/

namespace Dmmr.Cluster

open Words Store Wire Node

/-- What a connection shares with the rest of the node. -/
structure Server where
  db : Database
  peers : List Peer

/-- What the environment does in one iteration: whether the node is running,
whether the frame, and the one after an `AUTH_REQUEST`, find memory, the nonce
and the clock reading of an answer and whether frames can be sent, the clock
reading of the expiry check, the time, and the outcomes of the store calls. -/
structure ConnEnv where
  running : Bool
  allocOk : Bool
  nonceB : UInt64
  requestClock : UInt64
  sendOk : ℕ → Bool
  okAllocOk : Bool
  clock : UInt64
  time : Int
  bdb : Bdb
  snapshotCalls : ℕ → Bdb

structure ConnState where
  authenticated : Bool
  authExpireAt : UInt64
  stream : Bytes
  server : Server
  sent : List Bytes

variable (mac : Mac) (cfg : NodeConfig)

/-! ## Snapshots -/

/-- `send_snapshot_item`, on the frames sent so far. -/
def sendSnapshotItem (sendOk : ℕ → Bool) (record : DbRecord) (sent : List Bytes) :
    Int × List Bytes :=
  let flags := if record.tombstone then flagTombstone else flagNone
  match clusterSendFrame cfg.clusterName Opcode.sync.code flags (Buf.ofBytes record.key)
    (Buf.ofBytes record.value) record.timestamp record.nodeId record.expireAt with
  | none => (-1, sent)
  | some bytes => if sendOk sent.length then (0, sent ++ [bytes]) else (-1, sent)

/-- `send_snapshot`: the frames sent. -/
def sendSnapshot (env : ConnEnv) (db : Database) : List Bytes :=
  if !env.sendOk 0 then []
  else
    match dbSnapshotForeach cfg.host env.bdb db (sendSnapshotItem cfg env.sendOk)
      env.snapshotCalls [controlFrame cfg .clusterSyncBegin []] with
    | (.applied, sent) =>
        if env.sendOk sent.length then sent ++ [controlFrame cfg .clusterSyncEnd []] else sent
    | (_, sent) => sent

/-! ## The loop -/

/-- The answer to an `AUTH_REQUEST` and the wait for `AUTH_OK`.  The first
component tells whether the loop goes on. -/
def serverHandshake (env : ConnEnv) (r : Received) (s : ConnState) : Bool × ConnState :=
  if r.frame.valueLen.toNat < 8 then (false, s)
  else
    let expireAt := env.requestClock + authTtlMicros
    let response := controlFrame cfg .authResponse
      (authResponse mac cfg (requestNonce r) env.nonceB expireAt)
    if !env.sendOk 0 then (false, s)
    else
      let s := { s with sent := s.sent ++ [response] }
      match clusterRecvFrame env.okAllocOk s.stream with
      | none => (false, s)
      | some (ok, stream) =>
          if ok.frame.opcode ≠ Opcode.authOk.code then (false, { s with stream := stream })
          else (true, { s with stream := stream, authenticated := true, authExpireAt := expireAt })

/-- A frame on a connection that counts as authenticated. -/
def dispatch (env : ConnEnv) (r : Received) (s : ConnState) : Bool × ConnState :=
  if !authenticateClusterFrame cfg.clusterName r.frame then (false, s)
  else if r.frame.opcode = Opcode.clusterSyncRequest.code then
    if r.frame.nodeId ≠ 0 ∧ r.frame.keyLen = 0 ∧ r.frame.valueLen = 0 then
      (true, { s with sent := s.sent ++ sendSnapshot cfg env s.server.db })
    else (true, s)
  else if r.frame.opcode = Opcode.sync.code then
    let (_, db) := handleClusterSync cfg.host env.bdb s.server.db r
    (true, { s with server := { s.server with db := db } })
  else (true, s)

/-- A `CLUSTER_HELLO`, which ends the connection. -/
def hello (env : ConnEnv) (r : Received) (s : ConnState) : Bool × ConnState :=
  let (peers, reply) := handleClusterHello cfg env.allocOk env.time s.server.peers r
  let sent := if env.sendOk 0 then reply.toList else []
  (false, { s with server := { s.server with peers := peers }, sent := s.sent ++ sent })

/-- One iteration of `handle_cluster_connection`. -/
def connIteration (env : ConnEnv) (s : ConnState) : Bool × ConnState :=
  if !env.running then (false, s)
  else
    match clusterRecvFrame env.allocOk s.stream with
    | none => (false, s)
    | some (r, stream) =>
        let s := { s with stream := stream }
        if cfg.clusterSecret ≠ [] then
          if r.frame.opcode = Opcode.clusterHello.code then hello cfg env r s
          else if !s.authenticated then
            if r.frame.opcode = Opcode.authRequest.code then serverHandshake mac cfg env r s
            else (false, s)
          else if env.clock ≥ s.authExpireAt then (false, s)
          else dispatch cfg env r s
        else dispatch cfg env r s

/-- `handle_cluster_connection`. -/
def handleClusterConnection : List ConnEnv → ConnState → ConnState
  | [], s => s
  | env :: envs, s =>
      match connIteration mac cfg env s with
      | (true, s) => handleClusterConnection envs s
      | (false, s) => s

/-- A new connection on which the client sends `stream`. -/
def serveConnection (envs : List ConnEnv) (stream : Bytes) (server : Server) : ConnState :=
  handleClusterConnection mac cfg envs ⟨false, 0, stream, server, []⟩

/-! ## What an iteration can be -/

/-- The frame that answers an `AUTH_REQUEST`. -/
def responseFrame (env : ConnEnv) (r : Received) : Bytes :=
  controlFrame cfg .authResponse
    (authResponse mac cfg (requestNonce r) env.nonceB (env.requestClock + authTtlMicros))

/-- The handshake ends the loop before or after the answer, or goes on after an
`AUTH_OK`. -/
theorem serverHandshake_cases (env : ConnEnv) (r : Received) (s : ConnState) :
    serverHandshake mac cfg env r s = (false, s) ∨
      (∃ stream, serverHandshake mac cfg env r s =
        (false, { s with stream := stream, sent := s.sent ++ [responseFrame mac cfg env r] })) ∨
      ∃ ok rest, 8 ≤ r.frame.valueLen.toNat ∧
        clusterRecvFrame env.okAllocOk s.stream = some (ok, rest) ∧
        ok.frame.opcode = Opcode.authOk.code ∧
        serverHandshake mac cfg env r s =
          (true, { s with
            stream := rest, sent := s.sent ++ [responseFrame mac cfg env r]
            authenticated := true, authExpireAt := env.requestClock + authTtlMicros }) := by
  unfold serverHandshake
  by_cases hlen : r.frame.valueLen.toNat < 8
  · exact Or.inl (if_pos hlen)
  · rw [if_neg hlen]
    cases env.sendOk 0 with
    | false => exact Or.inl rfl
    | true =>
        simp only [Bool.not_true, Bool.false_eq_true, if_false]
        cases hok : clusterRecvFrame env.okAllocOk s.stream with
        | none => exact Or.inr (Or.inl ⟨s.stream, rfl⟩)
        | some p =>
            obtain ⟨ok, rest⟩ := p
            by_cases hopcode : ok.frame.opcode = Opcode.authOk.code
            · refine Or.inr (Or.inr ⟨ok, rest, not_lt.mp hlen, rfl, hopcode, ?_⟩)
              simp only
              rw [if_neg (not_not.mpr hopcode)]
              rfl
            · refine Or.inr (Or.inl ⟨rest, ?_⟩)
              simp only
              rw [if_pos hopcode]
              rfl

/-- The frame is not dispatched: a HELLO, or one on a connection that is not
authenticated or has expired. -/
def Barred (cfg : NodeConfig) (env : ConnEnv) (s : ConnState) (r : Received) : Prop :=
  cfg.clusterSecret ≠ [] ∧
    (r.frame.opcode = Opcode.clusterHello.code ∨ s.authenticated = false ∨
      s.authExpireAt ≤ env.clock)

instance instDecidableBarred (cfg : NodeConfig) (env : ConnEnv) (s : ConnState) (r : Received) :
    Decidable (Barred cfg env s r) := inferInstanceAs (Decidable (_ ∧ _))

theorem not_barred {cfg : NodeConfig} (hsecret : cfg.clusterSecret ≠ []) {env : ConnEnv}
    {s : ConnState} {r : Received} (h : ¬ Barred cfg env s r) :
    r.frame.opcode ≠ Opcode.clusterHello.code ∧ s.authenticated = true ∧
      env.clock < s.authExpireAt := by
  simpa only [Barred, hsecret, ne_eq, not_false_eq_true, true_and, not_or, Bool.not_eq_false,
    not_le] using h

section Received

variable {cfg} {env : ConnEnv} {s : ConnState} {r : Received} {rest : Bytes}
  (hrunning : env.running = true)
  (hrecv : clusterRecvFrame env.allocOk s.stream = some (r, rest))
include hrunning hrecv

/-- An iteration in which the frame is not barred dispatches it. -/
theorem connIteration_of_not_barred (hbarred : ¬ Barred cfg env s r) :
    connIteration mac cfg env s = dispatch cfg env r { s with stream := rest } := by
  unfold connIteration
  simp only [hrunning, Bool.not_true, Bool.false_eq_true, if_false, hrecv]
  by_cases hsecret : cfg.clusterSecret = []
  · rw [if_neg (not_not.mpr hsecret)]
  · obtain ⟨hhello, hauth, hclock⟩ := not_barred hsecret hbarred
    rw [if_pos hsecret, if_neg hhello, if_neg (by simp [hauth]), if_neg (not_le.mpr hclock)]

/-- A barred frame is a HELLO, or an `AUTH_REQUEST` on a connection that is not
authenticated, or it ends the connection. -/
theorem connIteration_of_barred (hbarred : Barred cfg env s r) :
    r.frame.opcode = Opcode.clusterHello.code ∧
        connIteration mac cfg env s = hello cfg env r { s with stream := rest } ∨
      r.frame.opcode = Opcode.authRequest.code ∧ s.authenticated = false ∧
        connIteration mac cfg env s = serverHandshake mac cfg env r { s with stream := rest } ∨
      connIteration mac cfg env s = (false, { s with stream := rest }) := by
  obtain ⟨hsecret, hwhy⟩ := hbarred
  unfold connIteration
  simp only [hrunning, Bool.not_true, Bool.false_eq_true, if_false, hrecv]
  rw [if_pos hsecret]
  split_ifs with hhello hauth hrequest hclock
  · exact Or.inl ⟨hhello, rfl⟩
  · exact Or.inr (Or.inl ⟨hrequest, by simpa using hauth, rfl⟩)
  · exact Or.inr (Or.inr rfl)
  · exact Or.inr (Or.inr rfl)
  · rcases hwhy with h | h | h
    · exact absurd h hhello
    · exact absurd (by rw [h]; rfl) hauth
    · exact absurd h hclock

end Received

/-- An iteration ends the loop, or takes a frame and ends it, handles a HELLO,
answers an `AUTH_REQUEST` or dispatches the frame.  On a node with a secret only
an authenticated connection gets to the last. -/
theorem connIteration_cases (env : ConnEnv) (s : ConnState) :
    connIteration mac cfg env s = (false, s) ∨
      ∃ r rest, clusterRecvFrame true s.stream = some (r, rest) ∧
        (connIteration mac cfg env s = (false, { s with stream := rest }) ∨
          r.frame.opcode = Opcode.clusterHello.code ∧
            connIteration mac cfg env s = hello cfg env r { s with stream := rest } ∨
          s.authenticated = false ∧ r.frame.opcode = Opcode.authRequest.code ∧
            connIteration mac cfg env s = serverHandshake mac cfg env r { s with stream := rest } ∨
          (cfg.clusterSecret ≠ [] →
              s.authenticated = true ∧ r.frame.opcode ≠ Opcode.clusterHello.code) ∧
            connIteration mac cfg env s = dispatch cfg env r { s with stream := rest }) := by
  cases hrunning : env.running with
  | false =>
      refine Or.inl ?_
      rw [connIteration, hrunning]
      rfl
  | true =>
      cases hrecv : clusterRecvFrame env.allocOk s.stream with
      | none =>
          refine Or.inl ?_
          rw [connIteration, hrunning, hrecv]
          rfl
      | some p =>
          obtain ⟨r, rest⟩ := p
          refine Or.inr ⟨r, rest, (clusterRecvFrame_inv hrecv).1, ?_⟩
          by_cases hbarred : Barred cfg env s r
          · rcases connIteration_of_barred mac hrunning hrecv hbarred with
              ⟨hop, heq⟩ | ⟨hop, hauth, heq⟩ | heq
            · exact Or.inr (Or.inl ⟨hop, heq⟩)
            · exact Or.inr (Or.inr (Or.inl ⟨hauth, hop, heq⟩))
            · exact Or.inl heq
          · refine Or.inr (Or.inr (Or.inr ⟨fun hsecret => ?_,
              connIteration_of_not_barred mac hrunning hrecv hbarred⟩))
            obtain ⟨hhello, hauth, -⟩ := not_barred hsecret hbarred
            exact ⟨hauth, hhello⟩

/-- No call of the iteration fails. -/
structure ConnEnv.Healthy (env : ConnEnv) : Prop where
  running : env.running = true
  allocOk : env.allocOk = true
  okAllocOk : env.okAllocOk = true
  sendOk : ∀ n, env.sendOk n = true

section Handshake

variable {cfg}
variable (hsecret : cfg.clusterSecret ≠ []) {env : ConnEnv} (henv : env.Healthy) {s : ConnState}
  (hauth : s.authenticated = false) {request : Received} {mid : Bytes}
  (hrecv : clusterRecvFrame true s.stream = some (request, mid))
  (hreq : request.frame.opcode = Opcode.authRequest.code)
  (hlen : 8 ≤ request.frame.valueLen.toNat)
include hsecret henv hauth hrecv hreq hlen

/-- An `AUTH_REQUEST` is answered, and the iteration succeeds if an `AUTH_OK`
follows. -/
theorem connIteration_of_exchange {ok : Received} {rest : Bytes}
    (hrecv' : clusterRecvFrame true mid = some (ok, rest))
    (hok : ok.frame.opcode = Opcode.authOk.code) :
    connIteration mac cfg env s =
      (true, { s with
        stream := rest, sent := s.sent ++ [responseFrame mac cfg env request]
        authenticated := true, authExpireAt := env.requestClock + authTtlMicros }) := by
  have hhello : Opcode.authRequest.code ≠ Opcode.clusterHello.code := by decide
  simp [connIteration, serverHandshake, henv.running, henv.allocOk, henv.okAllocOk, henv.sendOk,
    hrecv, hrecv', hsecret, hauth, hreq, hhello, hok, not_lt.mpr hlen, responseFrame]

/-- Without anything after the `AUTH_REQUEST` the answer is all there is. -/
theorem connIteration_of_request (hrecv' : clusterRecvFrame true mid = none) :
    connIteration mac cfg env s =
      (false, { s with
        stream := mid, sent := s.sent ++ [responseFrame mac cfg env request] }) := by
  have hhello : Opcode.authRequest.code ≠ Opcode.clusterHello.code := by decide
  simp [connIteration, serverHandshake, henv.running, henv.allocOk, henv.okAllocOk, henv.sendOk,
    hrecv, hrecv', hsecret, hauth, hreq, hhello, not_lt.mpr hlen, responseFrame]

end Handshake

/-! ## Frames that do not get at the store -/

/-- The iteration leaves the store alone and sends at most one frame, which does
not begin a snapshot. -/
def Quiet (cfg : NodeConfig) (s s' : ConnState) : Prop :=
  s'.server.db = s.server.db ∧
    (s'.sent = s.sent ∨ ∃ opcode value, opcode ≠ .clusterSyncBegin ∧
      s'.sent = s.sent ++ [controlFrame cfg opcode value])

section Quiet

variable (env : ConnEnv) (r : Received) (s : ConnState)

theorem reply_handleClusterHello (allocOk : Bool) (now : Int) (peers : List Peer) :
    (handleClusterHello cfg allocOk now peers r).2 = none ∨
      ∃ payload, payload.length ≤ maxValueLen ∧ (handleClusterHello cfg allocOk now peers r).2 =
        some (controlFrame cfg .clusterPeerList payload) := by
  have hlist : ∀ peers, sendPeerList cfg allocOk peers = none ∨ ∃ payload,
      payload.length ≤ maxValueLen ∧
      sendPeerList cfg allocOk peers = some (controlFrame cfg .clusterPeerList payload) := by
    intro peers
    unfold sendPeerList
    simp only
    split_ifs with hlen
    · exact Or.inl rfl
    · exact Or.inl rfl
    · exact Or.inr ⟨_, not_lt.mp hlen,
        clusterSendFrame_control cfg .clusterPeerList (not_lt.mp hlen)⟩
  unfold handleClusterHello
  split_ifs
  · exact Or.inl rfl
  · simp only
    cases helloName r with
    | none => exact Or.inl rfl
    | some peerName =>
        simp only
        split_ifs
        · exact Or.inl rfl
        · generalize addPeerWithNode cfg allocOk now peers _ _ _ = table
          exact hlist table

theorem quiet_hello : Quiet cfg s (hello cfg env r s).2 := by
  refine ⟨rfl, ?_⟩
  simp only [hello]
  rcases reply_handleClusterHello cfg r env.allocOk env.time s.server.peers with
    h | ⟨payload, -, h⟩
  · simp [h]
  · rw [h]
    cases env.sendOk 0 with
    | false => simp
    | true => exact Or.inr ⟨.clusterPeerList, payload, by decide, rfl⟩

theorem quiet_serverHandshake : Quiet cfg s (serverHandshake mac cfg env r s).2 := by
  rcases serverHandshake_cases mac cfg env r s with h | ⟨stream, h⟩ | ⟨ok, rest, -, -, -, h⟩
  · rw [h]
    exact ⟨rfl, Or.inl rfl⟩
  · rw [h]
    exact ⟨rfl, Or.inr ⟨.authResponse, _, by decide, rfl⟩⟩
  · rw [h]
    exact ⟨rfl, Or.inr ⟨.authResponse, _, by decide, rfl⟩⟩

end Quiet

/-! ## Unfolding the loop -/

theorem handleClusterConnection_cons (env : ConnEnv) (envs : List ConnEnv) (s : ConnState) :
    handleClusterConnection mac cfg (env :: envs) s =
      if (connIteration mac cfg env s).1 then
        handleClusterConnection mac cfg envs (connIteration mac cfg env s).2
      else (connIteration mac cfg env s).2 := by
  rw [handleClusterConnection]
  generalize connIteration mac cfg env s = result
  obtain ⟨go, s'⟩ := result
  cases go <;> rfl

/-- When no frame is left the loop ends. -/
theorem handleClusterConnection_of_end (envs : List ConnEnv) {s : ConnState}
    (h : frames s.stream = []) : handleClusterConnection mac cfg envs s = s := by
  cases envs with
  | nil => rfl
  | cons env envs =>
      rw [handleClusterConnection_cons]
      rcases connIteration_cases mac cfg env s with heq | ⟨r, rest, hrecv, -⟩
      · rw [heq]
        rfl
      · rw [frames_of_recv hrecv] at h
        simp at h

end Dmmr.Cluster
