import Dmmr.Cluster.Connection
import Dmmr.Store.Merge

/-!
# What a client has to know to be served

A server with a secret should take a client in, that is, count its connection as
authenticated, apply its records and send it a snapshot, only if the client has
shown that it knows the secret.  It does not: `ProvesKnowledge` fails for exactly
the streams that open with an `AUTH_REQUEST` and an `AUTH_OK`
(`provesKnowledge_iff`), whatever the MAC, and such a stream gets records applied
if it goes on to one that the store accepts (`appliesRecord_iff`).
-/

namespace Dmmr.Cluster

open Words Store Wire Node

/-! ## Which streams open a session, and which get a record applied -/

/-- The stream opens with an `AUTH_REQUEST` and an `AUTH_OK`. -/
def opensSession (stream : Bytes) : Bool :=
  match frames stream with
  | request :: ok :: _ =>
      request.frame.opcode == Opcode.authRequest.code && 8 ≤ request.frame.valueLen.toNat &&
        ok.frame.opcode == Opcode.authOk.code
  | _ => false

/-- The frame does not end an authenticated connection. -/
def passes (cfg : NodeConfig) (r : Received) : Bool :=
  r.frame.opcode != Opcode.clusterHello.code && authenticateClusterFrame cfg.clusterName r.frame

/-- The frame carries a record that `handle_cluster_sync` passes to the store
and the store does not reject. -/
def storable (r : Received) : Bool :=
  r.frame.opcode == Opcode.sync.code && r.frame.nodeId != 0 && r.frame.keyLen != 0 &&
    (r.frame.flags &&& flagTombstone == 0 || r.frame.valueLen == 0)

/-- An authenticated connection with these frames gets to a record. -/
def reachesRecord (cfg : NodeConfig) : List Received → Bool
  | [] => false
  | r :: rs => passes cfg r && (storable r || reachesRecord cfg rs)

/-- The stream opens with an `AUTH_REQUEST` and an `AUTH_OK`, and then gets to a
record. -/
def admitsRecord (cfg : NodeConfig) (stream : Bytes) : Bool :=
  match frames stream with
  | request :: ok :: rest =>
      request.frame.opcode == Opcode.authRequest.code && 8 ≤ request.frame.valueLen.toNat &&
        ok.frame.opcode == Opcode.authOk.code && reachesRecord cfg rest
  | _ => false

/-! ## Records and the store -/

section Sync

variable {host : Endian} {bdb : Bdb} {db : Database} {r : Received}

theorem handleClusterSync_cases (host : Endian) (bdb : Bdb) (db : Database) (r : Received) :
    (r.frame.nodeId = 0 ∨ r.frame.keyLen = 0 ∨ r.payload = none) ∧
        (handleClusterSync host bdb db r).2 = db ∨
      ¬ (r.frame.nodeId = 0 ∨ r.frame.keyLen = 0 ∨ r.payload = none) ∧
        (handleClusterSync host bdb db r).2 = ((syncCall bdb r).exec host 0 db).2 := by
  unfold handleClusterSync
  split_ifs with h
  · exact Or.inl ⟨h, rfl⟩
  · exact Or.inr ⟨h, rfl⟩

theorem wellFormed_handleClusterSync (hwf : WellFormed host db) :
    WellFormed host (handleClusterSync host bdb db r).2 := by
  rcases handleClusterSync_cases host bdb db r with ⟨-, h⟩ | ⟨-, h⟩
  · rw [h]
    exact hwf
  · rw [h]
    exact Call.wellFormed_exec hwf _

/-- A frame that changes the store is storable. -/
theorem storable_of_ne (hop : r.frame.opcode = Opcode.sync.code)
    (hne : (handleClusterSync host bdb db r).2 ≠ db) : storable r = true := by
  unfold handleClusterSync at hne
  split_ifs at hne with hguard
  · exact absurd rfl hne
  · simp only [not_or] at hguard
    have hacc : Acceptable r.key (r.frame.flags &&& flagTombstone != 0) r.value := by
      rw [acceptable_iff]
      intro hreject
      apply hne
      unfold dbApplyRecord
      rw [if_pos hreject]
    have hvalue : r.frame.flags &&& flagTombstone = 0 ∨ r.frame.valueLen = 0 := by
      by_cases hflag : r.frame.flags &&& flagTombstone = 0
      · exact Or.inl hflag
      · have hzero := hacc.valueLen_tombstone (by simpa using hflag)
        exact Or.inr (UInt32.toNat_inj.mp hzero)
    simp [storable, hop, hguard.1, hguard.2.1, hvalue]

/-- A storable frame leaves a record under its key. -/
theorem isSome_of_storable (hwf : WellFormed host db) (hstore : storable r = true) :
    ∃ k, (contents host (handleClusterSync host Bdb.ok db r).2 k).isSome := by
  simp only [storable, Bool.and_eq_true, Bool.or_eq_true, bne_iff_ne, beq_iff_eq] at hstore
  obtain ⟨⟨⟨-, hnode⟩, hkey⟩, hvalue⟩ := hstore
  have hlen : r.frame.keyLen.toNat ≠ 0 := fun h => hkey (UInt32.toNat_inj.mp h)
  have hpayload : r.payload ≠ none := fun h => by
    have := r.payload_none.mp h
    omega
  have hacc : Acceptable r.key (r.frame.flags &&& flagTombstone != 0) r.value := by
    refine ⟨hpayload, hlen, r.keyLen_le, r.valueLen_le, ?_, ?_⟩
    · intro hflag
      rcases hvalue with h | h
      · simp [h] at hflag
      · simp [Received.value, h]
    · intro _
      by_cases hzero : r.frame.valueLen.toNat = 0
      · exact Or.inl hzero
      · have hpos : 0 < r.frame.valueLen.toNat := Nat.pos_of_ne_zero hzero
        exact Or.inr (by simp [Received.value, hpos, hpayload])
  refine ⟨hacc.toKey, ?_⟩
  have hguard : ¬ (r.frame.nodeId = 0 ∨ r.frame.keyLen = 0 ∨ r.payload = none) := by
    simp [hnode, hkey, hpayload]
  have hreq : (syncCall Bdb.ok r).request 0 = some (hacc.toKey,
      hacc.toRecord r.frame.timestamp r.frame.nodeId r.frame.expireAt) := dif_pos hacc
  rcases handleClusterSync_cases host Bdb.ok db r with ⟨h, -⟩ | ⟨-, h⟩
  · exact absurd h hguard
  rw [h, (syncCall Bdb.ok r).contents_exec 0 hwf, hreq]
  obtain ⟨y, hy, -⟩ := LastWrite.exists_offer Record.stamp (contents host db hacc.toKey)
    (hacc.toRecord r.frame.timestamp r.frame.nodeId r.frame.expireAt)
  simp only [AbstractStore.write, if_pos (show (syncCall Bdb.ok r).bdb.succeeds = true from rfl),
    Function.update_self, hy, Option.isSome_some]

end Sync

/-! ## What one iteration can do -/

section Iteration

variable {mac : Mac} {cfg : NodeConfig} (hsecret : cfg.clusterSecret ≠ [])
include hsecret

/-- On an authenticated connection an iteration ends the loop without touching
the store, or takes a frame that passes and changes the store only for a
storable one. -/
theorem connIteration_authenticated (mac : Mac) (env : ConnEnv) {s : ConnState}
    (hauth : s.authenticated = true) :
    ((connIteration mac cfg env s).1 = false ∧
        (connIteration mac cfg env s).2.server.db = s.server.db) ∨
      ∃ r rest, clusterRecvFrame true s.stream = some (r, rest) ∧ passes cfg r = true ∧
        (connIteration mac cfg env s).1 = true ∧
        (connIteration mac cfg env s).2.stream = rest ∧
        (connIteration mac cfg env s).2.authenticated = true ∧
        ((connIteration mac cfg env s).2.server.db = s.server.db ∨ storable r = true) := by
  rcases connIteration_cases mac cfg env s with heq | ⟨r, rest, hrecv, hcases⟩
  · rw [heq]
    exact Or.inl ⟨rfl, rfl⟩
  · rcases hcases with heq | ⟨-, heq⟩ | ⟨hno, -, -⟩ | ⟨hgo, heq⟩
    · rw [heq]
      exact Or.inl ⟨rfl, rfl⟩
    · rw [heq]
      exact Or.inl ⟨rfl, rfl⟩
    · rw [hno] at hauth
      simp at hauth
    · rw [heq]
      unfold dispatch
      by_cases hname : authenticateClusterFrame cfg.clusterName r.frame = true
      · refine Or.inr ⟨r, rest, hrecv, by simp [passes, (hgo hsecret).2, hname], ?_⟩
        simp only [hname, Bool.not_true, Bool.false_eq_true, if_false]
        split_ifs with hreq _ hsync
        · exact ⟨rfl, rfl, hauth, Or.inl rfl⟩
        · exact ⟨rfl, rfl, hauth, Or.inl rfl⟩
        · refine ⟨rfl, rfl, hauth, ?_⟩
          by_cases hdb : (handleClusterSync cfg.host env.bdb s.server.db r).2 = s.server.db
          · exact Or.inl hdb
          · exact Or.inr (storable_of_ne hsync hdb)
        · exact ⟨rfl, rfl, hauth, Or.inl rfl⟩
      · rw [if_pos (by simpa using hname)]
        exact Or.inl ⟨rfl, rfl⟩

/-- On a connection that is not authenticated an iteration is quiet, and goes on
only after an `AUTH_REQUEST` and an `AUTH_OK`. -/
theorem connIteration_unauthenticated (mac : Mac) (env : ConnEnv) {s : ConnState}
    (hauth : s.authenticated = false) :
    Quiet cfg s (connIteration mac cfg env s).2 ∧
      ((connIteration mac cfg env s).1 = false ∧
          (connIteration mac cfg env s).2.authenticated = false ∨
        (connIteration mac cfg env s).1 = true ∧
          (connIteration mac cfg env s).2.authenticated = true ∧
          ∃ request ok mid, clusterRecvFrame true s.stream = some (request, mid) ∧
            clusterRecvFrame true mid = some (ok, (connIteration mac cfg env s).2.stream) ∧
            request.frame.opcode = Opcode.authRequest.code ∧ 8 ≤ request.frame.valueLen.toNat ∧
            ok.frame.opcode = Opcode.authOk.code) := by
  rcases connIteration_cases mac cfg env s with heq | ⟨request, mid, hrecv, hcases⟩
  · rw [heq]
    exact ⟨⟨rfl, Or.inl rfl⟩, Or.inl ⟨rfl, hauth⟩⟩
  · rcases hcases with heq | ⟨-, heq⟩ | ⟨-, hreq, heq⟩ | ⟨hgo, -⟩
    · rw [heq]
      exact ⟨⟨rfl, Or.inl rfl⟩, Or.inl ⟨rfl, hauth⟩⟩
    · rw [heq]
      exact ⟨quiet_hello cfg env request { s with stream := mid }, Or.inl ⟨rfl, hauth⟩⟩
    · rw [heq]
      refine ⟨quiet_serverHandshake mac cfg env request { s with stream := mid }, ?_⟩
      rcases serverHandshake_cases mac cfg env request { s with stream := mid } with
        hstop | ⟨stream, hstop⟩ | ⟨ok, rest, hlen, hrecv', hok, hcont⟩
      · rw [hstop]
        exact Or.inl ⟨rfl, hauth⟩
      · rw [hstop]
        exact Or.inl ⟨rfl, hauth⟩
      · rw [hcont]
        exact Or.inr ⟨rfl, rfl, request, ok, mid, hrecv, (clusterRecvFrame_inv hrecv').1, hreq,
          hlen, hok⟩
    · rw [(hgo hsecret).1] at hauth
      simp at hauth

/-- If an authenticated connection changes the store, its stream gets to a
record. -/
theorem reachesRecord_of_ne (envs : List ConnEnv) {s : ConnState} (hauth : s.authenticated = true)
    (hne : (handleClusterConnection mac cfg envs s).server.db ≠ s.server.db) :
    reachesRecord cfg (frames s.stream) = true := by
  induction envs generalizing s with
  | nil => exact absurd rfl hne
  | cons env envs ih =>
      rw [handleClusterConnection_cons] at hne
      rcases connIteration_authenticated hsecret mac env hauth with
        ⟨hstop, hdb⟩ | ⟨r, rest, hrecv, hpasses, hgo, hstream, hauth', hdb⟩
      · rw [hstop] at hne
        exact absurd hdb hne
      · rw [hgo, if_pos rfl] at hne
        rw [frames_of_recv hrecv, reachesRecord, hpasses, Bool.true_and, Bool.or_eq_true]
        rcases hdb with hdb | hstore
        · rw [← hdb] at hne
          exact Or.inr (hstream ▸ ih hauth' hne)
        · exact Or.inl hstore

/-- If a connection changes the store, its stream admits a record. -/
theorem admitsRecord_of_ne (envs : List ConnEnv) {stream : Bytes} {server : Server}
    (hne : (serveConnection mac cfg envs stream server).server.db ≠ server.db) :
    admitsRecord cfg stream = true := by
  unfold serveConnection at hne
  cases envs with
  | nil => exact absurd rfl hne
  | cons env envs =>
      rw [handleClusterConnection_cons] at hne
      obtain ⟨hquiet, hstop | ⟨hgo, hauth, request, ok, mid, hrecv, hrecv', hreq, hlen, hok⟩⟩ :=
        connIteration_unauthenticated hsecret mac env (s := ⟨false, 0, stream, server, []⟩) rfl
      · rw [hstop.1] at hne
        exact absurd hquiet.1 hne
      · rw [hgo, if_pos rfl] at hne
        have hrest := reachesRecord_of_ne hsecret envs hauth (by rw [hquiet.1]; exact hne)
        unfold admitsRecord
        rw [frames_of_recv hrecv, frames_of_recv hrecv']
        simp [hreq, hlen, hok, hrest]

end Iteration

/-! ## Every such stream is served -/

/-- An iteration in which nothing fails and no time passes. -/
def ConnEnv.ok : ConnEnv where
  running := true
  allocOk := true
  nonceB := 0
  requestClock := 0
  sendOk _ := true
  okAllocOk := true
  clock := 0
  time := 0
  bdb := Bdb.ok
  snapshotCalls _ := Bdb.ok

section Served

variable {cfg : NodeConfig}

/-- A frame that passes is dispatched, on a connection that is authenticated if it
has to be. -/
theorem connIteration_ok (mac : Mac) {s : ConnState}
    (hauth : cfg.clusterSecret ≠ [] → s.authenticated = true ∧ 0 < s.authExpireAt)
    {r : Received} {rest : Bytes} (hrecv : clusterRecvFrame true s.stream = some (r, rest))
    (hpasses : passes cfg r = true) :
    connIteration mac cfg .ok s = dispatch cfg .ok r { s with stream := rest } := by
  simp only [passes, Bool.and_eq_true, bne_iff_ne, ne_eq] at hpasses
  refine connIteration_of_not_barred mac rfl hrecv ?_
  rintro ⟨hsecret, hhello | hno | hexpired⟩
  · exact hpasses.1 hhello
  · rw [(hauth hsecret).1] at hno
    exact absurd hno (by decide)
  · exact absurd (hauth hsecret).2 (not_lt.mpr hexpired)

/-- What dispatching a frame that passes does to the connection. -/
theorem dispatch_ok {s : ConnState} {r : Received} (hpasses : passes cfg r = true) :
    (dispatch cfg .ok r s).1 = true ∧ (dispatch cfg .ok r s).2.stream = s.stream ∧
      (dispatch cfg .ok r s).2.authenticated = s.authenticated ∧
      (dispatch cfg .ok r s).2.authExpireAt = s.authExpireAt ∧
      (dispatch cfg .ok r s).2.server.db =
        if r.frame.opcode = Opcode.sync.code then
          (handleClusterSync cfg.host Bdb.ok s.server.db r).2
        else s.server.db := by
  simp only [passes, Bool.and_eq_true] at hpasses
  unfold dispatch
  simp only [hpasses.2, Bool.not_true, Bool.false_eq_true, if_false]
  by_cases hreq : r.frame.opcode = Opcode.clusterSyncRequest.code
  · have hsync : r.frame.opcode ≠ Opcode.sync.code := by rw [hreq]; decide
    simp only [if_pos hreq, if_neg hsync]
    split_ifs <;> exact ⟨rfl, rfl, rfl, rfl, rfl⟩
  · simp only [if_neg hreq]
    split_ifs <;> exact ⟨rfl, rfl, rfl, rfl, rfl⟩

theorem exists_record_of_reachesRecord (mac : Mac) {rs : List Received}
    (hreach : reachesRecord cfg rs = true) {s : ConnState} (hframes : frames s.stream = rs)
    (hauth : s.authenticated = true)
    (hexp : 0 < s.authExpireAt) (hwf : WellFormed cfg.host s.server.db) :
    ∃ n k, (contents cfg.host (handleClusterConnection mac cfg (List.replicate n .ok) s).server.db
      k).isSome := by
  induction rs generalizing s with
  | nil => simp [reachesRecord] at hreach
  | cons r rs ih =>
      obtain ⟨rest, hrecv, hrest⟩ := recv_of_frames hframes
      rw [reachesRecord, Bool.and_eq_true] at hreach
      obtain ⟨hpasses, hreach⟩ := hreach
      obtain ⟨hgo, hstream, hauth', hexp', hdb⟩ :=
        dispatch_ok (s := { s with stream := rest }) hpasses
      have hdispatch := connIteration_ok mac (fun _ => ⟨hauth, hexp⟩) hrecv hpasses
      rw [← hdispatch] at hgo hstream hauth' hexp' hdb
      by_cases hstore : storable r = true
      · obtain ⟨k, hk⟩ := isSome_of_storable hwf hstore
        refine ⟨1, k, ?_⟩
        have hsync : r.frame.opcode = Opcode.sync.code := by
          simp only [storable, Bool.and_eq_true, beq_iff_eq] at hstore
          exact hstore.1.1.1
        rw [List.replicate_one, handleClusterConnection_cons, hgo, if_pos rfl,
          handleClusterConnection, hdb, if_pos hsync]
        exact hk
      · simp only [hstore, Bool.false_eq_true, false_or, Bool.or_eq_true] at hreach
        have hwf' : WellFormed cfg.host (connIteration mac cfg .ok s).2.server.db := by
          rw [hdb]
          split_ifs
          · exact wellFormed_handleClusterSync hwf
          · exact hwf
        obtain ⟨n, k, hk⟩ := ih hreach (hstream ▸ hrest) (hauth'.trans hauth)
          (hexp'.symm ▸ hexp) hwf'
        refine ⟨n + 1, k, ?_⟩
        rw [List.replicate_succ, handleClusterConnection_cons, hgo, if_pos rfl]
        exact hk

variable (hsecret : cfg.clusterSecret ≠ [])
include hsecret

/-- The handshake succeeds on any `AUTH_REQUEST` followed by an `AUTH_OK`. -/
theorem connIteration_handshake (mac : Mac) {s : ConnState} (hauth : s.authenticated = false)
    {request ok : Received} {mid rest : Bytes}
    (hrecv : clusterRecvFrame true s.stream = some (request, mid))
    (hrecv' : clusterRecvFrame true mid = some (ok, rest))
    (hreq : request.frame.opcode = Opcode.authRequest.code)
    (hlen : 8 ≤ request.frame.valueLen.toNat) (hok : ok.frame.opcode = Opcode.authOk.code) :
    (connIteration mac cfg .ok s).1 = true ∧
      (connIteration mac cfg .ok s).2.stream = rest ∧
      (connIteration mac cfg .ok s).2.authenticated = true ∧
      (connIteration mac cfg .ok s).2.authExpireAt = authTtlMicros ∧
      (connIteration mac cfg .ok s).2.server = s.server ∧
      (connIteration mac cfg .ok s).2.sent = s.sent ++ [responseFrame mac cfg .ok request] := by
  have henv : ConnEnv.ok.Healthy := ⟨rfl, rfl, rfl, fun _ => rfl⟩
  rw [connIteration_of_exchange mac hsecret henv hauth hrecv hreq hlen hrecv' hok]
  exact ⟨rfl, rfl, rfl, rfl, rfl, rfl⟩

/-- A stream that admits a record gets one applied on an empty store. -/
theorem applies_of_admitsRecord (mac : Mac) {stream : Bytes}
    (hadmits : admitsRecord cfg stream = true) (peers : List Peer) :
    ∃ envs, (serveConnection mac cfg envs stream ⟨OrderedMap.empty, peers⟩).server.db ≠
      OrderedMap.empty := by
  unfold admitsRecord at hadmits
  split at hadmits
  · rename_i request ok rest hframes
    simp only [Bool.and_eq_true, beq_iff_eq, decide_eq_true_eq] at hadmits
    obtain ⟨⟨⟨hreq, hlen⟩, hok⟩, hreach⟩ := hadmits
    obtain ⟨mid, hrecv, hmid⟩ := recv_of_frames hframes
    obtain ⟨rest', hrecv', hrest'⟩ := recv_of_frames hmid
    obtain ⟨hgo, hstream, hauth, hexp, hserver, -⟩ := connIteration_handshake hsecret mac
      (s := ⟨false, 0, stream, ⟨OrderedMap.empty, peers⟩, []⟩) rfl hrecv hrecv' hreq hlen hok
    obtain ⟨n, k, hk⟩ := exists_record_of_reachesRecord mac hreach (hstream ▸ hrest') hauth
      (by rw [hexp]; decide) (by rw [hserver]; exact wellFormed_empty)
    refine ⟨List.replicate (n + 1) .ok, fun heq => ?_⟩
    rw [serveConnection, List.replicate_succ, handleClusterConnection_cons, hgo, if_pos rfl] at heq
    rw [heq] at hk
    simp at hk
  · simp at hadmits

/-- **Which streams get a record applied**: those that open a session and then get to
a record the store accepts, whatever the MAC and the secret. -/
theorem appliesRecord_iff (mac : Mac) (stream : Bytes) :
    (∃ envs server, Reachable cfg.host server.db ∧
        (serveConnection mac cfg envs stream server).server.db ≠ server.db) ↔
      admitsRecord cfg stream = true := by
  constructor
  · rintro ⟨envs, server, -, hne⟩
    exact admitsRecord_of_ne hsecret envs hne
  · intro hadmits
    obtain ⟨envs, hne⟩ := applies_of_admitsRecord hsecret mac hadmits []
    exact ⟨envs, ⟨OrderedMap.empty, []⟩, Reachable.empty, hne⟩

end Served

/-! ## Being taken in -/

/-- The server has taken the client in: the connection counts as authenticated, a
record has been applied, or a snapshot has been begun. -/
def TakenIn (cfg : NodeConfig) (server : Server) (s : ConnState) : Prop :=
  s.authenticated = true ∨ s.server.db ≠ server.db ∨
    controlFrame cfg .clusterSyncBegin [] ∈ s.sent

/-- A connection that has not been authenticated is quiet so far. -/
theorem not_takenIn_of_quiet {cfg : NodeConfig} {stream : Bytes} {server : Server} {s : ConnState}
    (hauth : s.authenticated = false) (h : Quiet cfg ⟨false, 0, stream, server, []⟩ s) :
    ¬ TakenIn cfg server s := by
  rintro (hin | hdb | hbegin)
  · rw [hauth] at hin
    exact absurd hin (by simp)
  · exact hdb h.1
  · rcases h.2 with hnone | ⟨opcode, value, hne, hone⟩
    · rw [hnone] at hbegin
      exact absurd hbegin (by simp)
    · rw [hone] at hbegin
      exact hne (opcode_eq_of_controlFrame (List.mem_singleton.mp hbegin)).symm

section Session

variable {cfg : NodeConfig} (hsecret : cfg.clusterSecret ≠ [])
include hsecret

/-- Nothing but an `AUTH_REQUEST` and an `AUTH_OK` gets a client in. -/
theorem opensSession_of_takenIn (mac : Mac) (envs : List ConnEnv) {stream : Bytes}
    {server : Server} (h : TakenIn cfg server (serveConnection mac cfg envs stream server)) :
    opensSession stream = true := by
  unfold serveConnection at h
  cases envs with
  | nil =>
      have hquiet : Quiet cfg ⟨false, 0, stream, server, []⟩ ⟨false, 0, stream, server, []⟩ :=
        ⟨rfl, Or.inl rfl⟩
      exact absurd h (not_takenIn_of_quiet rfl hquiet)
  | cons env envs =>
      rw [handleClusterConnection_cons] at h
      obtain ⟨hquiet, ⟨hstop, hauth⟩ | ⟨-, -, request, ok, mid, hrecv, hrecv', hreq, hlen, hok⟩⟩ :=
        connIteration_unauthenticated hsecret mac env (s := ⟨false, 0, stream, server, []⟩) rfl
      · rw [hstop] at h
        exact absurd h (not_takenIn_of_quiet hauth hquiet)
      · unfold opensSession
        rw [frames_of_recv hrecv, frames_of_recv hrecv']
        simp [hreq, hlen, hok]

/-- The two frames are enough, whatever the secret. -/
theorem takenIn_of_opensSession (mac : Mac) {stream : Bytes} (hopens : opensSession stream = true)
    (server : Server) : TakenIn cfg server (serveConnection mac cfg [.ok] stream server) := by
  unfold opensSession at hopens
  split at hopens
  next request ok rest hframes =>
    simp only [Bool.and_eq_true, beq_iff_eq, decide_eq_true_eq] at hopens
    obtain ⟨⟨hreq, hlen⟩, hok⟩ := hopens
    obtain ⟨mid, hrecv, hmid⟩ := recv_of_frames hframes
    obtain ⟨rest', hrecv', -⟩ := recv_of_frames hmid
    obtain ⟨hgo, -, hauth, -⟩ := connIteration_handshake hsecret mac
      (s := ⟨false, 0, stream, server, []⟩) rfl hrecv hrecv' hreq hlen hok
    refine Or.inl ?_
    rw [serveConnection, handleClusterConnection_cons, hgo, if_pos rfl, handleClusterConnection]
    exact hauth
  next => simp at hopens

end Session

/-! ## The property -/

/-- The node with another secret. -/
def NodeConfig.withSecret (cfg : NodeConfig) (secret : Bytes) : NodeConfig :=
  { cfg with clusterSecret := secret }

/-- Sending `stream` proves knowledge of the secret: it is not taken in by two servers
with different secrets, whatever nonces and clock readings they use and whatever
their stores hold. -/
def ProvesKnowledge (mac : Mac) (cfg : NodeConfig) (stream : Bytes) : Prop :=
  ∀ secret₁ secret₂ : Bytes, secret₁ ≠ [] → secret₂ ≠ [] → secret₁ ≠ secret₂ →
    ∀ envs₁ envs₂ server₁ server₂, Reachable cfg.host server₁.db → Reachable cfg.host server₂.db →
      ¬ (TakenIn (cfg.withSecret secret₁) server₁
          (serveConnection mac (cfg.withSecret secret₁) envs₁ stream server₁) ∧
        TakenIn (cfg.withSecret secret₂) server₂
          (serveConnection mac (cfg.withSecret secret₂) envs₂ stream server₂))

theorem not_provesKnowledge_of_opensSession (mac : Mac) (cfg : NodeConfig) {stream : Bytes}
    (hopens : opensSession stream = true) : ¬ ProvesKnowledge mac cfg stream := by
  intro hproves
  have hserved : ∀ secret : Bytes, secret ≠ [] →
      TakenIn (cfg.withSecret secret) ⟨OrderedMap.empty, []⟩
        (serveConnection mac (cfg.withSecret secret) [.ok] stream ⟨OrderedMap.empty, []⟩) := by
    intro secret hsecret
    have hsecret' : (cfg.withSecret secret).clusterSecret ≠ [] := hsecret
    exact takenIn_of_opensSession hsecret' mac hopens _
  exact hproves [1] [2] (by simp) (by simp) (by decide) [.ok] [.ok] ⟨OrderedMap.empty, []⟩
    ⟨OrderedMap.empty, []⟩ Reachable.empty Reachable.empty
    ⟨hserved [1] (by simp), hserved [2] (by simp)⟩

/-- **Server-side authentication proves nothing.**  Whatever the MAC, a stream
fails to prove knowledge of the secret exactly when it opens with an
`AUTH_REQUEST` and an `AUTH_OK`. -/
theorem provesKnowledge_iff (mac : Mac) (cfg : NodeConfig) (stream : Bytes) :
    ProvesKnowledge mac cfg stream ↔ opensSession stream = false := by
  constructor
  · intro hproves
    cases hopens : opensSession stream with
    | false => rfl
    | true => exact absurd hproves (not_provesKnowledge_of_opensSession mac cfg hopens)
  · intro hopens secret₁ secret₂ hsecret₁ _ _ envs₁ _ server₁ _ _ _ h
    have hsecret : (cfg.withSecret secret₁).clusterSecret ≠ [] := hsecret₁
    rw [opensSession_of_takenIn hsecret mac envs₁ h.1] at hopens
    exact absurd hopens (by simp)

/-- A node without a cluster name. -/
def plainNode : NodeConfig := ⟨.little, 1, [], [115], [49], 7000⟩

/-- An `AUTH_REQUEST` with nonce zero, an `AUTH_OK`, and one record. -/
def blindStream : Bytes :=
  controlFrame plainNode .authRequest (Endian.big.bytes 8 0) ++
    (controlFrame plainNode .authOk [] ++
      ((sentHeader [] Opcode.sync.code flagNone 1 1 5 9 0).toBytes ++ [107, 118]))

/-- A client that knows no secret and reads no answer is taken in under every
secret, whatever the MAC, and its record gets to the store. -/
theorem provesKnowledge_fails :
    (¬ ∃ mac : Mac, ProvesKnowledge mac plainNode blindStream) ∧
      admitsRecord plainNode blindStream = true := by
  refine ⟨?_, by decide +kernel⟩
  rintro ⟨mac, hproves⟩
  exact not_provesKnowledge_of_opensSession mac plainNode (by decide +kernel) hproves

end Dmmr.Cluster
