import Dmmr.Cluster.Handshake
import Dmmr.Cluster.Snapshot
import Mathlib.Logic.Relation

/-!
# Snapshot transfers

`Transfers` puts the two sides of a snapshot together: the sender gets what the
receiver sends, and the receiver gets some of what the sender sends in return.

When the receiver gets as far as the end its store is the join of the two stores,
also after any number of transfers that were cut short (`transfers_join`); and
between nodes of one cluster a transfer does get to the end when nothing fails
(`exists_transfers`).
-/

namespace Dmmr.Cluster

open Words Store Wire Node

/-- One call of `request_snapshot` on a store, answered by a sender whose store
nothing else writes to: the return code and the store afterwards.  How far the
sender gets and how much of what it sends arrives is left open. -/
def Transfers (mac : Mac) (sender : NodeConfig) (store : Database) (receiver : NodeConfig)
    (db : Database) (rc : Int) (db' : Database) : Prop :=
  ∃ env incoming envs peers,
    incoming <+: (serveConnection mac sender envs
      (requestSnapshot mac receiver env incoming db).sent.flatten ⟨store, peers⟩).sent.flatten ∧
    (requestSnapshot mac receiver env incoming db).rc = rc ∧
    (requestSnapshot mac receiver env incoming db).db = db'

/-! ## One call -/

/-- A frame of the exchange before what a client sends. -/
theorem asks_controlFrame (cfg : NodeConfig) {opcode : Opcode}
    (hop : opcode = .authRequest ∨ opcode = .authOk) {value : Bytes}
    (hvalue : value.length ≤ maxValueLen) {sent : List Bytes} (h : Asks (frames sent.flatten)) :
    Asks (frames (controlFrame cfg opcode value :: sent).flatten) := by
  rw [List.flatten_cons, frames_of_recv (clusterRecvFrame_control cfg opcode hvalue _)]
  refine Or.inr ⟨?_, h⟩
  rcases hop with rfl | rfl
  · exact Or.inl rfl
  · exact Or.inr rfl

/-- The two frames of the exchange before what a client sends. -/
theorem asks_exchange (cfg : NodeConfig) {nonce : Bytes} (hnonce : nonce.length ≤ maxValueLen)
    {sent : List Bytes} (h : Asks (frames sent.flatten)) :
    Asks (frames (controlFrame cfg .authRequest nonce :: controlFrame cfg .authOk [] ::
      sent).flatten) := by
  apply asks_controlFrame cfg (Or.inl rfl) hnonce
  apply asks_controlFrame cfg (Or.inr rfl) length_nil_le
  exact h

theorem asks_syncRequest (cfg : NodeConfig) :
    Asks (frames [controlFrame cfg .clusterSyncRequest []].flatten) := by
  rw [List.flatten_cons,
    frames_of_recv (clusterRecvFrame_control cfg .clusterSyncRequest length_nil_le _)]
  exact Or.inl ⟨rfl, rfl⟩

/-- The receiver sends what a client sends that asks for a snapshot.  It fails
before it reads any of it, or the loop runs on all that arrives or, with a
secret, on what arrives after the answer to its `AUTH_REQUEST`. -/
theorem requestSnapshot_cases (mac : Mac) (cfg : NodeConfig) (env : SnapshotEnv) (incoming : Bytes)
    (db : Database) :
    Asks (frames (requestSnapshot mac cfg env incoming db).sent.flatten) ∧
      ((requestSnapshot mac cfg env incoming db).rc = -1 ∧
          (requestSnapshot mac cfg env incoming db).db = db ∨
        ∃ stream, (stream = incoming ∨ ∃ r, clusterRecvFrame true incoming = some (r, stream) ∧
            r.frame.opcode = Opcode.authResponse.code) ∧
          ((requestSnapshot mac cfg env incoming db).rc,
              (requestSnapshot mac cfg env incoming db).db) =
            receiveSnapshot cfg env.steps (stream.length + 1) 0 false stream db) := by
  have hnonce : (Endian.big.bytes 8 env.nonceA.toNat).length ≤ maxValueLen := by
    rw [Endian.length_bytes]
    decide
  -- all that is ever sent: the exchange, or its beginning, and the request
  have hsync := asks_syncRequest cfg
  have hnothing : Asks (frames ([] : List Bytes).flatten) := trivial
  have hrequest := asks_controlFrame cfg (Or.inl rfl) hnonce hnothing
  have hexchange := asks_exchange cfg hnonce hnothing
  have hwhole := asks_exchange cfg hnonce hsync
  unfold requestSnapshot
  by_cases hconnect : env.connectOk = true
  · rw [if_neg (by simp [hconnect])]
    simp only
    rcases clusterHandshakeClient_cases mac cfg ⟨env.nonceA, env.requestSendOk,
        (clusterRecvFrame env.responseAllocOk incoming).map Prod.fst, env.okSendOk⟩ with
      ⟨hsecret, h⟩ | ⟨sent, hpre, h⟩ | ⟨hsecret, response, expireAt, hresponse, hcheck, h⟩
    · simp only [h, if_pos hsecret]
      cases env.syncSendOk with
      | false => exact ⟨trivial, Or.inl ⟨rfl, rfl⟩⟩
      | true => exact ⟨hsync, Or.inr ⟨incoming, Or.inl rfl, rfl⟩⟩
    · simp only [h]
      refine ⟨?_, by simp⟩
      rcases List.prefix_cons_iff.mp hpre with rfl | ⟨t, rfl, ht⟩
      · exact trivial
      · rw [List.prefix_nil.mp ht]
        exact hrequest
    · obtain ⟨⟨r, stream⟩, hrecv, rfl⟩ := Option.map_eq_some_iff.mp hresponse
      simp only [h, if_neg hsecret]
      cases env.syncSendOk with
      | false => exact ⟨hexchange, Or.inl ⟨rfl, rfl⟩⟩
      | true =>
          refine ⟨hwhole, Or.inr ⟨stream, Or.inr ⟨r, (clusterRecvFrame_inv hrecv).1,
            opcode_of_checkAuthResponse hcheck⟩, ?_⟩⟩
          simp only [hrecv, Option.map_some, Option.getD_some]
          rfl
  · rw [if_pos (by simpa using hconnect)]
    exact ⟨trivial, Or.inl ⟨rfl, rfl⟩⟩

/-- What a transfer does, whether it is cut short or not. -/
theorem offered_of_transfers {mac : Mac} {sender receiver : NodeConfig} {store db db' : Database}
    {rc : Int} (h : Transfers mac sender store receiver db rc db') {items : List (Key × Record)}
    (hitems : store.entries = items.map fun item => (item.1.1, item.2.blob sender.host))
    (hwf : WellFormed receiver.host db) : Offered receiver.host items db (rc, db') := by
  obtain ⟨env, incoming, envs, peers, hincoming, rfl, rfl⟩ := h
  obtain ⟨hasks, hcases⟩ := requestSnapshot_cases mac receiver env incoming db
  have hsent : Transcript sender items (serveConnection mac sender envs
      (requestSnapshot mac receiver env incoming db).sent.flatten ⟨store, peers⟩).sent :=
    transcript_of_asks envs hasks (by simp) hitems
  rcases hcases with ⟨hrc, hdb⟩ | ⟨stream, hstream, hresult⟩
  · rw [hrc, hdb]
    exact offered_of_failed hwf
  · rw [hresult]
    rcases hstream with rfl | ⟨r, hrecv, hop⟩
    · exact receiveSnapshot_transcript _ hsent hincoming hwf
    · obtain ⟨more, hmore, hrest⟩ := hsent.tail hincoming hrecv hop
      exact receiveSnapshot_transcript _ hmore hrest hwf

/-! ## The join -/

/-- The join of two stores: under every key the record with the greater stamp,
the receiver's own on a tie. -/
def joined (receiver sender : AbstractStore) : AbstractStore :=
  fun k => LastWrite.join Record.stamp (receiver k) (sender k)

section Join

variable {mac : Mac} {sender receiver : NodeConfig} {store db db' : Database} {rc : Int}

/-- A transfer joins the stores under some keys and leaves the others alone, and
joins them under all keys if it returns `0`. -/
theorem contents_of_transfers (h : Transfers mac sender store receiver db rc db')
    (hstore : WellFormed sender.host store) (hwf : WellFormed receiver.host db) :
    WellFormed receiver.host db' ∧
      (∀ k, contents receiver.host db' k = contents receiver.host db k ∨
        contents receiver.host db' k =
          joined (contents receiver.host db) (contents sender.host store) k) ∧
      (rc = 0 → contents receiver.host db' =
        joined (contents receiver.host db) (contents sender.host store)) := by
  obtain ⟨items, hitems, hnodup, hmem⟩ := exists_items hstore
  obtain ⟨hwf', offered, hpre, heq, hall⟩ := offered_of_transfers h hitems hwf
  have hnodup' : (offered.map Prod.fst).Nodup := hnodup.sublist (hpre.sublist.map _)
  have hone : ∀ k r, (k, r) ∈ offered → contents receiver.host db' k =
      joined (contents receiver.host db) (contents sender.host store) k := by
    intro k r hr
    rw [heq, LastWrite.offerEach_of_mem _ hnodup' hr, joined,
      (hmem k r).mp (hpre.subset hr)]
    rfl
  refine ⟨hwf', fun k => ?_, fun hrc => funext fun k => ?_⟩
  · by_cases hk : k ∈ offered.map Prod.fst
    · obtain ⟨⟨k', r⟩, hr, rfl⟩ := List.mem_map.mp hk
      exact Or.inr (hone _ r hr)
    · exact Or.inl (by rw [heq, LastWrite.offerEach_of_not_mem _ hk])
  · by_cases hk : k ∈ offered.map Prod.fst
    · obtain ⟨⟨k', r⟩, hr, rfl⟩ := List.mem_map.mp hk
      exact hone _ r hr
    · rw [heq, LastWrite.offerEach_of_not_mem _ hk, joined]
      rw [hall hrc] at hk
      cases hheld : contents sender.host store k with
      | none => rfl
      | some r => exact absurd (List.mem_map_of_mem ((hmem k r).mpr hheld)) hk

/-- Transfers that are cut short leave the join with the sender's store as it
was. -/
theorem joined_of_attempts (hstore : WellFormed sender.host store)
    (hwf : WellFormed receiver.host db)
    (h : Relation.ReflTransGen (fun d d' => ∃ rc, Transfers mac sender store receiver d rc d')
      db db') :
    WellFormed receiver.host db' ∧
      joined (contents receiver.host db') (contents sender.host store) =
        joined (contents receiver.host db) (contents sender.host store) := by
  induction h with
  | refl => exact ⟨hwf, rfl⟩
  | tail _ hstep ih =>
      obtain ⟨rc, hstep⟩ := hstep
      obtain ⟨hwf', hkeys, -⟩ := contents_of_transfers hstep hstore ih.1
      refine ⟨hwf', ih.2 ▸ funext fun k => ?_⟩
      rcases hkeys k with hk | hk
      · rw [joined, hk, joined]
      · rw [joined, hk, joined, LastWrite.join_join]

end Join

/-! ## Transfers that succeed -/

/-- Two nodes that a transfer can succeed between: they have the same name and
the same secret, with a secret also the same byte order, and the receiver has an
identifier. -/
structure Compatible (sender receiver : NodeConfig) : Prop where
  name : receiver.clusterName = sender.clusterName
  hash : sender.clusterName ≠ [] → dmmrFnv1a32 sender.clusterName ≠ 0
  secret : receiver.clusterSecret = sender.clusterSecret
  host : sender.clusterSecret ≠ [] → receiver.host = sender.host
  nodeId : receiver.myNodeId ≠ 0

/-- A call in which nothing fails. -/
def SnapshotEnv.ok : SnapshotEnv := ⟨true, 0, true, true, true, true, fun _ => ⟨true, true, Bdb.ok⟩⟩

section Succeeds

variable {sender receiver : NodeConfig} {items : List (Key × Record)}

theorem sendSnapshot_ok {db : Database}
    (hitems : db.entries = items.map fun item => (item.1.1, item.2.blob sender.host)) :
    sendSnapshot sender .ok db = snapshotFrames sender items := by
  obtain ⟨res, more, hloop, -, hall, hsmooth⟩ := snapshotLoop_send (fun _ => true)
    (fun _ => Bdb.ok) (db.entries.length + 1) 0 none [controlFrame sender .clusterSyncBegin []]
    (hitems ▸ OrderedMap.rest_none db)
  obtain rfl : res = .applied := hsmooth (fun _ => rfl) (fun _ => rfl) (by simp [hitems])
  have hforeach : dbSnapshotForeach sender.host ConnEnv.ok.bdb db
      (sendSnapshotItem sender ConnEnv.ok.sendOk) ConnEnv.ok.snapshotCalls
      [controlFrame sender .clusterSyncBegin []] = (.applied, _) := hloop
  unfold sendSnapshot
  rw [hforeach, hall rfl]
  simp [ConnEnv.ok, snapshotFrames]

/-- A sender that may go on answers the request with the whole snapshot. -/
theorem serve_syncRequest (mac : Mac) (h : Compatible sender receiver) {s : ConnState}
    (hstream : s.stream = controlFrame receiver .clusterSyncRequest [])
    (hauth : sender.clusterSecret ≠ [] → s.authenticated = true ∧ 0 < s.authExpireAt)
    (hitems : s.server.db.entries = items.map fun item => (item.1.1, item.2.blob sender.host)) :
    (handleClusterConnection mac sender [.ok] s).sent = s.sent ++ snapshotFrames sender items := by
  have hrecv := clusterRecvFrame_control receiver .clusterSyncRequest length_nil_le []
  rw [List.append_nil, ← hstream] at hrecv
  have hpass : authenticateClusterFrame sender.clusterName
      (controlReceived receiver .clusterSyncRequest length_nil_le).frame = true :=
    authenticateClusterFrame_self h.hash (congrArg clusterId h.name)
  have hdispatch : connIteration mac sender .ok s =
      dispatch sender .ok (controlReceived receiver .clusterSyncRequest length_nil_le)
        { s with stream := [] } := by
    refine connIteration_ok mac hauth hrecv ?_
    rw [passes, hpass]
    rfl
  have hask : (controlReceived receiver .clusterSyncRequest length_nil_le).frame.nodeId ≠ 0 ∧
      (controlReceived receiver .clusterSyncRequest length_nil_le).frame.keyLen = 0 ∧
      (controlReceived receiver .clusterSyncRequest length_nil_le).frame.valueLen = 0 :=
    ⟨h.nodeId, rfl, rfl⟩
  rw [handleClusterConnection_cons, hdispatch, dispatch]
  simp [hpass, hask, handleClusterConnection, sendSnapshot_ok hitems]

/-- What the receiver does with the frame of such a sender when nothing fails. -/
theorem receiveSnapshot_ok (h : Compatible sender receiver) (fuel i : ℕ) (sawBegin : Bool)
    {stream rest : Bytes} {r : Received} (hrecv : clusterRecvFrame true stream = some (r, rest))
    (hid : r.frame.clusterId = clusterId sender.clusterName) (db : Database) :
    receiveSnapshot receiver SnapshotEnv.ok.steps (fuel + 1) i sawBegin stream db =
      if r.frame.opcode = Opcode.clusterSyncBegin.code then
        receiveSnapshot receiver SnapshotEnv.ok.steps fuel (i + 1) true rest db
      else if r.frame.opcode = Opcode.sync.code ∧ sawBegin = true then
        if (applyFrame receiver Bdb.ok db r).1 = .error then
          (-1, (applyFrame receiver Bdb.ok db r).2)
        else receiveSnapshot receiver SnapshotEnv.ok.steps fuel (i + 1) sawBegin rest
          (applyFrame receiver Bdb.ok db r).2
      else if r.frame.opcode = Opcode.clusterSyncEnd.code ∧ sawBegin = true then (0, db)
      else (-1, db) := by
  have hpass : authenticateClusterFrame receiver.clusterName r.frame = true := by
    rw [h.name]
    exact authenticateClusterFrame_self h.hash hid
  rw [receiveSnapshot]
  simp only [SnapshotEnv.ok, hrecv, snapshotAction, hpass, Bool.not_true, Bool.false_eq_true,
    if_false]
  by_cases hbegin : r.frame.opcode = Opcode.clusterSyncBegin.code
  · simp only [if_pos hbegin]
  · by_cases hsync : r.frame.opcode = Opcode.sync.code ∧ sawBegin = true
    · simp only [if_neg hbegin, if_pos hsync]
      obtain ⟨res, db'⟩ := applyFrame receiver Bdb.ok db r
      cases res <;> rfl
    · simp only [if_neg hbegin, if_neg hsync]
      split_ifs <;> rfl

/-- The receiver of a whole snapshot gets to its end if nothing fails. -/
theorem receiveSnapshot_complete (h : Compatible sender receiver) {fuel : ℕ} (i : ℕ)
    (hfuel : items.length < fuel) {db : Database} (hwf : WellFormed receiver.host db) :
    (receiveSnapshot receiver SnapshotEnv.ok.steps fuel i true ((items.map fun item =>
      itemBytes sender (item.2.toDbRecord item.1)).flatten ++
        controlFrame sender .clusterSyncEnd []) db).1 = 0 := by
  have hrecord : Opcode.sync.code ≠ Opcode.clusterSyncBegin.code := by decide
  have hbegin : Opcode.clusterSyncEnd.code ≠ Opcode.clusterSyncBegin.code := by decide
  have hsync : Opcode.clusterSyncEnd.code ≠ Opcode.sync.code := by decide
  induction items generalizing fuel i db with
  | nil =>
      obtain ⟨fuel, rfl⟩ := Nat.exists_eq_add_one.mpr hfuel
      have hrecv := clusterRecvFrame_control sender .clusterSyncEnd length_nil_le []
      rw [List.append_nil] at hrecv
      rw [List.map_nil, List.flatten_nil, List.nil_append,
        receiveSnapshot_ok h fuel i true hrecv rfl, opcode_controlReceived, if_neg hbegin,
        if_neg (by simp [hsync]), if_pos ⟨rfl, rfl⟩]
  | cons item items ih =>
      obtain ⟨k, record⟩ := item
      rw [List.length_cons] at hfuel
      obtain ⟨fuel, rfl⟩ := Nat.exists_eq_add_one.mpr (Nat.zero_lt_of_lt hfuel)
      have hrecv := recv_itemBytes sender k record ((items.map fun item =>
        itemBytes sender (item.2.toDbRecord item.1)).flatten ++
          controlFrame sender .clusterSyncEnd [])
      have hop : (recordFrame sender.clusterName k record).frame.opcode = Opcode.sync.code := rfl
      rw [List.map_cons, List.flatten_cons, List.append_assoc,
        receiveSnapshot_ok h fuel i true hrecv rfl, hop, if_neg hrecord, if_pos ⟨rfl, rfl⟩]
      rcases applyFrame_recordFrame hwf Bdb.ok sender.clusterName k record with
        ⟨hfail, -⟩ | ⟨hne, hwf', -⟩
      · exact absurd hfail (by decide)
      · rw [if_neg hne]
        exact ih (i + 1) (Nat.lt_of_succ_lt_succ hfuel) hwf'

/-- A frame of the snapshot is not empty, so the bytes outnumber the frames. -/
theorem length_lt_flatten (sender : NodeConfig) (items : List (Key × Record)) :
    items.length < (snapshotFrames sender items).flatten.length := by
  have hitem : ∀ item : Key × Record, 0 < (itemBytes sender (item.2.toDbRecord item.1)).length := by
    intro item
    rw [itemBytes, List.length_append, Wire.length_toBytes, frameSize]
    omega
  have hitems : items.length ≤
      (items.map fun item => itemBytes sender (item.2.toDbRecord item.1)).flatten.length := by
    induction items with
    | nil => simp
    | cons item items ih =>
        have := hitem item
        rw [List.map_cons, List.flatten_cons, List.length_append, List.length_cons]
        omega
  have hbegin : 0 < (controlFrame sender .clusterSyncBegin []).length := by
    rw [controlFrame, List.length_append, Wire.length_toBytes, frameSize]
    omega
  rw [snapshotFrames, List.flatten_cons, List.flatten_append, List.length_append,
    List.length_append]
  omega

/-- So the loop of the receiver returns `0` on all the bytes of a snapshot. -/
theorem receiveSnapshot_snapshotFrames (h : Compatible sender receiver)
    (items : List (Key × Record)) {db : Database} (hwf : WellFormed receiver.host db) :
    (receiveSnapshot receiver SnapshotEnv.ok.steps
      ((snapshotFrames sender items).flatten.length + 1) 0 false
      (snapshotFrames sender items).flatten db).1 = 0 := by
  have hrecv := clusterRecvFrame_control sender .clusterSyncBegin length_nil_le
    ((items.map fun item => itemBytes sender (item.2.toDbRecord item.1)).flatten ++
      controlFrame sender .clusterSyncEnd [])
  have hframes : (snapshotFrames sender items).flatten = controlFrame sender .clusterSyncBegin [] ++
      ((items.map fun item => itemBytes sender (item.2.toDbRecord item.1)).flatten ++
        controlFrame sender .clusterSyncEnd []) := by
    rw [snapshotFrames, List.flatten_cons, List.flatten_append, List.flatten_singleton]
  rw [← hframes] at hrecv
  rw [receiveSnapshot_ok h _ 0 false hrecv rfl, opcode_controlReceived, if_pos rfl]
  exact receiveSnapshot_complete h 1 (length_lt_flatten sender items) hwf

/-- What a call sends and does when nothing fails and the exchange, if there is
one, succeeds. -/
theorem requestSnapshot_ok {mac : Mac} {incoming stream : Bytes} {expireAt : Option UInt64}
    {sent : List Bytes}
    (hexchange : clusterHandshakeClient mac receiver ⟨0, true,
      (clusterRecvFrame true incoming).map Prod.fst, true⟩ = (true, expireAt, sent))
    (hstream : (if receiver.clusterSecret = [] then incoming
      else ((clusterRecvFrame true incoming).map Prod.snd).getD []) = stream) (db : Database) :
    requestSnapshot mac receiver .ok incoming db =
      ⟨(receiveSnapshot receiver SnapshotEnv.ok.steps (stream.length + 1) 0 false stream db).1,
        sent ++ [controlFrame receiver .clusterSyncRequest []],
        (receiveSnapshot receiver SnapshotEnv.ok.steps (stream.length + 1) 0 false stream
          db).2⟩ := by
  subst hstream
  simp only [requestSnapshot, SnapshotEnv.ok, hexchange, Bool.not_true, Bool.false_eq_true,
    if_false]

section

variable (mac : Mac) (h : Compatible sender receiver) {store db : Database}
  (hitems : store.entries = items.map fun item => (item.1.1, item.2.blob sender.host))
  (hwf : WellFormed receiver.host db)
include h hitems hwf

theorem exists_transfers_plain (hsecret : sender.clusterSecret = []) :
    ∃ db', Transfers mac sender store receiver db 0 db' := by
  have hsecret' : receiver.clusterSecret = [] := h.secret.trans hsecret
  have hexchange : clusterHandshakeClient mac receiver ⟨0, true,
      (clusterRecvFrame true (snapshotFrames sender items).flatten).map Prod.fst, true⟩ =
        (true, none, []) := if_pos hsecret'
  have hresult := requestSnapshot_ok hexchange (if_pos hsecret') db
  have hserve := serve_syncRequest mac h
    (s := ⟨false, 0, controlFrame receiver .clusterSyncRequest [], ⟨store, []⟩, []⟩) rfl
    (fun hne => absurd hsecret hne) hitems
  refine ⟨_, .ok, (snapshotFrames sender items).flatten, [.ok], [], ?_, ?_, rfl⟩
  · rw [hresult, List.nil_append, List.flatten_singleton, serveConnection, hserve]
    exact List.prefix_refl _
  · rw [hresult]
    exact receiveSnapshot_snapshotFrames h items hwf

theorem exists_transfers_secret (hsecret : sender.clusterSecret ≠ []) :
    ∃ db', Transfers mac sender store receiver db 0 db' := by
  have hsecret' : receiver.clusterSecret ≠ [] := h.secret ▸ hsecret
  -- the sender answers, takes the `AUTH_OK` and serves the request
  have hrecv := clusterRecvFrame_requestBytes receiver 0
    (controlFrame receiver .authOk [] ++ controlFrame receiver .clusterSyncRequest [])
  have hrecv' := clusterRecvFrame_control receiver .authOk length_nil_le
    (controlFrame receiver .clusterSyncRequest [])
  obtain ⟨hgo, hstream, hauth, hexp, hserver, hsent⟩ := connIteration_handshake hsecret mac
    (s := ⟨false, 0, _, ⟨store, []⟩, []⟩) rfl hrecv hrecv' rfl
    (le_valueLen_requestReceived receiver 0) rfl
  have hserve := serve_syncRequest mac h hstream (fun _ => ⟨hauth, by rw [hexp]; decide⟩)
    (by rw [hserver]; exact hitems)
  -- the receiver accepts the answer
  have hanswer := clusterRecvFrame_responseFrame mac receiver sender 0 .ok
    (snapshotFrames sender items).flatten
  have hcheck : checkAuthResponse mac receiver 0 (responseReceived mac sender 0 .ok) =
      some (ConnEnv.ok.requestClock + authTtlMicros) := by
    rw [checkAuthResponse_responseReceived mac receiver sender 0 .ok, if_pos]
    rw [serverInput, requestNonce_requestReceived, h.secret, h.host hsecret]
  have hexchange : clusterHandshakeClient mac receiver ⟨0, true,
      (clusterRecvFrame true (responseFrame mac sender .ok (requestReceived receiver 0) ++
        (snapshotFrames sender items).flatten)).map Prod.fst, true⟩ =
      (true, some (ConnEnv.ok.requestClock + authTtlMicros),
        [requestBytes receiver 0, controlFrame receiver .authOk []]) := by
    rw [hanswer, Option.map_some, clusterHandshakeClient, if_neg hsecret', authExchange,
      if_neg (by simp), Option.bind_some, hcheck]
    rfl
  have hrest : (if receiver.clusterSecret = [] then
      responseFrame mac sender .ok (requestReceived receiver 0) ++
        (snapshotFrames sender items).flatten
      else ((clusterRecvFrame true (responseFrame mac sender .ok (requestReceived receiver 0) ++
        (snapshotFrames sender items).flatten)).map Prod.snd).getD []) =
      (snapshotFrames sender items).flatten := by
    rw [if_neg hsecret', hanswer]
    rfl
  have hresult := requestSnapshot_ok hexchange hrest db
  refine ⟨_, .ok, responseFrame mac sender .ok (requestReceived receiver 0) ++
    (snapshotFrames sender items).flatten, [.ok, .ok], [], ?_, ?_, rfl⟩
  · have hflatten : ([requestBytes receiver 0, controlFrame receiver .authOk []] ++
          [controlFrame receiver .clusterSyncRequest []]).flatten =
        requestBytes receiver 0 ++
          (controlFrame receiver .authOk [] ++ controlFrame receiver .clusterSyncRequest []) := by
      rw [List.flatten_append, List.flatten_singleton, List.flatten_cons, List.flatten_singleton,
        List.append_assoc]
    rw [hresult, hflatten, serveConnection, handleClusterConnection_cons, if_pos hgo, hserve, hsent]
    exact List.prefix_refl _
  · rw [hresult]
    exact receiveSnapshot_snapshotFrames h items hwf

end

/-- **A transfer can succeed**, whatever the stores. -/
theorem exists_transfers (mac : Mac) (h : Compatible sender receiver) {store db : Database}
    (hstore : WellFormed sender.host store) (hwf : WellFormed receiver.host db) :
    ∃ db', Transfers mac sender store receiver db 0 db' := by
  obtain ⟨items, hitems, -⟩ := exists_items hstore
  by_cases hsecret : sender.clusterSecret = []
  · exact exists_transfers_plain mac h hitems hwf hsecret
  · exact exists_transfers_secret mac h hitems hwf hsecret

end Succeeds

/-- **A snapshot transfer is the join of the two stores.**  Whatever the stores
of sender and receiver: after any number of transfers cut short and one that
returns `0`, the receiver holds under every key the record with the greater
stamp, its own on a tie; and it holds what one transfer that returns `0` at once
would have left. -/
theorem transfers_join {mac : Mac} {sender receiver : NodeConfig} {store db db₁ db₂ : Database}
    (hstore : Reachable sender.host store) (hdb : Reachable receiver.host db)
    (hcut : Relation.ReflTransGen (fun d d' => ∃ rc, Transfers mac sender store receiver d rc d')
      db db₁)
    (hlast : Transfers mac sender store receiver db₁ 0 db₂) :
    contents receiver.host db₂ =
        joined (contents receiver.host db) (contents sender.host store) ∧
      ∀ db', Transfers mac sender store receiver db 0 db' → db₂ = db' := by
  obtain ⟨hwf₁, hjoined⟩ := joined_of_attempts hstore.wellFormed hdb.wellFormed hcut
  obtain ⟨hwf₂, -, hcontents⟩ := contents_of_transfers hlast hstore.wellFormed hwf₁
  rw [hjoined] at hcontents
  refine ⟨hcontents rfl, fun db' honce => ?_⟩
  obtain ⟨hwf', -, honce⟩ := contents_of_transfers honce hstore.wellFormed hdb.wellFormed
  exact hwf₂.ext hwf' ((hcontents rfl).trans (honce rfl).symm)

/-- A record from a node with a secret reaches one that holds an older tombstone
under the key. -/
theorem transfers_join_record :
    let store := ((Call.setWithMeta Bdb.ok (Buf.ofBytes [107]) 5 1 (Buf.ofBytes [118]) 0).exec
      .little 1 OrderedMap.empty).2
    let db := ((Call.delKey Bdb.ok (Buf.ofBytes [107]) 3).exec .little 2 OrderedMap.empty).2
    let receiver := { plainNode with myNodeId := 2 }
    ∃ db', Transfers .constant plainNode store receiver db 0 db' ∧
      contents .little db' = joined (contents .little db) (contents .little store) := by
  intro store db receiver
  have hstore : Reachable plainNode.host store := .call 1 _ .empty
  have hdb : Reachable receiver.host db := .call 2 _ .empty
  have hcompatible : Compatible plainNode receiver :=
    ⟨rfl, fun hne => absurd rfl hne, rfl, fun _ => rfl, by decide⟩
  obtain ⟨db', h⟩ := exists_transfers .constant hcompatible hstore.wellFormed hdb.wellFormed
  exact ⟨db', h, (transfers_join hstore hdb .refl h).1⟩

end Dmmr.Cluster
