import Dmmr.Cluster.Knowledge
import Dmmr.Store.Readers
import Mathlib.Data.Set.List

/-!
# Snapshots

A node that joins asks a seed for a snapshot: `send_snapshot` runs through the
sender's store and sends every record, between a frame that begins the snapshot
and one that ends it, and `request_snapshot` applies the records as they come.

Each side is described apart from the other.  The sender answers a client that
asks for a snapshot with its beginning (`transcript_of_asks`), and of the bytes of
a snapshot the receiver offers the records to its store one after the other, all
of them if it returns `0` (`receiveSnapshot_transcript`).
-/

namespace Dmmr.Cluster

open Words Store Wire Node

/-! ## The receiver -/

/-- What the environment does in one iteration of the loop of
`request_snapshot`. -/
structure SnapshotStep where
  running : Bool
  allocOk : Bool
  bdb : Bdb

/-- What it does in one call: whether the seed can be reached, the nonce and the
sends and the allocation of the authentication exchange, whether the request can
be sent, and the iterations. -/
structure SnapshotEnv where
  connectOk : Bool
  nonceA : UInt64
  requestSendOk : Bool
  responseAllocOk : Bool
  okSendOk : Bool
  syncSendOk : Bool
  steps : ℕ → SnapshotStep

/-- The store call for an `OP_SYNC` frame of a snapshot. -/
def applyFrame (cfg : NodeConfig) (bdb : Bdb) (db : Database) (r : Received) :
    DbResult × Database :=
  dbApplyRecord cfg.host bdb db r.key r.frame.timestamp r.frame.nodeId r.frame.expireAt
    (r.frame.flags &&& flagTombstone != 0) r.value

/-- What the loop of `request_snapshot` makes of a frame. -/
inductive SnapshotAction
  | start
  | record
  | finish
  | fail
  deriving DecidableEq, Repr

/-- The checks of the loop, in their order. -/
def snapshotAction (cfg : NodeConfig) (sawBegin : Bool) (r : Received) : SnapshotAction :=
  if !authenticateClusterFrame cfg.clusterName r.frame then .fail
  else if r.frame.opcode = Opcode.clusterSyncBegin.code then .start
  else if r.frame.opcode = Opcode.sync.code ∧ sawBegin = true then .record
  else if r.frame.opcode = Opcode.clusterSyncEnd.code ∧ sawBegin = true then .finish
  else .fail

/-- The loop of `request_snapshot` on the bytes that arrive: the return code and
the store.  Every iteration that goes on takes a frame off the stream. -/
def receiveSnapshot (cfg : NodeConfig) (steps : ℕ → SnapshotStep) :
    ℕ → ℕ → Bool → Bytes → Database → Int × Database
  | 0, _, _, _, db => (-1, db)
  | fuel + 1, i, sawBegin, stream, db =>
      if !(steps i).running then (-1, db)
      else
        match clusterRecvFrame (steps i).allocOk stream with
        | none => (-1, db)
        | some (r, stream) =>
            match snapshotAction cfg sawBegin r with
            | .fail => (-1, db)
            | .start => receiveSnapshot cfg steps fuel (i + 1) true stream db
            | .record =>
                match applyFrame cfg (steps i).bdb db r with
                | (.error, db) => (-1, db)
                | (_, db) => receiveSnapshot cfg steps fuel (i + 1) sawBegin stream db
            | .finish => (0, db)

/-- What `request_snapshot` returns, sends and leaves in the store. -/
structure SnapshotResult where
  rc : Int
  sent : List Bytes
  db : Database

/-- `request_snapshot`, with the bytes that arrive on the connection. -/
def requestSnapshot (mac : Mac) (cfg : NodeConfig) (env : SnapshotEnv) (incoming : Bytes)
    (db : Database) : SnapshotResult :=
  if !env.connectOk then ⟨-1, [], db⟩
  else
    let response := clusterRecvFrame env.responseAllocOk incoming
    match clusterHandshakeClient mac cfg
      ⟨env.nonceA, env.requestSendOk, response.map Prod.fst, env.okSendOk⟩ with
    | (false, _, sent) => ⟨-1, sent, db⟩
    | (true, _, sent) =>
        if !env.syncSendOk then ⟨-1, sent, db⟩
        else
          -- without a secret nothing has been read yet
          let stream := if cfg.clusterSecret = [] then incoming else (response.map Prod.snd).getD []
          let (rc, db) := receiveSnapshot cfg env.steps (stream.length + 1) 0 false stream db
          ⟨rc, sent ++ [controlFrame cfg .clusterSyncRequest []], db⟩

/-! ## What is sent -/

/-- The bytes of the frame of a record. -/
def itemBytes (cfg : NodeConfig) (record : DbRecord) : Bytes :=
  (sentHeader cfg.clusterName Opcode.sync.code
    (if record.tombstone then flagTombstone else flagNone) record.key.length record.value.length
    record.timestamp record.nodeId record.expireAt).toBytes ++ (record.key ++ record.value)

/-- All the frames of a snapshot. -/
def snapshotFrames (cfg : NodeConfig) (items : List (Key × Record)) : List Bytes :=
  controlFrame cfg .clusterSyncBegin [] ::
    (items.map (fun item => itemBytes cfg (item.2.toDbRecord item.1)) ++
      [controlFrame cfg .clusterSyncEnd []])

theorem recv_itemBytes (cfg : NodeConfig) (k : Key) (r : Record) (rest : Bytes) :
    clusterRecvFrame true (itemBytes cfg (r.toDbRecord k) ++ rest) =
      some (recordFrame cfg.clusterName k r, rest) :=
  clusterRecvFrame_send cfg.clusterName Opcode.sync.code _ k.2.2 r.length_value_le r.timestamp
    r.nodeId r.expireAt rest

theorem blob_injective (host : Endian) : Function.Injective (Record.blob host) := by
  intro r r' h
  have hdecode := congrArg (decodeRecord host) h
  rw [decodeRecord_blob, decodeRecord_blob] at hdecode
  exact Option.some.inj hdecode

/-- The records of a store, in the order of the cursor. -/
theorem exists_items {host : Endian} {db : Database} (hwf : WellFormed host db) :
    ∃ items : List (Key × Record),
      db.entries = items.map (fun item => (item.1.1, item.2.blob host)) ∧
      (items.map Prod.fst).Nodup ∧ ∀ k r, (k, r) ∈ items ↔ contents host db k = some r := by
  have hall : db.entries ∈
      Set.range (List.map fun item : Key × Record => (item.1.1, item.2.blob host)) := by
    rw [Set.range_list_map]
    rintro ⟨key, data⟩ hmem
    obtain ⟨hkey, r, rfl⟩ := hwf _ _ (db.get?_eq_some_iff_mem.mpr hmem)
    exact ⟨(⟨key, hkey⟩, r), rfl⟩
  obtain ⟨items, hitems⟩ := hall
  refine ⟨items, hitems.symm, ?_, fun k r => ?_⟩
  · have hsorted := db.sorted
    rw [← hitems, List.pairwise_map] at hsorted
    refine List.pairwise_map.mpr (hsorted.imp fun hlt heq => ?_)
    exact hlt.ne (congrArg Subtype.val heq)
  · have hentry : (k, r) ∈ items ↔ (k.1, r.blob host) ∈ db.entries := by
      rw [← hitems, List.mem_map]
      constructor
      · intro hmem
        exact ⟨(k, r), hmem, rfl⟩
      · rintro ⟨⟨k', r'⟩, hmem, heq⟩
        obtain ⟨hkey, hblob⟩ := Prod.mk.inj heq
        obtain rfl : k' = k := Subtype.ext hkey
        obtain rfl : r' = r := blob_injective host hblob
        exact hmem
    rw [hentry, ← db.get?_eq_some_iff_mem, hwf.get?_eq k]
    simp [(blob_injective host).eq_iff]

theorem sendSnapshotItem_eq (cfg : NodeConfig) (sendOk : ℕ → Bool) (k : Key) (r : Record)
    (sent : List Bytes) :
    sendSnapshotItem cfg sendOk (r.toDbRecord k) sent =
      if sendOk sent.length then (0, sent ++ [itemBytes cfg (r.toDbRecord k)]) else (-1, sent) := by
  have hsend : clusterSendFrame cfg.clusterName Opcode.sync.code
      (if (r.toDbRecord k).tombstone then flagTombstone else flagNone)
      (Buf.ofBytes (r.toDbRecord k).key) (Buf.ofBytes (r.toDbRecord k).value)
      (r.toDbRecord k).timestamp (r.toDbRecord k).nodeId (r.toDbRecord k).expireAt =
        some (itemBytes cfg (r.toDbRecord k)) :=
    clusterSendFrame_of_le cfg.clusterName Opcode.sync.code _ k.2.2 r.length_value_le ..
  simp only [sendSnapshotItem, hsend]

/-- The cursor loop sends the records from its position on, in order, and all of
them if it succeeds, as it does if nothing fails. -/
theorem snapshotLoop_send {cfg : NodeConfig} {db : Database} (sendOk : ℕ → Bool)
    (calls : ℕ → Bdb) (fuel i : ℕ) (pos : Option Bytes) (sent : List Bytes)
    {items : List (Key × Record)}
    (hrest : db.rest pos = items.map fun item => (item.1.1, item.2.blob cfg.host)) :
    ∃ res more,
      snapshotLoop cfg.host db (sendSnapshotItem cfg sendOk) calls fuel i pos sent =
        (res, sent ++ more) ∧
      more <+: items.map (fun item => itemBytes cfg (item.2.toDbRecord item.1)) ∧
      (res = .applied → more = items.map fun item => itemBytes cfg (item.2.toDbRecord item.1)) ∧
      ((∀ i, calls i = Bdb.ok) → (∀ i, sendOk i = true) → items.length < fuel →
        res = .applied) := by
  induction fuel generalizing i pos sent items with
  | zero =>
      exact ⟨.error, [], by simp [snapshotLoop], List.nil_prefix, by simp,
        fun _ _ h => absurd h (Nat.not_lt_zero _)⟩
  | succ fuel ih =>
      rw [snapshotLoop]
      by_cases hget : (calls i).getOk = true
      · rw [if_neg (by simp [hget])]
        cases hnext : db.next? pos with
        | none =>
            rw [db.rest_eq_nil hnext, eq_comm, List.map_eq_nil_iff] at hrest
            subst hrest
            exact ⟨.applied, [], by simp⟩
        | some entry =>
            obtain ⟨key, data⟩ := entry
            rw [db.rest_eq_cons hnext] at hrest
            obtain ⟨⟨k, r⟩, items, rfl, hentry, hrest⟩ := List.map_eq_cons_iff.mp hrest.symm
            obtain ⟨rfl, rfl⟩ := Prod.mk.inj hentry
            have hvalid : ¬ (!entryIsValid cfg.host (r.blob cfg.host) || k.1.length == 0 ||
                decide (k.1.length > maxKeyLen)) = true := by
              simp [k.2.1, k.2.2]
            simp only [if_neg hvalid, snapshotRecord_blob, sendSnapshotItem_eq]
            by_cases halloc : (calls i).allocOk = true
            · rw [if_neg (by simp [halloc])]
              by_cases hsend : sendOk sent.length = true
              · simp only [if_pos hsend, bne_self_eq_false, Bool.false_eq_true, if_false]
                obtain ⟨res, more, hloop, hpre, hall, hsmooth⟩ := ih (i + 1) (some k.1)
                  (sent ++ [itemBytes cfg (r.toDbRecord k)]) hrest.symm
                refine ⟨res, itemBytes cfg (r.toDbRecord k) :: more, ?_, ?_, ?_, ?_⟩
                · rw [hloop, List.append_assoc, List.singleton_append]
                · rw [List.map_cons]
                  exact (List.prefix_cons_inj _).mpr hpre
                · intro happlied
                  rw [hall happlied, List.map_cons]
                · intro hcalls hsends hlen
                  exact hsmooth hcalls hsends (by simpa using hlen)
              · simp only [if_neg hsend]
                exact ⟨.error, [], by simp, List.nil_prefix, by simp,
                  fun _ hsends => absurd (hsends _) hsend⟩
            · rw [if_pos (by simp [halloc])]
              exact ⟨.error, [], by simp, List.nil_prefix, by simp,
                fun hcalls => absurd (by rw [hcalls]; rfl) halloc⟩
      · rw [if_pos (by simpa using hget)]
        exact ⟨.error, [], by simp, List.nil_prefix, by simp,
          fun hcalls => absurd (by rw [hcalls]; rfl) hget⟩

/-- What `send_snapshot` sends is the beginning of the snapshot. -/
theorem sendSnapshot_isPrefix {cfg : NodeConfig} {db : Database} (env : ConnEnv)
    {items : List (Key × Record)}
    (hitems : db.entries = items.map fun item => (item.1.1, item.2.blob cfg.host)) :
    sendSnapshot cfg env db <+: snapshotFrames cfg items := by
  unfold sendSnapshot
  by_cases hfirst : env.sendOk 0 = true
  · rw [if_neg (by simp [hfirst]), dbSnapshotForeach]
    have hbegin : [controlFrame cfg .clusterSyncBegin []] <+: snapshotFrames cfg items :=
      ⟨_, rfl⟩
    by_cases hhandle : (!env.bdb.handle || !env.bdb.getOk) = true
    · rw [if_pos hhandle]
      exact hbegin
    · rw [if_neg hhandle]
      obtain ⟨res, more, hloop, hpre, hall, -⟩ := snapshotLoop_send env.sendOk env.snapshotCalls
        (db.entries.length + 1) 0 none [controlFrame cfg .clusterSyncBegin []]
        (hitems ▸ OrderedMap.rest_none db)
      rw [hloop]
      -- the records sent, and whatever else follows the first frame
      have hmore : ∀ {tail}, tail <+: items.map (fun item =>
          itemBytes cfg (item.2.toDbRecord item.1)) ++ [controlFrame cfg .clusterSyncEnd []] →
          [controlFrame cfg .clusterSyncBegin []] ++ tail <+: snapshotFrames cfg items :=
        fun h => (List.prefix_append_right_inj _).mpr h
      have hpart := hmore (hpre.trans (List.prefix_append _ _))
      cases res with
      | applied =>
          simp only
          split_ifs
          · rw [List.append_assoc, hall rfl]
            exact hmore (List.prefix_refl _)
          · exact hpart
      | ignored => exact hpart
      | error => exact hpart
      | notFound => exact hpart
  · rw [if_pos (by simpa using hfirst)]
    exact List.nil_prefix

/-! ## The sender's side of a connection -/

/-- The frames of a client that authenticates and then asks for a snapshot, or
the beginning of them. -/
def Asks : List Received → Prop
  | [] => True
  | r :: rs =>
      (r.frame.opcode = Opcode.clusterSyncRequest.code ∧ rs = []) ∨
        ((r.frame.opcode = Opcode.authRequest.code ∨ r.frame.opcode = Opcode.authOk.code) ∧ Asks rs)

/-- The frame answers an `AUTH_REQUEST`. -/
def IsAnswer (cfg : NodeConfig) (bytes : Bytes) : Prop :=
  ∃ value : Bytes, value.length ≤ maxValueLen ∧ bytes = controlFrame cfg .authResponse value

/-- Answers, and then the beginning of a snapshot. -/
def Transcript (cfg : NodeConfig) (items : List (Key × Record)) (sent : List Bytes) : Prop :=
  ∃ answers snapshot, sent = answers ++ snapshot ∧ (∀ bytes ∈ answers, IsAnswer cfg bytes) ∧
    snapshot <+: snapshotFrames cfg items

section Sender

variable {mac : Mac} {cfg : NodeConfig} {items : List (Key × Record)}

theorem isAnswer_responseFrame (env : ConnEnv) (r : Received) :
    IsAnswer cfg (responseFrame mac cfg env r) := by
  refine ⟨_, ?_, rfl⟩
  rw [length_authResponse]
  decide

theorem transcript_of_answers {sent : List Bytes} (h : ∀ bytes ∈ sent, IsAnswer cfg bytes) :
    Transcript cfg items sent :=
  ⟨sent, [], (List.append_nil _).symm, h, List.nil_prefix⟩

/-- Dispatching a frame of such a client adds nothing to what was sent, or the
beginning of a snapshot after the last frame. -/
theorem dispatch_of_asks (env : ConnEnv) {r : Received} {rs : List Received} (h : Asks (r :: rs))
    (s : ConnState) :
    (dispatch cfg env r s).2 = s ∧ Asks rs ∨
      rs = [] ∧ (dispatch cfg env r s).2 =
        { s with sent := s.sent ++ sendSnapshot cfg env s.server.db } := by
  unfold dispatch
  rcases h with ⟨hop, rfl⟩ | ⟨hop, hrs⟩
  · rw [if_pos hop]
    split_ifs
    · exact Or.inl ⟨rfl, trivial⟩
    · exact Or.inr ⟨rfl, rfl⟩
    · exact Or.inl ⟨rfl, trivial⟩
  · have hrequest : r.frame.opcode ≠ Opcode.clusterSyncRequest.code := by
      rcases hop with hop | hop <;> rw [hop] <;> decide
    have hsync : r.frame.opcode ≠ Opcode.sync.code := by
      rcases hop with hop | hop <;> rw [hop] <;> decide
    rw [if_neg hrequest, if_neg hsync]
    split_ifs <;> exact Or.inl ⟨rfl, hrs⟩

/-- To such a client the sender sends answers and the beginning of a snapshot. -/
theorem transcript_of_asks (envs : List ConnEnv) {s : ConnState} (hasks : Asks (frames s.stream))
    (hsent : ∀ bytes ∈ s.sent, IsAnswer cfg bytes)
    (hitems : s.server.db.entries = items.map fun item => (item.1.1, item.2.blob cfg.host)) :
    Transcript cfg items (handleClusterConnection mac cfg envs s).sent := by
  induction envs generalizing s with
  | nil => exact transcript_of_answers hsent
  | cons env envs ih =>
      rw [handleClusterConnection_cons]
      rcases connIteration_cases mac cfg env s with heq | ⟨r, rest, hrecv, hcases⟩
      · rw [heq]
        exact transcript_of_answers hsent
      · rw [frames_of_recv hrecv] at hasks
        rcases hcases with heq | ⟨hhello, -⟩ | ⟨-, hrequest, heq⟩ | ⟨-, heq⟩
        · rw [heq]
          exact transcript_of_answers hsent
        · rcases hasks with ⟨hop, -⟩ | ⟨hop | hop, -⟩ <;> rw [hhello] at hop <;>
            exact absurd hop (by decide)
        · -- the answer is added, and the loop goes on behind the `AUTH_OK`
          have hanswer : ∀ bytes ∈ s.sent ++ [responseFrame mac cfg env r], IsAnswer cfg bytes := by
            intro bytes hbytes
            rcases List.mem_append.mp hbytes with hbytes | hbytes
            · exact hsent bytes hbytes
            · rw [List.mem_singleton.mp hbytes]
              exact isAnswer_responseFrame env r
          rw [heq]
          rcases serverHandshake_cases mac cfg env r { s with stream := rest } with
            hstop | ⟨stream, hstop⟩ | ⟨ok, rest', -, hrecv', hok, hcont⟩
          · rw [hstop]
            exact transcript_of_answers hsent
          · rw [hstop]
            exact transcript_of_answers hanswer
          · have hafter : Asks (frames rest') := by
              have hne : Opcode.authRequest.code ≠ Opcode.clusterSyncRequest.code := by decide
              have hne' : Opcode.authOk.code ≠ Opcode.clusterSyncRequest.code := by decide
              simp only [frames_of_recv (clusterRecvFrame_inv hrecv').1, Asks, hrequest, hok, hne,
                hne', false_and, true_or, or_true, true_and, false_or] at hasks
              exact hasks
            rw [hcont]
            exact ih hafter hanswer hitems
        · rw [heq]
          rcases dispatch_of_asks env hasks { s with stream := rest } with
            ⟨hsame, hafter⟩ | ⟨hend, hsnap⟩
          · rw [hsame]
            split_ifs
            · exact ih hafter hsent hitems
            · exact transcript_of_answers hsent
          · rw [hsnap, handleClusterConnection_of_end mac cfg envs hend, ite_self]
            exact ⟨s.sent, _, rfl, hsent, sendSnapshot_isPrefix env hitems⟩

end Sender

/-! ## The receiver's side -/

/-- Some of the records have been offered to the store, from the first on; all
of them if the code is `0`. -/
def Offered (host : Endian) (items : List (Key × Record)) (db : Database)
    (result : Int × Database) : Prop :=
  WellFormed host result.2 ∧ ∃ offered, offered <+: items ∧
    contents host result.2 = LastWrite.offerEach Record.stamp (contents host db) offered ∧
    (result.1 = 0 → offered = items)

theorem offered_of_failed {host : Endian} {items : List (Key × Record)} {db : Database}
    (hwf : WellFormed host db) : Offered host items db (-1, db) :=
  ⟨hwf, [], List.nil_prefix, rfl, by simp⟩

section Receiver

variable {sender cfg : NodeConfig} {steps : ℕ → SnapshotStep}

/-- A record that is applied, or that loses, has been offered. -/
theorem applyFrame_recordFrame {db : Database} (hwf : WellFormed cfg.host db) (bdb : Bdb)
    (name : Bytes) (k : Key) (r : Record) :
    (bdb.succeeds = false ∧ applyFrame cfg bdb db (recordFrame name k r) = (.error, db)) ∨
      ((applyFrame cfg bdb db (recordFrame name k r)).1 ≠ .error ∧
        WellFormed cfg.host (applyFrame cfg bdb db (recordFrame name k r)).2 ∧
        contents cfg.host (applyFrame cfg bdb db (recordFrame name k r)).2 =
          LastWrite.offerEach Record.stamp (contents cfg.host db) [(k, r)]) := by
  unfold applyFrame
  rcases dbApplyRecord_cases hwf bdb (requested_recordFrame name k r) with
    ⟨-, hlt, h⟩ | ⟨hfail, h⟩ | ⟨old, hold, hlt, h⟩
  · refine Or.inr ?_
    rw [h]
    refine ⟨by simp, hwf.put k r, ?_⟩
    rw [contents_put, LastWrite.offerEach_singleton]
    congr 1
    cases hold : contents cfg.host db k with
    | none => rfl
    | some old => exact (LastWrite.offer_of_lt (hlt old hold)).symm
  · exact Or.inl ⟨hfail, h⟩
  · refine Or.inr ?_
    rw [h]
    refine ⟨by simp, hwf, ?_⟩
    rw [LastWrite.offerEach_singleton, hold, LastWrite.offer_of_not_lt hlt, ← hold,
      Function.update_eq_self]

/-- Whatever is not a failure has been authenticated and is told by its opcode. -/
theorem snapshotAction_cases (cfg : NodeConfig) (sawBegin : Bool) (r : Received) :
    snapshotAction cfg sawBegin r = .fail ∨
      (snapshotAction cfg sawBegin r = .start ∧
        authenticateClusterFrame cfg.clusterName r.frame = true ∧
        r.frame.opcode = Opcode.clusterSyncBegin.code) ∨
      (snapshotAction cfg sawBegin r = .record ∧
        authenticateClusterFrame cfg.clusterName r.frame = true ∧
        r.frame.opcode = Opcode.sync.code ∧ sawBegin = true) ∨
      (snapshotAction cfg sawBegin r = .finish ∧
        authenticateClusterFrame cfg.clusterName r.frame = true ∧
        r.frame.opcode = Opcode.clusterSyncEnd.code ∧ sawBegin = true) := by
  unfold snapshotAction
  split_ifs with hauth hbegin hsync hend
  · exact Or.inl rfl
  · exact Or.inr (Or.inl ⟨rfl, by simpa using hauth, hbegin⟩)
  · exact Or.inr (Or.inr (Or.inl ⟨rfl, by simpa using hauth, hsync⟩))
  · exact Or.inr (Or.inr (Or.inr ⟨rfl, by simpa using hauth, hend⟩))
  · exact Or.inl rfl

/-- An iteration fails, or takes a frame that begins the snapshot, carries a
record or ends the snapshot. -/
theorem receiveSnapshot_cases (fuel i : ℕ) (sawBegin : Bool) (stream : Bytes) (db : Database) :
    receiveSnapshot cfg steps (fuel + 1) i sawBegin stream db = (-1, db) ∨
      ∃ r rest, clusterRecvFrame true stream = some (r, rest) ∧
        (r.frame.opcode = Opcode.clusterSyncBegin.code ∧
            receiveSnapshot cfg steps (fuel + 1) i sawBegin stream db =
              receiveSnapshot cfg steps fuel (i + 1) true rest db ∨
          r.frame.opcode = Opcode.sync.code ∧ sawBegin = true ∧
            receiveSnapshot cfg steps (fuel + 1) i sawBegin stream db =
              (if (applyFrame cfg (steps i).bdb db r).1 = .error then
                (-1, (applyFrame cfg (steps i).bdb db r).2)
              else receiveSnapshot cfg steps fuel (i + 1) true rest
                (applyFrame cfg (steps i).bdb db r).2) ∨
          r.frame.opcode = Opcode.clusterSyncEnd.code ∧ sawBegin = true ∧
            receiveSnapshot cfg steps (fuel + 1) i sawBegin stream db = (0, db)) := by
  rw [receiveSnapshot]
  split_ifs
  · exact Or.inl rfl
  · cases hrecv : clusterRecvFrame (steps i).allocOk stream with
    | none => exact Or.inl rfl
    | some p =>
        obtain ⟨r, rest⟩ := p
        have hrecv' : clusterRecvFrame true stream = some (r, rest) :=
          (clusterRecvFrame_inv hrecv).1
        simp only
        rcases snapshotAction_cases cfg sawBegin r with
          h | ⟨h, -, hop⟩ | ⟨h, -, hop, rfl⟩ | ⟨h, -, hop, rfl⟩
        · rw [h]
          exact Or.inl rfl
        · rw [h]
          exact Or.inr ⟨r, rest, hrecv', Or.inl ⟨hop, rfl⟩⟩
        · rw [h]
          refine Or.inr ⟨r, rest, hrecv', Or.inr (Or.inl ⟨hop, rfl, ?_⟩)⟩
          obtain ⟨res, db'⟩ := applyFrame cfg (steps i).bdb db r
          cases res <;> rfl
        · rw [h]
          exact Or.inr ⟨r, rest, hrecv', Or.inr (Or.inr ⟨hop, rfl, rfl⟩)⟩

/-- After the frame that begins it, the receiver applies the records of a
snapshot in order until something fails or it gets to the end. -/
theorem receiveSnapshot_items (fuel i : ℕ) {items : List (Key × Record)} {stream : Bytes}
    (hstream : stream <+: (items.map fun item =>
      itemBytes sender (item.2.toDbRecord item.1)).flatten ++
        controlFrame sender .clusterSyncEnd []) {db : Database} (hwf : WellFormed cfg.host db) :
    Offered cfg.host items db (receiveSnapshot cfg steps fuel i true stream db) := by
  have hbegin : Opcode.sync.code ≠ Opcode.clusterSyncBegin.code := by decide
  have hbegin' : Opcode.clusterSyncEnd.code ≠ Opcode.clusterSyncBegin.code := by decide
  have hsync' : Opcode.clusterSyncEnd.code ≠ Opcode.sync.code := by decide
  induction items generalizing fuel i stream db with
  | nil =>
      cases fuel with
      | zero => exact offered_of_failed hwf
      | succ fuel =>
          rcases receiveSnapshot_cases fuel i true stream db with h | ⟨r, rest, hrecv, hcases⟩
          · rw [h]
            exact offered_of_failed hwf
          · rw [List.map_nil, List.flatten_nil, List.nil_append, ← List.append_nil
              (controlFrame sender .clusterSyncEnd [])] at hstream
            obtain ⟨rfl, -⟩ := recv_of_isPrefix
              (clusterRecvFrame_control sender .clusterSyncEnd length_nil_le) hstream hrecv
            rcases hcases with ⟨hop, -⟩ | ⟨hop, -⟩ | ⟨-, -, h⟩
            · exact absurd hop hbegin'
            · exact absurd hop hsync'
            · rw [h]
              exact ⟨hwf, [], List.nil_prefix, rfl, fun _ => rfl⟩
  | cons item items ih =>
      obtain ⟨k, record⟩ := item
      cases fuel with
      | zero => exact offered_of_failed hwf
      | succ fuel =>
          rcases receiveSnapshot_cases fuel i true stream db with h | ⟨r, rest, hrecv, hcases⟩
          · rw [h]
            exact offered_of_failed hwf
          · rw [List.map_cons, List.flatten_cons, List.append_assoc] at hstream
            obtain ⟨rfl, hrest⟩ := recv_of_isPrefix (recv_itemBytes sender k record) hstream hrecv
            rcases hcases with ⟨hop, -⟩ | ⟨-, -, h⟩ | ⟨hop, -⟩
            · exact absurd hop hbegin
            · rcases applyFrame_recordFrame hwf (steps i).bdb sender.clusterName k record with
                ⟨-, hfail⟩ | ⟨hne, hwf', hcontents⟩
              · rw [h, hfail, if_pos rfl]
                exact offered_of_failed hwf
              · rw [h, if_neg hne]
                obtain ⟨hwf'', offered, hpre, heq, hall⟩ := ih fuel (i + 1) hrest hwf'
                refine ⟨hwf'', (k, record) :: offered, (List.prefix_cons_inj _).mpr hpre, ?_, ?_⟩
                · rw [heq, hcontents]
                  rfl
                · intro hrc
                  rw [hall hrc]
            · exact absurd hop.symm hsync'

/-- The bytes of a transcript begin like the snapshot, unless an answer comes
first. -/
theorem Transcript.isPrefix {items : List (Key × Record)} {sent : List Bytes} {stream : Bytes}
    (hsent : Transcript sender items sent) (hstream : stream <+: sent.flatten) :
    stream <+: (snapshotFrames sender items).flatten ∨
      ∃ (value : Bytes) (more : List Bytes), value.length ≤ maxValueLen ∧
        stream <+: controlFrame sender .authResponse value ++ more.flatten ∧
        Transcript sender items more := by
  obtain ⟨answers, snapshot, rfl, hanswers, hpre⟩ := hsent
  cases answers with
  | nil =>
      obtain ⟨more, hmore⟩ := hpre
      rw [← hmore, List.flatten_append]
      exact Or.inl (hstream.trans (List.prefix_append _ _))
  | cons bytes answers =>
      obtain ⟨⟨value, hvalue, rfl⟩, hrest⟩ := List.forall_mem_cons.mp hanswers
      exact Or.inr ⟨value, answers ++ snapshot, hvalue, hstream, answers, snapshot, rfl, hrest,
        hpre⟩

/-- The receiver of a transcript gets at the records only if nothing precedes
the snapshot. -/
theorem receiveSnapshot_transcript (fuel : ℕ) {items : List (Key × Record)} {sent : List Bytes}
    (hsent : Transcript sender items sent) {stream : Bytes} (hstream : stream <+: sent.flatten)
    {db : Database} (hwf : WellFormed cfg.host db) :
    Offered cfg.host items db (receiveSnapshot cfg steps fuel 0 false stream db) := by
  cases fuel with
  | zero => exact offered_of_failed hwf
  | succ fuel =>
      rcases receiveSnapshot_cases fuel 0 false stream db with h | ⟨r, rest, hrecv, hcases⟩
      · rw [h]
        exact offered_of_failed hwf
      · obtain ⟨hbegin, h⟩ : r.frame.opcode = Opcode.clusterSyncBegin.code ∧
            receiveSnapshot cfg steps (fuel + 1) 0 false stream db =
              receiveSnapshot cfg steps fuel 1 true rest db := by
          rcases hcases with hcases | ⟨-, hfalse, -⟩ | ⟨-, hfalse, -⟩
          · exact hcases
          · exact absurd hfalse (by simp)
          · exact absurd hfalse (by simp)
        rcases hsent.isPrefix hstream with hsnapshot | ⟨value, more, hvalue, hanswer, -⟩
        · rw [snapshotFrames, List.flatten_cons, List.flatten_append, List.flatten_singleton]
            at hsnapshot
          obtain ⟨-, hrest⟩ := recv_of_isPrefix
            (clusterRecvFrame_control sender .clusterSyncBegin length_nil_le) hsnapshot hrecv
          rw [h]
          exact receiveSnapshot_items fuel 1 hrest hwf
        · obtain ⟨rfl, -⟩ := recv_of_isPrefix
            (clusterRecvFrame_control sender .authResponse hvalue) hanswer hrecv
          rw [opcode_controlReceived] at hbegin
          exact absurd (Opcode.code_injective hbegin) (by decide)

/-- The transcript goes on behind an answer. -/
theorem Transcript.tail {items : List (Key × Record)} {sent : List Bytes} {stream rest : Bytes}
    (hsent : Transcript sender items sent) (hstream : stream <+: sent.flatten) {r : Received}
    (hrecv : clusterRecvFrame true stream = some (r, rest))
    (hop : r.frame.opcode = Opcode.authResponse.code) :
    ∃ more, Transcript sender items more ∧ rest <+: more.flatten := by
  rcases hsent.isPrefix hstream with hsnapshot | ⟨value, more, hvalue, hanswer, hmore⟩
  · rw [snapshotFrames, List.flatten_cons] at hsnapshot
    obtain ⟨rfl, -⟩ := recv_of_isPrefix
      (clusterRecvFrame_control sender .clusterSyncBegin length_nil_le) hsnapshot hrecv
    rw [opcode_controlReceived] at hop
    exact absurd (Opcode.code_injective hop) (by decide)
  · obtain ⟨-, hrest⟩ := recv_of_isPrefix
      (clusterRecvFrame_control sender .authResponse hvalue) hanswer hrecv
    exact ⟨more, hmore, hrest⟩

end Receiver

end Dmmr.Cluster
