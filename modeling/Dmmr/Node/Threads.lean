import Dmmr.Node.Scan
import Dmmr.Store.Refinement
import Dmmr.Wire.Frame

/-!
# The threads of one node

Client requests are served by several workers and expired keys are deleted by a
collector thread, all on one store.  The store's mutex makes each store call
atomic; everything between two store calls, clock readings or queue operations
interleaves.  `Task` is the program counter of a thread inside `process_frame`
or `gc_worker_routine`, and `step` lets one thread take its next atomic action.
A client SET reads the clock once for the stamp it stores and broadcasts and
once for the expiry; a deletion reads it inside `db_del_key` and again for the
broadcast.

Two components of the state are history variables, which no step reads:
`DeleteEntry.rewritten`, the last record written under a key since it was
queued, and `Broadcast.stored`, the record the broadcasting thread itself
passed to the store.
-/

namespace Dmmr.Node

open Words Store Wire

/-- `TTL_DEFAULT`. -/
def ttlDefault : UInt64 := 3600 * 1000000

/-! ## Broadcast commands -/

/-- `struct control_cmd_pooled`, for the one command type that is enqueued. -/
structure ControlCmd where
  ts : UInt64
  nodeId : UInt64
  expireAt : UInt64
  flags : UInt16
  key : Bytes
  value : Bytes
  deriving DecidableEq, Repr

/-- The command `enqueue_broadcast` builds. -/
def enqueueBroadcast (key value : Buf) (ts nodeId expireAt : UInt64) (flags : UInt16) :
    ControlCmd where
  ts := ts
  nodeId := nodeId
  expireAt := expireAt
  flags := flags
  key := key.bytes.take maxKeyLen
  value := if value.ptr ≠ none ∧ value.len > 0 then value.bytes.take maxValueLen else []

/-- A command passed to `enqueue_broadcast`, with the record its thread had
passed to the store. -/
structure Broadcast where
  cmd : ControlCmd
  stored : Record
  deriving DecidableEq

/-! ## State -/

/-- `struct delete_entry`. -/
structure DeleteEntry where
  key : Bytes
  rewritten : Option Record
  deriving DecidableEq

/-- Who deletes: a client through `OP_DEL`, or the collector. -/
inductive Source
  | client
  | collector (rewritten : Option Record)
  deriving DecidableEq

/-- Where a thread stands. -/
inductive Task
  | idle
  | setReadTs (key : Key) (value : Value)
  | setReadExpire (key : Key) (value : Value) (tsUse : UInt64)
  | setApply (key : Key) (value : Value) (tsUse expireAt : UInt64)
  | setEnqueue (key : Key) (value : Value) (tsUse expireAt : UInt64)
  | delReadTs (source : Source) (key : Bytes)
  | delApply (source : Source) (key : Bytes) (ts : UInt64)
  | delReadBroadcastTs (key : Bytes) (storedTs : UInt64)
  | delEnqueue (key : Bytes) (storedTs tsDel : UInt64)
  deriving DecidableEq

structure State where
  db : Database
  clock : UInt64
  tasks : ℕ → Task
  gcQueue : List DeleteEntry
  gcCursor : Option (Option Bytes)
  broadcasts : List Broadcast

/-- A node that has just started on an empty database. -/
def State.init : State := ⟨OrderedMap.empty, 0, fun _ => .idle, [], none, []⟩

/-! ## Store calls -/

/-- Note a write under `key`. -/
def DeleteEntry.rewrite (key : Bytes) (r : Record) (e : DeleteEntry) : DeleteEntry :=
  if e.key = key then { e with rewritten := some r } else e

/-- Note a write under `key`. -/
def Task.rewrite (key : Bytes) (r : Record) : Task → Task
  | delReadTs (.collector rewritten) k =>
      .delReadTs (.collector (DeleteEntry.rewrite key r ⟨k, rewritten⟩).rewritten) k
  | delApply (.collector rewritten) k ts =>
      .delApply (.collector (DeleteEntry.rewrite key r ⟨k, rewritten⟩).rewritten) k ts
  | task => task

/-- The state with a changed database. -/
def State.store (s : State) (written : Option (Key × Record)) (db : Database) : State :=
  if db = s.db then s
  else
    match written with
    | none => { s with db := db }
    | some (k, r) =>
        { s with
          db := db
          gcQueue := s.gcQueue.map (DeleteEntry.rewrite k.1 r)
          tasks := fun w => (s.tasks w).rewrite k.1 r }

/-- A store call on the node's database. -/
def State.perform (host : Endian) (myNodeId : UInt64) (s : State) (call : Call) :
    DbResult × State :=
  let (rc, db) := call.exec host myNodeId s.db
  (rc, s.store (call.request myNodeId) db)

/-! ## Steps of the node's own threads -/

/-- What the node's own threads do.  `now` is what a clock reading returns. -/
inductive Event
  /-- A worker gets an `OP_SET` or `OP_SYNC` frame from a client. -/
  | set (worker : ℕ) (key value : Bytes)
  /-- A worker gets an `OP_DEL` frame from a client. -/
  | del (worker : ℕ) (key value : Bytes)
  /-- The collector takes the head of `gc_queue`. -/
  | collect (worker : ℕ)
  /-- A thread takes its next atomic action. -/
  | advance (worker : ℕ) (now : UInt64)
  /-- The control thread calls `scan_expired_entries`. -/
  | scan (cursorOk : Bool) (calls : ℕ → ScanCall) (now : UInt64)

/-- Continue after a reading of the clock, which never goes back. -/
def State.readClock (s : State) (now : UInt64) (k : State → State) : State :=
  if now < s.clock then s else k { s with clock := now }

def State.setTask (s : State) (worker : ℕ) (task : Task) : State :=
  { s with tasks := Function.update s.tasks worker task }

/-- `enqueue_broadcast`, which drops the command when no slot is free. -/
def State.broadcast (s : State) (allocOk : Bool) (b : Broadcast) : State :=
  if allocOk then { s with broadcasts := s.broadcasts ++ [b] } else s

variable (host : Endian) (myNodeId : UInt64) (bdb : Bdb)

/-- The next atomic action of a thread. -/
def advance (s : State) (worker : ℕ) (now : UInt64) : State :=
  match s.tasks worker with
  | .idle => s
  | .setReadTs key value =>
      s.readClock now fun s => s.setTask worker (.setReadExpire key value now)
  | .setReadExpire key value tsUse =>
      s.readClock now fun s => s.setTask worker (.setApply key value tsUse (now + ttlDefault))
  | .setApply key value tsUse expireAt =>
      let (rc, s) := s.perform host myNodeId (.setWithMeta bdb (Buf.ofBytes key.1) tsUse myNodeId
        (Buf.ofBytes value.1) expireAt)
      if rc = .applied then s.setTask worker (.setEnqueue key value tsUse expireAt)
      else s.setTask worker .idle
  | .setEnqueue key value tsUse expireAt =>
      (s.broadcast bdb.allocOk ⟨enqueueBroadcast (Buf.ofBytes key.1) (Buf.ofBytes value.1) tsUse
        myNodeId expireAt flagNone, ⟨tsUse, myNodeId, expireAt, some value⟩⟩).setTask worker .idle
  | .delReadTs source key =>
      s.readClock now fun s => s.setTask worker (.delApply source key now)
  | .delApply _ key ts =>
      let (_, s) := s.perform host myNodeId (.delKey bdb (Buf.ofBytes key) ts)
      s.setTask worker (.delReadBroadcastTs key ts)
  | .delReadBroadcastTs key storedTs =>
      s.readClock now fun s => s.setTask worker (.delEnqueue key storedTs now)
  | .delEnqueue key storedTs tsDel =>
      (s.broadcast bdb.allocOk ⟨enqueueBroadcast (Buf.ofBytes key) Buf.null tsDel myNodeId 0
        flagTombstone, ⟨storedTs, myNodeId, 0, none⟩⟩).setTask worker .idle

/-- Start a request on a worker that has none. -/
def State.start (s : State) (worker : ℕ) (task : Task) : State :=
  if s.tasks worker = .idle then s.setTask worker task else s

/-- One step of the node's own threads. -/
def step (s : State) : Event → State
  | .set worker key value =>
      -- `process_frame` drops the connection when a length is out of bounds
      if h : (key ≠ [] ∧ key.length ≤ maxKeyLen) ∧ value.length ≤ maxValueLen then
        s.start worker (.setReadTs ⟨key, h.1⟩ ⟨value, h.2⟩)
      else s
  | .del worker key value =>
      if (key ≠ [] ∧ key.length ≤ maxKeyLen) ∧ value.length ≤ maxValueLen then
        s.start worker (.delReadTs .client key)
      else s
  | .collect worker =>
      match s.gcQueue with
      | [] => s
      | e :: rest =>
          if s.tasks worker = .idle then
            { s with gcQueue := rest }.setTask worker (.delReadTs (.collector e.rewritten) e.key)
          else s
  | .advance worker now => advance host myNodeId bdb s worker now
  | .scan cursorOk calls now =>
      s.readClock now fun s =>
        let (gcCursor, queued) := scanExpiredEntries host s.db s.gcCursor cursorOk calls now
        { s with gcCursor := gcCursor, gcQueue := s.gcQueue ++ queued.map fun key => ⟨key, none⟩ }

/-! ## Records from peers -/

/-- `handle_cluster_sync`. -/
def handleClusterSync (db : Database) (r : Received) : Int × Database :=
  if r.frame.nodeId = 0 ∨ r.frame.keyLen = 0 ∨ r.payload = none then (-1, db)
  else
    let (rc, db) := dbApplyRecord host bdb db r.key r.frame.timestamp r.frame.nodeId
      r.frame.expireAt (r.frame.flags &&& flagTombstone != 0) r.value
    (if rc = .error then -1 else 0, db)

/-- The store call for a record from a peer. -/
def syncCall (r : Received) : Call :=
  .applyRecord bdb r.key r.frame.timestamp r.frame.nodeId r.frame.expireAt
    (r.frame.flags &&& flagTombstone != 0) r.value

/-- A record from a peer reaches `handle_cluster_sync`. -/
def receive (s : State) (r : Received) : State :=
  if r.frame.nodeId = 0 ∨ r.frame.keyLen = 0 ∨ r.payload = none then s
  else (s.perform host myNodeId (syncCall bdb r)).2

/-! ## What a store call does to the node -/

/-- The state after `r` has been written under `k`. -/
def State.wrote (s : State) (k : Key) (r : Record) : State :=
  { s with
    db := s.db.put k.1 (r.blob host)
    gcQueue := s.gcQueue.map (DeleteEntry.rewrite k.1 r)
    tasks := fun w => (s.tasks w).rewrite k.1 r }

variable {host myNodeId bdb}

@[simp] theorem tasks_setTask_self (s : State) (w : ℕ) (task : Task) :
    (s.setTask w task).tasks w = task := Function.update_self ..

theorem tasks_setTask_of_ne (s : State) {w w' : ℕ} (hne : w' ≠ w) (task : Task) :
    (s.setTask w task).tasks w' = s.tasks w' := Function.update_of_ne hne ..

theorem db_store (s : State) (written : Option (Key × Record)) (db : Database) :
    (s.store written db).db = db := by
  unfold State.store
  split_ifs with h
  · exact h.symm
  · cases written <;> rfl

@[simp] theorem key_rewrite (key : Bytes) (r : Record) (e : DeleteEntry) :
    (e.rewrite key r).key = e.key := by
  unfold DeleteEntry.rewrite
  split_ifs <;> rfl

/-- The queue keeps its keys. -/
theorem queue_store (s : State) (written : Option (Key × Record)) (db : Database) :
    (s.store written db).gcQueue.map DeleteEntry.key = s.gcQueue.map DeleteEntry.key := by
  unfold State.store
  split_ifs
  · rfl
  · cases written with
    | none => rfl
    | some kr =>
        simp only [List.map_map]
        exact List.map_congr_left fun e _ => key_rewrite kr.1.1 kr.2 e

theorem db_receive (s : State) (r : Received) :
    (receive host myNodeId bdb s r).db = (handleClusterSync host bdb s.db r).2 := by
  unfold receive handleClusterSync
  split_ifs with h
  · rfl
  · exact db_store s _ _

/-- A store call writes a record that beats the one held, or it changes nothing
and does not report success. -/
theorem perform_cases (myNodeId : UInt64) {s : State} (hwf : WellFormed host s.db) (call : Call) :
    (∃ k r, call.request myNodeId = some (k, r) ∧ call.bdb.succeeds = true ∧
        (∀ old, contents host s.db k = some old → old.stamp < r.stamp) ∧
        s.perform host myNodeId call = (.applied, s.wrote host k r)) ∨
      ((s.perform host myNodeId call).1 ≠ .applied ∧ (s.perform host myNodeId call).2 = s ∧
        AbstractStore.write (contents host s.db) call.bdb (call.request myNodeId) =
          contents host s.db) := by
  unfold State.perform
  rcases call.exec_cases myNodeId hwf with ⟨k, r, hreq, hok, hlt, h⟩ | ⟨hcode, hdb, hsame⟩
  · refine Or.inl ⟨k, r, hreq, hok, hlt, ?_⟩
    have hne : s.db.put k.1 (r.blob host) ≠ s.db := by
      intro heq
      have hheld : contents host s.db k = some r := by
        rw [← heq, contents_put, Function.update_self]
      exact absurd (hlt r hheld) (lt_irrefl _)
    simp only [h, hreq, State.store, if_neg hne]
    rfl
  · refine Or.inr ⟨?_, ?_, hsame⟩
    · rcases hcode with h | h <;> simp [h]
    · simp only [State.store, hdb, if_true]

end Dmmr.Node
