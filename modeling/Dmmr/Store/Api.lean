import Dmmr.Lib.OrderedMap
import Dmmr.Store.Entry

/-!
# The store API of `dmmr_db.c`

Berkeley DB is an ordered map from byte strings to byte strings.  What its
calls, and the allocator, do on one invocation is an input of the model
(`Bdb`): a call may find the handle closed, fail to read, fail to allocate or
fail to write, and a failing write changes nothing.

Every function below takes the database before the call and returns the result
code with the database after it; the mutex makes each of them one step.
-/

namespace Dmmr.Store

open Words

/-- `enum dmmr_db_result`. -/
inductive DbResult
  | applied
  | ignored
  | notFound
  | error
  deriving DecidableEq, Repr

/-- The Berkeley DB B-tree: keys in byte order, each with its data. -/
abbrev Database := OrderedMap Bytes Bytes

/-- What the environment does on one call: whether the handle is open, and
whether the reads, the allocations and the writes of the call succeed. -/
structure Bdb where
  handle : Bool
  getOk : Bool
  allocOk : Bool
  putOk : Bool
  deriving DecidableEq, Repr

/-- Every call succeeds. -/
def Bdb.ok : Bdb := ⟨true, true, true, true⟩

/-- A pointer argument with its length: `none` is `NULL`, and a pointer that is
not `NULL` has at least `len` bytes behind it. -/
structure Buf where
  ptr : Option Bytes
  len : ℕ
  fits : ∀ mem ∈ ptr, len ≤ mem.length

namespace Buf

/-- The bytes a callee may read. -/
def bytes (b : Buf) : Bytes := (b.ptr.getD []).take b.len

/-- The buffer of a byte string, `NULL` when it is empty. -/
def ofBytes (bs : Bytes) : Buf where
  ptr := if bs = [] then none else some bs
  len := bs.length
  fits := by
    intro mem hmem
    split_ifs at hmem with h
    · simp at hmem
    · rw [← Option.some.inj hmem]

/-- `(NULL, 0)`. -/
def null : Buf := ⟨none, 0, by simp⟩

end Buf

variable (host : Endian)

/-- `put_record_locked`. -/
def putRecordLocked (bdb : Bdb) (db : Database) (key : Buf)
    (timestamp nodeId expireAt : UInt64) (tombstone : Bool) (value : Buf) :
    DbResult × Database :=
  if !bdb.allocOk then (.error, db)
  else
    let entry : CacheEntry := ⟨timestamp, nodeId, lenField tombstone value.len, expireAt⟩
    let buffer := entry.toBytes host ++ if tombstone then [] else value.bytes
    if bdb.putOk then (.applied, db.put key.bytes buffer) else (.error, db)

/-- What `db_get_with_meta` writes through its out-parameters on success;
`value` is `NULL` for an empty value. -/
structure GetOut where
  timestamp : UInt64
  nodeId : UInt64
  value : Option Bytes
  valueLen : ℕ
  expireAt : UInt64
  deriving DecidableEq, Repr

/-- `db_get_with_meta`, called with all out-parameters. -/
def dbGetWithMeta (bdb : Bdb) (db : Database) (key : Buf) : DbResult × Option GetOut :=
  if key.ptr = none ∨ key.len = 0 ∨ key.len > maxKeyLen then (.error, none)
  else if !bdb.handle || !bdb.getOk then (.error, none)
  else
    match db.get? key.bytes with
    | none => (.notFound, none)
    | some data =>
        if !entryIsValid host data then (.error, none)
        else
          let entry := cacheEntryAt host data
          if dmmrRecordIsTombstone entry then (.notFound, none)
          else
            let valueLen := (dmmrRecordValueLen entry).toNat
            if valueLen > 0 && !bdb.allocOk then (.error, none)
            else
              let value := if valueLen > 0 then some ((data.drop entrySize).take valueLen) else none
              (.applied, some ⟨entry.timestamp, entry.nodeId, value, valueLen, entry.expireAt⟩)

/-- `db_apply_record`: last writer wins on `(timestamp, node_id)`. -/
def dbApplyRecord (bdb : Bdb) (db : Database) (key : Buf)
    (timestamp nodeId expireAt : UInt64) (tombstone : Bool) (value : Buf) :
    DbResult × Database :=
  if key.ptr = none ∨ key.len = 0 ∨ key.len > maxKeyLen ∨ value.len > maxValueLen ∨
      (tombstone = true ∧ value.len ≠ 0) ∨
      (tombstone = false ∧ value.len > 0 ∧ value.ptr = none) then (.error, db)
  else if !bdb.handle || !bdb.getOk then (.error, db)
  else
    match db.get? key.bytes with
    | some old =>
        if !entryIsValid host old then (.error, db)
        else if !incomingWins (cacheEntryAt host old) timestamp nodeId then (.ignored, db)
        else putRecordLocked host bdb db key timestamp nodeId expireAt tombstone value
    | none => putRecordLocked host bdb db key timestamp nodeId expireAt tombstone value

/-- `db_set_with_meta`. -/
def dbSetWithMeta (bdb : Bdb) (db : Database) (key : Buf) (timestamp nodeId : UInt64)
    (value : Buf) (expireAt : UInt64) : DbResult × Database :=
  dbApplyRecord host bdb db key timestamp nodeId expireAt false value

/-- `db_tombstone_if_match`: the record is deleted only if it is still the one
observed. -/
def dbTombstoneIfMatch (bdb : Bdb) (db : Database) (key : Buf)
    (observedTs observedNodeId observedExpireAt tombstoneTs tombstoneNodeId : UInt64) :
    DbResult × Database :=
  if key.ptr = none ∨ key.len = 0 ∨ key.len > maxKeyLen then (.error, db)
  else if !bdb.handle then (.error, db)
  else if !bdb.getOk then (.error, db)
  else
    match db.get? key.bytes with
    | none => (.notFound, db)
    | some old =>
        let existing := cacheEntryAt host old
        if !entryIsValid host old || dmmrRecordIsTombstone existing ||
            existing.timestamp != observedTs || existing.nodeId != observedNodeId ||
            existing.expireAt != observedExpireAt then (.ignored, db)
        else putRecordLocked host bdb db key tombstoneTs tombstoneNodeId 0 true Buf.null

/-- `db_del_key`; `now` is its reading of the clock. -/
def dbDelKey (myNodeId : UInt64) (bdb : Bdb) (db : Database) (key : Buf) (now : UInt64) :
    DbResult × Database :=
  dbApplyRecord host bdb db key now myNodeId 0 true Buf.null

/-- `struct dmmr_db_record`. -/
structure DbRecord where
  key : Bytes
  value : Bytes
  timestamp : UInt64
  nodeId : UInt64
  expireAt : UInt64
  tombstone : Bool
  deriving DecidableEq, Repr

/-- The record `db_snapshot_foreach` builds from one entry of the database. -/
def snapshotRecord (key data : Bytes) : DbRecord :=
  let entry := cacheEntryAt host data
  { key := key
    value := (data.drop entrySize).take (dmmrRecordValueLen entry).toNat
    timestamp := entry.timestamp
    nodeId := entry.nodeId
    expireAt := entry.expireAt
    tombstone := dmmrRecordIsTombstone entry }

/-- The loop of `db_snapshot_foreach` from cursor position `pos`.  `calls`
gives the outcome of the environment's calls on each iteration. -/
def snapshotLoop {σ : Type*} (db : Database) (callback : DbRecord → σ → Int × σ)
    (calls : ℕ → Bdb) : ℕ → ℕ → Option Bytes → σ → DbResult × σ
  | 0, _, _, arg => (.error, arg)
  | fuel + 1, i, pos, arg =>
      if !(calls i).getOk then (.error, arg)
      else
        match db.next? pos with
        | none => (.applied, arg)
        | some (key, data) =>
            if !entryIsValid host data || key.length == 0 || key.length > maxKeyLen then
              (.error, arg)
            else if !(calls i).allocOk then (.error, arg)
            else
              let (rc, arg') := callback (snapshotRecord host key data) arg
              if rc != 0 then (.error, arg')
              else snapshotLoop db callback calls fuel (i + 1) (some key) arg'

/-- `db_snapshot_foreach` over a database nothing else writes to.  The cursor
meets each entry once, so one more iteration than there are entries is enough. -/
def dbSnapshotForeach {σ : Type*} (bdb : Bdb) (db : Database)
    (callback : DbRecord → σ → Int × σ) (calls : ℕ → Bdb) (arg : σ) : DbResult × σ :=
  if !bdb.handle || !bdb.getOk then (.error, arg)
  else snapshotLoop host db callback calls (db.entries.length + 1) 0 none arg

end Dmmr.Store
