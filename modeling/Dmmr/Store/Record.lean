import Dmmr.Lib.LastWrite
import Dmmr.Store.Api

/-!
# What the bytes of the store mean

The store is for this: a map from keys of `1` to `MAX_KEY_LEN` bytes to
records, a record being a stamp, an expiry and either a value of at most
`MAX_VALUE_LEN` bytes or a deletion mark.  `Key`, `Value` and `Record` carry
these bounds, so a record that could not be stored cannot be written down.

`Record.blob` is the byte string the encoder writes for a record and
`decodeRecord` is what the readers make of a byte string; `decodeRecord_blob`
says they agree.  A database is `WellFormed` when every entry is the blob of a
record under an acceptable key, and for such databases `dbApplyRecord_eq`
replaces the byte-level `db_apply_record` by a comparison of stamps.
-/

namespace Dmmr.Store

open Words

/-- A key the store accepts. -/
abbrev Key := { k : Bytes // k ≠ [] ∧ k.length ≤ maxKeyLen }

/-- A value the store accepts. -/
abbrev Value := { v : Bytes // v.length ≤ maxValueLen }

/-- `(timestamp, node_id)`, ordered lexicographically. -/
abbrev Stamp := UInt64 ×ₗ UInt64

/-- A record: `body` is `none` for a tombstone. -/
structure Record where
  timestamp : UInt64
  nodeId : UInt64
  expireAt : UInt64
  body : Option Value
  deriving DecidableEq

namespace Record

def stamp (r : Record) : Stamp := toLex (r.timestamp, r.nodeId)

def tombstone (r : Record) : Bool := r.body.isNone

/-- The value bytes, none for a tombstone. -/
def value (r : Record) : Bytes := (r.body.map Subtype.val).getD []

theorem length_value_le (r : Record) : r.value.length ≤ maxValueLen := by
  unfold value
  cases r.body with
  | none => simp
  | some v => exact v.2

theorem value_eq_nil_of_tombstone {r : Record} (h : r.tombstone = true) : r.value = [] := by
  simp_all [value, tombstone, Option.isNone_iff_eq_none]

/-- The header the encoder writes for a record. -/
def header (r : Record) : CacheEntry :=
  ⟨r.timestamp, r.nodeId, lenField r.tombstone r.value.length, r.expireAt⟩

/-- The bytes the encoder stores for a record. -/
def blob (host : Endian) (r : Record) : Bytes := r.header.toBytes host ++ r.value

end Record

variable (host : Endian)

/-- A valid entry announces a length in range, and has that many bytes. -/
theorem bounds_of_entryIsValid {data : Bytes} (h : entryIsValid host data = true) :
    (dmmrRecordValueLen (cacheEntryAt host data)).toNat ≤ maxValueLen ∧
      entrySize + (dmmrRecordValueLen (cacheEntryAt host data)).toNat ≤ data.length := by
  unfold entryIsValid at h
  split at h
  · simp at h
  · simp only at h
    split at h
    · simp at h
    · rename_i hbound
      simpa only [Bool.or_eq_true, decide_eq_true_eq, not_or, not_lt] using hbound

theorem valueLen_le_of_entryIsValid {data : Bytes} (h : entryIsValid host data = true) :
    (dmmrRecordValueLen (cacheEntryAt host data)).toNat ≤ maxValueLen :=
  (bounds_of_entryIsValid host h).1

/-- What the readers make of stored bytes: `none` for a corrupt entry. -/
def decodeRecord (data : Bytes) : Option Record :=
  if h : entryIsValid host data = true then
    let entry := cacheEntryAt host data
    let value := (data.drop entrySize).take (dmmrRecordValueLen entry).toNat
    some
      { timestamp := entry.timestamp
        nodeId := entry.nodeId
        expireAt := entry.expireAt
        body := if dmmrRecordIsTombstone entry then none
          else some ⟨value, (List.length_take_le _ _).trans (valueLen_le_of_entryIsValid host h)⟩ }
  else none

/-! ## The encoder and the readers agree -/

theorem drop_entrySize_blob (r : Record) : (r.blob host).drop entrySize = r.value :=
  List.drop_left' (length_toBytes host r.header)

@[simp] theorem cacheEntryAt_blob (r : Record) : cacheEntryAt host (r.blob host) = r.header :=
  cacheEntryAt_toBytes host r.header r.value

@[simp] theorem entryIsValid_blob (r : Record) : entryIsValid host (r.blob host) = true :=
  entryIsValid_toBytes host rfl r.length_value_le fun h => r.value_eq_nil_of_tombstone h

@[simp] theorem isTombstone_header (r : Record) : dmmrRecordIsTombstone r.header = r.tombstone :=
  isTombstone_lenField rfl r.length_value_le

@[simp] theorem valueLen_header (r : Record) :
    (dmmrRecordValueLen r.header).toNat = r.value.length :=
  valueLen_lenField rfl r.length_value_le fun h => by rw [r.value_eq_nil_of_tombstone h]; rfl

/-- **The blob of a record decodes to that record.** -/
@[simp] theorem decodeRecord_blob (r : Record) : decodeRecord host (r.blob host) = some r := by
  unfold decodeRecord
  rw [dif_pos (entryIsValid_blob host r)]
  simp only [cacheEntryAt_blob, isTombstone_header, valueLen_header, drop_entrySize_blob,
    List.take_length]
  obtain ⟨timestamp, nodeId, expireAt, body⟩ := r
  cases body with
  | none => rfl
  | some v => rfl

/-- `incoming_wins` is the strict lexicographic order of the stamps. -/
theorem incomingWins_iff (existing : CacheEntry) (timestamp nodeId : UInt64) :
    incomingWins existing timestamp nodeId = true ↔
      (toLex (existing.timestamp, existing.nodeId) : Stamp) < toLex (timestamp, nodeId) := by
  rw [Prod.Lex.toLex_lt_toLex]
  simp only [incomingWins, Bool.or_eq_true, Bool.and_eq_true, decide_eq_true_eq, beq_iff_eq]

theorem stamp_le {t t' : UInt64} (h : t ≤ t') (nodeId : UInt64) :
    (toLex (t, nodeId) : Stamp) ≤ toLex (t', nodeId) := by
  rw [Prod.Lex.toLex_le_toLex]
  rcases h.lt_or_eq with hlt | heq
  · exact Or.inl hlt
  · exact Or.inr ⟨heq, le_rfl⟩

/-! ## Well-formed databases and the map they stand for -/

/-- Every entry is the blob of a record under an acceptable key. -/
def WellFormed (db : Database) : Prop :=
  ∀ key data, db.get? key = some data →
    (key ≠ [] ∧ key.length ≤ maxKeyLen) ∧ ∃ r : Record, data = r.blob host

/-- The map from keys to records that a database stands for. -/
def contents (db : Database) (k : Key) : Option Record :=
  (db.get? k.1).bind (decodeRecord host)

variable {host}

theorem wellFormed_empty : WellFormed host OrderedMap.empty := by
  intro key data h
  simp at h

@[simp] theorem contents_empty (k : Key) : contents host OrderedMap.empty k = none := rfl

theorem WellFormed.put {db : Database} (hwf : WellFormed host db) (k : Key) (r : Record) :
    WellFormed host (OrderedMap.put db k.1 (r.blob host)) := by
  intro key data h
  rw [OrderedMap.get?_put] at h
  split_ifs at h with hkey
  · exact ⟨hkey ▸ k.2, r, (Option.some.inj h).symm⟩
  · exact hwf key data h

theorem contents_put (db : Database) (k : Key) (r : Record) :
    contents host (db.put k.1 (r.blob host)) =
      Function.update (contents host db) k (some r) := by
  funext k'
  unfold contents
  rw [OrderedMap.get?_put, Function.update_apply]
  by_cases h : k' = k
  · simp [h]
  · have hval : k'.1 ≠ k.1 := fun heq => h (Subtype.ext heq)
    simp [h, hval]

/-- The entry of a key is the blob of its record. -/
theorem WellFormed.get?_eq {db : Database} (hwf : WellFormed host db) (k : Key) :
    db.get? k.1 = (contents host db k).map (Record.blob host) := by
  unfold contents
  cases h : db.get? k.1 with
  | none => rfl
  | some data =>
      obtain ⟨_, r, rfl⟩ := hwf _ _ h
      simp

/-- A well-formed database is determined by the map it stands for. -/
theorem WellFormed.ext {db db' : Database} (hwf : WellFormed host db)
    (hwf' : WellFormed host db') (h : contents host db = contents host db') : db = db' := by
  apply OrderedMap.ext_get?
  intro key
  by_cases hkey : key ≠ [] ∧ key.length ≤ maxKeyLen
  · rw [hwf.get?_eq ⟨key, hkey⟩, hwf'.get?_eq ⟨key, hkey⟩, h]
  · have hnone : ∀ {d : Database}, WellFormed host d → d.get? key = none := by
      intro d hd
      cases hget : d.get? key with
      | none => rfl
      | some data => exact absurd (hd _ _ hget).1 hkey
    rw [hnone hwf, hnone hwf']

/-! ## `db_apply_record` as a comparison of stamps -/

theorem Buf.length_bytes {b : Buf} (h : b.ptr ≠ none ∨ b.len = 0) : b.bytes.length = b.len := by
  unfold Buf.bytes
  cases hptr : b.ptr with
  | none =>
      rcases h with h | h
      · exact absurd hptr h
      · simp [h]
  | some mem => simpa using b.fits mem hptr

@[simp] theorem Buf.len_ofBytes (bs : Bytes) : (Buf.ofBytes bs).len = bs.length := rfl

@[simp] theorem Buf.bytes_ofBytes (bs : Bytes) : (Buf.ofBytes bs).bytes = bs := by
  unfold Buf.bytes Buf.ofBytes
  by_cases h : bs = [] <;> simp [h]

/-- The arguments `db_apply_record` does not reject. -/
structure Acceptable (key : Buf) (tombstone : Bool) (value : Buf) : Prop where
  keyPtr : key.ptr ≠ none
  keyLen_ne : key.len ≠ 0
  keyLen_le : key.len ≤ maxKeyLen
  valueLen_le : value.len ≤ maxValueLen
  valueLen_tombstone : tombstone = true → value.len = 0
  valuePtr : tombstone = false → value.len = 0 ∨ value.ptr ≠ none

theorem acceptable_iff (key : Buf) (tombstone : Bool) (value : Buf) :
    Acceptable key tombstone value ↔
      ¬ (key.ptr = none ∨ key.len = 0 ∨ key.len > maxKeyLen ∨ value.len > maxValueLen ∨
        (tombstone = true ∧ value.len ≠ 0) ∨
        (tombstone = false ∧ value.len > 0 ∧ value.ptr = none)) := by
  constructor
  · intro h
    rintro (hc | hc | hc | hc | ⟨hc, hc'⟩ | ⟨hc, hc', hc''⟩)
    · exact h.keyPtr hc
    · exact h.keyLen_ne hc
    · exact absurd h.keyLen_le (not_le.mpr hc)
    · exact absurd h.valueLen_le (not_le.mpr hc)
    · exact hc' (h.valueLen_tombstone hc)
    · rcases h.valuePtr hc with hzero | hsome
      · omega
      · exact hsome hc''
  · intro h
    simp only [not_or, not_and, not_lt] at h
    obtain ⟨hptr, hlen, hmax, hvalue, htomb, hnull⟩ := h
    refine ⟨hptr, hlen, hmax, hvalue, fun ht => not_not.mp (htomb ht), fun ht => ?_⟩
    by_cases hzero : value.len = 0
    · exact Or.inl hzero
    · exact Or.inr (hnull ht (Nat.pos_of_ne_zero hzero))

instance (key : Buf) (tombstone : Bool) (value : Buf) :
    Decidable (Acceptable key tombstone value) :=
  decidable_of_iff _ (acceptable_iff key tombstone value).symm

namespace Acceptable

variable {key value : Buf} {tombstone : Bool}

theorem length_key (h : Acceptable key tombstone value) : key.bytes.length = key.len :=
  Buf.length_bytes (Or.inl h.keyPtr)

theorem length_value (h : Acceptable key tombstone value) : value.bytes.length = value.len := by
  apply Buf.length_bytes
  cases tombstone with
  | true => exact Or.inr (h.valueLen_tombstone rfl)
  | false => exact (h.valuePtr rfl).symm

/-- The key a call is about. -/
def toKey (h : Acceptable key tombstone value) : Key :=
  ⟨key.bytes, by
    rw [← List.length_pos_iff, h.length_key]
    exact ⟨Nat.pos_of_ne_zero h.keyLen_ne, h.keyLen_le⟩⟩

/-- The record a call asks to store. -/
def toRecord (h : Acceptable key tombstone value) (timestamp nodeId expireAt : UInt64) :
    Record where
  timestamp := timestamp
  nodeId := nodeId
  expireAt := expireAt
  body := if tombstone then none else some ⟨value.bytes, h.length_value.trans_le h.valueLen_le⟩

@[simp] theorem stamp_toRecord (h : Acceptable key tombstone value)
    (timestamp nodeId expireAt : UInt64) :
    (h.toRecord timestamp nodeId expireAt).stamp = toLex (timestamp, nodeId) := rfl

theorem blob_toRecord (host : Endian) (h : Acceptable key tombstone value)
    (timestamp nodeId expireAt : UInt64) :
    (h.toRecord timestamp nodeId expireAt).blob host =
      (⟨timestamp, nodeId, lenField tombstone value.len, expireAt⟩ : CacheEntry).toBytes host ++
        if tombstone then [] else value.bytes := by
  cases tombstone with
  | true => rfl
  | false => simp [Record.blob, Record.header, Record.value, Record.tombstone, toRecord,
      h.length_value]

end Acceptable

/-- The key and the record a call asks to store, `none` if it is rejected. -/
def requested (key : Buf) (timestamp nodeId expireAt : UInt64) (tombstone : Bool)
    (value : Buf) : Option (Key × Record) :=
  if h : Acceptable key tombstone value then
    some (h.toKey, h.toRecord timestamp nodeId expireAt)
  else none

theorem Buf.ofBytes_nil : Buf.ofBytes [] = Buf.null := rfl

theorem Buf.ptr_ofBytes {bs : Bytes} (h : bs ≠ []) : (Buf.ofBytes bs).ptr = some bs := if_neg h

/-- What a call asks to store depends only on the bytes its pointers give
access to. -/
theorem requested_eq_some {key value : Buf} {k : Key} {r : Record} (hptr : key.ptr ≠ none)
    (hlen : key.len = k.1.length) (hkey : key.bytes = k.1) (hvlen : value.len = r.value.length)
    (hvalue : value.bytes = r.value) (hvptr : value.len = 0 ∨ value.ptr ≠ none) :
    requested key r.timestamp r.nodeId r.expireAt r.tombstone value = some (k, r) := by
  have hacc : Acceptable key r.tombstone value := by
    refine ⟨hptr, ?_, hlen ▸ k.2.2, hvlen ▸ r.length_value_le, ?_, fun _ => hvptr⟩
    · rw [hlen]
      simpa using k.2.1
    · intro h
      rw [hvlen, r.value_eq_nil_of_tombstone h]
      rfl
  unfold requested
  rw [dif_pos hacc]
  obtain ⟨timestamp, nodeId, expireAt, body⟩ := r
  cases body with
  | none => simp [Acceptable.toKey, Acceptable.toRecord, Record.tombstone, hkey]
  | some v =>
      have hv : value.bytes = v.1 := hvalue
      simp [Acceptable.toKey, Acceptable.toRecord, Record.tombstone, hkey, hv]

/-- A call that asks to store a record asks to store that record. -/
theorem requested_ofBytes (k : Key) (r : Record) :
    requested (Buf.ofBytes k.1) r.timestamp r.nodeId r.expireAt r.tombstone
      (Buf.ofBytes r.value) = some (k, r) := by
  refine requested_eq_some (by simp [Buf.ptr_ofBytes k.2.1]) rfl (by simp) rfl (by simp) ?_
  by_cases hnil : r.value = []
  · exact Or.inl (by rw [hnil]; rfl)
  · exact Or.inr (by simp [Buf.ptr_ofBytes hnil])

/-- The result of writing `r` under `k`. -/
def writeRecord (host : Endian) (bdb : Bdb) (db : Database) (k : Key) (r : Record) :
    DbResult × Database :=
  if bdb.allocOk && bdb.putOk then (.applied, db.put k.1 (r.blob host)) else (.error, db)

theorem putRecordLocked_eq {key value : Buf} {tombstone : Bool}
    (h : Acceptable key tombstone value) (bdb : Bdb) (db : Database)
    (timestamp nodeId expireAt : UInt64) :
    putRecordLocked host bdb db key timestamp nodeId expireAt tombstone value =
      writeRecord host bdb db h.toKey (h.toRecord timestamp nodeId expireAt) := by
  unfold putRecordLocked writeRecord
  simp only [← h.blob_toRecord host]
  cases bdb.allocOk <;> simp [Acceptable.toKey]

/-- **`db_apply_record` on a well-formed database.**  A rejected call is an
error; otherwise the record is written exactly when its stamp is greater than
the stamp of the record the key holds. -/
theorem dbApplyRecord_eq {db : Database} (hwf : WellFormed host db) (bdb : Bdb) (key : Buf)
    (timestamp nodeId expireAt : UInt64) (tombstone : Bool) (value : Buf) :
    dbApplyRecord host bdb db key timestamp nodeId expireAt tombstone value =
      match requested key timestamp nodeId expireAt tombstone value with
      | none => (.error, db)
      | some (k, r) =>
          if !bdb.handle || !bdb.getOk then (.error, db)
          else
            match contents host db k with
            | none => writeRecord host bdb db k r
            | some old =>
                if old.stamp < r.stamp then writeRecord host bdb db k r else (.ignored, db) := by
  unfold dbApplyRecord requested
  by_cases h : Acceptable key tombstone value
  · rw [dif_pos h, if_neg ((acceptable_iff key tombstone value).mp h)]
    simp only [putRecordLocked_eq h, show key.bytes = h.toKey.1 from rfl, hwf.get?_eq h.toKey]
    cases contents host db h.toKey with
    | none => rfl
    | some old =>
        have hwins : _ ↔ old.stamp < _ := incomingWins_iff old.header timestamp nodeId
        simp only [Option.map_some, entryIsValid_blob, cacheEntryAt_blob, h.stamp_toRecord,
          ← hwins, Bool.not_true, Bool.false_eq_true, if_false]
        cases incomingWins old.header timestamp nodeId <;> rfl
  · rw [dif_neg h, if_pos (not_not.mp (mt (acceptable_iff key tombstone value).mpr h))]

end Dmmr.Store
