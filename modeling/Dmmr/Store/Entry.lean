import Dmmr.Lib.Words
import Mathlib.Data.Nat.Bitwise

/-!
# The stored record: `struct cache_entry`

A record is stored as a 32-byte header followed by the value bytes.  The header
is a C structure written to memory in the host's byte order, with four bytes of
alignment padding before `expire_at`.  Its length field doubles as the deletion
flag: the high bit marks a tombstone and the other 31 bits are the value
length.

`cacheEntryAt_toBytes` is the round trip between the two; everything else the
store needs from the layout is in `entryIsValid_toBytes`.
-/

namespace Dmmr

open Words

/-- `MAX_KEY_LEN`. -/
def maxKeyLen : ℕ := 1024

/-- `MAX_VALUE_LEN`. -/
def maxValueLen : ℕ := 1024 * 1024

namespace Store

/-- `struct cache_entry`, the header stored in front of every value. -/
structure CacheEntry where
  timestamp : UInt64
  nodeId : UInt64
  valueLen : UInt32
  expireAt : UInt64
  deriving DecidableEq, Repr

/-- `DMMR_RECORD_TOMBSTONE`. -/
def recordTombstone : UInt32 := 0x80000000

/-- `DMMR_RECORD_VALUE_LEN_MASK`. -/
def recordValueLenMask : UInt32 := 0x7fffffff

def dmmrRecordIsTombstone (entry : CacheEntry) : Bool :=
  entry.valueLen &&& recordTombstone != 0

def dmmrRecordValueLen (entry : CacheEntry) : UInt32 :=
  entry.valueLen &&& recordValueLenMask

/-- `sizeof(struct cache_entry)`. -/
def entrySize : ℕ := 32

/-- The memory image of the header: the padding is zero because the buffer
comes from `calloc`. -/
def CacheEntry.toBytes (host : Endian) (entry : CacheEntry) : Bytes :=
  host.bytes 8 entry.timestamp.toNat ++ (host.bytes 8 entry.nodeId.toNat ++
    (host.bytes 4 entry.valueLen.toNat ++ (host.bytes 4 0 ++
      host.bytes 8 entry.expireAt.toNat)))

/-- The header read through a `struct cache_entry *` at the start of `data`. -/
def cacheEntryAt (host : Endian) (data : Bytes) : CacheEntry where
  timestamp := UInt64.ofNat (host.field 0 8 data)
  nodeId := UInt64.ofNat (host.field 8 8 data)
  valueLen := UInt32.ofNat (host.field 16 4 data)
  expireAt := UInt64.ofNat (host.field 24 8 data)

/-- `entry_is_valid`: `data` is long enough for a header and for the value the
header announces, the value is not too long, and a tombstone has none. -/
def entryIsValid (host : Endian) (data : Bytes) : Bool :=
  if data.length < entrySize then false
  else
    let entry := cacheEntryAt host data
    let valueLen := (dmmrRecordValueLen entry).toNat
    if valueLen > maxValueLen || data.length < entrySize + valueLen then false
    else if dmmrRecordIsTombstone entry && valueLen != 0 then false
    else true

/-- `incoming_wins`: the incoming stamp is lexicographically greater. -/
def incomingWins (existing : CacheEntry) (timestamp nodeId : UInt64) : Bool :=
  existing.timestamp < timestamp ||
    (existing.timestamp == timestamp && existing.nodeId < nodeId)

/-! ## The layout round trip -/

@[simp] theorem length_toBytes (host : Endian) (entry : CacheEntry) :
    (entry.toBytes host).length = entrySize := by
  simp [CacheEntry.toBytes, entrySize]

/-- A header is read back as it was written, whatever follows it. -/
@[simp] theorem cacheEntryAt_toBytes (host : Endian) (entry : CacheEntry) (value : Bytes) :
    cacheEntryAt host (entry.toBytes host ++ value) = entry := by
  simp only [cacheEntryAt, CacheEntry.toBytes, List.append_assoc, host.field_uint64]
  simp [Endian.field_skip]

/-! ## The length field -/

/-- `entry->value_len = (uint32_t)(tombstone ? DMMR_RECORD_TOMBSTONE : value_len)`. -/
def lenField (tombstone : Bool) (valueLen : ℕ) : UInt32 :=
  if tombstone then recordTombstone else UInt32.ofNat valueLen

theorem toNat_ofNat_of_le_maxValueLen {n : ℕ} (hn : n ≤ maxValueLen) :
    (UInt32.ofNat n).toNat = n := by
  rw [UInt32.toNat_ofNat']
  unfold maxValueLen at hn
  omega

/-- Lengths in range have the high bit clear, so masking it off changes
nothing. -/
theorem and_valueLenMask {n : ℕ} (hn : n ≤ maxValueLen) :
    (UInt32.ofNat n &&& recordValueLenMask).toNat = n := by
  have hmask : recordValueLenMask.toNat = 2 ^ 31 - 1 := rfl
  rw [UInt32.toNat_and, hmask, Nat.and_two_pow_sub_one_eq_mod, toNat_ofNat_of_le_maxValueLen hn]
  unfold maxValueLen at hn
  omega

theorem and_tombstone_eq_zero {n : ℕ} (hn : n ≤ maxValueLen) :
    UInt32.ofNat n &&& recordTombstone = 0 := by
  apply UInt32.toNat_inj.mp
  have htomb : recordTombstone.toNat = 2 ^ 31 := rfl
  have hlt : n < 2 ^ 31 := by
    unfold maxValueLen at hn
    omega
  rw [UInt32.toNat_and, htomb, toNat_ofNat_of_le_maxValueLen hn, Nat.and_comm,
    Nat.two_pow_and, Nat.testBit_lt_two_pow hlt]
  rfl

theorem isTombstone_lenField {entry : CacheEntry} {tombstone : Bool} {n : ℕ}
    (hlen : entry.valueLen = lenField tombstone n) (hn : n ≤ maxValueLen) :
    dmmrRecordIsTombstone entry = tombstone := by
  unfold dmmrRecordIsTombstone
  rw [hlen]
  cases tombstone with
  | true => simp [lenField, recordTombstone]
  | false => simp [lenField, and_tombstone_eq_zero hn]

theorem valueLen_lenField {entry : CacheEntry} {tombstone : Bool} {n : ℕ}
    (hlen : entry.valueLen = lenField tombstone n) (hn : n ≤ maxValueLen)
    (htomb : tombstone = true → n = 0) : (dmmrRecordValueLen entry).toNat = n := by
  unfold dmmrRecordValueLen
  rw [hlen]
  cases tombstone with
  | true =>
      rw [htomb rfl]
      rfl
  | false => exact and_valueLenMask hn

/-- Whatever the encoder writes passes the validator. -/
theorem entryIsValid_toBytes (host : Endian) {entry : CacheEntry} {tombstone : Bool}
    {value : Bytes} (hlen : entry.valueLen = lenField tombstone value.length)
    (hn : value.length ≤ maxValueLen) (htomb : tombstone = true → value = []) :
    entryIsValid host (entry.toBytes host ++ value) = true := by
  have hvalue : (dmmrRecordValueLen entry).toNat = value.length :=
    valueLen_lenField hlen hn fun h => by rw [htomb h]; rfl
  have hflag := isTombstone_lenField hlen hn
  simp only [entryIsValid, List.length_append, length_toBytes, cacheEntryAt_toBytes, hvalue, hflag]
  rw [if_neg (by omega), if_neg (by simpa using hn)]
  cases tombstone with
  | false => simp
  | true => simp [htomb rfl]

end Store

end Dmmr
