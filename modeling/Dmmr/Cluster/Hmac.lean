import Dmmr.Cluster.Auth
import Dmmr.Cluster.Sha256

/-!
# The MAC of the cluster code

`hmac_sha256` makes a block of the key, hashes the inner pad and the data into
`digest`, and hashes the outer pad and `digest` into `digest` again.  With any
table of round constants it is HMAC over the hash with these constants
(`toList_hmacSha256`), whatever its variables held before.

It is meant to be HMAC over SHA-256.  Whether it is comes down to the one entry of
the table that differs from the standard's (`macIsHmacSha256_iff`).  Nodes built
from this source still agree with each other (`hmacMac_eq`).
-/

namespace Dmmr.Cluster

open Words Buffers

variable (table : List UInt32)

/-- What `hmac_sha256` finds in its variables when it starts. -/
structure HmacStack where
  keyBlock : Vector UInt8 64
  oKeyPad : Vector UInt8 64
  iKeyPad : Vector UInt8 64
  ctx : Sha256Ctx

/-- The key as a block: a key of more than 64 bytes is hashed. -/
def setKeyBlock (key : Bytes) (s : HmacStack) : HmacStack :=
  if 64 < key.length then
    let ctx := sha256Init s.ctx
    let ctx := sha256Update table ctx key
    let (ctx, keyBlock) := sha256Final table ctx s.keyBlock
    { s with
      ctx := ctx
      keyBlock := fill keyBlock (List.range' 32 32) fun _ => 0 }
  else
    let keyBlock := fill s.keyBlock (List.range key.length) fun i => key.getD i 0
    { s with
      keyBlock := fill keyBlock (List.range' key.length (64 - key.length)) fun _ => 0 }

/-- The two pads. -/
def setKeyPads (s : HmacStack) : HmacStack :=
  { s with
    oKeyPad := fill s.oKeyPad (List.range 64) fun i => s.keyBlock.toList.getD i 0 ^^^ 0x5c
    iKeyPad := fill s.iKeyPad (List.range 64) fun i => s.keyBlock.toList.getD i 0 ^^^ 0x36 }

/-- `hmac_sha256`: what `digest` holds when it returns.  The inner digest is
written to it, hashed, and overwritten by the outer one. -/
def hmacSha256 (s : HmacStack) (key data : Bytes) (digest : Vector UInt8 32) : Vector UInt8 32 :=
  let s := setKeyPads (setKeyBlock table key s)
  let ctx := sha256Init s.ctx
  let ctx := sha256Update table ctx s.iKeyPad.toList
  let ctx := sha256Update table ctx data
  let (ctx, digest) := sha256Final table ctx digest
  let ctx := sha256Init ctx
  let ctx := sha256Update table ctx s.oKeyPad.toList
  let ctx := sha256Update table ctx digest.toList
  (sha256Final table ctx digest).2

/-! ## The MAC is HMAC over the hash -/

theorem toList_keyBlock_of_lt {key : Bytes} (hlong : 64 < key.length) (s : HmacStack) :
    (setKeyBlock table key s).keyBlock.toList =
      Sha256.hash (constants table) key ++ List.replicate 32 0 := by
  have hset : (setKeyBlock table key s).keyBlock =
      fill (digestOf table s.ctx [key] s.keyBlock) (List.range' 32 32) fun _ => 0 := by
    rw [setKeyBlock, if_pos hlong]
    rfl
  rw [hset, toList_fill_range' _ _ (by decide), toList_digestOf table (by decide),
    List.flatten_singleton, List.take_left' (Sha256.length_hash _ _), List.map_const',
    List.length_range', List.drop_of_length_le (by simp [Sha256.length_hash]), List.append_nil]

theorem toList_keyBlock_of_le {key : Bytes} (hshort : key.length ≤ 64) (s : HmacStack) :
    (setKeyBlock table key s).keyBlock.toList =
      key ++ List.replicate (64 - key.length) 0 := by
  have hset : (setKeyBlock table key s).keyBlock =
      fill (fill s.keyBlock (List.range key.length) fun i => key.getD i 0)
        (List.range' key.length (64 - key.length)) fun _ => 0 := by
    rw [setKeyBlock, if_neg (by omega)]
  have hcopy : (fill s.keyBlock (List.range key.length) fun i => key.getD i 0).toList =
      key ++ s.keyBlock.toList.drop key.length := by
    rw [List.range_eq_range', toList_fill_range' _ _ (by omega), ← List.range_eq_range',
      map_getD_range key 0 rfl, List.take_zero, List.nil_append, Nat.zero_add]
  rw [hset, toList_fill_range' _ _ (by omega), hcopy, List.take_left' rfl, List.map_const',
    List.length_range', List.drop_of_length_le (by simp), List.append_nil]

theorem toList_keyBlock (key : Bytes) (s : HmacStack) :
    (setKeyBlock table key s).keyBlock.toList =
      Sha256.blockKey (Sha256.hash (constants table)) 64 key := by
  rw [Sha256.blockKey]
  split_ifs with hlong
  · rw [toList_keyBlock_of_lt table hlong, Sha256.length_hash]
  · rw [toList_keyBlock_of_le table (by omega)]

/-- Either pad is the key block with one byte added to each of its bytes. -/
theorem toList_pad (pad keyBlock : Vector UInt8 64) (byte : UInt8) :
    (fill pad (List.range 64) fun i => keyBlock.toList.getD i 0 ^^^ byte).toList =
      keyBlock.toList.map (· ^^^ byte) := by
  have hmap : (List.range 64).map (fun i => keyBlock.toList.getD i 0 ^^^ byte) =
      keyBlock.toList.map (· ^^^ byte) := by
    have hread := map_getD_range keyBlock.toList 0 keyBlock.length_toList
    conv_rhs => rw [← hread, List.map_map]
    rfl
  rw [List.range_eq_range', toList_fill_range' _ _ (by decide), ← List.range_eq_range', hmap,
    List.take_zero, List.nil_append, List.drop_of_length_le (by simp), List.append_nil]

/-- A digest of 32 bytes fills its buffer. -/
theorem toList_digestOf_eq (ctx : Sha256Ctx) (chunks : List Bytes) (hash : Vector UInt8 32) :
    (digestOf table ctx chunks hash).toList = Sha256.hash (constants table) chunks.flatten := by
  rw [toList_digestOf table le_rfl, List.drop_of_length_le (by simp), List.append_nil]

theorem toList_hmacSha256 (s : HmacStack) (key data : Bytes) (digest : Vector UInt8 32) :
    (hmacSha256 table s key data digest).toList =
      Sha256.hmac (Sha256.hash (constants table)) 64 key data := by
  -- the stack when the pads are set, and the context and the digest after the inner hash
  let s₁ := setKeyPads (setKeyBlock table key s)
  let inner := digestOf table s₁.ctx [s₁.iKeyPad.toList, data] digest
  let ctx := (sha256Final table
    ([s₁.iKeyPad.toList, data].foldl (sha256Update table) (sha256Init s₁.ctx)) digest).1
  have houter : hmacSha256 table s key data digest =
      digestOf table ctx [s₁.oKeyPad.toList, inner.toList] inner := by
    simp only [hmacSha256, digestOf, List.foldl_cons, List.foldl_nil, s₁, inner, ctx]
  have ho : s₁.oKeyPad.toList = (setKeyBlock table key s).keyBlock.toList.map (· ^^^ 0x5c) :=
    toList_pad _ _ _
  have hi : s₁.iKeyPad.toList = (setKeyBlock table key s).keyBlock.toList.map (· ^^^ 0x36) :=
    toList_pad _ _ _
  have hinner : inner.toList = Sha256.hash (constants table) (s₁.iKeyPad.toList ++ data) := by
    rw [toList_digestOf_eq, List.flatten_cons, List.flatten_singleton]
  calc (hmacSha256 table s key data digest).toList
      = Sha256.hash (constants table) (s₁.oKeyPad.toList ++ inner.toList) := by
        rw [houter, toList_digestOf_eq, List.flatten_cons, List.flatten_singleton]
    _ = Sha256.hmac (Sha256.hash (constants table)) 64 key data := by
        rw [hinner, ho, hi, toList_keyBlock, Sha256.hmac]

/-- `hmac_sha256` as the MAC of the exchange. -/
def hmacMac (s : HmacStack) (digest : Vector UInt8 32) : Mac where
  tag key data := (hmacSha256 k s key data digest).toList
  length_tag _ _ := Vector.length_toList

/-- What the variables held before makes no difference, so the two ends of an
exchange have the same MAC. -/
theorem hmacMac_eq (s s' : HmacStack) (digest digest' : Vector UInt8 32) :
    hmacMac s digest = hmacMac s' digest' := by
  simp only [hmacMac, toList_hmacSha256]

/-! ## It is not HMAC-SHA-256

Everything but the table is right: the stream may be cut in any way, the padding
fits every length, the inner digest is reused in place.  One entry of the table
is not the standard's. -/

/-- With the given table the MAC is HMAC over SHA-256, and the digest of a message
that arrives in any pieces is its SHA-256 hash, which the standard defines for
less than `2 ^ 61` bytes. -/
def MacIsHmacSha256 : Prop :=
  (∀ (s : HmacStack) (key data : Bytes) (digest : Vector UInt8 32),
    key.length < 2 ^ 61 → 64 + data.length < 2 ^ 61 →
      (hmacSha256 table s key data digest).toList = Sha256.hmac Sha256.sha256 64 key data) ∧
  ∀ (ctx : Sha256Ctx) (chunks : List Bytes) (hash : Vector UInt8 32),
    chunks.flatten.length < 2 ^ 61 →
      (digestOf table ctx chunks hash).toList = Sha256.sha256 chunks.flatten

/-- With the right entry. -/
theorem macIsHmacSha256_set : MacIsHmacSha256 (k.set 52 0x391c0cb3) := by
  constructor
  · intro s key data digest _ _
    rw [toList_hmacSha256, hash_constants_set]
  · intro ctx chunks hash _
    rw [toList_digestOf_eq, hash_constants_set]

/-- For a message that fits in a block the entry decides. -/
theorem toList_digestOf_set_iff (w : UInt32) (ctx : Sha256Ctx) (chunks : List Bytes)
    (hash : Vector UInt8 32) (hlen : chunks.flatten.length < 56) :
    (digestOf (k.set 52 w) ctx chunks hash).toList = Sha256.sha256 chunks.flatten ↔
      w = 0x391c0cb3 := by
  constructor
  · intro h
    by_contra hw
    rw [toList_digestOf_eq] at h
    exact hash_constants_set_ne hw hlen h
  · rintro rfl
    exact macIsHmacSha256_set.2 ctx chunks hash (by omega)

/-- A context as the first call of a thread may find it. -/
def sampleCtx : Sha256Ctx := ⟨Vector.replicate 64 0, 0, 0, Vector.replicate 8 0⟩

/-- The MAC is HMAC-SHA-256 if and only if the entry `k[52]` is the standard's
`0x391c0cb3`.  It is so already for the digest of any one message of less than 56
bytes: with another entry there is none for which it is right. -/
theorem macIsHmacSha256_iff (w : UInt32) :
    (MacIsHmacSha256 (k.set 52 w) ↔ w = 0x391c0cb3) ∧
      ∀ (ctx : Sha256Ctx) (chunks : List Bytes) (hash : Vector UInt8 32),
        chunks.flatten.length < 56 →
          ((digestOf (k.set 52 w) ctx chunks hash).toList = Sha256.sha256 chunks.flatten ↔
            w = 0x391c0cb3) := by
  constructor
  · constructor
    · rintro ⟨_, hdigest⟩
      have hempty := hdigest sampleCtx [] (Vector.replicate 32 0) (by decide)
      exact (toList_digestOf_set_iff w sampleCtx [] _ (by decide)).1 hempty
    · rintro rfl
      exact macIsHmacSha256_set
  · exact toList_digestOf_set_iff w

-- with the right entry the digest of `abc`, in two pieces, begins as it should
example : (digestOf (k.set 52 0x391c0cb3) sampleCtx [[97], [98, 99]]
    (Vector.replicate 32 0)).toList.take 4 = [0xba, 0x78, 0x16, 0xbf] := by decide +kernel

/-- The variables of `hmac_sha256` with such a context. -/
def sampleStack : HmacStack :=
  ⟨Vector.replicate 64 0, Vector.replicate 64 0, Vector.replicate 64 0, sampleCtx⟩

/-- The data of an exchange with the nonces 7 and 9, as `compute_auth_hmac` lays
them out. -/
def sampleData : Bytes :=
  Endian.big.bytes 8 7 ++ (Endian.big.bytes 8 9 ++ Endian.big.bytes 8 600000100)

/-- The table of the source has `0x391c0cd3`: the MAC of this exchange under the
secret `s` is not HMAC-SHA-256. -/
theorem macIsHmacSha256_fails :
    (hmacSha256 k sampleStack [115] sampleData (Vector.replicate 32 0)).toList ≠
        Sha256.hmac Sha256.sha256 64 [115] sampleData ∧
      ¬ MacIsHmacSha256 k := by
  have hmac : (hmacSha256 k sampleStack [115] sampleData (Vector.replicate 32 0)).toList ≠
      Sha256.hmac Sha256.sha256 64 [115] sampleData := by
    have hright := macIsHmacSha256_set.1 sampleStack [115] sampleData (Vector.replicate 32 0)
      (by decide) (by decide)
    rw [← hright]
    decide +kernel
  exact ⟨hmac, fun h => hmac (h.1 sampleStack [115] sampleData _ (by decide) (by decide))⟩

end Dmmr.Cluster
