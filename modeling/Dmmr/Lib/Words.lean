import Mathlib.Data.List.Lex
import Mathlib.Data.Prod.Lex
import Mathlib.Tactic.Ring

/-!
# Machine words and the bytes they are stored in

A word of `n` bytes is a number below `256 ^ n`; how its bytes lie in memory is
the host's byte order, a parameter of every encoding.  `Endian.bytes` writes a
word, `Endian.word` reads one back, and the two are inverse on words that fit
(`Endian.word_bytes`) and on byte strings of the right length
(`Endian.bytes_word`).

The fixed-width types of the core library carry a decidable order but no
`LinearOrder`; the two instances needed for stamps and for keys are supplied
here.
-/

namespace Words

/-- A byte string. -/
abbrev Bytes := List UInt8

/-! ## Linear orders on the fixed-width types -/

instance instLinearOrderUInt8 : LinearOrder UInt8 where
  le_refl _ := UInt8.le_refl _
  le_trans _ _ _ := UInt8.le_trans
  le_antisymm _ _ := UInt8.le_antisymm
  le_total := UInt8.le_total
  lt_iff_le_not_ge a b := by
    simp only [UInt8.lt_iff_toNat_lt, UInt8.le_iff_toNat_le]
    omega
  toDecidableLE := inferInstance
  toDecidableLT := inferInstance
  toDecidableEq := inferInstance

instance instLinearOrderUInt64 : LinearOrder UInt64 where
  le_refl _ := UInt64.le_refl _
  le_trans _ _ _ := UInt64.le_trans
  le_antisymm _ _ := UInt64.le_antisymm
  le_total := UInt64.le_total
  lt_iff_le_not_ge a b := by
    simp only [UInt64.lt_iff_toNat_lt, UInt64.le_iff_toNat_le]
    omega
  toDecidableLE := inferInstance
  toDecidableLT := inferInstance
  toDecidableEq := inferInstance

/-! ## Little-endian digits in base `256` -/

/-- The `n` low-order bytes of `x`, least significant first. -/
def leBytes : ℕ → ℕ → Bytes
  | 0, _ => []
  | n + 1, x => UInt8.ofNat x :: leBytes n (x / 256)

/-- The number whose bytes, least significant first, are given. -/
def ofLeBytes : Bytes → ℕ
  | [] => 0
  | b :: bs => b.toNat + 256 * ofLeBytes bs

@[simp] theorem length_leBytes (n x : ℕ) : (leBytes n x).length = n := by
  induction n generalizing x with
  | zero => rfl
  | succ n ih => simp [leBytes, ih]

theorem ofLeBytes_leBytes (n x : ℕ) : ofLeBytes (leBytes n x) = x % 256 ^ n := by
  induction n generalizing x with
  | zero => simp [leBytes, ofLeBytes, Nat.mod_one]
  | succ n ih =>
      have hbyte : (UInt8.ofNat x).toNat = x % 256 := by simp
      rw [leBytes, ofLeBytes, ih, hbyte, pow_succ', Nat.mod_mul]

theorem leBytes_ofLeBytes (bs : Bytes) : leBytes bs.length (ofLeBytes bs) = bs := by
  induction bs with
  | nil => rfl
  | cons b bs ih =>
      have hb : b.toNat < 256 := b.toNat_lt
      have hdiv : (b.toNat + 256 * ofLeBytes bs) / 256 = ofLeBytes bs := by omega
      have hmod : UInt8.ofNat (b.toNat + 256 * ofLeBytes bs) = b := by
        apply UInt8.toNat_inj.mp
        rw [UInt8.toNat_ofNat']
        omega
      rw [List.length_cons, ofLeBytes, leBytes, hdiv, hmod, ih]

theorem ofLeBytes_lt (bs : Bytes) : ofLeBytes bs < 256 ^ bs.length := by
  induction bs with
  | nil => simp [ofLeBytes]
  | cons b bs ih =>
      have hb : b.toNat < 256 := b.toNat_lt
      rw [ofLeBytes, List.length_cons, pow_succ']
      omega

/-! ## Byte order -/

/-- The byte order of a host. -/
inductive Endian
  | little
  | big
  deriving DecidableEq, Repr

namespace Endian

/-- The memory image of the `n`-byte word `x`. -/
def bytes (e : Endian) (n x : ℕ) : Bytes :=
  match e with
  | little => leBytes n x
  | big => (leBytes n x).reverse

/-- The word whose memory image is `bs`. -/
def word (e : Endian) (bs : Bytes) : ℕ :=
  match e with
  | little => ofLeBytes bs
  | big => ofLeBytes bs.reverse

@[simp] theorem length_bytes (e : Endian) (n x : ℕ) : (e.bytes n x).length = n := by
  cases e <;> simp [bytes]

theorem word_bytes_mod (e : Endian) (n x : ℕ) : e.word (e.bytes n x) = x % 256 ^ n := by
  cases e <;> simp [word, bytes, ofLeBytes_leBytes]

/-- A word that fits is read back as it was written. -/
theorem word_bytes (e : Endian) {n x : ℕ} (hx : x < 256 ^ n) : e.word (e.bytes n x) = x := by
  rw [word_bytes_mod, Nat.mod_eq_of_lt hx]

/-- A byte string is the image of the word it denotes. -/
theorem bytes_word (e : Endian) {n : ℕ} {bs : Bytes} (hlen : bs.length = n) :
    e.bytes n (e.word bs) = bs := by
  subst hlen
  cases e with
  | little => exact leBytes_ofLeBytes bs
  | big =>
      have h := leBytes_ofLeBytes bs.reverse
      rw [List.length_reverse] at h
      simp only [bytes, word, h, List.reverse_reverse]

/-- Only the low bytes of a number are written. -/
theorem bytes_mod (e : Endian) (n x : ℕ) : e.bytes n (x % 256 ^ n) = e.bytes n x := by
  rw [← e.word_bytes_mod, e.bytes_word (e.length_bytes n x)]

theorem word_lt (e : Endian) (bs : Bytes) : e.word bs < 256 ^ bs.length := by
  cases e with
  | little => exact ofLeBytes_lt bs
  | big => simpa [word] using ofLeBytes_lt bs.reverse

/-- Two words that fit and have the same image are equal. -/
theorem bytes_inj (e : Endian) {n x y : ℕ} (hx : x < 256 ^ n) (hy : y < 256 ^ n)
    (h : e.bytes n x = e.bytes n y) : x = y := by
  rw [← e.word_bytes hx, ← e.word_bytes hy, h]

/-! ## Fields of a record -/

/-- The word stored in the `n` bytes at offset `off` of `data`. -/
def field (e : Endian) (off n : ℕ) (data : Bytes) : ℕ := e.word ((data.drop off).take n)

theorem field_zero (e : Endian) {n x : ℕ} (hx : x < 256 ^ n) (rest : Bytes) :
    e.field 0 n (e.bytes n x ++ rest) = x := by
  rw [field, List.drop_zero, List.take_left' (e.length_bytes n x), e.word_bytes hx]

/-- A field behind the first word is a field of what follows the word. -/
theorem field_skip (e : Endian) {n off : ℕ} (hle : n ≤ off) (m x : ℕ) (rest : Bytes) :
    e.field off m (e.bytes n x ++ rest) = e.field (off - n) m rest := by
  rw [field, field, List.drop_append, List.drop_of_length_le (by simpa using hle), List.nil_append,
    length_bytes]

variable (e : Endian) (rest : Bytes)

@[simp] theorem field_uint16 (x : UInt16) :
    UInt16.ofNat (e.field 0 2 (e.bytes 2 x.toNat ++ rest)) = x := by
  rw [e.field_zero (by simpa using x.toNat_lt), UInt16.ofNat_toNat]

@[simp] theorem field_uint32 (x : UInt32) :
    UInt32.ofNat (e.field 0 4 (e.bytes 4 x.toNat ++ rest)) = x := by
  rw [e.field_zero (by simpa using x.toNat_lt), UInt32.ofNat_toNat]

@[simp] theorem field_uint64 (x : UInt64) :
    UInt64.ofNat (e.field 0 8 (e.bytes 8 x.toNat ++ rest)) = x := by
  rw [e.field_zero (by simpa using x.toNat_lt), UInt64.ofNat_toNat]

end Endian

end Words
