import Dmmr.Lib.Buffers
import Dmmr.Lib.Words
import Mathlib.Data.Nat.NthRoot.Defs
import Mathlib.Data.Nat.Nth
import Mathlib.Data.Nat.Prime.Basic

/-!
# SHA-256 and HMAC

The hash function of the standard for messages of whole bytes, and the keyed
construction over it.  A message is padded to whole blocks of 64 bytes
(`padding`), and the blocks are folded into a hash value of eight words by
`compress`, which runs 64 rounds on words drawn from the block (`schedule`).

The constants are not copied from a table but defined as the standard explains
them: the first 32 bits of the fractional parts of the square roots of the first
eight primes, and of the cube roots of the first 64.  The round constants are a
parameter of the rounds, so that one can say what a single wrong one does: every
block is then compressed to another value (`compress_ne`), since a round can be
undone, and every message that fits in a block has another hash (`hash_ne`).
-/

namespace Sha256

open Words Buffers

/-! ## Functions on words -/

/-- `ROTR`. -/
def rotr (n : ℕ) (x : UInt32) : UInt32 := ⟨x.toBitVec.rotateRight n⟩

def ch (x y z : UInt32) : UInt32 := (x &&& y) ^^^ (~~~x &&& z)

def maj (x y z : UInt32) : UInt32 := (x &&& y) ^^^ (x &&& z) ^^^ (y &&& z)

def bigSigma0 (x : UInt32) : UInt32 := rotr 2 x ^^^ rotr 13 x ^^^ rotr 22 x

def bigSigma1 (x : UInt32) : UInt32 := rotr 6 x ^^^ rotr 11 x ^^^ rotr 25 x

def smallSigma0 (x : UInt32) : UInt32 := rotr 7 x ^^^ rotr 18 x ^^^ x >>> 3

def smallSigma1 (x : UInt32) : UInt32 := rotr 17 x ^^^ rotr 19 x ^^^ x >>> 10

/-! ## Constants -/

/-- The first 32 bits of the fractional part of the `n`-th root of `p`. -/
def rootBits (n p : ℕ) : UInt32 := UInt32.ofNat (Nat.nthRoot n (p * 2 ^ (32 * n)))

/-- The words `K`. -/
noncomputable def roundConstant (t : ℕ) : UInt32 := rootBits 3 (Nat.nth Nat.Prime t)

/-- A hash value, the words `H`. -/
abbrev HashValue := Vector UInt32 8

noncomputable def initialValue : HashValue :=
  Vector.ofFn fun j => rootBits 2 (Nat.nth Nat.Prime j)

/-- The `i`-th number with a property is the `i`-th in the list of those below a
bound, if it is that long. -/
theorem nth_eq_getD_filter_range (p : ℕ → Prop) [DecidablePred p] {N i : ℕ}
    (hi : i < ((List.range N).filter p).length) :
    Nat.nth p i = ((List.range N).filter p).getD i 0 := by
  have hcount : ∀ n, ((List.range n).filter p).length = Nat.count p n := by
    intro n
    rw [Nat.count_eq_card_filter_range]
    rfl
  induction N with
  | zero => simp at hi
  | succ N ih =>
      rw [List.range_succ, List.filter_append] at hi ⊢
      by_cases hlt : i < ((List.range N).filter p).length
      · rw [ih hlt, List.getD_append _ _ _ _ hlt]
      · have hN : p N := by
          by_contra hN
          simp [hN] at hi hlt
          omega
        have heq : i = Nat.count p N := by
          simp [hN] at hi
          rw [← hcount]
          omega
        rw [heq, Nat.nth_count hN, ← hcount, List.getD_append_right _ _ _ _ le_rfl]
        simp [hN]

/-- The first 64 primes. -/
def firstPrimes : List ℕ := [
  2, 3, 5, 7, 11, 13, 17, 19, 23, 29, 31, 37, 41, 43, 47, 53, 59, 61, 67, 71, 73, 79, 83, 89, 97,
  101, 103, 107, 109, 113, 127, 131, 137, 139, 149, 151, 157, 163, 167, 173, 179, 181, 191, 193,
  197, 199, 211, 223, 227, 229, 233, 239, 241, 251, 257, 263, 269, 271, 277, 281, 283, 293, 307,
  311]

/-- A prime below `18 ^ 2` is recognised by its divisors below `18`. -/
theorem prime_iff {p : ℕ} (hp : p < 324) :
    p.Prime ↔ 2 ≤ p ∧ ∀ m ∈ List.range' 2 16, m ∣ p → m = p := by
  constructor
  · intro h
    refine ⟨h.two_le, fun m hm hdvd => ?_⟩
    rw [List.mem_range'_1] at hm
    exact (h.eq_one_or_self_of_dvd m hdvd).resolve_left (by omega)
  · rintro ⟨htwo, hdvd⟩
    rw [Nat.prime_def_le_sqrt]
    refine ⟨htwo, fun m hm hsqrt hmp => ?_⟩
    have hlt : m < 18 := by
      have h := Nat.sqrt_lt'.2 (show p < 18 ^ 2 by omega)
      omega
    have heq := hdvd m (by rw [List.mem_range'_1]; omega) hmp
    have hself := Nat.sqrt_lt_self (show 1 < p by omega)
    omega

theorem nth_prime {i : ℕ} (hi : i < 64) : Nat.nth Nat.Prime i = firstPrimes.getD i 0 := by
  have hfilter : (List.range 312).filter (fun p => Nat.Prime p) = firstPrimes := by
    have hprime : ∀ p ∈ List.range 312, decide (Nat.Prime p) =
        decide (2 ≤ p ∧ ∀ m ∈ List.range' 2 16, m ∣ p → m = p) := by
      intro p hp
      rw [List.mem_range] at hp
      exact decide_eq_decide.2 (prime_iff (by omega))
    rw [List.filter_congr hprime]
    decide +kernel
  have h := nth_eq_getD_filter_range Nat.Prime (N := 312) (i := i)
  rw [hfilter] at h
  exact h hi

/-! ## The rounds -/

/-- The working variables. -/
@[ext]
structure Registers where
  a : UInt32
  b : UInt32
  c : UInt32
  d : UInt32
  e : UInt32
  f : UInt32
  g : UInt32
  h : UInt32

/-- One round, with the round constant `k` and the word `w` of the schedule. -/
def round (k w : UInt32) (r : Registers) : Registers :=
  let t₁ := r.h + bigSigma1 r.e + ch r.e r.f r.g + k + w
  let t₂ := bigSigma0 r.a + maj r.a r.b r.c
  { a := t₁ + t₂, b := r.a, c := r.b, d := r.c, e := r.d + t₁, f := r.e, g := r.f, h := r.g }

/-- Rounds `0` to `n - 1`. -/
def rounds (K W : ℕ → UInt32) (n : ℕ) (r : Registers) : Registers :=
  (List.range n).foldl (fun r t => round (K t) (W t) r) r

theorem rounds_succ (K W : ℕ → UInt32) (n : ℕ) (r : Registers) :
    rounds K W (n + 1) r = round (K n) (W n) (rounds K W n r) := by
  rw [rounds, List.range_succ, List.foldl_append]
  rfl

theorem rounds_congr {K K' : ℕ → UInt32} (W : ℕ → UInt32) {n : ℕ} (h : ∀ t < n, K t = K' t)
    (r : Registers) : rounds K W n r = rounds K' W n r := by
  induction n with
  | zero => rfl
  | succ n ih => rw [rounds_succ, rounds_succ, ih fun t ht => h t (by omega), h n (by omega)]

/-- A round can be undone: `h` and `d`, which it consumes, are found in the new
`a` and `e`. -/
theorem round_injective (k w : UInt32) : Function.Injective (round k w) := by
  intro r s h
  simp only [round, Registers.mk.injEq] at h
  obtain ⟨ha, hb, hc, hd, he, hf, hg, hh⟩ := h
  rw [hb, hc, hd, UInt32.add_left_inj] at ha
  rw [ha, UInt32.add_left_inj] at he
  rw [hf, hg, hh, UInt32.add_left_inj, UInt32.add_left_inj, UInt32.add_left_inj,
    UInt32.add_left_inj] at ha
  exact Registers.ext hb hc hd he hf hg hh ha

/-- Another constant gives other registers. -/
theorem round_ne {k k' : UInt32} (hk : k ≠ k') (w : UInt32) (r : Registers) :
    round k w r ≠ round k' w r := by
  intro h
  apply hk
  have he : (round k w r).e = (round k' w r).e := by rw [h]
  simp only [round] at he
  rwa [UInt32.add_right_inj, UInt32.add_left_inj, UInt32.add_right_inj] at he

/-- Rounds with constants that differ at one place give other registers. -/
theorem rounds_ne {K K' : ℕ → UInt32} (W : ℕ → UInt32) {n i : ℕ} (hi : i < n) (hne : K i ≠ K' i)
    (heq : ∀ t < n, t ≠ i → K t = K' t) (r : Registers) : rounds K W n r ≠ rounds K' W n r := by
  induction n with
  | zero => omega
  | succ n ih =>
      rw [rounds_succ, rounds_succ]
      obtain hlast | hlt := Nat.eq_or_lt_of_le (Nat.le_of_lt_succ hi)
      · -- the place is the last round: before it nothing differs
        subst hlast
        rw [rounds_congr W (fun t ht => heq t (by omega) (by omega)) r]
        exact round_ne hne _ _
      · rw [heq n (by omega) (by omega)]
        intro h
        exact ih hlt (fun t ht => heq t (by omega)) (round_injective _ _ h)

/-- The message schedule `W` of a block. -/
def schedule (block : Bytes) (t : ℕ) : UInt32 :=
  if h : t < 16 then UInt32.ofNat (Endian.big.field (4 * t) 4 block)
  else
    smallSigma1 (schedule block (t - 2)) + schedule block (t - 7) +
      smallSigma0 (schedule block (t - 15)) + schedule block (t - 16)
termination_by t

theorem schedule_of_lt (block : Bytes) {t : ℕ} (ht : t < 16) :
    schedule block t = UInt32.ofNat (Endian.big.field (4 * t) 4 block) := by
  rw [schedule, dif_pos ht]

theorem schedule_of_le (block : Bytes) {t : ℕ} (ht : 16 ≤ t) :
    schedule block t = smallSigma1 (schedule block (t - 2)) + schedule block (t - 7) +
      smallSigma0 (schedule block (t - 15)) + schedule block (t - 16) := by
  rw [schedule, dif_neg (by omega)]

def HashValue.registers (H : HashValue) : Registers :=
  ⟨H[0], H[1], H[2], H[3], H[4], H[5], H[6], H[7]⟩

/-- The registers after the rounds are added to the hash value. -/
def HashValue.add (H : HashValue) (r : Registers) : HashValue :=
  #v[r.a + H[0], r.b + H[1], r.c + H[2], r.d + H[3], r.e + H[4], r.f + H[5], r.g + H[6],
    r.h + H[7]]

theorem HashValue.add_injective (H : HashValue) : Function.Injective H.add := by
  intro r s h
  have hlist := congrArg Vector.toList h
  simp only [add, Vector.toList_mk, List.cons.injEq, UInt32.add_left_inj, and_true] at hlist
  obtain ⟨ha, hb, hc, hd, he, hf, hg, hh⟩ := hlist
  exact Registers.ext ha hb hc hd he hf hg hh

/-- The hash value after one more block. -/
def compress (K : ℕ → UInt32) (H : HashValue) (block : Bytes) : HashValue :=
  H.add (rounds K (schedule block) 64 H.registers)

theorem compress_congr {K K' : ℕ → UInt32} (h : ∀ t < 64, K t = K' t) (H : HashValue)
    (block : Bytes) : compress K H block = compress K' H block := by
  rw [compress, compress, rounds_congr _ h]

theorem compress_ne {K K' : ℕ → UInt32} {i : ℕ} (hi : i < 64) (hne : K i ≠ K' i)
    (heq : ∀ t < 64, t ≠ i → K t = K' t) (H : HashValue) (block : Bytes) :
    compress K H block ≠ compress K' H block := by
  intro h
  exact rounds_ne (schedule block) hi hne heq H.registers (H.add_injective h)

/-! ## Padding and the hash -/

theorem exists_zeros (len : ℕ) : ∃ k, (len + 1 + k) % 64 = 56 :=
  ⟨(119 - len % 64) % 64, by omega⟩

/-- The least number of zero bytes after the byte `0x80` that leaves room for the
length in the last block. -/
def zeros (len : ℕ) : ℕ := Nat.find (exists_zeros len)

theorem zeros_of_lt {len : ℕ} (h : len % 64 < 56) : zeros len = 55 - len % 64 := by
  rw [zeros, Nat.find_eq_iff]
  constructor <;> omega

theorem zeros_of_le {len : ℕ} (h : 56 ≤ len % 64) : zeros len = 119 - len % 64 := by
  rw [zeros, Nat.find_eq_iff]
  constructor <;> omega

/-- What is appended to a message of `len` bytes: the length is given in bits. -/
def padding (len : ℕ) : Bytes :=
  0x80 :: List.replicate (zeros len) 0 ++ Endian.big.bytes 8 (8 * len)

theorem length_padding (len : ℕ) : (padding len).length = zeros len + 9 := by
  simp [padding]

def HashValue.toBytes (H : HashValue) : Bytes :=
  (H.toList.map fun w => Endian.big.bytes 4 w.toNat).flatten

theorem HashValue.length_word (H : HashValue) :
    ∀ b ∈ H.toList.map fun w => Endian.big.bytes 4 w.toNat, b.length = 4 := by
  intro b hb
  obtain ⟨w, _, rfl⟩ := List.mem_map.1 hb
  exact Endian.length_bytes _ _ _

theorem HashValue.length_toBytes (H : HashValue) : H.toBytes.length = 32 := by
  rw [toBytes, length_flatten H.length_word, List.length_map, Vector.length_toList]

theorem HashValue.toBytes_injective : Function.Injective toBytes := by
  intro H H' h
  have hblocks : ∀ H : HashValue,
      blocks 4 H.toBytes = H.toList.map fun w => Endian.big.bytes 4 w.toNat := by
    intro H
    exact blocks_flatten (by decide) H.length_word
  have hword : Function.Injective fun w : UInt32 => Endian.big.bytes 4 w.toNat := by
    intro v w hvw
    exact UInt32.toNat_inj.1 (Endian.bytes_inj _ v.toNat_lt w.toNat_lt hvw)
  apply Vector.toList_inj.1
  apply List.map_injective_iff.2 hword
  rw [← hblocks, ← hblocks, h]

/-- The hash of a message with the round constants `K`. -/
noncomputable def hash (K : ℕ → UInt32) (msg : Bytes) : Bytes :=
  ((blocks 64 (msg ++ padding msg.length)).foldl (compress K) initialValue).toBytes

theorem length_hash (K : ℕ → UInt32) (msg : Bytes) : (hash K msg).length = 32 :=
  HashValue.length_toBytes _

theorem hash_congr {K K' : ℕ → UInt32} (h : ∀ t < 64, K t = K' t) : hash K = hash K' := by
  have hcompress : compress K = compress K' := by
    funext H block
    exact compress_congr h H block
  funext msg
  rw [hash, hash, hcompress]

/-- A message that fits in one block together with its padding. -/
theorem blocks_padded_of_lt {msg : Bytes} (h : msg.length < 56) :
    blocks 64 (msg ++ padding msg.length) = [msg ++ padding msg.length] := by
  have hlen : (msg ++ padding msg.length).length = 64 := by
    rw [List.length_append, length_padding, zeros_of_lt (by omega)]
    omega
  have h := blocks_append (by decide) hlen []
  rw [List.append_nil] at h
  rw [h]
  rfl

/-- With one wrong round constant no such message has the right hash. -/
theorem hash_ne {K K' : ℕ → UInt32} {i : ℕ} (hi : i < 64) (hne : K i ≠ K' i)
    (heq : ∀ t < 64, t ≠ i → K t = K' t) {msg : Bytes} (hmsg : msg.length < 56) :
    hash K msg ≠ hash K' msg := by
  intro h
  rw [hash, hash, blocks_padded_of_lt hmsg, List.foldl_cons, List.foldl_nil, List.foldl_cons,
    List.foldl_nil] at h
  exact compress_ne hi hne heq _ _ (HashValue.toBytes_injective h)

/-- SHA-256. -/
noncomputable def sha256 (msg : Bytes) : Bytes := hash roundConstant msg

/-! ## HMAC -/

/-- The key as one block: a longer one is hashed, and zeros are appended. -/
def blockKey (H : Bytes → Bytes) (B : ℕ) (key : Bytes) : Bytes :=
  let k := if B < key.length then H key else key
  k ++ List.replicate (B - k.length) 0

/-- HMAC over the hash function `H` with blocks of `B` bytes. -/
def hmac (H : Bytes → Bytes) (B : ℕ) (key text : Bytes) : Bytes :=
  let k := blockKey H B key
  H (k.map (· ^^^ 0x5c) ++ H (k.map (· ^^^ 0x36) ++ text))

end Sha256
