import Dmmr.Lib.Sha256

/-!
# The hash of the cluster code

`sha256.c` keeps a buffer for one block, fills it byte by byte and compresses it
each time it is full; the last one or two blocks are built in the buffer itself.

The table `k` of round constants is an argument of the functions here.  Whatever
it holds, the code computes the hash of the standard with the constants of the
table: the compression is the standard's (`sha256Transform_eq`), a context knows
the bytes it was given up to the order of compressions (`Absorbed`), and the last
blocks complete the padded message for every length (`lastBlocks`).  So the digest
depends on the bytes alone and not on how they were cut into calls
(`toList_digestOf`).  The table itself is compared with the roots it stands for in
`roundConstant_eq`: the entry `k[52]` is not the standard's.
-/

namespace Dmmr.Cluster

open Words Buffers
open Sha256 (Registers schedule compress)

/-! ## The macros -/

/-- `ROTRIGHT`. -/
def rotRight (a b : UInt32) : UInt32 := a >>> b ||| a <<< (32 - b)

/-- `CH`. -/
def ch (x y z : UInt32) : UInt32 := (x &&& y) ^^^ (~~~x &&& z)

/-- `MAJ`. -/
def maj (x y z : UInt32) : UInt32 := (x &&& y) ^^^ (x &&& z) ^^^ (y &&& z)

/-- `EP0`. -/
def ep0 (x : UInt32) : UInt32 := rotRight x 2 ^^^ rotRight x 13 ^^^ rotRight x 22

/-- `EP1`. -/
def ep1 (x : UInt32) : UInt32 := rotRight x 6 ^^^ rotRight x 11 ^^^ rotRight x 25

/-- `SIG0`. -/
def sig0 (x : UInt32) : UInt32 := rotRight x 7 ^^^ rotRight x 18 ^^^ x >>> 3

/-- `SIG1`. -/
def sig1 (x : UInt32) : UInt32 := rotRight x 17 ^^^ rotRight x 19 ^^^ x >>> 10

/-- The table of round constants. -/
def k : List UInt32 := [
  0x428a2f98, 0x71374491, 0xb5c0fbcf, 0xe9b5dba5, 0x3956c25b, 0x59f111f1, 0x923f82a4, 0xab1c5ed5,
  0xd807aa98, 0x12835b01, 0x243185be, 0x550c7dc3, 0x72be5d74, 0x80deb1fe, 0x9bdc06a7, 0xc19bf174,
  0xe49b69c1, 0xefbe4786, 0x0fc19dc6, 0x240ca1cc, 0x2de92c6f, 0x4a7484aa, 0x5cb0a9dc, 0x76f988da,
  0x983e5152, 0xa831c66d, 0xb00327c8, 0xbf597fc7, 0xc6e00bf3, 0xd5a79147, 0x06ca6351, 0x14292967,
  0x27b70a85, 0x2e1b2138, 0x4d2c6dfc, 0x53380d13, 0x650a7354, 0x766a0abb, 0x81c2c92e, 0x92722c85,
  0xa2bfe8a1, 0xa81a664b, 0xc24b8b70, 0xc76c51a3, 0xd192e819, 0xd6990624, 0xf40e3585, 0x106aa070,
  0x19a4c116, 0x1e376c08, 0x2748774c, 0x34b0bcb5, 0x391c0cd3, 0x4ed8aa4a, 0x5b9cca4f, 0x682e6ff3,
  0x748f82ee, 0x78a5636f, 0x84c87814, 0x8cc70208, 0x90befffa, 0xa4506ceb, 0xbef9a3f7, 0xc67178f2]

/-! ## The compression -/

/-- `sha256_ctx`. -/
structure Sha256Ctx where
  data : Vector UInt8 64
  datalen : UInt32
  bitlen : UInt64
  state : Vector UInt32 8

/-- `m[i]` for the words that are read from the block, `j` being `4 * i`. -/
def loadWord (data : Vector UInt8 64) (j : ℕ) : UInt32 :=
  let byte (i : ℕ) : UInt32 := (data.toList.getD i 0).toUInt32
  byte j <<< 24 ||| byte (j + 1) <<< 16 ||| byte (j + 2) <<< 8 ||| byte (j + 3)

/-- `m[i]` for the others. -/
def nextWord (m : List UInt32) (i : ℕ) : UInt32 :=
  sig1 (m.getD (i - 2) 0) + m.getD (i - 7) 0 + sig0 (m.getD (i - 15) 0) + m.getD (i - 16) 0

/-- The words `m`, written in order: what is not written yet is not there. -/
def messageWords (data : Vector UInt8 64) : List UInt32 :=
  let m := (List.range 16).foldl (fun m i => m ++ [loadWord data (4 * i)]) []
  (List.range' 16 48).foldl (fun m i => m ++ [nextWord m i]) m

/-- One pass of the loop over `k[i]` and `m[i]`, on the variables `a` to `h`. -/
def roundStep (ki mi : UInt32) (v : Registers) : Registers :=
  let t1 := v.h + ep1 v.e + ch v.e v.f v.g + ki + mi
  let t2 := ep0 v.a + maj v.a v.b v.c
  let v := { v with h := v.g }
  let v := { v with g := v.f }
  let v := { v with f := v.e }
  let v := { v with e := v.d + t1 }
  let v := { v with d := v.c }
  let v := { v with c := v.b }
  let v := { v with b := v.a }
  { v with a := t1 + t2 }

/-- The last lines of `sha256_transform`: each word of the state is increased. -/
def addState (s : Vector UInt32 8) (v : Registers) : Vector UInt32 8 :=
  #v[s.get 0 + v.a, s.get 1 + v.b, s.get 2 + v.c, s.get 3 + v.d, s.get 4 + v.e, s.get 5 + v.f,
    s.get 6 + v.g, s.get 7 + v.h]

variable (table : List UInt32)

/-- `sha256_transform`, with the table of round constants as an argument. -/
def sha256Transform (ctx : Sha256Ctx) (data : Vector UInt8 64) : Sha256Ctx :=
  let m := messageWords data
  let s := ctx.state
  let v : Registers :=
    ⟨s.get 0, s.get 1, s.get 2, s.get 3, s.get 4, s.get 5, s.get 6, s.get 7⟩
  let v := (List.range 64).foldl (fun v i => roundStep (table.getD i 0) (m.getD i 0) v) v
  { ctx with state := addState s v }

/-- `sha256_init`: the buffer keeps whatever it held. -/
def sha256Init (ctx : Sha256Ctx) : Sha256Ctx :=
  { ctx with
    datalen := 0
    bitlen := 0
    state := #v[0x6a09e667, 0xbb67ae85, 0x3c6ef372, 0xa54ff53a, 0x510e527f, 0x9b05688c, 0x1f83d9ab,
      0x5be0cd19] }

/-- One byte of `sha256_update`. -/
def updateByte (ctx : Sha256Ctx) (byte : UInt8) : Sha256Ctx :=
  let ctx := { ctx with data := ctx.data.setIfInBounds ctx.datalen.toNat byte }
  let ctx := { ctx with datalen := ctx.datalen + 1 }
  if ctx.datalen = 64 then
    let ctx := sha256Transform table ctx ctx.data
    { ctx with bitlen := ctx.bitlen + 512, datalen := 0 }
  else ctx

/-- `sha256_update`. -/
def sha256Update (ctx : Sha256Ctx) (data : Bytes) : Sha256Ctx :=
  data.foldl (updateByte table) ctx

/-- The byte `0x80` and the zeros after it, up to position `stop`. -/
def endMark (data : Vector UInt8 64) (i stop : ℕ) : Vector UInt8 64 :=
  fill (data.setIfInBounds i 0x80) (List.range' (i + 1) (stop - (i + 1))) fun _ => 0

/-- The first part of `sha256_final`: the buffer has room for the length. -/
def endMessage (ctx : Sha256Ctx) : Sha256Ctx :=
  let i := ctx.datalen.toNat
  if ctx.datalen < 56 then { ctx with data := endMark ctx.data i 56 }
  else
    let ctx := { ctx with data := endMark ctx.data i 64 }
    let ctx := sha256Transform table ctx ctx.data
    -- memset
    { ctx with data := fill ctx.data (List.range 56) fun _ => 0 }

/-- The stores of the length, from `data[63]` down to `data[56]`. -/
def storeLength (data : Vector UInt8 64) (bitlen : UInt64) : Vector UInt8 64 :=
  fill data (List.range' 56 8).reverse fun p => (bitlen >>> (8 * (63 - UInt64.ofNat p))).toUInt8

/-- The positions of the output in the order in which they are written. -/
def hashPositions : List ℕ :=
  (List.range 4).flatMap fun i => (List.range 8).map fun j => i + 4 * j

/-- The output loop: byte `p` is a byte of the word `state[p / 4]`. -/
def storeHash {n : ℕ} (state : Vector UInt32 8) (hash : Vector UInt8 n) : Vector UInt8 n :=
  fill hash hashPositions fun p =>
    (state.toList.getD (p / 4) 0 >>> (24 - UInt32.ofNat (p % 4) * 8) &&& 0xff).toUInt8

/-- `sha256_final`: the context and the buffer the digest is written to. -/
def sha256Final {n : ℕ} (ctx : Sha256Ctx) (hash : Vector UInt8 n) : Sha256Ctx × Vector UInt8 n :=
  let datalen := ctx.datalen
  let ctx := endMessage table ctx
  let ctx := { ctx with bitlen := ctx.bitlen + (datalen * 8).toUInt64 }
  let ctx := { ctx with data := storeLength ctx.data ctx.bitlen }
  let ctx := sha256Transform table ctx ctx.data
  (ctx, storeHash ctx.state hash)

/-! ## The compression is the standard's -/

/-- Four bytes shifted into place are the word they denote. -/
theorem shifted_bytes (a b c d : UInt8) :
    a.toUInt32 <<< 24 ||| b.toUInt32 <<< 16 ||| c.toUInt32 <<< 8 ||| d.toUInt32 =
      UInt32.ofNat (Endian.big.word [a, b, c, d]) := by
  have ha := a.toNat_lt
  have hb := b.toNat_lt
  have hc := c.toNat_lt
  have hd := d.toNat_lt
  have hword : Endian.big.word [a, b, c, d] =
      a.toNat <<< 24 + (b.toNat <<< 16 + (c.toNat <<< 8 + d.toNat)) := by
    simp only [Endian.word, ofLeBytes, List.reverse_cons, List.reverse_nil, List.nil_append,
      List.cons_append]
    omega
  have hlow : c.toNat <<< 8 + d.toNat < 2 ^ 16 := by omega
  have hmid : b.toNat <<< 16 + (c.toNat <<< 8 + d.toNat) < 2 ^ 24 := by omega
  have hhigh : a.toNat <<< 24 + (b.toNat <<< 16 + (c.toNat <<< 8 + d.toNat)) < 2 ^ 32 := by omega
  apply UInt32.toNat_inj.1
  rw [hword, UInt32.toNat_ofNat_of_lt' hhigh, Nat.shiftLeft_add_eq_or_of_lt hmid,
    Nat.shiftLeft_add_eq_or_of_lt hlow, Nat.shiftLeft_add_eq_or_of_lt hd]
  simp (disch := omega) [Nat.or_assoc, Nat.mod_eq_of_lt]

theorem take_four_drop {l : Bytes} {j : ℕ} (h : j + 4 ≤ l.length) :
    (l.drop j).take 4 = [l.getD j 0, l.getD (j + 1) 0, l.getD (j + 2) 0, l.getD (j + 3) 0] := by
  have hdrop : ∀ i < l.length, l.drop i = l.getD i 0 :: l.drop (i + 1) := by
    intro i hi
    rw [List.drop_eq_getElem_cons hi, List.getD_eq_getElem _ _ hi]
  rw [hdrop j (by omega), hdrop (j + 1) (by omega), hdrop (j + 2) (by omega),
    hdrop (j + 3) (by omega)]
  rfl

theorem loadWord_eq (data : Vector UInt8 64) {i : ℕ} (hi : i < 16) :
    loadWord data (4 * i) = schedule data.toList i := by
  have hlen : 4 * i + 4 ≤ data.toList.length := by
    rw [Vector.length_toList]
    omega
  rw [Sha256.schedule_of_lt _ hi, Endian.field, take_four_drop hlen]
  exact shifted_bytes _ _ _ _

theorem getD_map_range (g : ℕ → UInt32) {i j : ℕ} (hj : j < i) :
    ((List.range i).map g).getD j 0 = g j := by
  simp [hj]

-- the amounts are literals, so the rotations of the standard compute to these shifts
theorem sig0_eq (x : UInt32) : sig0 x = Sha256.smallSigma0 x := rfl

theorem sig1_eq (x : UInt32) : sig1 x = Sha256.smallSigma1 x := rfl

theorem nextWord_eq (block : Bytes) {i : ℕ} (hi : 16 ≤ i) :
    nextWord ((List.range i).map (schedule block)) i = schedule block i := by
  rw [nextWord, getD_map_range _ (by omega), getD_map_range _ (by omega),
    getD_map_range _ (by omega), getD_map_range _ (by omega), Sha256.schedule_of_le _ hi, sig1_eq,
    sig0_eq]

theorem messageWords_eq (data : Vector UInt8 64) :
    messageWords data = (List.range 64).map (schedule data.toList) := by
  have hload : (List.range 16).foldl (fun m i => m ++ [loadWord data (4 * i)]) [] =
      (List.range 16).map (schedule data.toList) := by
    have h := foldl_extend (fun _ i => loadWord data (4 * i)) (schedule data.toList)
      fun i (_ : 0 ≤ i) (hi : i < 0 + 16) => loadWord_eq data (by omega)
    rw [← List.range_eq_range'] at h
    exact h
  rw [messageWords, hload]
  exact foldl_extend nextWord (schedule data.toList) fun i hi _ => nextWord_eq _ hi

theorem roundStep_eq (ki mi : UInt32) (v : Registers) :
    roundStep ki mi v = Sha256.round ki mi v := rfl

/-- The table as the function the standard has. -/
def constants (t : ℕ) : UInt32 := table.getD t 0

theorem addState_eq (s : Vector UInt32 8) (v : Registers) :
    addState s v = Sha256.HashValue.add s v := by
  simp only [addState, Sha256.HashValue.add, UInt32.add_comm]
  rfl

theorem sha256Transform_eq (ctx : Sha256Ctx) (data : Vector UInt8 64) :
    sha256Transform table ctx data =
      { ctx with state := compress (constants table) ctx.state data.toList } := by
  have hrounds : ∀ v : Registers,
      (List.range 64).foldl
          (fun v i => roundStep (table.getD i 0) ((messageWords data).getD i 0) v) v =
        Sha256.rounds (constants table) (schedule data.toList) 64 v := by
    intro v
    apply List.foldl_ext
    intro v i hi
    rw [messageWords_eq, getD_map_range _ (List.mem_range.1 hi), roundStep_eq, constants]
  rw [sha256Transform, hrounds, addState_eq, compress]
  rfl

/-! ## The stream -/

/-- What a context knows of the bytes it was given: the complete blocks are
compressed and counted, the rest is in the buffer. -/
def Absorbed (msg : Bytes) (ctx : Sha256Ctx) : Prop :=
  ∃ bs, Parsed 64 msg bs (ctx.data.toList.take ctx.datalen.toNat) ∧
    ctx.state = bs.foldl (compress (constants table)) Sha256.initialValue ∧
    ctx.bitlen = UInt64.ofNat (512 * bs.length)

theorem initialValue_eq : Sha256.initialValue =
    #v[0x6a09e667, 0xbb67ae85, 0x3c6ef372, 0xa54ff53a, 0x510e527f, 0x9b05688c, 0x1f83d9ab,
      0x5be0cd19] := by
  have hroots : ∀ i (hi : i < 8), Sha256.rootBits 2 (Sha256.firstPrimes.getD i 0) =
      #v[0x6a09e667, 0xbb67ae85, 0x3c6ef372, 0xa54ff53a, 0x510e527f, 0x9b05688c, 0x1f83d9ab,
        0x5be0cd19][i] := by
    decide +kernel
  apply Vector.ext
  intro i hi
  rw [← hroots i hi, ← Sha256.nth_prime (by omega)]
  simp [Sha256.initialValue]

namespace Absorbed

variable {table} {msg : Bytes} {ctx : Sha256Ctx}

theorem datalen_lt (h : Absorbed table msg ctx) : ctx.datalen.toNat < 64 := by
  obtain ⟨bs, hparsed, -, -⟩ := h
  have hshort := hparsed.short
  rw [List.length_take, Vector.length_toList] at hshort
  omega

theorem init (ctx : Sha256Ctx) : Absorbed table [] (sha256Init ctx) := by
  refine ⟨[], Parsed.nil (by decide), ?_, rfl⟩
  rw [List.foldl_nil, initialValue_eq]
  rfl

/-- One byte more. -/
theorem updateByte (h : Absorbed table msg ctx) (byte : UInt8) :
    Absorbed table (msg ++ [byte]) (updateByte table ctx byte) := by
  have hlt := h.datalen_lt
  obtain ⟨bs, hparsed, hstate, hbitlen⟩ := h
  have hsucc : (ctx.datalen + 1).toNat = ctx.datalen.toNat + 1 := by
    rw [UInt32.toNat_add, UInt32.toNat_one]
    omega
  have hlen : (ctx.data.toList.take ctx.datalen.toNat).length = ctx.datalen.toNat := by
    rw [List.length_take, Vector.length_toList]
    omega
  have hdata := toList_setIfInBounds ctx.data byte hlt
  rw [Cluster.updateByte]
  simp only
  split_ifs with hfull
  · -- the block is complete
    have hd : ctx.datalen.toNat = 63 := by
      rw [hfull] at hsucc
      change 64 = _ at hsucc
      omega
    have hblock : (ctx.data.setIfInBounds ctx.datalen.toNat byte).toList =
        ctx.data.toList.take ctx.datalen.toNat ++ [byte] := by
      rw [hdata, List.drop_of_length_le (by rw [Vector.length_toList]; omega)]
    refine ⟨_, hparsed.complete byte (by omega), ?_, ?_⟩
    · rw [sha256Transform_eq, List.foldl_append, ← hstate, ← hblock]
      rfl
    · rw [sha256Transform_eq, List.length_append, Nat.mul_add, UInt64.ofNat_add, ← hbitlen]
      rfl
  · have hd : ctx.datalen.toNat + 1 < 64 := by
      have hne : (ctx.datalen + 1).toNat ≠ 64 := fun h => hfull (UInt32.toNat_inj.1 h)
      omega
    have hrest :
        (ctx.data.setIfInBounds ctx.datalen.toNat byte).toList.take (ctx.datalen + 1).toNat =
          ctx.data.toList.take ctx.datalen.toNat ++ [byte] := by
      rw [hdata, hsucc, List.append_cons]
      exact List.take_left' (by rw [List.length_append, hlen]; rfl)
    refine ⟨bs, ?_, hstate, hbitlen⟩
    rw [hrest]
    exact hparsed.push byte (by omega)

/-- Any number of bytes more. -/
theorem sha256Update (h : Absorbed table msg ctx) (data : Bytes) :
    Absorbed table (msg ++ data) (sha256Update table ctx data) := by
  induction data generalizing msg ctx with
  | nil => simpa [Cluster.sha256Update] using h
  | cons byte data ih =>
      rw [List.append_cons]
      exact ih (h.updateByte byte)

/-- However they are cut into calls. -/
theorem chunks (h : Absorbed table msg ctx) (chunks : List Bytes) :
    Absorbed table (msg ++ chunks.flatten) (chunks.foldl (Cluster.sha256Update table) ctx) := by
  induction chunks generalizing msg ctx with
  | nil => simpa using h
  | cons chunk chunks ih =>
      rw [List.flatten_cons, ← List.append_assoc]
      exact ih (h.sha256Update chunk)

end Absorbed

/-! ## The last blocks -/

theorem toList_endMark (data : Vector UInt8 64) {i stop : ℕ} (hi : i < stop) (hstop : stop ≤ 64) :
    (endMark data i stop).toList = data.toList.take i ++
      0x80 :: List.replicate (stop - (i + 1)) 0 ++ data.toList.drop stop := by
  have hdata := toList_setIfInBounds data 0x80 (show i < 64 by omega)
  have hlen : (data.toList.take i ++ [0x80]).length = i + 1 := by
    rw [List.length_append, List.length_take, Vector.length_toList, List.length_singleton]
    omega
  have hrest : i + 1 + (stop - (i + 1)) = stop := by omega
  have hdrop : (data.toList.take i ++ [0x80] ++ data.toList.drop (i + 1)).drop stop =
      data.toList.drop stop := by
    rw [List.drop_append, List.drop_of_length_le (by omega), List.nil_append, List.drop_drop, hlen,
      Nat.add_sub_cancel' (by omega)]
  rw [endMark, toList_fill_range' _ _ (by omega), hdata, hrest, List.map_const', List.length_range',
    List.append_cons, List.take_left' hlen, hdrop]
  simp

/-- The bytes up to the position where the zeros end. -/
theorem take_endMark (data : Vector UInt8 64) {i stop : ℕ} (hi : i < stop) (hstop : stop ≤ 64) :
    (endMark data i stop).toList.take stop =
      data.toList.take i ++ 0x80 :: List.replicate (stop - (i + 1)) 0 := by
  rw [toList_endMark data hi hstop]
  apply List.take_left'
  rw [List.length_append, List.length_take, Vector.length_toList, List.length_cons,
    List.length_replicate]
  omega

theorem toUInt8_shiftRight (x : UInt64) (s : ℕ) (hs : s < 64) :
    (x >>> UInt64.ofNat s).toUInt8 = UInt8.ofNat (x.toNat / 2 ^ s) := by
  apply UInt8.toNat_inj.1
  have hmod : s % 18446744073709551616 % 64 = s := by omega
  simp [hmod, Nat.shiftRight_eq_div_pow]

theorem toUInt8_shiftRight_and (x : UInt32) (s : ℕ) (hs : s < 32) :
    (x >>> UInt32.ofNat s &&& 0xff).toUInt8 = UInt8.ofNat (x.toNat / 2 ^ s) := by
  apply UInt8.toNat_inj.1
  have hmod : s % 4294967296 % 32 = s := by omega
  have hmask : ∀ y, y &&& 255 = y % 256 := fun y => Nat.and_two_pow_sub_one_eq_mod y 8
  simp [hmod, Nat.shiftRight_eq_div_pow, hmask]

theorem toList_storeLength (data : Vector UInt8 64) (bitlen : UInt64) :
    (storeLength data bitlen).toList =
      data.toList.take 56 ++ Endian.big.bytes 8 bitlen.toNat := by
  have hmem : ∀ i, i ∈ (List.range' 56 8).reverse ↔ i ∈ List.range' 56 8 := fun i =>
    List.mem_reverse
  have hshift := toUInt8_shiftRight bitlen
  have hbytes : [(bitlen >>> UInt64.ofNat 56).toUInt8, (bitlen >>> UInt64.ofNat 48).toUInt8,
      (bitlen >>> UInt64.ofNat 40).toUInt8, (bitlen >>> UInt64.ofNat 32).toUInt8,
      (bitlen >>> UInt64.ofNat 24).toUInt8, (bitlen >>> UInt64.ofNat 16).toUInt8,
      (bitlen >>> UInt64.ofNat 8).toUInt8, (bitlen >>> UInt64.ofNat 0).toUInt8] =
      Endian.big.bytes 8 bitlen.toNat := by
    rw [hshift 56 (by decide), hshift 48 (by decide), hshift 40 (by decide), hshift 32 (by decide),
      hshift 24 (by decide), hshift 16 (by decide), hshift 8 (by decide), hshift 0 (by decide)]
    simp [Endian.bytes, leBytes, Nat.div_div_eq_div_mul]
  rw [storeLength, fill_congr _ _ hmem, toList_fill_range' _ _ (by decide),
    List.drop_of_length_le (by simp), List.append_nil, ← hbytes]
  rfl

theorem toList_storeHash {n : ℕ} (hn : 32 ≤ n) (state : Vector UInt32 8) (hash : Vector UInt8 n) :
    (storeHash state hash).toList =
      Sha256.HashValue.toBytes state ++ hash.toList.drop 32 := by
  have hmem : ∀ i, i ∈ hashPositions ↔ i ∈ List.range' 0 32 := by
    intro i
    have hperm : hashPositions.Perm (List.range' 0 32) := by decide
    exact hperm.mem_iff
  have hword : ∀ w : UInt32, [(w >>> UInt32.ofNat 24 &&& 0xff).toUInt8,
      (w >>> UInt32.ofNat 16 &&& 0xff).toUInt8, (w >>> UInt32.ofNat 8 &&& 0xff).toUInt8,
      (w >>> UInt32.ofNat 0 &&& 0xff).toUInt8] = Endian.big.bytes 4 w.toNat := by
    intro w
    have hshift := toUInt8_shiftRight_and w
    rw [hshift 24 (by decide), hshift 16 (by decide), hshift 8 (by decide), hshift 0 (by decide)]
    simp [Endian.bytes, leBytes, Nat.div_div_eq_div_mul]
  have hstate : (List.range 8).map (state.toList.getD · 0) = state.toList :=
    map_getD_range _ _ state.length_toList
  rw [storeHash, fill_congr _ _ hmem, toList_fill_range' _ _ (by omega), List.take_zero,
    List.nil_append, Sha256.HashValue.toBytes, ← hstate, List.map_map]
  congr 1
  simp only [Function.comp_def, ← hword]
  rw [hstate]
  rfl

/-- The last block, if the rest leaves room for the mark and the length. -/
theorem lastBlock_of_lt (ctx : Sha256Ctx) {len : ℕ} (hlen : ctx.datalen.toNat = len % 64)
    (hroom : ctx.datalen.toNat < 56) {bitlen : UInt64}
    (hbytes : Endian.big.bytes 8 bitlen.toNat = Endian.big.bytes 8 (8 * len)) :
    (storeLength (endMark ctx.data ctx.datalen.toNat 56) bitlen).toList =
      ctx.data.toList.take ctx.datalen.toNat ++ Sha256.padding len := by
  have hzeros : Sha256.zeros len = 56 - (ctx.datalen.toNat + 1) := by
    rw [Sha256.zeros_of_lt (by omega)]
    omega
  rw [toList_storeLength, hbytes, take_endMark _ hroom (by decide), Sha256.padding, hzeros,
    List.append_assoc]

/-- The last two, if it does not. -/
theorem lastBlocks_of_le (ctx : Sha256Ctx) {len : ℕ} (hlen : ctx.datalen.toNat = len % 64)
    (hroom : 56 ≤ ctx.datalen.toNat) {bitlen : UInt64}
    (hbytes : Endian.big.bytes 8 bitlen.toNat = Endian.big.bytes 8 (8 * len))
    (data : Vector UInt8 64) :
    (endMark ctx.data ctx.datalen.toNat 64).toList ++
        (storeLength (fill data (List.range 56) fun _ => 0) bitlen).toList =
      ctx.data.toList.take ctx.datalen.toNat ++ Sha256.padding len := by
  have hzeros : Sha256.zeros len = 64 - (ctx.datalen.toNat + 1) + 56 := by
    rw [Sha256.zeros_of_le (by omega)]
    omega
  have hfirst : (endMark ctx.data ctx.datalen.toNat 64).toList =
      ctx.data.toList.take ctx.datalen.toNat ++
        0x80 :: List.replicate (64 - (ctx.datalen.toNat + 1)) 0 := by
    rw [toList_endMark _ (by omega) le_rfl, List.drop_of_length_le (by simp), List.append_nil]
  have hsecond : (fill data (List.range 56) fun _ => 0).toList.take 56 = List.replicate 56 0 := by
    rw [List.range_eq_range', toList_fill_range' _ _ (by decide), List.take_zero, List.nil_append,
      List.map_const', List.length_range']
    exact List.take_left' List.length_replicate
  rw [toList_storeLength, hbytes, hfirst, hsecond, Sha256.padding, hzeros, List.replicate_add]
  simp only [List.append_assoc, List.cons_append]

/-- The blocks that `sha256_final` compresses are those that complete the padded
message. -/
theorem lastBlocks (ctx : Sha256Ctx) {len : ℕ} (hlen : ctx.datalen.toNat = len % 64)
    {bitlen : UInt64} (hbitlen : bitlen = UInt64.ofNat (8 * len)) :
    ∃ last : List (Vector UInt8 64),
      ctx.data.toList.take ctx.datalen.toNat ++ Sha256.padding len =
        (last.map Vector.toList).flatten ∧
      compress (constants table) (endMessage table ctx).state
          (storeLength (endMessage table ctx).data bitlen).toList =
        (last.map Vector.toList).foldl (compress (constants table)) ctx.state := by
  have hbytes : Endian.big.bytes 8 bitlen.toNat = Endian.big.bytes 8 (8 * len) := by
    rw [hbitlen, UInt64.toNat_ofNat']
    exact Endian.bytes_mod Endian.big 8 (8 * len)
  by_cases hroom : ctx.datalen.toNat < 56
  · have hend : endMessage table ctx =
        { ctx with data := endMark ctx.data ctx.datalen.toNat 56 } := if_pos hroom
    refine ⟨[storeLength (endMark ctx.data ctx.datalen.toNat 56) bitlen], ?_, ?_⟩
    · rw [List.map_singleton, List.flatten_singleton, lastBlock_of_lt ctx hlen hroom hbytes]
    · rw [hend]
      rfl
  · have hend : endMessage table ctx =
        { sha256Transform table ctx (endMark ctx.data ctx.datalen.toNat 64) with
          data := fill (endMark ctx.data ctx.datalen.toNat 64) (List.range 56) fun _ => 0 } :=
      if_neg hroom
    refine ⟨[endMark ctx.data ctx.datalen.toNat 64, storeLength (fill
      (endMark ctx.data ctx.datalen.toNat 64) (List.range 56) fun _ => 0) bitlen], ?_, ?_⟩
    · rw [List.map_cons, List.map_singleton, List.flatten_cons, List.flatten_singleton,
        lastBlocks_of_le ctx hlen (Nat.le_of_not_lt hroom) hbytes]
    · rw [hend, sha256Transform_eq]
      rfl

theorem bitlen_endMessage (ctx : Sha256Ctx) : (endMessage table ctx).bitlen = ctx.bitlen := by
  rw [endMessage]
  simp only
  split_ifs <;> rfl

/-- The digest is the hash of all the bytes, with the constants of the table. -/
theorem Absorbed.digest {msg : Bytes} {ctx : Sha256Ctx} (h : Absorbed table msg ctx) {n : ℕ}
    (hn : 32 ≤ n) (hash : Vector UInt8 n) :
    (sha256Final table ctx hash).2.toList =
      Sha256.hash (constants table) msg ++ hash.toList.drop 32 := by
  have hlt := h.datalen_lt
  obtain ⟨bs, hparsed, hstate, hbitlen⟩ := h
  have hlen : msg.length = 64 * bs.length + ctx.datalen.toNat := by
    rw [hparsed.length, List.length_take, Vector.length_toList, Nat.min_eq_left hlt.le]
  have hmod : ctx.datalen.toNat = msg.length % 64 := by omega
  have hbits : (endMessage table ctx).bitlen + (ctx.datalen * 8).toUInt64 =
      UInt64.ofNat (8 * msg.length) := by
    have hrest : (ctx.datalen * 8).toUInt64 = UInt64.ofNat (8 * ctx.datalen.toNat) := by
      apply UInt64.toNat_inj.1
      rw [UInt32.toNat_toUInt64, UInt32.toNat_mul, UInt64.toNat_ofNat']
      change ctx.datalen.toNat * 8 % 2 ^ 32 = _
      omega
    have hsum : 8 * msg.length = 512 * bs.length + 8 * ctx.datalen.toNat := by omega
    rw [bitlen_endMessage, hbitlen, hrest, hsum, UInt64.ofNat_add]
  obtain ⟨last, hflat, hlast⟩ := lastBlocks table ctx hmod hbits
  have hblocks : blocks 64 (msg ++ Sha256.padding msg.length) = bs ++ last.map Vector.toList := by
    apply hparsed.blocks_append _ hflat
    intro b hb
    obtain ⟨v, _, rfl⟩ := List.mem_map.1 hb
    exact v.length_toList
  rw [sha256Final]
  simp only
  rw [toList_storeHash hn, sha256Transform_eq, Sha256.hash, hblocks, List.foldl_append, ← hstate,
    ← hlast]

/-- `sha256_init`, the calls of `sha256_update` for the pieces of a message and
`sha256_final`: what the buffer for the digest then holds. -/
def digestOf {n : ℕ} (ctx : Sha256Ctx) (chunks : List Bytes) (hash : Vector UInt8 n) :
    Vector UInt8 n :=
  (sha256Final table (chunks.foldl (sha256Update table) (sha256Init ctx)) hash).2

theorem toList_digestOf {n : ℕ} (hn : 32 ≤ n) (ctx : Sha256Ctx) (chunks : List Bytes)
    (hash : Vector UInt8 n) :
    (digestOf table ctx chunks hash).toList =
      Sha256.hash (constants table) chunks.flatten ++ hash.toList.drop 32 :=
  ((Absorbed.init ctx).chunks chunks).digest table hn hash

/-! ## The table -/

/-- All entries of the table but one are the standard's round constants. -/
theorem roundConstant_eq {t : ℕ} (ht : t < 64) :
    Sha256.roundConstant t = if t = 52 then 0x391c0cb3 else k.getD t 0 := by
  have hroots : ∀ t < 64, Sha256.rootBits 3 (Sha256.firstPrimes.getD t 0) =
      if t = 52 then 0x391c0cb3 else k.getD t 0 := by
    decide +kernel
  rw [Sha256.roundConstant, Sha256.nth_prime ht, hroots t ht]

theorem constants_set (w : UInt32) {t : ℕ} (ht : t < 64) :
    constants (k.set 52 w) t = if t = 52 then w else Sha256.roundConstant t := by
  by_cases h : t = 52
  · subst h
    rfl
  · rw [if_neg h, roundConstant_eq ht, if_neg h, constants, List.getD_eq_getElem?_getD,
      List.getElem?_set_ne (Ne.symm h), ← List.getD_eq_getElem?_getD]

theorem hash_constants_set : Sha256.hash (constants (k.set 52 0x391c0cb3)) = Sha256.sha256 := by
  apply Sha256.hash_congr
  intro t ht
  rw [constants_set _ ht]
  split_ifs with h
  · rw [roundConstant_eq ht, if_pos h]
  · rfl

theorem hash_constants_set_ne {w : UInt32} (hw : w ≠ 0x391c0cb3) {msg : Bytes}
    (hmsg : msg.length < 56) :
    Sha256.hash (constants (k.set 52 w)) msg ≠ Sha256.sha256 msg := by
  apply Sha256.hash_ne (i := 52) (by decide) _ _ hmsg
  · rw [constants_set _ (by decide), roundConstant_eq (by decide)]
    exact hw
  · intro t ht hne
    rw [constants_set _ ht, if_neg hne]

end Dmmr.Cluster
