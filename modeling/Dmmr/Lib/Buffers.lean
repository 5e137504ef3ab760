import Mathlib.Data.List.GetD
import Mathlib.Data.Nat.Basic

/-!
# Fixed buffers, and streams that are cut into blocks

A loop that stores into a fixed buffer is `fill`: what stands at a position
afterwards depends on whether the position was among those written, not on the
order of the stores (`getElem_fill`).

A stream is processed in blocks of `n` elements.  `blocks` cuts a whole sequence;
`Parsed` is the same from the inside, for one that is still arriving: the blocks
that are complete and the rest, which is shorter than a block.  One element more
either lengthens the rest or completes a block, and when the sequence is ended by
a tail that completes its last blocks, `blocks` of the whole are those found on
the way and those of the tail (`Parsed.blocks_append`).
-/

namespace Buffers

variable {α : Type*} {n : ℕ}

/-! ## Stores -/

/-- Stores `f p` at each position `p` of `ps`, in this order. -/
def fill (buf : Vector α n) (ps : List ℕ) (f : ℕ → α) : Vector α n :=
  ps.foldl (fun buf p => buf.setIfInBounds p (f p)) buf

theorem getElem_fill (buf : Vector α n) (ps : List ℕ) (f : ℕ → α) {i : ℕ} (hi : i < n) :
    (fill buf ps f)[i] = if i ∈ ps then f i else buf[i] := by
  induction ps generalizing buf with
  | nil => simp [fill]
  | cons p ps ih =>
      have hcons : fill buf (p :: ps) f = fill (buf.setIfInBounds p (f p)) ps f := rfl
      rw [hcons, ih, Vector.getElem_setIfInBounds]
      by_cases hp : p = i
      · simp [hp]
      · simp [hp, Ne.symm hp]

/-- The order of the stores does not matter. -/
theorem fill_congr (buf : Vector α n) {ps qs : List ℕ} (f : ℕ → α) (h : ∀ i, i ∈ ps ↔ i ∈ qs) :
    fill buf ps f = fill buf qs f := by
  apply Vector.ext
  intro i hi
  simp only [getElem_fill, h]

/-- Stores at consecutive positions replace a stretch of the buffer. -/
theorem toList_fill_range' (buf : Vector α n) (f : ℕ → α) {start m : ℕ} (hle : start + m ≤ n) :
    (fill buf (List.range' start m) f).toList =
      buf.toList.take start ++ (List.range' start m).map f ++ buf.toList.drop (start + m) := by
  have hstart : min start n = start := Nat.min_eq_left (Nat.le_of_add_right_le hle)
  apply List.ext_getElem
  · simp only [Vector.length_toList, List.length_append, List.length_map, List.length_range',
      List.length_take, List.length_drop, hstart]
    omega
  · intro i hi _
    rw [Vector.length_toList] at hi
    rw [Vector.getElem_toList, getElem_fill _ _ _ hi]
    simp only [List.getElem_append, List.length_append, List.length_take, Vector.length_toList,
      hstart, List.length_map, List.length_range', List.getElem_take, List.getElem_map,
      List.getElem_range', List.getElem_drop, Vector.getElem_toList, List.mem_range'_1, Nat.one_mul]
    by_cases hlow : i < start
    · rw [if_neg (by omega), dif_pos (by omega), dif_pos hlow]
    · by_cases hmid : i < start + m
      · rw [if_pos (by omega), dif_pos hmid, dif_neg hlow, Nat.add_sub_cancel' (by omega)]
      · rw [if_neg (by omega), dif_neg hmid]
        simp only [Nat.add_sub_cancel' (Nat.not_lt.1 hmid)]

theorem toList_setIfInBounds (buf : Vector α n) (x : α) {i : ℕ} (hi : i < n) :
    (buf.setIfInBounds i x).toList = buf.toList.take i ++ x :: buf.toList.drop (i + 1) := by
  have hle : i + 1 ≤ n := hi
  have h := toList_fill_range' buf (fun _ => x) hle
  rw [List.append_assoc] at h
  exact h

/-- A list read out position by position. -/
theorem map_getD_range (l : List α) (d : α) {m : ℕ} (hm : l.length = m) :
    (List.range m).map (l.getD · d) = l := by
  apply List.ext_getElem
  · simpa using hm.symm
  · intro i _ hi
    rw [List.getElem_map, List.getElem_range, List.getD_eq_getElem _ _ hi]

/-- A list that a loop extends by one entry after another, each computed from
those before it, is the list of the entries. -/
theorem foldl_extend (next : List α → ℕ → α) (g : ℕ → α) {start m : ℕ}
    (hnext : ∀ i, start ≤ i → i < start + m → next ((List.range i).map g) i = g i) :
    (List.range' start m).foldl (fun l i => l ++ [next l i]) ((List.range start).map g) =
      (List.range (start + m)).map g := by
  induction m with
  | zero => rfl
  | succ m ih =>
      rw [List.range'_concat, List.foldl_append, ih fun i h₁ h₂ => hnext i h₁ (by omega),
        Nat.one_mul, List.foldl_cons, List.foldl_nil, hnext (start + m) (by omega) (by omega),
        ← Nat.add_assoc, List.range_succ, List.map_append]
      rfl

/-! ## Blocks -/

/-- The blocks of `n` elements that a sequence is cut into. -/
def blocks (n : ℕ) (msg : List α) : List (List α) :=
  (List.range (msg.length / n)).map fun i => (msg.drop (n * i)).take n

theorem blocks_append (hn : 0 < n) {block : List α} (hblock : block.length = n) (msg : List α) :
    blocks n (block ++ msg) = block :: blocks n msg := by
  have hlen : (block ++ msg).length / n = msg.length / n + 1 := by
    rw [List.length_append, hblock, Nat.add_div_left _ hn]
  rw [blocks, hlen, List.range_succ_eq_map, List.map_cons, List.map_map, Nat.mul_zero,
    List.drop_zero, List.take_left' hblock]
  congr 1
  apply List.map_congr_left
  intro i _
  have hdrop : n * (i + 1) = block.length + n * i := by rw [hblock, Nat.mul_succ, Nat.add_comm]
  rw [Function.comp_apply, Nat.succ_eq_add_one, hdrop,
    List.drop_length_add_append]

theorem blocks_flatten (hn : 0 < n) {bs : List (List α)} (hbs : ∀ b ∈ bs, b.length = n) :
    blocks n bs.flatten = bs := by
  induction bs with
  | nil => simp [blocks]
  | cons b bs ih =>
      rw [List.flatten_cons, blocks_append hn (hbs b List.mem_cons_self),
        ih fun c hc => hbs c (List.mem_cons_of_mem b hc)]

theorem length_flatten {bs : List (List α)} (hbs : ∀ b ∈ bs, b.length = n) :
    bs.flatten.length = n * bs.length := by
  rw [List.length_flatten, List.map_congr_left hbs, List.map_const', List.sum_replicate_nat,
    Nat.mul_comm]

/-- What has arrived of a sequence: its complete blocks and the rest. -/
structure Parsed (n : ℕ) (msg : List α) (bs : List (List α)) (rest : List α) : Prop where
  full : ∀ b ∈ bs, b.length = n
  short : rest.length < n
  eq : msg = bs.flatten ++ rest

namespace Parsed

variable {msg rest : List α} {bs : List (List α)}

theorem nil (hn : 0 < n) : Parsed n ([] : List α) [] [] where
  full := by simp
  short := hn
  eq := rfl

/-- One element more, and the block is not complete. -/
theorem push (h : Parsed n msg bs rest) (x : α) (hlt : rest.length + 1 < n) :
    Parsed n (msg ++ [x]) bs (rest ++ [x]) where
  full := h.full
  short := by simpa using hlt
  eq := by rw [h.eq, List.append_assoc]

/-- One element more, and it is. -/
theorem complete (h : Parsed n msg bs rest) (x : α) (heq : rest.length + 1 = n) :
    Parsed n (msg ++ [x]) (bs ++ [rest ++ [x]]) [] where
  full b hb := by
    rw [List.mem_append, List.mem_singleton] at hb
    obtain hb | rfl := hb
    · exact h.full b hb
    · simpa using heq
  short := by
    rw [List.length_nil]
    omega
  eq := by simp [h.eq]

theorem length (h : Parsed n msg bs rest) : msg.length = n * bs.length + rest.length := by
  rw [h.eq, List.length_append, length_flatten h.full]

/-- The sequence is ended by a tail that completes its last blocks. -/
theorem blocks_append (h : Parsed n msg bs rest) {tail : List α} {last : List (List α)}
    (hlast : ∀ b ∈ last, b.length = n) (htail : rest ++ tail = last.flatten) :
    blocks n (msg ++ tail) = bs ++ last := by
  have hn : 0 < n := Nat.zero_lt_of_lt h.short
  have hflat : msg ++ tail = (bs ++ last).flatten := by
    rw [h.eq, List.append_assoc, htail, List.flatten_append]
  rw [hflat]
  apply blocks_flatten hn
  intro b hb
  exact (List.mem_append.1 hb).elim (h.full b) (hlast b)

end Parsed

end Buffers
