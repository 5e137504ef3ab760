import Mathlib.Data.Finset.Sort

/-!
# Free lists

Slots that are not in use are kept in a list, each with a link to the next one.
`Chain` says that a head and a function of links make up a given list, and `Free`
that this list has just the slots that are not in use.  Taking the head of the list
and putting a slot back in front of it keep `Free`, and so does every change of links
of slots in use (`Free.take`, `Free.give`, `Free.frame`).  From `Free` it follows what
the list is good for: it ends exactly when all slots are in use, and counting it
counts the others.
-/

namespace FreeList

variable {ι : Type*}

/-- The list reached from `head` by following `next` as far as `nil`. -/
def Chain (next : ι → ι) (nil : ι) : ι → List ι → Prop
  | head, [] => head = nil
  | head, i :: rest => head = i ∧ i ≠ nil ∧ Chain next nil (next i) rest

section Chain

variable {next next' : ι → ι} {nil head i : ι} {l l' : List ι}

theorem Chain.congr (h : Chain next nil head l) (hnext : ∀ i ∈ l, next' i = next i) :
    Chain next' nil head l := by
  induction l generalizing head with
  | nil => exact h
  | cons i l ih =>
      obtain ⟨hhead, hne, hrest⟩ := h
      obtain ⟨hi, hl⟩ := List.forall_mem_cons.mp hnext
      refine ⟨hhead, hne, ?_⟩
      rw [hi]
      exact ih hrest hl

/-- There is only one such list. -/
theorem Chain.unique (h : Chain next nil head l) (h' : Chain next nil head l') : l = l' := by
  induction l generalizing head l' with
  | nil =>
      cases l' with
      | nil => rfl
      | cons i l' => exact absurd (h'.1.symm.trans h) h'.2.1
  | cons i l ih =>
      obtain ⟨rfl, hne, hrest⟩ := h
      cases l' with
      | nil => exact absurd h' hne
      | cons j l' =>
          obtain ⟨rfl, -, hrest'⟩ := h'
          rw [ih hrest hrest']

/-- The list is empty if the head says so. -/
theorem Chain.eq_nil_iff (h : Chain next nil head l) : l = [] ↔ head = nil := by
  cases l with
  | nil => exact iff_of_true rfl h
  | cons i l =>
      obtain ⟨rfl, hne, -⟩ := h
      exact iff_of_false (by simp) hne

/-- Otherwise it begins with the head. -/
theorem Chain.eq_cons (h : Chain next nil head l) (hne : head ≠ nil) :
    ∃ rest, l = head :: rest ∧ Chain next nil (next head) rest := by
  cases l with
  | nil => exact absurd h hne
  | cons i rest =>
      obtain ⟨rfl, -, hrest⟩ := h
      exact ⟨rest, rfl, hrest⟩

end Chain

/-- Follow the links and count; `none` if there is no end within `fuel` steps. -/
def count [DecidableEq ι] (next : ι → ι) (nil : ι) : ℕ → ι → ℕ → Option ℕ
  | 0, _, _ => none
  | fuel + 1, i, n => if i = nil then some n else count next nil fuel (next i) (n + 1)

theorem Chain.count_eq [DecidableEq ι] {next : ι → ι} {nil head : ι} {l : List ι}
    (h : Chain next nil head l) {fuel : ℕ} (hfuel : l.length < fuel) (n : ℕ) :
    count next nil fuel head n = some (n + l.length) := by
  induction l generalizing head fuel n with
  | nil =>
      cases fuel with
      | zero => exact absurd hfuel (Nat.not_lt_zero _)
      | succ fuel => exact if_pos h
  | cons i l ih =>
      obtain ⟨rfl, hne, hrest⟩ := h
      cases fuel with
      | zero => exact absurd hfuel (Nat.not_lt_zero _)
      | succ fuel =>
          rw [count, if_neg hne, ih hrest (Nat.lt_of_succ_lt_succ hfuel), List.length_cons]
          congr 1
          omega

/-! ## The slots that are not in use -/

/-- The links lead through the slots of `all` that are not in use, each once. -/
structure Free (next : ι → ι) (nil head : ι) (all inUse : Finset ι) (free : List ι) : Prop where
  chain : Chain next nil head free
  nodup : free.Nodup
  mem_iff : ∀ i, i ∈ free ↔ i ∈ all ∧ i ∉ inUse
  subset : inUse ⊆ all

namespace Free

variable {next next' : ι → ι} {nil head i : ι} {all inUse : Finset ι} {free : List ι}

/-- Links of slots in use do not matter. -/
theorem frame (h : Free next nil head all inUse free) (hnext : ∀ j ∉ inUse, next' j = next j) :
    Free next' nil head all inUse free :=
  { h with chain := h.chain.congr fun j hj => hnext j ((h.mem_iff j).mp hj).2 }

theorem head_mem (h : Free next nil head all inUse free) (hne : head ≠ nil) :
    head ∈ all ∧ head ∉ inUse := by
  obtain ⟨rest, rfl, -⟩ := h.chain.eq_cons hne
  exact (h.mem_iff head).mp List.mem_cons_self

variable [DecidableEq ι]

/-- The head is taken into use; its own link may change. -/
theorem take (h : Free next nil head all inUse free) (hne : head ≠ nil)
    (hnext : ∀ j ∉ inUse, j ≠ head → next' j = next j) :
    ∃ rest, free = head :: rest ∧ Free next' nil (next head) all (insert head inUse) rest := by
  obtain ⟨rest, rfl, hchain⟩ := h.chain.eq_cons hne
  obtain ⟨hhead, hrest⟩ := List.nodup_cons.mp h.nodup
  have hmem : ∀ j, j ∈ rest ↔ j ∈ all ∧ j ∉ insert head inUse := by
    intro j
    rw [Finset.mem_insert, not_or]
    constructor
    · intro hj
      have hj' := (h.mem_iff j).mp (List.mem_cons_of_mem head hj)
      exact ⟨hj'.1, fun heq => hhead (heq ▸ hj), hj'.2⟩
    · rintro ⟨hall, hne', hfree⟩
      exact (List.mem_cons.mp ((h.mem_iff j).mpr ⟨hall, hfree⟩)).resolve_left hne'
  refine ⟨rest, rfl, ?_, hrest, hmem, ?_⟩
  · refine hchain.congr fun j hj => ?_
    have hj' := (hmem j).mp hj
    rw [Finset.mem_insert, not_or] at hj'
    exact hnext j hj'.2.2 hj'.2.1
  · exact Finset.insert_subset (h.head_mem hne).1 h.subset

/-- A slot in use is put back, with a link to the old head. -/
theorem give (h : Free next nil head all inUse free) (hnil : nil ∉ all) (hi : i ∈ inUse)
    (hlink : next' i = head) (hnext : ∀ j ∉ inUse, next' j = next j) :
    Free next' nil i all (inUse.erase i) (i :: free) where
  chain := by
    refine ⟨rfl, fun heq => hnil (heq ▸ h.subset hi), ?_⟩
    rw [hlink]
    exact (h.frame hnext).chain
  nodup := List.nodup_cons.mpr ⟨fun hmem => ((h.mem_iff i).mp hmem).2 hi, h.nodup⟩
  mem_iff j := by
    rw [List.mem_cons, h.mem_iff, Finset.mem_erase, not_and]
    constructor
    · rintro (rfl | ⟨hall, hfree⟩)
      · exact ⟨h.subset hi, fun hne => absurd rfl hne⟩
      · exact ⟨hall, fun _ => hfree⟩
    · rintro ⟨hall, hfree⟩
      by_cases heq : j = i
      · exact Or.inl heq
      · exact Or.inr ⟨hall, hfree heq⟩
  subset := (Finset.erase_subset i inUse).trans h.subset

/-- What is free and what is in use is everything. -/
theorem length_add_card (h : Free next nil head all inUse free) :
    free.length + inUse.card = all.card := by
  have hset : free.toFinset = all \ inUse := by
    ext j
    rw [List.mem_toFinset, h.mem_iff, Finset.mem_sdiff]
  rw [← List.toFinset_card_of_nodup h.nodup, hset, Finset.card_sdiff_add_card_eq_card h.subset]

/-- The list has come to an end when everything is in use. -/
theorem head_eq_nil_iff (h : Free next nil head all inUse free) :
    head = nil ↔ inUse.card = all.card := by
  rw [← h.chain.eq_nil_iff, ← List.length_eq_zero_iff]
  have := h.length_add_card
  omega

/-- Counting the list comes to an end, and counts what is not in use. -/
theorem count_eq (h : Free next nil head all inUse free) {fuel : ℕ} (hfuel : all.card < fuel) :
    count next nil fuel head 0 = some (all.card - inUse.card) := by
  have hlen := h.length_add_card
  rw [h.chain.count_eq (by omega)]
  congr 1
  omega

end Free

end FreeList
