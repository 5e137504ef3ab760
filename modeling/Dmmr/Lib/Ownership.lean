import Mathlib.Algebra.BigOperators.Group.Finset.Piecewise
import Mathlib.Data.Finset.Option
import Mathlib.Data.Fintype.Card

/-!
# Items with one owner

Items move between threads and a queue: a thread takes a new item, appends the item it
has to the queue, takes the first item of the queue, or gives up the item it has.  In
all of this an item has one owner at a time (`Owned`), so the items in use are as many
as the queue is long and as there are threads that have one (`Owned.card_eq`).
-/

namespace Ownership

variable {ι Thread : Type*}

section Update

variable [DecidableEq Thread] {held : Thread → Option ι} {w : Thread} {i j : ι}

/-- Nothing changes for `f` when a thread goes on to a place with the same value. -/
theorem comp_update_of_eq {α β : Type*} {f : α → β} {places : Thread → α} {a : α}
    (h : f a = f (places w)) : f ∘ Function.update places w a = f ∘ places := by
  rw [Function.comp_update, Function.update_eq_self_iff]
  exact h

/-- What threads have once one that had nothing has got `i`. -/
theorem exists_update_some_iff (hw : held w = none) :
    (∃ w', Function.update held w (some i) w' = some j) ↔ j = i ∨ ∃ w', held w' = some j := by
  constructor
  · rintro ⟨w', hw'⟩
    rw [Function.update_apply] at hw'
    split_ifs at hw'
    · exact Or.inl (Option.some.inj hw').symm
    · exact Or.inr ⟨w', hw'⟩
  · rintro (rfl | ⟨w', hw'⟩)
    · exact ⟨w, Function.update_self ..⟩
    · have hne : w' ≠ w := by
        rintro rfl
        exact absurd (hw.symm.trans hw') nofun
      exact ⟨w', (Function.update_of_ne hne ..).trans hw'⟩

/-- What they have, as long as one still has `i`. -/
theorem exists_held_iff (hw : held w = some i) :
    (∃ w', held w' = some j) ↔ j = i ∨ ∃ w', Function.update held w none w' = some j := by
  constructor
  · rintro ⟨w', hw'⟩
    by_cases heq : w' = w
    · subst heq
      exact Or.inl (Option.some.inj (hw'.symm.trans hw))
    · exact Or.inr ⟨w', (Function.update_of_ne heq ..).trans hw'⟩
  · rintro (rfl | ⟨w', hw'⟩)
    · exact ⟨w, hw⟩
    · rw [Function.update_apply] at hw'
      split_ifs at hw'
      exact ⟨w', hw'⟩

end Update

/-- The items in use are those in the queue and those that threads have, and each of
them is in one place. -/
structure Owned (held : Thread → Option ι) (queue : List ι) (inUse : Finset ι) : Prop where
  nodup : queue.Nodup
  mem_iff : ∀ i, i ∈ inUse ↔ i ∈ queue ∨ ∃ w, held w = some i
  unique : ∀ {w w' i}, held w = some i → held w' = some i → w' = w
  not_mem : ∀ {w i}, held w = some i → i ∉ queue

namespace Owned

variable {held : Thread → Option ι} {queue : List ι} {inUse : Finset ι} {w : Thread} {i : ι}

theorem mem_of_queue (h : Owned held queue inUse) (hi : i ∈ queue) : i ∈ inUse :=
  (h.mem_iff i).mpr (Or.inl hi)

theorem mem_of_held (h : Owned held queue inUse) (hi : held w = some i) : i ∈ inUse :=
  (h.mem_iff i).mpr (Or.inr ⟨w, hi⟩)

theorem init : Owned (fun _ : Thread => (none : Option ι)) [] ∅ where
  nodup := List.nodup_nil
  mem_iff i := by simp
  unique := by simp
  not_mem := by simp

/-- An item that was not in use is appended to the queue. -/
theorem append [DecidableEq ι] (h : Owned held queue inUse) (hi : i ∉ inUse) :
    Owned held (queue ++ [i]) (insert i inUse) where
  nodup := by
    refine List.nodup_append.mpr ⟨h.nodup, List.nodup_singleton i, ?_⟩
    rintro j hj k hk rfl
    exact hi (h.mem_of_queue (List.mem_singleton.mp hk ▸ hj))
  mem_iff j := by
    rw [Finset.mem_insert, h.mem_iff, List.mem_append, List.mem_singleton, or_assoc, or_left_comm]
  unique := h.unique
  not_mem := by
    intro w j hw hj
    rcases List.mem_append.mp hj with hj | hj
    · exact h.not_mem hw hj
    · exact hi (List.mem_singleton.mp hj ▸ h.mem_of_held hw)

section Moves

variable [DecidableEq Thread]

/-- A thread that had nothing gets an item that nobody had. -/
theorem gain (h : Owned held queue inUse) {queue' : List ι} {inUse' : Finset ι}
    (hw : held w = none) (hfree : ∀ w', held w' ≠ some i) (hnodup : queue'.Nodup)
    (hqueue : ∀ j ∈ queue', j ∈ queue) (hi : i ∉ queue')
    (hmem : ∀ j, j ∈ inUse' ↔ j ∈ queue' ∨ j = i ∨ ∃ w', held w' = some j) :
    Owned (Function.update held w (some i)) queue' inUse' where
  nodup := hnodup
  mem_iff j := by
    rw [hmem, exists_update_some_iff hw]
  unique := by
    intro w₁ w₂ j h₁ h₂
    rw [Function.update_apply] at h₁ h₂
    split_ifs at h₁ h₂ with heq₁ heq₂ heq₂
    · rw [heq₁, heq₂]
    · exact absurd (h₂.trans h₁.symm) (hfree w₂)
    · exact absurd (h₁.trans h₂.symm) (hfree w₁)
    · exact h.unique h₁ h₂
  not_mem := by
    intro w' j hw' hj
    rw [Function.update_apply] at hw'
    split_ifs at hw' with heq
    · exact hi ((Option.some.inj hw') ▸ hj)
    · exact h.not_mem hw' (hqueue j hj)

/-- A thread no longer has its item. -/
theorem lose (h : Owned held queue inUse) {queue' : List ι} {inUse' : Finset ι}
    (hw : held w = some i) (hnodup : queue'.Nodup) (hqueue : ∀ j ∈ queue', j ∈ queue ∨ j = i)
    (hmem : ∀ j, j ∈ inUse' ↔ j ∈ queue' ∨ j ≠ i ∧ ∃ w', held w' = some j) :
    Owned (Function.update held w none) queue' inUse' where
  nodup := hnodup
  mem_iff j := by
    rw [hmem, exists_held_iff hw]
    apply or_congr_right
    constructor
    · rintro ⟨hne, rfl | hj⟩
      · exact absurd rfl hne
      · exact hj
    · rintro ⟨w', hw'⟩
      refine ⟨?_, Or.inr ⟨w', hw'⟩⟩
      rw [Function.update_apply] at hw'
      split_ifs at hw' with heq
      exact fun hji => heq (h.unique hw (hji ▸ hw'))
  unique := by
    intro w₁ w₂ j h₁ h₂
    rw [Function.update_apply] at h₁ h₂
    split_ifs at h₁ h₂
    exact h.unique h₁ h₂
  not_mem := by
    intro w' j hw' hj
    rw [Function.update_apply] at hw'
    split_ifs at hw' with heq
    rcases hqueue j hj with hj | rfl
    · exact h.not_mem hw' hj
    · exact heq (h.unique hw hw')

/-- A thread takes an item that is not in use. -/
theorem acquire [DecidableEq ι] (h : Owned held queue inUse) (hw : held w = none) (hi : i ∉ inUse) :
    Owned (Function.update held w (some i)) queue (insert i inUse) := by
  apply h.gain hw (fun w' hw' => hi (h.mem_of_held hw')) h.nodup (fun j hj => hj)
    fun hmem => hi (h.mem_of_queue hmem)
  intro j
  rw [Finset.mem_insert, h.mem_iff, or_left_comm]

/-- A thread takes the first item of the queue. -/
theorem pop (h : Owned held (i :: queue) inUse) (hw : held w = none) :
    Owned (Function.update held w (some i)) queue inUse := by
  obtain ⟨hi, hnodup⟩ := List.nodup_cons.mp h.nodup
  apply h.gain hw (fun w' hw' => h.not_mem hw' List.mem_cons_self) hnodup
    (fun j hj => List.mem_cons_of_mem i hj) hi
  intro j
  rw [h.mem_iff, List.mem_cons, or_assoc, or_left_comm]

/-- A thread appends the item it has to the queue. -/
theorem push (h : Owned held queue inUse) (hw : held w = some i) :
    Owned (Function.update held w none) (queue ++ [i]) inUse := by
  have hmem : ∀ j, j ∈ queue ++ [i] ↔ j ∈ queue ∨ j = i := by simp
  apply h.lose hw _ fun j hj => (hmem j).mp hj
  · intro j
    rw [h.mem_iff, hmem, or_assoc]
    apply or_congr_right
    by_cases hj : j = i
    · subst hj
      exact iff_of_true ⟨w, hw⟩ (Or.inl rfl)
    · simp [hj]
  · refine List.nodup_append.mpr ⟨h.nodup, List.nodup_singleton i, ?_⟩
    rintro j hj k hk rfl
    exact h.not_mem hw (List.mem_singleton.mp hk ▸ hj)

/-- A thread gives up the item it has. -/
theorem release [DecidableEq ι] (h : Owned held queue inUse) (hw : held w = some i) :
    Owned (Function.update held w none) queue (inUse.erase i) := by
  apply h.lose hw h.nodup fun j hj => Or.inl hj
  intro j
  rw [Finset.mem_erase, h.mem_iff, and_or_left]
  apply or_congr_left
  exact and_iff_right_of_imp fun hj heq => h.not_mem hw (heq ▸ hj)

end Moves

/-- How many items are in use. -/
theorem card_eq [DecidableEq ι] [Fintype Thread] (h : Owned held queue inUse) :
    inUse.card = queue.length + (Finset.univ.filter fun w => (held w).isSome).card := by
  have hset : inUse = queue.toFinset ∪ Finset.univ.biUnion fun w => (held w).toFinset := by
    ext i
    simp [h.mem_iff]
  have hdisj : Disjoint queue.toFinset (Finset.univ.biUnion fun w => (held w).toFinset) := by
    rw [Finset.disjoint_left]
    intro i hi hi'
    obtain ⟨w, -, hw⟩ := Finset.mem_biUnion.mp hi'
    exact h.not_mem (Option.mem_toFinset.mp hw) (List.mem_toFinset.mp hi)
  have hpairs : ∀ w ∈ Finset.univ, ∀ w' ∈ Finset.univ, w ≠ w' →
      Disjoint (held w).toFinset (held w').toFinset := by
    intro w _ w' _ hne
    rw [Finset.disjoint_left]
    intro i hi hi'
    exact hne (h.unique (Option.mem_toFinset.mp hi') (Option.mem_toFinset.mp hi))
  rw [hset, Finset.card_union_of_disjoint hdisj, List.toFinset_card_of_nodup h.nodup,
    Finset.card_biUnion hpairs, Finset.card_filter]
  congr 1
  refine Finset.sum_congr rfl fun w _ => ?_
  cases held w <;> rfl

end Owned

end Ownership
