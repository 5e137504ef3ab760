import Mathlib.Data.Nat.Find
import Mathlib.Order.Basic

/-!
# Progress

Something that does not stay as it is for ever has a first change (`exists_first_change`).

A queue is added to at one end and taken from at the other, one element at a time.  If it is
taken from again and again as long as it is not empty, whatever is in it gets to the front and
is taken (`exists_taken`).
-/

namespace Progress

variable {α : Type*}

/-! ### Changes -/

/-- What changes at some time after `n` has been as it was at `n` until the first change. -/
theorem exists_first_change {x : ℕ → α} {n : ℕ}
    (h : (∀ m ≥ n, x m = x n) → ∃ m ≥ n, x (m + 1) ≠ x m) :
    ∃ m ≥ n, x m = x n ∧ x (m + 1) ≠ x m := by
  by_contra hnever
  simp only [not_exists, not_and, not_not] at hnever
  have hsame : ∀ m ≥ n, x m = x n := by
    intro m hm
    induction m, hm using Nat.le_induction with
    | base => rfl
    | succ m hm ih => exact (hnever m hm ih).trans ih
  obtain ⟨m, hm, hne⟩ := h hsame
  exact hne (hnever m hm (hsame m hm))

/-! ### Queues -/

/-- What may happen to a queue. -/
inductive Step : List α → List α → Prop
  | same (q : List α) : Step q q
  | add (q : List α) (a : α) : Step q (q ++ [a])
  | take (a : α) (q : List α) : Step (a :: q) q

/-- The first element is taken at time `n`. -/
def Takes (q : ℕ → List α) (n : ℕ) (a : α) : Prop := q n = a :: q (n + 1)

/-- A queue that is not empty is taken from at some time. -/
def Served (q : ℕ → List α) : Prop := ∀ n, (∀ m ≥ n, q m ≠ []) → ∃ m ≥ n, ∃ a, Takes q m a

variable {q : ℕ → List α}

/-- As long as nothing is taken, the queue only grows. -/
theorem exists_append_of_not_takes (hstep : ∀ n, Step (q n) (q (n + 1))) {n k : ℕ}
    (hnot : ∀ m, n ≤ m → m < n + k → ¬ ∃ a, Takes q m a) : ∃ added, q (n + k) = q n ++ added := by
  induction k with
  | zero => exact ⟨[], (List.append_nil _).symm⟩
  | succ k ih =>
      obtain ⟨added, hadded⟩ := ih fun m hle hlt => hnot m hle (by omega)
      have hlast := hnot (n + k) (by omega) (by omega)
      rw [← Nat.add_assoc]
      generalize hq : q (n + k) = before at *
      generalize hq' : q (n + k + 1) = after at *
      have hone : Step before after := by
        rw [← hq, ← hq']
        exact hstep (n + k)
      cases hone with
      | same => exact ⟨added, hadded⟩
      | add _ a => exact ⟨added ++ [a], by rw [hadded, List.append_assoc]⟩
      | take a => exact absurd ⟨a, by rw [Takes, hq, hq']⟩ hlast

/-- The first time from `n` on that something is taken, the queue begins as it did. -/
theorem exists_first_take (hstep : ∀ n, Step (q n) (q (n + 1))) (hserved : Served q) {n : ℕ}
    (hne : q n ≠ []) : ∃ m ≥ n, (∃ a, Takes q m a) ∧ ∃ added, q m = q n ++ added := by
  have hexists : ∃ k, ∃ a, Takes q (n + k) a := by
    by_contra hnever
    rw [not_exists] at hnever
    have hnonempty : ∀ m ≥ n, q m ≠ [] := by
      intro m hm
      obtain ⟨k, rfl⟩ := Nat.exists_eq_add_of_le hm
      obtain ⟨added, hadded⟩ := exists_append_of_not_takes (k := k) hstep fun m' hle _ => by
        obtain ⟨k', rfl⟩ := Nat.exists_eq_add_of_le hle
        exact hnever k'
      rw [hadded]
      exact List.append_ne_nil_of_left_ne_nil hne added
    obtain ⟨m, hm, htake⟩ := hserved n hnonempty
    obtain ⟨k, rfl⟩ := Nat.exists_eq_add_of_le hm
    exact hnever k htake
  classical
  refine ⟨n + Nat.find hexists, Nat.le_add_right .., Nat.find_spec hexists, ?_⟩
  apply exists_append_of_not_takes hstep
  intro m hle hlt
  obtain ⟨k, rfl⟩ := Nat.exists_eq_add_of_le hle
  exact Nat.find_min hexists (by omega)

/-- **Whatever is in the queue is taken.**  What is before it is taken first. -/
theorem exists_taken (hstep : ∀ n, Step (q n) (q (n + 1))) (hserved : Served q) {n : ℕ} {a : α}
    (before after : List α) (h : q n = before ++ a :: after) : ∃ m ≥ n, Takes q m a := by
  induction before generalizing n after with
  | nil =>
      obtain ⟨m, hm, ⟨b, htake⟩, added, hadded⟩ :=
        exists_first_take hstep hserved (n := n) (by simp [h])
      have hb : b :: q (m + 1) = a :: (after ++ added) := by
        rw [← htake, hadded, h]
        rfl
      obtain ⟨rfl, -⟩ := List.cons.inj hb
      exact ⟨m, hm, htake⟩
  | cons c before ih =>
      obtain ⟨m, hm, ⟨b, htake⟩, added, hadded⟩ :=
        exists_first_take hstep hserved (n := n) (by simp [h])
      have hrest : b :: q (m + 1) = c :: (before ++ a :: (after ++ added)) := by
        rw [← htake, hadded, h]
        simp
      obtain ⟨m', hm', htake'⟩ := ih (n := m + 1) (after ++ added) (List.cons.inj hrest).2
      exact ⟨m', by omega, htake'⟩

end Progress
