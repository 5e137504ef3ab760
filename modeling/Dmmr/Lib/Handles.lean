import Mathlib.Data.Finset.Basic

/-!
# Handles that are acquired, used and released

A record of what is done to handles, in order.  `run` follows it from the handles that are
held at its beginning, and gives up at an operation on a handle that is not held and at an
acquisition of one that is.  So `run ops ∅ = some ∅` says of a whole record that every
handle in it is released once after it has been acquired, that it is used only in between,
and that nothing else is touched.
-/

namespace Handles

variable {α : Type*}

/-- An operation on a handle. -/
inductive Op (α : Type*)
  | acquire (a : α)
  | use (a : α)
  | release (a : α)
  deriving DecidableEq, Repr

/-- The handles that are acquired. -/
def acquired : List (Op α) → List α
  | [] => []
  | .acquire a :: ops => a :: acquired ops
  | .use _ :: ops => acquired ops
  | .release _ :: ops => acquired ops

/-- The handles that are released, or were to be. -/
def released : List (Op α) → List α
  | [] => []
  | .acquire _ :: ops => released ops
  | .use _ :: ops => released ops
  | .release a :: ops => a :: released ops

theorem acquired_append (ops more : List (Op α)) :
    acquired (ops ++ more) = acquired ops ++ acquired more := by
  induction ops with
  | nil => rfl
  | cons op ops ih => cases op <;> simp [acquired, ih]

theorem released_append (ops more : List (Op α)) :
    released (ops ++ more) = released ops ++ released more := by
  induction ops with
  | nil => rfl
  | cons op ops ih => cases op <;> simp [released, ih]

/-! ## Records in order -/

variable [DecidableEq α]

/-- The handles that are held after some operations, if those are in order. -/
def run : List (Op α) → Finset α → Option (Finset α)
  | [], held => some held
  | .acquire a :: ops, held => if a ∈ held then none else run ops (insert a held)
  | .use a :: ops, held => if a ∈ held then run ops held else none
  | .release a :: ops, held => if a ∈ held then run ops (held.erase a) else none

variable {ops more : List (Op α)} {held after later : Finset α} {a : α}

@[simp] theorem run_nil (held : Finset α) : run [] held = some held := rfl

theorem run_append (ops more : List (Op α)) (held : Finset α) :
    run (ops ++ more) held = (run ops held).bind (run more) := by
  induction ops generalizing held with
  | nil => rfl
  | cons op ops ih => cases op <;> rw [List.cons_append, run, run] <;> split_ifs <;> simp [ih]

/-- One record after the other. -/
theorem run_trans (hops : run ops held = some after) (hmore : run more after = some later) :
    run (ops ++ more) held = some later := by
  rw [run_append, hops, Option.bind_some, hmore]

@[simp] theorem run_acquire (h : a ∉ held) :
    run (.acquire a :: ops) held = run ops (insert a held) :=
  if_neg h

@[simp] theorem run_use (h : a ∈ held) : run (.use a :: ops) held = run ops held :=
  if_pos h

@[simp] theorem run_release (h : a ∈ held) :
    run (.release a :: ops) held = run ops (held.erase a) :=
  if_pos h

/-- A handle that is held may be used any number of times. -/
theorem run_replicate_use (h : a ∈ held) (n : ℕ) :
    run (List.replicate n (.use a)) held = some held := by
  induction n with
  | zero => rfl
  | succ n ih => rw [List.replicate_succ, run_use h, ih]

/-- In a record in order a handle is released as often as it is acquired, up to what is held
before and after. -/
theorem count_released (h : run ops held = some after) (a : α) :
    (released ops).count a + (if a ∈ after then 1 else 0) =
      (acquired ops).count a + (if a ∈ held then 1 else 0) := by
  induction ops generalizing held with
  | nil => rw [Option.some.inj h]; rfl
  | cons op ops ih =>
      cases op with
      | acquire b =>
          by_cases hb : b ∈ held
          · exact absurd h (by simp [run, hb])
          · rw [run_acquire hb] at h
            have hrest := ih h
            rw [released, acquired, List.count_cons, hrest]
            by_cases hab : a = b
            · subst hab
              simp [hb]
            · simp [hab, Ne.symm hab]
      | use b =>
          by_cases hb : b ∈ held
          · rw [run_use hb] at h
            exact ih h
          · exact absurd h (by simp [run, hb])
      | release b =>
          by_cases hb : b ∈ held
          · rw [run_release hb] at h
            have hrest := ih h
            rw [released, acquired, List.count_cons]
            by_cases hab : a = b
            · subst hab
              simp only [Finset.mem_erase, ne_eq, not_true_eq_false, false_and, if_false,
                beq_self_eq_true, hb, if_true] at hrest ⊢
              omega
            · simpa [hab, Ne.symm hab] using hrest
          · exact absurd h (by simp [run, hb])

end Handles
