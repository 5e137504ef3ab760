import Mathlib.Data.List.Induction

/-!
# Settings inherited through nested scopes

A setting can be given in any of several nested scopes.  The value in force is
the one given in the innermost scope that gives one (`innermost`).

An implementation can keep one value per scope, with `unset` for a scope that
gives none, and merge these values from the outside in (`merge`).  That comes to
the same (`foldl_merge`), as long as a scope that gives no value does hold
`unset`: what such a scope holds instead would hide the values outside it
(`merge_of_ne`).
-/

namespace Inherit

variable {Scope α β : Type*}

/-! ## The value in force -/

/-- The value given in the innermost scope that gives one; scopes are listed from
the outside in. -/
def innermost (setting : Scope → Option α) (scopes : List Scope) : Option α :=
  scopes.reverse.findSome? setting

theorem innermost_concat (setting : Scope → Option α) (scopes : List Scope) (scope : Scope) :
    innermost setting (scopes ++ [scope]) = (setting scope).or (innermost setting scopes) := by
  unfold innermost
  rw [List.reverse_append, List.reverse_singleton, List.singleton_append, List.findSome?_cons]
  cases setting scope <;> rfl

theorem innermost_singleton (setting : Scope → Option α) (scope : Scope) :
    innermost setting [scope] = setting scope := by
  rw [← List.nil_append [scope], innermost_concat]
  exact Option.or_none

theorem innermost_map (f : α → β) (setting : Scope → Option α) (scopes : List Scope) :
    innermost (fun scope => (setting scope).map f) scopes = (innermost setting scopes).map f := by
  induction scopes using List.reverseRecOn with
  | nil => rfl
  | append_singleton scopes scope ih =>
      rw [innermost_concat, innermost_concat, ih]
      cases setting scope <;> rfl

/-- What holds of every value given holds of the one in force. -/
theorem forall_mem_innermost {p : α → Prop} {setting : Scope → Option α}
    (h : ∀ scope, ∀ v ∈ setting scope, p v) (scopes : List Scope) :
    ∀ v ∈ innermost setting scopes, p v := by
  intro v hv
  obtain ⟨scope, -, hscope⟩ := List.exists_of_findSome?_eq_some hv
  exact h scope v hscope

/-! ## Merging -/

section Merge

variable [DecidableEq α] (unset fallback : α)

/-- A scope's own value, or that of the scope around it, or the fallback. -/
def merge (outer own : α) : α :=
  if own = unset then if outer = unset then fallback else outer else own

variable {unset fallback} {setting : Scope → Option α}

/-- A scope that holds a value of its own hides everything outside it. -/
theorem merge_of_ne {own : α} (h : own ≠ unset) (outer : α) :
    merge unset fallback outer own = own :=
  if_neg h

/-- The outer value may still be unset, or it may have fallen back already. -/
theorem merge_getD {own given : Option α} {outer : α} (hown : ∀ v ∈ own, v ≠ unset)
    (hgiven : ∀ v ∈ given, v ≠ unset) (hfallback : fallback ≠ unset)
    (houter : outer = given.getD unset ∨ outer = given.getD fallback) :
    merge unset fallback outer (own.getD unset) = (own.or given).getD fallback := by
  cases own with
  | some v => exact if_neg (hown v rfl)
  | none =>
      have hown' : merge unset fallback outer unset =
          if outer = unset then fallback else outer := if_pos rfl
      rw [Option.getD_none, hown', Option.none_or]
      cases given with
      | some v =>
          have houter' : outer = v := houter.elim id id
          rw [houter', if_neg (hgiven v rfl)]
          rfl
      | none =>
          rcases houter with rfl | rfl
          · exact if_pos rfl
          · exact if_neg hfallback

/-- **Merging from the outside in gives the innermost value.** -/
theorem foldl_merge (hset : ∀ scope, ∀ v ∈ setting scope, v ≠ unset)
    (hfallback : fallback ≠ unset) (outermost : Scope) (scopes : List Scope) (scope : Scope) :
    (scopes ++ [scope]).foldl (fun v s => merge unset fallback v ((setting s).getD unset))
      ((setting outermost).getD unset) =
      (innermost setting (outermost :: (scopes ++ [scope]))).getD fallback := by
  have hgiven := forall_mem_innermost hset
  -- one merge at least has been made, so what was unset has fallen back
  induction scopes using List.reverseRecOn generalizing scope with
  | nil =>
      rw [← List.cons_append, innermost_concat]
      refine merge_getD (hset scope) (hgiven _) hfallback (.inl ?_)
      rw [innermost_singleton]
  | append_singleton scopes scope' ih =>
      rw [List.foldl_append, ← List.cons_append, innermost_concat]
      exact merge_getD (hset scope) (hgiven _) hfallback (.inr (ih scope'))

end Merge

end Inherit
