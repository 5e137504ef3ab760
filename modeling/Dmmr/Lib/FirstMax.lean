import Mathlib.Data.List.Induction
import Mathlib.Order.Lattice

/-!
# The first of the greatest

A search that goes through a list once and keeps the best element so far, among
those that pass a test.  An element replaces the best one only if it is strictly
greater, so that of several greatest elements the first is kept (`foldl_keep`).
-/

namespace FirstMax

variable {α β : Type*} [LinearOrder β]

/-- One more element is looked at. -/
def keep (test : α → Bool) (key : α → β) (best : Option α) (a : α) : Option α :=
  if !test a then best
  else
    match best with
    | none => some a
    | some b => if key a > key b then some a else best

/-- `a` is the first of the greatest among the elements of `l` with property `P`. -/
def IsFirstMax (P : α → Prop) (key : α → β) (l : List α) (a : α) : Prop :=
  P a ∧ ∃ before after, l = before ++ a :: after ∧
    (∀ b ∈ before, P b → key b < key a) ∧ ∀ b ∈ after, P b → key b ≤ key a

variable {P : α → Prop} {key : α → β} {l : List α} {a b : α}

theorem IsFirstMax.mem (h : IsFirstMax P key l a) : a ∈ l := by
  obtain ⟨-, before, after, rfl, -, -⟩ := h
  exact List.mem_append_right _ List.mem_cons_self

/-- No element with the property is greater. -/
theorem IsFirstMax.le (h : IsFirstMax P key l a) (hb : b ∈ l) (hP : P b) : key b ≤ key a := by
  obtain ⟨-, before, after, rfl, hbefore, hafter⟩ := h
  rcases List.mem_append.mp hb with hb | hb
  · exact (hbefore b hb hP).le
  · rcases List.mem_cons.mp hb with rfl | hb
    · exact le_rfl
    · exact hafter b hb hP

/-- There is only one. -/
theorem IsFirstMax.eq (ha : IsFirstMax P key l a) (hb : IsFirstMax P key l b) : a = b := by
  have hab : key b ≤ key a := ha.le hb.mem hb.1
  have hba : key a ≤ key b := hb.le ha.mem ha.1
  obtain ⟨hPa, before, after, hl, hbefore, -⟩ := ha
  obtain ⟨hPb, before', after', hl', hbefore', -⟩ := hb
  rw [hl] at hl'
  -- the one that stands first would have to be smaller
  rcases List.append_eq_append_iff.mp hl' with ⟨l, hsplit, hrest⟩ | ⟨l, hsplit, hrest⟩
  · cases l with
    | nil => exact (List.cons.inj hrest).1
    | cons c l =>
        obtain ⟨rfl, -⟩ := List.cons.inj hrest
        exact absurd (hbefore' a (by rw [hsplit]; simp) hPa) (not_lt.mpr hab)
  · cases l with
    | nil => exact (List.cons.inj hrest).1.symm
    | cons c l =>
        obtain ⟨rfl, -⟩ := List.cons.inj hrest
        exact absurd (hbefore b (by rw [hsplit]; simp) hPb) (not_lt.mpr hba)

/-- Only what the property says about the elements of the list matters. -/
theorem IsFirstMax.congr {Q : α → Prop} (hPQ : ∀ x ∈ l, P x ↔ Q x)
    (h : IsFirstMax P key l a) : IsFirstMax Q key l a := by
  have ha : Q a := (hPQ a h.mem).mp h.1
  obtain ⟨-, before, after, rfl, hbefore, hafter⟩ := h
  refine ⟨ha, before, after, rfl, fun b hb hQ => ?_, fun b hb hQ => ?_⟩
  · exact hbefore b hb ((hPQ b (List.mem_append_left _ hb)).mpr hQ)
  · exact hafter b hb ((hPQ b (List.mem_append_right _ (List.mem_cons_of_mem a hb))).mpr hQ)

/-- It stays the first of the greatest before an element that is not greater. -/
theorem IsFirstMax.concat (h : IsFirstMax P key l a) (hb : P b → key b ≤ key a) :
    IsFirstMax P key (l ++ [b]) a := by
  obtain ⟨hP, before, after, rfl, hbefore, hafter⟩ := h
  refine ⟨hP, before, after ++ [b], by simp, hbefore, ?_⟩
  intro c hc
  rcases List.mem_append.mp hc with hc | hc
  · exact hafter c hc
  · rw [List.mem_singleton.mp hc]
    exact hb

/-- An element greater than all before it is the first of the greatest. -/
theorem isFirstMax_concat (hP : P b) (h : ∀ c ∈ l, P c → key c < key b) :
    IsFirstMax P key (l ++ [b]) b :=
  ⟨hP, l, [], rfl, h, by simp⟩

/-- **The search returns the first of the greatest**, and nothing if no element passes
the test. -/
theorem foldl_keep (test : α → Bool) (key : α → β) (l : List α) :
    (l.foldl (keep test key) none = none ∧ ∀ a ∈ l, test a = false) ∨
      ∃ a, l.foldl (keep test key) none = some a ∧ IsFirstMax (test · = true) key l a := by
  induction l using List.reverseRecOn with
  | nil => exact Or.inl ⟨rfl, by simp⟩
  | append_singleton l b ih =>
      rw [List.foldl_append, List.foldl_cons, List.foldl_nil]
      cases hb : test b with
      | false =>
          have hkeep : ∀ best, keep test key best b = best := fun best => by simp [keep, hb]
          rw [hkeep]
          rcases ih with ⟨hnone, hall⟩ | ⟨a, ha, hmax⟩
          · refine Or.inl ⟨hnone, fun c hc => ?_⟩
            rcases List.mem_append.mp hc with hc | hc
            · exact hall c hc
            · rw [List.mem_singleton.mp hc]
              exact hb
          · exact Or.inr ⟨a, ha, hmax.concat (by simp [hb])⟩
      | true =>
          right
          rcases ih with ⟨hnone, hall⟩ | ⟨a, ha, hmax⟩
          · rw [hnone]
            refine ⟨b, by simp [keep, hb], isFirstMax_concat hb fun c hc hpass => ?_⟩
            rw [hall c hc] at hpass
            exact absurd hpass (by simp)
          · rw [ha]
            by_cases hgt : key b > key a
            · refine ⟨b, by simp [keep, hb, hgt], isFirstMax_concat hb fun c hc hpass => ?_⟩
              exact (hmax.le hc hpass).trans_lt hgt
            · exact ⟨a, by simp [keep, hb, hgt], hmax.concat fun _ => not_lt.mp hgt⟩

/-- If no element is greater than another, the search is for the first that passes. -/
theorem foldl_keep_of_const {test : α → Bool} {c : β} (h : ∀ a ∈ l, key a = c) :
    l.foldl (keep test key) none = l.find? test := by
  rcases foldl_keep test key l with ⟨hnone, hall⟩ | ⟨a, ha, hpass, before, after, rfl, hfirst, -⟩
  · rw [hnone, eq_comm, List.find?_eq_none]
    intro a ha
    simp [hall a ha]
  · rw [ha, eq_comm, List.find?_eq_some_iff_append]
    refine ⟨hpass, before, after, rfl, fun b hb => ?_⟩
    -- an element before it that passed would have to be smaller
    by_contra hb'
    have hlt := hfirst b hb (by simpa using hb')
    rw [h b (List.mem_append_left _ hb),
      h a (List.mem_append_right _ List.mem_cons_self)] at hlt
    exact lt_irrefl c hlt

end FirstMax
