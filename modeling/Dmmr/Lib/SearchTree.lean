import Mathlib.Data.List.Perm.Basic
import Mathlib.Order.Lattice

/-!
# Search trees up to rebalancing

A balanced search tree is rotated after every update, so its shape says little.
What a client of it can rely on is the in-order sequence `toList`: a search
finds what that sequence holds (`find_eq_some_iff`), and an insertion adds one
element to it and keeps it in order (`toList_insert`, `ordered_insert`).  Both
facts depend on the sequence alone, so they hold after any rebalancing that
keeps it.
-/

/-- A binary tree with elements at its inner nodes. -/
inductive SearchTree (α : Type*)
  | leaf
  | node (left : SearchTree α) (a : α) (right : SearchTree α)

namespace SearchTree

open scoped List

variable {α K : Type*}

/-- The elements from left to right. -/
def toList : SearchTree α → List α
  | leaf => []
  | node left a right => left.toList ++ a :: right.toList

theorem toList_node (left right : SearchTree α) (a : α) :
    (node left a right).toList = left.toList ++ a :: right.toList := rfl

/-- The tree with the given elements in which no node has a left child. -/
def ofList : List α → SearchTree α
  | [] => leaf
  | a :: as => node leaf a (ofList as)

@[simp] theorem toList_ofList (l : List α) : (ofList l).toList = l := by
  induction l with
  | nil => rfl
  | cons a l ih => simp [ofList, toList, ih]

variable [LinearOrder K] (key : α → K)

/-- Search for an element with key `k`. -/
def find (k : K) : SearchTree α → Option α
  | leaf => none
  | node left a right =>
      if k < key a then left.find k else if key a < k then right.find k else some a

/-- Add `x` at the end of the path a search for its key takes. -/
def insert (x : α) : SearchTree α → SearchTree α
  | leaf => node leaf x leaf
  | node left a right =>
      if key x < key a then node (left.insert x) a right else node left a (right.insert x)

/-- The keys increase strictly from left to right. -/
def Ordered (t : SearchTree α) : Prop := t.toList.Pairwise fun a b => key a < key b

variable {key} {t : SearchTree α}

theorem ordered_node {left right : SearchTree α} {a : α} :
    Ordered key (node left a right) ↔ Ordered key left ∧ Ordered key right ∧
      (∀ b ∈ left.toList, key b < key a) ∧ ∀ b ∈ right.toList, key a < key b := by
  unfold Ordered
  rw [toList_node, List.pairwise_append, List.pairwise_cons]
  constructor
  · rintro ⟨hl, ⟨hright, hr⟩, hcross⟩
    exact ⟨hl, hr, fun b hb => hcross b hb a List.mem_cons_self, hright⟩
  · rintro ⟨hl, hr, hleft, hright⟩
    refine ⟨hl, ⟨hright, hr⟩, fun b hb c hc => ?_⟩
    rcases List.mem_cons.mp hc with rfl | hc
    · exact hleft b hb
    · exact (hleft b hb).trans (hright c hc)

/-- **A search finds the element with the key**, if there is one. -/
theorem find_eq_some_iff (h : Ordered key t) {k : K} {a : α} :
    t.find key k = some a ↔ a ∈ t.toList ∧ key a = k := by
  induction t with
  | leaf => simp [find, toList]
  | node left b right ihl ihr =>
      obtain ⟨hl, hr, hleft, hright⟩ := ordered_node.mp h
      simp only [find, toList, List.mem_append, List.mem_cons]
      split_ifs with hlt hgt
      · -- everything from the root on has a greater key
        rw [ihl hl]
        refine ⟨fun ha => ⟨.inl ha.1, ha.2⟩, ?_⟩
        rintro ⟨ha | rfl | ha, hk⟩
        · exact ⟨ha, hk⟩
        · exact absurd hlt (hk ▸ lt_irrefl _)
        · exact absurd (hlt.trans (hright a ha)) (hk ▸ lt_irrefl _)
      · rw [ihr hr]
        refine ⟨fun ha => ⟨.inr (.inr ha.1), ha.2⟩, ?_⟩
        rintro ⟨ha | rfl | ha, hk⟩
        · exact absurd (hgt.trans_eq hk.symm) (hleft a ha).not_gt
        · exact absurd hgt (hk ▸ lt_irrefl _)
        · exact ⟨ha, hk⟩
      · have hb : key b = k := le_antisymm (not_lt.mp hlt) (not_lt.mp hgt)
        rw [Option.some.injEq]
        refine ⟨fun ha => ha ▸ ⟨.inr (.inl rfl), hb⟩, ?_⟩
        rintro ⟨ha | rfl | ha, hk⟩
        · exact absurd (hk.trans hb.symm) (hleft a ha).ne
        · rfl
        · exact absurd (hb.trans hk.symm) (hright a ha).ne

theorem toList_insert (key : α → K) (x : α) (t : SearchTree α) :
    (t.insert key x).toList.Perm (x :: t.toList) := by
  induction t with
  | leaf => exact List.Perm.refl _
  | node left a right ihl ihr =>
      simp only [insert]
      split_ifs
      · exact ihl.append_right _
      · calc (node left a (right.insert key x)).toList
            = left.toList ++ a :: (right.insert key x).toList := rfl
          _ ~ left.toList ++ a :: x :: right.toList := (ihr.cons a).append_left _
          _ ~ left.toList ++ x :: a :: right.toList := (List.Perm.swap x a _).append_left _
          _ ~ x :: (left.toList ++ a :: right.toList) := List.perm_middle

theorem ordered_insert (h : Ordered key t) {x : α} (hx : ∀ a ∈ t.toList, key a ≠ key x) :
    Ordered key (t.insert key x) := by
  induction t with
  | leaf => exact List.pairwise_singleton _ _
  | node left a right ihl ihr =>
      obtain ⟨hl, hr, hleft, hright⟩ := ordered_node.mp h
      simp only [toList, List.mem_append, List.mem_cons] at hx
      simp only [insert]
      split_ifs with hlt
      · refine ordered_node.mpr ⟨ihl hl fun b hb => hx b (.inl hb), hr, fun b hb => ?_, hright⟩
        rcases List.mem_cons.mp ((toList_insert key x left).mem_iff.mp hb) with rfl | hb
        · exact hlt
        · exact hleft b hb
      · refine ordered_node.mpr
          ⟨hl, ihr hr fun b hb => hx b (.inr (.inr hb)), hleft, fun b hb => ?_⟩
        rcases List.mem_cons.mp ((toList_insert key x right).mem_iff.mp hb) with rfl | hb
        · exact lt_of_le_of_ne (not_lt.mp hlt) (hx a (.inr (.inl rfl)))
        · exact hright b hb

end SearchTree
