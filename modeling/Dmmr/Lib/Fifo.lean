import Mathlib.Data.List.Nodup

/-!
# First in, first out

A queue together with its history: everything it has accepted, in order, and
everything that has left it, each with the reason.  In a queue that accepts at one
end and lets go at the other, what was accepted is what has left followed by what
is still there (`Conserves`).  From this alone it follows what becomes of an
element (`Conserves.fate`), and that elements that leave for any one reason do so
in the order in which they came (`Conserves.sublist_leaving`).
-/

namespace Fifo

variable {α ρ : Type*} {accepted queue : List α} {removed : List (α × ρ)} {a : α}

/-- What was accepted is what has left, in that order, and then the queue. -/
def Conserves (accepted : List α) (removed : List (α × ρ)) (queue : List α) : Prop :=
  accepted = removed.map Prod.fst ++ queue

/-- What has left for one of the given reasons. -/
def leaving (p : ρ → Bool) (removed : List (α × ρ)) : List α :=
  (removed.filter fun x => p x.2).map Prod.fst

theorem conserves_nil : Conserves ([] : List α) ([] : List (α × ρ)) [] := rfl

theorem Conserves.push (h : Conserves accepted removed queue) (a : α) :
    Conserves (accepted ++ [a]) removed (queue ++ [a]) := by
  rw [Conserves, show accepted = _ from h, List.append_assoc]

theorem Conserves.pop (h : Conserves accepted removed (a :: queue)) (r : ρ) :
    Conserves accepted (removed ++ [(a, r)]) queue := by
  rw [Conserves, show accepted = _ from h, List.map_append, List.append_assoc]
  rfl

section Leaving

variable {p : ρ → Bool} {r : ρ}

theorem mem_leaving (h : (a, r) ∈ removed) (hp : p r = true) : a ∈ leaving p removed :=
  List.mem_map.mpr ⟨(a, r), List.mem_filter.mpr ⟨h, hp⟩, rfl⟩

theorem leaving_append (p : ρ → Bool) (removed removed' : List (α × ρ)) :
    leaving p (removed ++ removed') = leaving p removed ++ leaving p removed' := by
  rw [leaving, List.filter_append, List.map_append]
  rfl

/-- What leaves for one reason, and then the head of the queue, come in the order
in which they were accepted. -/
theorem Conserves.sublist_leaving (h : Conserves accepted removed queue) (p : ρ → Bool)
    {front : List α} (hfront : front.Sublist queue) :
    (leaving p removed ++ front).Sublist accepted := by
  rw [show accepted = _ from h]
  exact (List.filter_sublist.map Prod.fst).append hfront

/-- Nothing leaves twice, or for two reasons. -/
theorem Conserves.reason_unique (h : Conserves accepted removed queue) (hnodup : accepted.Nodup)
    {r' : ρ} (hr : (a, r) ∈ removed) (hr' : (a, r') ∈ removed) : r = r' := by
  rw [show accepted = _ from h] at hnodup
  have hleft : (removed.map Prod.fst).Nodup := hnodup.of_append_left
  exact congrArg Prod.snd (List.inj_on_of_nodup_map hleft hr hr' rfl)

/-- What has left is no longer there. -/
theorem Conserves.not_mem_queue (h : Conserves accepted removed queue) (hnodup : accepted.Nodup)
    (hr : (a, r) ∈ removed) : a ∉ queue := by
  rw [show accepted = _ from h] at hnodup
  exact (List.disjoint_of_nodup_append hnodup) (List.mem_map.mpr ⟨(a, r), hr, rfl⟩)

end Leaving

/-- What was accepted is still there, or it has left for some reason. -/
theorem Conserves.fate (h : Conserves accepted removed queue) (ha : a ∈ accepted) :
    a ∈ queue ∨ ∃ r, (a, r) ∈ removed := by
  rw [show accepted = _ from h] at ha
  rcases List.mem_append.mp ha with hleft | hqueue
  · obtain ⟨⟨_, r⟩, hr, rfl⟩ := List.mem_map.mp hleft
    exact Or.inr ⟨r, hr⟩
  · exact Or.inl hqueue

end Fifo
