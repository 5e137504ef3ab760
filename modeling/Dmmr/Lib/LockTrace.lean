import Mathlib.Data.List.Basic

/-!
# Lock traces

The lock operations of one thread, in order.  A discipline says which lock may be
requested while which others are held; a trace obeys it if every request is allowed
by what is held at that moment.  Nothing is assumed about the locks themselves, and
a request that a discipline forbids may well block for ever.

Traces are put together from sections, and `obeys_critical` and
`obeys_flatMap` reduce a composed trace to its parts: each part that gives
back what it takes can be looked at alone.
-/

namespace LockTrace

variable {ι α : Type*} [DecidableEq ι]

/-- An operation on the lock `m`. -/
inductive Op (ι : Type*)
  | lock (m : ι)
  | unlock (m : ι)
  deriving DecidableEq, Repr

/-- What is held after a trace. -/
def held : List ι → List (Op ι) → List ι
  | h, [] => h
  | h, .lock m :: ops => held (m :: h) ops
  | h, .unlock m :: ops => held (h.erase m) ops

/-- Every request of the trace is allowed by what is held at that moment. -/
def Obeys (allowed : List ι → ι → Prop) : List ι → List (Op ι) → Prop
  | _, [] => True
  | h, .lock m :: ops => allowed h m ∧ Obeys allowed (m :: h) ops
  | h, .unlock m :: ops => Obeys allowed (h.erase m) ops

/-- A section under the lock `m`. -/
def critical (m : ι) (body : List (Op ι)) : List (Op ι) := .lock m :: (body ++ [.unlock m])

variable {allowed : List ι → ι → Prop} {h : List ι} {m : ι}

theorem held_append (h : List ι) (a b : List (Op ι)) : held h (a ++ b) = held (held h a) b := by
  induction a generalizing h with
  | nil => rfl
  | cons op a ih => cases op <;> exact ih _

theorem obeys_append (h : List ι) (a b : List (Op ι)) :
    Obeys allowed h (a ++ b) ↔ Obeys allowed h a ∧ Obeys allowed (held h a) b := by
  induction a generalizing h with
  | nil => simp [Obeys, held]
  | cons op a ih =>
      cases op with
      | lock m => rw [List.cons_append, Obeys, Obeys, held, ih, and_assoc]
      | unlock m => rw [List.cons_append, Obeys, Obeys, held, ih]

/-! ## Sections -/

/-- A section gives its lock back if its body leaves things as they are. -/
theorem held_critical {body : List (Op ι)} (hbody : held (m :: h) body = m :: h) :
    held h (critical m body) = h := by
  rw [critical, held, held_append, hbody, held, held, List.erase_cons_head]

theorem obeys_critical {body : List (Op ι)} :
    Obeys allowed h (critical m body) ↔ allowed h m ∧ Obeys allowed (m :: h) body := by
  rw [critical, Obeys, obeys_append]
  simp [Obeys]

/-! ## One part after the other -/

variable {f : α → List (Op ι)} {l : List α}

theorem held_flatMap (hf : ∀ a ∈ l, held h (f a) = h) : held h (l.flatMap f) = h := by
  induction l with
  | nil => rfl
  | cons a l ih =>
      rw [List.flatMap_cons, held_append, hf a List.mem_cons_self]
      exact ih fun b hb => hf b (List.mem_cons_of_mem a hb)

/-- Parts that give back what they take are judged one by one. -/
theorem obeys_flatMap (hf : ∀ a ∈ l, held h (f a) = h) :
    Obeys allowed h (l.flatMap f) ↔ ∀ a ∈ l, Obeys allowed h (f a) := by
  induction l with
  | nil => simp [Obeys]
  | cons a l ih =>
      rw [List.flatMap_cons, obeys_append, hf a List.mem_cons_self,
        ih fun b hb => hf b (List.mem_cons_of_mem a hb), List.forall_mem_cons]

end LockTrace
