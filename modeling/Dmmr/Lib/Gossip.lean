import Mathlib.Combinatorics.SimpleGraph.Connectivity.Connected

/-!
# Spreading knowledge in phases

Nodes know of each other.  In a phase every active node contacts its seeds and all nodes it
knows of: it gets to know what they knew before the phase, and they get to know it.  The
module says how far knowledge spreads: after `n` phases an active node knows everybody
within `n` hops, where a hop leads from a node to one of its seeds or back.
-/

namespace Gossip

variable {ι : Type*}

/-- A phase leads from `K` to `K'`, where `K a b` says that `a` knows `b`. -/
structure Phase (active : ι → Prop) (seed K K' : ι → ι → Prop) : Prop where
  mono : ∀ {a b}, K a b → K' a b
  seeds : ∀ {a b}, seed a b → K' a b
  back : ∀ {a b}, active a → seed a b ∨ K a b → K' b a
  learn : ∀ {a b c}, active a → K a b → K b c → c ≠ a → K' a c

/-- Any number of phases. -/
inductive Phases (active : ι → Prop) (seed K₀ : ι → ι → Prop) : ℕ → (ι → ι → Prop) → Prop
  | zero : Phases active seed K₀ 0 K₀
  | next {n : ℕ} {K K' : ι → ι → Prop} : Phases active seed K₀ n K →
      Phase active seed K K' → Phases active seed K₀ (n + 1) K'

variable {active : ι → Prop} {seed K₀ K K' : ι → ι → Prop} {n : ℕ}
  (hactive : ∀ a b, seed a b → active a)
include hactive

/-- Neighbours get to know each other. -/
theorem Phase.knows_of_adj (h : Phase active seed K K') {a b : ι}
    (hadj : (SimpleGraph.fromRel seed).Adj a b) : K' a b := by
  rcases ((SimpleGraph.fromRel_adj seed a b).mp hadj).2 with hseed | hseed
  · exact h.seeds hseed
  · exact h.back (hactive _ _ hseed) (Or.inl hseed)

theorem Phases.knows_of_adj (h : Phases active seed K₀ n K) (hn : 1 ≤ n) {a b : ι}
    (hadj : (SimpleGraph.fromRel seed).Adj a b) : K a b := by
  cases h with
  | zero => simp at hn
  | next _ hphase => exact hphase.knows_of_adj hactive hadj

/-- The neighbours of a node that is not active are. -/
theorem active_of_adj {a b : ι} (hadj : (SimpleGraph.fromRel seed).Adj a b) (ha : ¬ active a) :
    active b := by
  rcases ((SimpleGraph.fromRel_adj seed a b).mp hadj).2 with hseed | hseed
  · exact absurd (hactive _ _ hseed) ha
  · exact hactive _ _ hseed

/-- After `n` phases an active node knows everybody within `n` hops. -/
theorem Phases.knows_of_walk (h : Phases active seed K₀ n K) {a c : ι}
    (walk : (SimpleGraph.fromRel seed).Walk a c) (ha : active a) (hne : c ≠ a)
    (hlen : walk.length ≤ n) : K a c := by
  induction h generalizing a c with
  | zero => exact absurd (SimpleGraph.Walk.eq_of_length_eq_zero (Nat.le_zero.mp hlen)).symm hne
  | @next n K K' hphases hphase ih =>
      cases walk with
      | nil => exact absurd rfl hne
      | @cons _ b _ hab rest =>
          by_cases hbc : b = c
          · exact hphase.knows_of_adj hactive (hbc ▸ hab)
          have hrest : 0 < rest.length :=
            SimpleGraph.Walk.not_nil_iff_lt_length.mp (SimpleGraph.Walk.not_nil_of_ne hbc)
          rw [SimpleGraph.Walk.length_cons] at hlen
          have hKab : K a b := hphases.knows_of_adj hactive (by omega) hab
          by_cases hb : active b
          · exact hphase.learn ha hKab (ih rest hb (Ne.symm hbc) (by omega)) hne
          · cases rest with
            | nil => exact absurd rfl hbc
            | @cons _ x _ hbx rest =>
                rw [SimpleGraph.Walk.length_cons] at hlen hrest
                have hx : active x := active_of_adj hactive hbx hb
                by_cases hxa : x = a
                · subst hxa
                  exact hphase.mono (ih rest hx hne (by omega))
                by_cases hxc : x = c
                · subst hxc
                  exact hphase.learn ha hKab (hphases.knows_of_adj hactive (by omega) hbx) hne
                · have hlast : 0 < rest.length :=
                    SimpleGraph.Walk.not_nil_iff_lt_length.mp (SimpleGraph.Walk.not_nil_of_ne hxc)
                  have hKax : K a x :=
                    ih (.cons hab (.cons hbx .nil)) ha hxa (by
                      simp only [SimpleGraph.Walk.length_cons, SimpleGraph.Walk.length_nil]
                      omega)
                  exact hphase.learn ha hKax (ih rest hx (Ne.symm hxc) (by omega)) hne

/-- As many phases as there are nodes are enough: an active node and a node connected with
it know each other. -/
theorem Phases.mesh [Fintype ι] (h : Phases active seed K₀ n K) (hn : Fintype.card ι ≤ n)
    {a b : ι} (ha : active a) (hne : b ≠ a)
    (hreach : (SimpleGraph.fromRel seed).Reachable a b) : K a b ∧ K b a := by
  classical
  obtain ⟨walk⟩ := hreach
  have hpath : (walk.toPath : (SimpleGraph.fromRel seed).Walk a b).length < Fintype.card ι :=
    walk.toPath.2.length_lt
  cases h with
  | zero => omega
  | next hphases hphase =>
      have hK := hphases.knows_of_walk hactive walk.toPath.1 ha hne (by omega)
      exact ⟨hphase.mono hK, hphase.back ha (Or.inr hK)⟩

end Gossip
