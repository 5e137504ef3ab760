import Mathlib.Data.Fintype.Card
import Mathlib.Order.Monotone.Basic

/-!
# Threads at a condition variable

Threads serve a backlog under a mutex.  A thread that finds no backlog waits at a condition
variable; the mutex is released when it begins to wait, not when it has found that it must.
Whoever adds to the backlog signals the condition variable under the mutex.

`Inv` says that no signal is lost: while a thread waits, there are as many threads on their
way to the test as there is backlog.  It is kept by every move of a thread and by every
addition (`Inv.enter`, `Inv.decide`, `Inv.sleep`, `Inv.take`, `Inv.signal`, `Inv.add`).
When all threads that wait are woken under the mutex, nobody waits (`shut_wakeAll`); without
the mutex a thread that has decided to wait is missed.

A thread that goes on whenever it does not rest, and comes nearer to something each time, comes
to rest (`GoesOn.comes_to_rest`).  What every step keeps holds throughout a run without end, in
which the system may also pause (`run_invariant`).
-/

namespace Monitor

/-- Where a thread stands. -/
inductive Place
  | out
  /-- About to lock the mutex and to test. -/
  | entering
  /-- Has the mutex, and has found that it must wait. -/
  | deciding
  | waiting
  deriving DecidableEq

variable {ι : Type*} {places : ι → Place} {i : ι} {n : ℕ}

/-- Nobody has the mutex. -/
def Free (places : ι → Place) : Prop := ∀ i, places i ≠ .deciding

/-- Nobody waits or has decided to. -/
def Shut (places : ι → Place) : Prop := ∀ i, places i = .out ∨ places i = .entering

/-- All threads that wait are woken. -/
def wakeAll (places : ι → Place) : ι → Place := fun i =>
  if places i = .waiting then .entering else places i

/-- Under the mutex nobody is missed. -/
theorem shut_wakeAll (h : Free places) : Shut (wakeAll places) := by
  intro i
  unfold wakeAll
  split_ifs with hi
  · exact Or.inr rfl
  · cases hplace : places i with
    | out => exact Or.inl rfl
    | entering => exact Or.inr rfl
    | deciding => exact absurd hplace (h i)
    | waiting => exact absurd hplace hi

section Invariant

variable [Fintype ι]

/-- How many threads are on their way to the test. -/
def awake (places : ι → Place) : ℕ := (Finset.univ.filter fun i => places i = .entering).card

/-- No signal is lost. -/
structure Inv (places : ι → Place) (backlog : ℕ) : Prop where
  exclusive : ∀ {i j}, places i = .deciding → places j = .deciding → i = j
  nothing : ∀ {i}, places i = .deciding → backlog = 0
  served : ∀ {i}, places i = .waiting → backlog ≤ awake places

theorem inv_init (h : ∀ i, places i = .out) : Inv places 0 :=
  ⟨fun {i j} hi => absurd ((h i).symm.trans hi) (by simp),
    fun {i} hi => absurd ((h i).symm.trans hi) (by simp), fun _ => Nat.zero_le _⟩

/-- Something is added while nobody waits. -/
theorem Inv.add (h : Inv places n) (hfree : Free places) (hnone : ∀ i, places i ≠ .waiting) :
    Inv places (n + 1) :=
  ⟨h.exclusive, fun {i} hi => absurd hi (hfree i), fun {i} hi => absurd hi (hnone i)⟩

end Invariant

section Moves

variable [DecidableEq ι]

theorem Shut.update (h : Shut places) {p : Place} (hp : p = .out ∨ p = .entering) (i : ι) :
    Shut (Function.update places i p) := by
  intro j
  rw [Function.update_apply]
  split_ifs
  · exact hp
  · exact h j

variable [Fintype ι]

theorem awake_enter (hi : places i ≠ .entering) :
    awake (Function.update places i .entering) = awake places + 1 := by
  unfold awake
  rw [← Finset.card_insert_of_notMem (a := i) (by simpa using hi)]
  congr 1
  ext j
  simp only [Finset.mem_filter, Finset.mem_univ, true_and, Finset.mem_insert,
    Function.update_apply]
  split_ifs with hj
  · simp [hj]
  · simp [hj]

theorem awake_leave {p : Place} (hi : places i = .entering) (hp : p ≠ .entering) :
    awake (Function.update places i p) + 1 = awake places := by
  have henter : awake (Function.update (Function.update places i p) i .entering) =
      awake (Function.update places i p) + 1 :=
    awake_enter (by rwa [Function.update_self])
  rw [← henter, Function.update_idem, Function.update_eq_self_iff.mpr hi.symm]

/-- A move of one thread, in terms of the threads other than it. -/
theorem Inv.move (h : Inv places n) {p : Place} {m : ℕ}
    (hdeciding : p = .deciding → Free places)
    (hnothing : p = .deciding ∨ (∃ j, j ≠ i ∧ places j = .deciding) → m = 0)
    (hserved : p = .waiting ∨ (∃ j, j ≠ i ∧ places j = .waiting) →
      m ≤ awake (Function.update places i p)) :
    Inv (Function.update places i p) m where
  exclusive := by
    intro j k hj hk
    rw [Function.update_apply] at hj hk
    split_ifs at hj hk with hji hki hki
    · rw [hji, hki]
    · exact absurd hk (hdeciding hj k)
    · exact absurd hj (hdeciding hk j)
    · exact h.exclusive hj hk
  nothing := by
    intro j hj
    rw [Function.update_apply] at hj
    split_ifs at hj with hji
    · exact hnothing (Or.inl hj)
    · exact hnothing (Or.inr ⟨j, hji, hj⟩)
  served := by
    intro j hj
    rw [Function.update_apply] at hj
    split_ifs at hj with hji
    · exact hserved (Or.inl hj)
    · exact hserved (Or.inr ⟨j, hji, hj⟩)

/-- A thread comes to the test, or is woken for no reason. -/
theorem Inv.enter (h : Inv places n) (hi : places i = .out ∨ places i = .waiting) :
    Inv (Function.update places i .entering) n := by
  have hne : places i ≠ .entering := by rcases hi with hi | hi <;> simp [hi]
  refine h.move (by simp) ?_ ?_
  · rintro (hp | ⟨j, -, hj⟩)
    · simp at hp
    · exact h.nothing hj
  · rintro (hp | ⟨j, -, hj⟩)
    · simp at hp
    · rw [awake_enter hne]
      exact (h.served hj).trans (Nat.le_succ _)

/-- A thread finds nothing to do. -/
theorem Inv.decide (h : Inv places 0) (hfree : Free places) (i : ι) :
    Inv (Function.update places i .deciding) 0 :=
  h.move (fun _ => hfree) (fun _ => rfl) (fun _ => Nat.zero_le _)

/-- It waits. -/
theorem Inv.sleep (h : Inv places n) (hi : places i = .deciding) :
    Inv (Function.update places i .waiting) n := by
  obtain rfl := h.nothing hi
  exact h.move (by simp) (fun _ => rfl) (fun _ => Nat.zero_le _)

/-- A thread takes something and leaves. -/
theorem Inv.take (h : Inv places (n + 1)) (hfree : Free places) (hi : places i = .entering) :
    Inv (Function.update places i .out) n := by
  refine h.move (by simp) ?_ ?_
  · rintro (hp | ⟨j, -, hj⟩)
    · simp at hp
    · exact absurd hj (hfree j)
  · rintro (hp | ⟨j, -, hj⟩)
    · simp at hp
    · have hle := h.served hj
      rw [← awake_leave hi (p := .out) (by simp)] at hle
      exact Nat.succ_le_succ_iff.mp hle

/-- Something is added, and a thread that waits is woken. -/
theorem Inv.signal (h : Inv places n) (hfree : Free places) (hi : places i = .waiting) :
    Inv (Function.update places i .entering) (n + 1) := by
  refine h.move (by simp) ?_ ?_
  · rintro (hp | ⟨j, -, hj⟩)
    · simp at hp
    · exact absurd hj (hfree j)
  · intro _
    rw [awake_enter (by simp [hi])]
    exact Nat.succ_le_succ (h.served hi)

end Moves

/-! ### Runs -/

section Runs

variable {S E : Type*} {step : S → E → S}

/-- What holds at the beginning and is kept by every step that `A` allows holds always. -/
theorem run_invariant {A : S → E → Prop} {s : ℕ → S} {P : S → Prop}
    (hnext : ∀ n, s (n + 1) = s n ∨ ∃ e, A (s n) e ∧ s (n + 1) = step (s n) e)
    (hstart : P (s 0)) (hstep : ∀ {x e}, A x e → P x → P (step x e)) (n : ℕ) : P (s n) := by
  induction n with
  | zero => exact hstart
  | succ n ih =>
      rcases hnext n with heq | ⟨e, hallowed, heq⟩
      · rwa [heq]
      · rw [heq]
        exact hstep hallowed ih

/-- The run of a list of events: nothing happens after the last. -/
theorem foldl_take_next (step : S → E → S) (s : S) (events : List E) (n : ℕ) :
    (events.take (n + 1)).foldl step s = (events.take n).foldl step s ∨
      ∃ e ∈ events, (events.take (n + 1)).foldl step s =
        step ((events.take n).foldl step s) e := by
  rcases lt_or_ge n events.length with hlt | hge
  · refine Or.inr ⟨events[n], List.getElem_mem hlt, ?_⟩
    rw [List.take_succ_eq_append_getElem hlt, List.foldl_append]
    rfl
  · left
    rw [List.take_of_length_le hge, List.take_of_length_le (hge.trans (Nat.le_succ n))]

end Runs

/-! ### Progress -/

section Progress

variable {Pc : Type*} {rests : Pc → Prop} {pc : ℕ → Pc}

/-- A thread that does not rest goes on at some time. -/
def GoesOn (rests : Pc → Prop) (pc : ℕ → Pc) : Prop :=
  ∀ n, ¬ rests (pc n) → ∃ m ≥ n, pc (m + 1) ≠ pc m

/-- A thread may rest for ever. -/
theorem goesOn_of_rests {N : ℕ} (h : ∀ n ≥ N, rests (pc n)) : GoesOn rests pc := by
  intro n hn
  by_contra hnever
  have hsame : ∀ k, pc (n + k) = pc n := by
    intro k
    induction k with
    | zero => rfl
    | succ k ih =>
        by_contra hne
        exact hnever ⟨n + k, by omega, fun heq => hne (heq.trans ih)⟩
  exact hn (hsame N ▸ h (n + N) (by omega))

/-- A thread comes to rest if it gets nearer to something whenever it goes on. -/
theorem GoesOn.comes_to_rest (h : GoesOn rests pc) (rank : Pc → ℕ)
    (hmoves : ∀ n, pc (n + 1) = pc n ∨ rank (pc (n + 1)) < rank (pc n)) : ∃ n, rests (pc n) := by
  by_contra hnever
  rw [not_exists] at hnever
  have hdown : Antitone fun n => rank (pc n) := by
    refine antitone_nat_of_succ_le fun n => ?_
    rcases hmoves n with hsame | hlt
    · exact (congrArg rank hsame).le
    · exact hlt.le
  have hall : ∀ k n, rank (pc n) ≠ k := by
    intro k
    induction k using Nat.strong_induction_on with
    | _ k ih =>
        intro n hn
        obtain ⟨m, hm, hne⟩ := h n (hnever n)
        have hlt := (hmoves m).resolve_left hne
        exact ih _ (hlt.trans_le ((hdown hm).trans hn.le)) (m + 1) rfl
  exact hall _ 0 rfl

end Progress

end Monitor
