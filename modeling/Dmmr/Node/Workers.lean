import Dmmr.Node.Jobs

/-!
# Wake-ups of the workers

Who waits at `queue_cond` is woken for every connection that is queued, and at the end.

While the node runs, no signal is lost (`no_lost_wakeup`): as long as a worker waits, at
least as many workers are on their way to the queue as there are connections in it.  So
every connection that is queued is taken (`connection_served`), if every thread that does
not wait goes on at some time; for a worker in `handle_client` this means that its client
hangs up.

At the end `main` wakes the workers under `queue_mutex` when `running` is 0.  From then on
none of them waits.  But `handle_client` does not look at `running`: a worker that serves a
client at that time ends exactly if the client hangs up, and every other worker ends
(`workers_end_iff`).
-/

namespace Dmmr.Node

open Words Ownership Pool Monitor

variable {Worker : Type*}

/-- Where a worker stands with respect to `queue_cond`. -/
def WorkerPc.place : WorkerPc → Place
  | entering => .entering
  | deciding => .deciding
  | waiting => .waiting
  | _ => .out

namespace WorkerPc

theorem place_eq_entering {pc : WorkerPc} : pc.place = .entering ↔ pc = .entering := by
  cases pc <;> simp [place]

theorem place_eq_deciding {pc : WorkerPc} : pc.place = .deciding ↔ pc = .deciding := by
  cases pc <;> simp [place]

theorem place_eq_waiting {pc : WorkerPc} : pc.place = .waiting ↔ pc = .waiting := by
  cases pc <;> simp [place]

end WorkerPc

namespace JobState

variable {host : Endian} {s s' : JobState Worker}

theorem Unlocked.free (h : s.Unlocked) : Free (WorkerPc.place ∘ s.pcs) :=
  fun w hw => h w (WorkerPc.place_eq_deciding.mp hw)

/-- While the node runs, no signal is lost and no worker ends. -/
structure Awake [Fintype Worker] (s : JobState Worker) : Prop where
  monitor : Inv (WorkerPc.place ∘ s.pcs) s.queue.length
  alive : ∀ w, s.pcs w ≠ .done

section Step

variable [DecidableEq Worker]

theorem Next.running (h : s.Next host s') (hrunning : s'.running = true) : s.running = true := by
  cases h with
  | stop => simp at hrunning
  | _ => exact hrunning

variable [Fintype Worker]

theorem Awake.move (h : s.Awake) (hconns : s.ConnsInv) (hrunning : s.running = true) {w : Worker}
    {pc : WorkerPc} (hmove : s.Move (s.pcs w) pc) :
    Inv (WorkerPc.place ∘ (s.setPc w pc).pcs) s.queue.length ∧ pc ≠ .done := by
  rw [pcs_setPc, Function.comp_update]
  generalize hpc : s.pcs w = pc₀ at hmove
  have hplace : (WorkerPc.place ∘ s.pcs) w = pc₀.place := by
    rw [Function.comp_apply, hpc]
  cases hmove with
  | enter => exact ⟨h.monitor.enter (Or.inl hplace), by simp⟩
  | leave hstop => exact absurd (hstop.symm.trans hrunning) (by simp)
  | decide _ hsize hunlocked =>
      have hzero : s.queue.length = 0 := by
        have := hconns.size
        omega
      have hinv := h.monitor
      rw [hzero] at hinv ⊢
      exact ⟨hinv.decide hunlocked.free w, by simp⟩
  | quit hstop => exact absurd (hstop.symm.trans hrunning) (by simp)
  | again _ hsize hqueue =>
      refine absurd ?_ hsize
      rw [hconns.size, hqueue]
      rfl
  | sleep => exact ⟨h.monitor.sleep hplace, by simp⟩
  | wake => exact ⟨h.monitor.enter (Or.inr hplace), by simp⟩

theorem Awake.next (h : s.Awake) (hconns : s.ConnsInv) (hnext : s.Next host s')
    (hrunning : s'.running = true) : s'.Awake := by
  have hbefore := hnext.running hrunning
  have halive : ∀ {w pc}, pc ≠ .done → ∀ w', (Function.update s.pcs w pc) w' ≠ .done := by
    intro w pc hpc w'
    rw [Function.update_apply]
    split_ifs
    · exact hpc
    · exact h.alive w'
  cases hnext with
  | same | refuse | write => exact ⟨h.monitor, h.alive⟩
  | queue pcs _ hunlocked hwoken =>
      have hlen : ∀ job, (s.queue ++ [job]).length = s.queue.length + 1 := by simp
      constructor
      · show Inv (WorkerPc.place ∘ pcs) (s.queue ++ [_]).length
        rw [hlen]
        rcases hwoken with ⟨rfl, hnone⟩ | ⟨w, hw, rfl⟩
        · exact h.monitor.add hunlocked.free
            fun w hw => hnone w (WorkerPc.place_eq_waiting.mp hw)
        · rw [Function.comp_update]
          exact h.monitor.signal hunlocked.free (by rw [Function.comp_apply, hw]; rfl)
      · rcases hwoken with ⟨rfl, -⟩ | ⟨w, -, rfl⟩
        · exact h.alive
        · exact halive (by simp)
  | move w pc hmove =>
      obtain ⟨hinv, hpc⟩ := h.move hconns hbefore hmove
      exact ⟨hinv, halive hpc⟩
  | @take w job rest hpc _ hunlocked hqueue =>
      refine ⟨?_, halive (by simp)⟩
      have hinv := h.monitor
      rw [hqueue, List.length_cons] at hinv
      rw [pcs_setPc, Function.comp_update]
      exact hinv.take hunlocked.free (by rw [Function.comp_apply, hpc]; rfl)
  | @hangUp w job hpc =>
      refine ⟨?_, halive (by simp)⟩
      rw [pcs_setPc, comp_update_of_eq (f := WorkerPc.place) (by rw [hpc]; rfl)]
      exact h.monitor
  | @free w job hpc =>
      refine ⟨?_, halive (by simp)⟩
      rw [pcs_setPc, comp_update_of_eq (f := WorkerPc.place)
        (by show _ = (s.pcs w).place; rw [hpc]; rfl)]
      exact h.monitor
  | stop => simp at hrunning
  | wakeAll hstop => exact absurd (hstop.symm.trans hbefore) (by simp)

theorem Reachable.awake {pool : HeapPool} (hpool : PoolState.Inv host ⟨pool, ∅⟩)
    (h : Reachable host pool s) (hrunning : s.running = true) : s.Awake := by
  induction h with
  | init => exact ⟨inv_init fun _ => rfl, fun _ => by simp [JobState.init]⟩
  | step event hreach hlegal ih =>
      obtain ⟨hslots, hconns⟩ := hreach.inv hpool
      have hnext := next_step hslots.pool hlegal
      exact (ih (hnext.running hrunning)).next hconns hnext hrunning

end Step

end JobState

/-- **No signal is lost.**  While the node runs and a worker waits, there are at least as many
workers on their way to the queue as there are connections in it. -/
theorem no_lost_wakeup [Fintype Worker] [DecidableEq Worker] {host : Endian} {objSize : ℕ}
    {calloc : Option ℕ} {pool : HeapPool}
    (hpool : HeapPool.init host objSize jobPoolCapacity calloc = some pool)
    {s : JobState Worker} (h : s.Reachable host pool) (hrunning : s.running = true) {w : Worker}
    (hw : s.pcs w = .waiting) :
    s.queue.length ≤ (Finset.univ.filter fun w => s.pcs w = .entering).card := by
  have hawake := h.awake (HeapPool.inv_of_init hpool).2 hrunning
  have hle := hawake.monitor.served (i := w) (by rw [Function.comp_apply, hw]; rfl)
  refine hle.trans (Finset.card_le_card fun w' hw' => ?_)
  simp only [Finset.mem_filter, Finset.mem_univ, true_and, Function.comp_apply] at hw' ⊢
  exact WorkerPc.place_eq_entering.mp hw'

/-- A worker waits while another takes the connection that was queued in between. -/
theorem no_lost_wakeup_twoWorkers :
    ∃ pool, HeapPool.init .little 24 jobPoolCapacity (some 4096) = some pool ∧
      ([.check true, .test true, .sleep true, .check false, .test false, .sleep false,
        .accept (some true)].foldl (JobState.step .little)
          (JobState.init pool : JobState Bool)).queue.length ≤ 1 := by
  have hinit : HeapPool.init .little 24 jobPoolCapacity (some 4096) = some _ := rfl
  refine ⟨_, hinit, (no_lost_wakeup hinit ?_ ?_ (w := false) ?_).trans (le_of_eq ?_)⟩
  · simp only [List.foldl_cons, List.foldl_nil]
    refine .step _ (.step _ (.step _ (.step _ (.step _ (.step _ (.step _ .init ?_) ?_) ?_) ?_) ?_)
      ?_) ?_ <;> trivial
  all_goals decide +kernel

/-! ## What a worker does next -/

/-- A worker waits, or has ended. -/
def WorkerPc.Rests (pc : WorkerPc) : Prop := pc = .waiting ∨ pc = .done

/-- How far a worker is from the queue, or from its end. -/
def WorkerPc.rank : WorkerPc → ℕ
  | serving _ => 4
  | freeing _ => 3
  | top => 2
  | entering => 1
  | _ => 0

namespace JobState

variable {host : Endian} {s s' : JobState Worker}

/-- A worker goes on. -/
inductive Goes (s s' : JobState Worker) : WorkerPc → WorkerPc → Prop
  | move {pc pc' : WorkerPc} (hmove : s.Move pc pc') : Goes s s' pc pc'
  | take {job : Job} {rest : List Job} (hrunning : s.running = true)
      (hqueue : s.queue = job :: rest) (hqueue' : s'.queue = rest) :
      Goes s s' .entering (.serving job)
  | hangUp {job : Job} : Goes s s' (.serving job) (.freeing job)
  | free {job : Job} : Goes s s' (.freeing job) .top

theorem Next.goes [DecidableEq Worker] (h : s.Next host s') (w : Worker) :
    s'.pcs w = s.pcs w ∨ s.Goes s' (s.pcs w) (s'.pcs w) := by
  -- one worker moves, and the others stay
  have hone : ∀ {w₀ pc}, s.Goes s' (s.pcs w₀) pc → s'.pcs = Function.update s.pcs w₀ pc →
      s'.pcs w = s.pcs w ∨ s.Goes s' (s.pcs w) (s'.pcs w) := by
    intro w₀ pc hgoes hpcs
    rw [hpcs, Function.update_apply]
    split_ifs with heq
    · exact Or.inr (heq ▸ hgoes)
    · exact Or.inl rfl
  cases h with
  | same | refuse | stop | write => exact Or.inl rfl
  | queue pcs _ _ hwoken =>
      rcases hwoken with ⟨rfl, -⟩ | ⟨w₀, hw₀, rfl⟩
      · exact Or.inl rfl
      · exact hone (hw₀ ▸ .move .wake) rfl
  | move w₀ pc hmove => exact hone (.move hmove) rfl
  | take w₀ hpc hrunning _ hqueue => exact hone (hpc ▸ .take hrunning hqueue rfl) rfl
  | hangUp w₀ hpc => exact hone (hpc ▸ .hangUp) rfl
  | free w₀ hpc => exact hone (hpc ▸ .free) rfl
  | wakeAll =>
      simp only
      split_ifs with hw
      · rw [hw]
        exact Or.inr (.move .wake)
      · exact Or.inl rfl

/-- A step takes the first connection, or leaves all connections in the queue. -/
theorem Next.queue_cases [DecidableEq Worker] (h : s.Next host s') :
    (∃ job rest, s.queue = job :: rest ∧ s'.queue = rest ∧ s'.taken = s.taken ++ [job.conn]) ∨
      ∃ tail, s'.queue = s.queue ++ tail := by
  cases h with
  | queue => exact Or.inr ⟨_, rfl⟩
  | take w _ _ _ hqueue => exact Or.inl ⟨_, _, hqueue, rfl, rfl⟩
  | _ => exact Or.inr ⟨[], (List.append_nil _).symm⟩

end JobState

/-! ## Runs without end -/

section Runs

variable [Fintype Worker] [DecidableEq Worker]

/-- A run of the workers, from any reachable state. -/
structure JobRun (host : Endian) (pool : HeapPool) (s : ℕ → JobState Worker) : Prop where
  start : (s 0).Reachable host pool
  next : ∀ n, s (n + 1) = s n ∨ ∃ event, (s n).Legal event ∧ s (n + 1) = (s n).step host event

/-- Every worker that does not wait goes on at some time. -/
def Fair (s : ℕ → JobState Worker) : Prop :=
  ∀ w, GoesOn WorkerPc.Rests fun n => (s n).pcs w

namespace JobRun

variable {host : Endian} {pool : HeapPool} {s : ℕ → JobState Worker}
  (hpool : PoolState.Inv host ⟨pool, ∅⟩) (h : JobRun host pool s)
include h

theorem reachable (n : ℕ) : (s n).Reachable host pool :=
  run_invariant h.next h.start (fun hlegal hreach => .step _ hreach hlegal) n

include hpool

theorem step (n : ℕ) : (s n).Next host (s (n + 1)) := by
  rcases h.next n with heq | ⟨event, hlegal, heq⟩
  · rw [heq]
    exact .same
  · rw [heq]
    exact JobState.next_step ((h.reachable n).inv hpool).1.pool hlegal

/-- With connections in the queue a worker is not waiting. -/
theorem exists_not_waiting [Nonempty Worker] {n : ℕ} (hrunning : (s n).running = true)
    (hqueue : (s n).queue ≠ []) :
    ∃ w, (s n).pcs w ≠ .waiting ∧ (s n).pcs w ≠ .done := by
  have hawake := (h.reachable n).awake hpool hrunning
  by_cases hwait : ∃ w, (s n).pcs w = .waiting
  · obtain ⟨w, hw⟩ := hwait
    have hle := hawake.monitor.served (i := w) (by rw [Function.comp_apply, hw]; rfl)
    have hpos : 0 < awake (WorkerPc.place ∘ (s n).pcs) :=
      (List.length_pos_iff.mpr hqueue).trans_le hle
    obtain ⟨w', hw'⟩ := Finset.card_pos.mp hpos
    simp only [Finset.mem_filter, Finset.mem_univ, true_and, Function.comp_apply,
      WorkerPc.place_eq_entering] at hw'
    exact ⟨w', by simp [hw'], by simp [hw']⟩
  · exact ⟨Classical.arbitrary Worker, fun hw => hwait ⟨_, hw⟩, hawake.alive _⟩

/-- While connections stay in the queue, a worker that does not wait comes nearer. -/
theorem nearer {m : ℕ} (hrunning : ∀ n, (s n).running = true) (hqueue : (s m).queue ≠ [])
    (hkeep : ¬ ∃ job rest, (s m).queue = job :: rest ∧ (s (m + 1)).queue = rest) {w : Worker}
    (hw : (s m).pcs w ≠ .waiting) :
    (s (m + 1)).pcs w ≠ .waiting ∧
      ((s (m + 1)).pcs w = (s m).pcs w ∨
        ((s (m + 1)).pcs w).rank < ((s m).pcs w).rank) := by
  have hlen : 0 < (s m).queue.length := List.length_pos_iff.mpr hqueue
  have hawake := (h.reachable m).awake hpool (hrunning m)
  obtain ⟨-, hconns⟩ := (h.reachable m).inv hpool
  rcases (h.step hpool m).goes w with hsame | hgoes
  · exact ⟨hsame ▸ hw, Or.inl hsame⟩
  generalize hpc : (s m).pcs w = pc at hgoes hw
  generalize (s (m + 1)).pcs w = pc' at hgoes
  cases hgoes with
  | move hmove =>
      cases hmove with
      | enter => exact ⟨by simp, Or.inr (by decide)⟩
      | leave hstop | quit hstop => exact absurd (hstop.symm.trans (hrunning m)) (by simp)
      | decide _ hsize => exact absurd (hconns.size.symm.trans hsize) (by omega)
      | again _ _ hempty => exact absurd hempty hqueue
      | sleep =>
          have hzero := hawake.monitor.nothing (i := w) (by rw [Function.comp_apply, hpc]; rfl)
          omega
      | wake => exact absurd rfl hw
  | take _ hfirst hrest => exact absurd ⟨_, _, hfirst, hrest⟩ hkeep
  | hangUp | free => exact ⟨by simp, Or.inr (by simp [WorkerPc.rank])⟩

/-- A connection is taken. -/
theorem exists_take [Nonempty Worker] (hfair : Fair s) (hrunning : ∀ n, (s n).running = true)
    {n : ℕ} (hqueue : (s n).queue ≠ []) :
    ∃ k job rest, (∃ tail, (s (n + k)).queue = (s n).queue ++ tail) ∧
      (s (n + k)).queue = job :: rest ∧ (s (n + k + 1)).queue = rest ∧
      (s (n + k + 1)).taken = (s (n + k)).taken ++ [job.conn] := by
  by_contra hnever
  have hgrown : ∀ k, ∃ tail, (s (n + k)).queue = (s n).queue ++ tail := by
    intro k
    induction k with
    | zero => exact ⟨[], (List.append_nil _).symm⟩
    | succ k ih =>
        rcases (h.step hpool (n + k)).queue_cases with ⟨job, rest, htake⟩ | ⟨tail', htail'⟩
        · exact absurd ⟨k, job, rest, ih, htake⟩ hnever
        · obtain ⟨tail, htail⟩ := ih
          exact ⟨tail ++ tail', by rw [← Nat.add_assoc, htail', htail, List.append_assoc]⟩
  have hne : ∀ k, (s (n + k)).queue ≠ [] := by
    intro k hnil
    obtain ⟨tail, htail⟩ := hgrown k
    exact hqueue (List.append_eq_nil_iff.mp (htail.symm.trans hnil)).1
  have hkeep : ∀ k, ¬ ∃ job rest, (s (n + k)).queue = job :: rest ∧
      (s (n + k + 1)).queue = rest := by
    rintro k ⟨job, rest, hfirst, hrest⟩
    rcases (h.step hpool (n + k)).queue_cases with ⟨job', rest', htake⟩ | ⟨tail, htail⟩
    · exact hnever ⟨k, job', rest', hgrown k, htake⟩
    · have hlen := congrArg List.length htail
      rw [hrest, hfirst, List.length_append, List.length_cons] at hlen
      omega
  obtain ⟨w, hwait, -⟩ := h.exists_not_waiting hpool (hrunning n) hqueue
  have hstay : ∀ k, (s (n + k)).pcs w ≠ .waiting := by
    intro k
    induction k with
    | zero => exact hwait
    | succ k ih => exact (h.nearer hpool hrunning (hne k) (hkeep k) ih).1
  have hnearer := fun k => (h.nearer hpool hrunning (hne k) (hkeep k) (hstay k)).2
  -- the worker cannot come nearer for ever
  have hgoes : GoesOn WorkerPc.Rests fun k => (s (n + k)).pcs w := by
    intro k hk
    obtain ⟨m, hm, hne⟩ := hfair w (n + k) hk
    obtain ⟨k', rfl⟩ := Nat.exists_eq_add_of_le (show n ≤ m by omega)
    exact ⟨k', by omega, hne⟩
  obtain ⟨k, hrests⟩ := hgoes.comes_to_rest WorkerPc.rank hnearer
  rcases hrests with hk | hk
  · exact hstay k hk
  · exact ((h.reachable (n + k)).awake hpool (hrunning _)).alive w hk

/-- The connections before it are taken, and then it is. -/
theorem exists_taken [Nonempty Worker] (hfair : Fair s) (hrunning : ∀ n, (s n).running = true)
    {before : List ℕ} {c n : ℕ} (after : List ℕ)
    (hqueue : (s n).queue.map Job.conn = before ++ c :: after) :
    ∃ m, c ∈ (s m).taken := by
  induction before generalizing n after with
  | nil =>
      have hne : (s n).queue ≠ [] := fun hnil => by simp [hnil] at hqueue
      obtain ⟨k, job, rest, ⟨tail, hgrown⟩, hfirst, -, htaken⟩ :=
        h.exists_take hpool hfair hrunning hne
      have hconns := congrArg (List.map Job.conn) (hfirst.symm.trans hgrown)
      rw [List.map_cons, List.map_append, hqueue, List.nil_append, List.cons_append] at hconns
      refine ⟨n + k + 1, ?_⟩
      rw [htaken, (List.cons.inj hconns).1]
      exact List.mem_append_right _ (List.mem_singleton_self c)
  | cons b before ih =>
      have hne : (s n).queue ≠ [] := fun hnil => by simp [hnil] at hqueue
      obtain ⟨k, job, rest, ⟨tail, hgrown⟩, hfirst, hrest, -⟩ :=
        h.exists_take hpool hfair hrunning hne
      have hconns := congrArg (List.map Job.conn) (hfirst.symm.trans hgrown)
      rw [List.map_cons, List.map_append, hqueue, List.cons_append, List.cons_append] at hconns
      refine ih (n := n + k + 1) (after ++ tail.map Job.conn) ?_
      rw [hrest, (List.cons.inj hconns).2, List.append_assoc, List.cons_append]

end JobRun

namespace JobState

variable {host : Endian} {s s' : JobState Worker}

/-- Once `main` has woken the workers, `running` is 0 and nobody waits. -/
def Ending (s : JobState Worker) : Prop :=
  s.stopped = true → s.running = false ∧ Shut (WorkerPc.place ∘ s.pcs)

omit [Fintype Worker] in
theorem Ending.next (h : s.Ending) (hnext : s.Next host s') : s'.Ending := by
  -- a worker goes on without waiting
  have hmoves : ∀ {s'' : JobState Worker} {w pc}, s''.running = s.running →
      s''.pcs = Function.update s.pcs w pc → pc.place = .out ∨ pc.place = .entering →
      s.stopped = true → s''.running = false ∧ Shut (WorkerPc.place ∘ s''.pcs) := by
    intro s'' w pc hrunning hpcs hplace hstopped
    rw [hrunning, hpcs, Function.comp_update]
    exact ⟨(h hstopped).1, (h hstopped).2.update hplace w⟩
  intro hstopped
  cases hnext with
  | same | refuse | write => exact h hstopped
  | queue _ hopen => exact absurd (hopen.symm.trans hstopped) (by simp)
  | move w pc hmove =>
      obtain ⟨hrunning, hshut⟩ := h hstopped
      have hplace : (s.pcs w).place = .out ∨ (s.pcs w).place = .entering := hshut w
      refine hmoves rfl rfl ?_ hstopped
      generalize s.pcs w = pc₀ at hmove hplace
      cases hmove with
      | decide hrun | enter hrun => exact absurd (hrunning.symm.trans hrun) (by simp)
      | sleep => simp [WorkerPc.place] at hplace
      | wake => exact Or.inr rfl
      | _ => exact Or.inl rfl
  | take w _ hrun => exact absurd ((h hstopped).1.symm.trans hrun) (by simp)
  | hangUp w hpc => exact hmoves rfl rfl (Or.inl rfl) hstopped
  | free w hpc => exact hmoves rfl rfl (Or.inl rfl) hstopped
  | stop => exact ⟨rfl, (h hstopped).2⟩
  | wakeAll hrunning hunlocked =>
      refine ⟨hrunning, ?_⟩
      have hplaces : (WorkerPc.place ∘ fun w =>
          if s.pcs w = .waiting then .entering else s.pcs w) =
          wakeAll (WorkerPc.place ∘ s.pcs) := by
        funext w
        simp only [wakeAll, Function.comp_apply, WorkerPc.place_eq_waiting]
        split_ifs <;> rfl
      exact hplaces ▸ shut_wakeAll hunlocked.free

theorem Reachable.ending {pool : HeapPool} (hpool : PoolState.Inv host ⟨pool, ∅⟩)
    (h : Reachable host pool s) : s.Ending := by
  induction h with
  | init => exact fun hstopped => by simp [JobState.init] at hstopped
  | step event hreach hlegal ih => exact ih.next (next_step (hreach.inv hpool).1.pool hlegal)

omit [Fintype Worker] in
theorem Next.stopped (h : s.Next host s') (hstopped : s.stopped = true) : s'.stopped = true := by
  cases h with
  | wakeAll => rfl
  | _ => exact hstopped

omit [Fintype Worker] [DecidableEq Worker] in
/-- Each move brings a worker nearer to its end. -/
theorem Ending.goes (h : s.Ending) (hstopped : s.stopped = true) {w : Worker} {pc : WorkerPc}
    (hgoes : s.Goes s' (s.pcs w) pc) : pc.rank < (s.pcs w).rank := by
  obtain ⟨hrunning, hshut⟩ := h hstopped
  have hplace : (s.pcs w).place = .out ∨ (s.pcs w).place = .entering := hshut w
  generalize s.pcs w = pc₀ at hgoes hplace
  cases hgoes with
  | move hmove =>
      cases hmove with
      | enter hrun | decide hrun | again hrun => exact absurd (hrunning.symm.trans hrun) (by simp)
      | leave | quit => decide
      | sleep | wake => simp [WorkerPc.place] at hplace
  | take hrun => exact absurd (hrunning.symm.trans hrun) (by simp)
  | hangUp | free => simp [WorkerPc.rank]

end JobState

/-- A worker waits or has ended, or it is in `handle_client`, as long as its client likes. -/
def WorkerPc.Blocked (pc : WorkerPc) : Prop := pc.Rests ∨ ∃ job, pc = .serving job

/-- Every worker that is not blocked goes on at some time. -/
def Scheduled (s : ℕ → JobState Worker) : Prop :=
  ∀ w, GoesOn WorkerPc.Blocked fun n => (s n).pcs w

namespace JobRun

variable {host : Endian} {pool : HeapPool} {s : ℕ → JobState Worker}
  (hpool : PoolState.Inv host ⟨pool, ∅⟩) (h : JobRun host pool s)
  (hstopped : (s 0).stopped = true)
include hpool h hstopped

theorem stopped (n : ℕ) : (s n).stopped = true := by
  induction n with
  | zero => exact hstopped
  | succ n ih => exact (h.step hpool n).stopped ih

/-- After the end has begun, a worker stays where it is or comes nearer to its end. -/
theorem ends_nearer (w : Worker) (n : ℕ) : (s (n + 1)).pcs w = (s n).pcs w ∨
    ((s (n + 1)).pcs w).rank < ((s n).pcs w).rank :=
  ((h.step hpool n).goes w).imp_right fun hgoes =>
    ((h.reachable n).ending hpool).goes (h.stopped hpool hstopped n) hgoes

/-- Nobody takes a connection any more: who serves a client has served it all the time. -/
theorem serving_of_le {w : Worker} {job : Job} {n m : ℕ} (hle : n ≤ m)
    (hm : (s m).pcs w = .serving job) : (s n).pcs w = .serving job := by
  induction m, hle using Nat.le_induction with
  | base => exact hm
  | succ m _ ih =>
      refine ih ?_
      rcases (h.step hpool m).goes w with hsame | hgoes
      · exact hsame.symm.trans hm
      · rw [hm] at hgoes
        generalize (s m).pcs w = pc at hgoes
        have hrunning := ((h.reachable m).ending hpool (h.stopped hpool hstopped m)).1
        cases hgoes with
        | move hmove => cases hmove
        | take hrun => exact absurd (hrunning.symm.trans hrun) (by simp)

/-- A worker that has stopped to serve comes to its end. -/
theorem exists_done (hfair : Scheduled s) {w : Worker} {n : ℕ}
    (hfree : ∀ job, (s n).pcs w ≠ .serving job) : ∃ m, (s m).pcs w = .done := by
  have hgoes : GoesOn WorkerPc.Blocked fun k => (s (n + k)).pcs w := by
    intro k hk
    obtain ⟨m, hm, hne⟩ := hfair w (n + k) hk
    obtain ⟨k', rfl⟩ := Nat.exists_eq_add_of_le (show n ≤ m by omega)
    exact ⟨k', by omega, hne⟩
  obtain ⟨k, (hwait | hdone) | ⟨job, hserving⟩⟩ := hgoes.comes_to_rest WorkerPc.rank
    fun k => h.ends_nearer hpool hstopped w (n + k)
  · have hshut := ((h.reachable (n + k)).ending hpool (h.stopped hpool hstopped _)).2
    have hplace : ((s (n + k)).pcs w).place = .out ∨ ((s (n + k)).pcs w).place = .entering :=
      hshut w
    simp [hwait, WorkerPc.place] at hplace
  · exact ⟨n + k, hdone⟩
  · exact absurd (h.serving_of_le hpool hstopped (Nat.le_add_right n k) hserving) (hfree job)

end JobRun

/-- **Which workers end.**  Once `main` has woken the workers, a worker ends exactly if the
client that it serves at that time, if any, hangs up; nothing else is asked than that a worker
which neither waits nor serves goes on at some time. -/
theorem workers_end_iff {host : Endian} {objSize : ℕ} {calloc : Option ℕ} {pool : HeapPool}
    (hpool : HeapPool.init host objSize jobPoolCapacity calloc = some pool)
    {s : ℕ → JobState Worker} (h : JobRun host pool s) (hfair : Scheduled s)
    (hstopped : (s 0).stopped = true) (w : Worker) :
    (∃ n, (s n).pcs w = .done) ↔
      ∀ job, (s 0).pcs w = .serving job → ∃ n, (s n).pcs w ≠ .serving job := by
  have hinv := (HeapPool.inv_of_init hpool).2
  constructor
  · rintro ⟨n, hdone⟩ job -
    exact ⟨n, by simp [hdone]⟩
  · intro hhangs
    by_cases hserving : ∃ job, (s 0).pcs w = .serving job
    · obtain ⟨job, hjob⟩ := hserving
      obtain ⟨n, hn⟩ := hhangs job hjob
      refine h.exists_done hinv hstopped hfair (n := n) fun job' hjob' => hn ?_
      have hzero := h.serving_of_le hinv hstopped (Nat.zero_le n) hjob'
      rw [hjob', ← hzero, hjob]
    · exact h.exists_done hinv hstopped hfair (n := 0) fun job hjob => hserving ⟨job, hjob⟩

/-! ### Runs that come to rest -/

/-- The run of a list of events, after which nothing happens. -/
def jobRun (host : Endian) (s : JobState Worker) (events : List (JobEvent Worker)) (n : ℕ) :
    JobState Worker := (events.take n).foldl (JobState.step host) s

theorem jobRun_of_le (host : Endian) (s : JobState Worker) {events : List (JobEvent Worker)}
    {n : ℕ} (h : events.length ≤ n) : jobRun host s events n = events.foldl (.step host) s := by
  rw [jobRun, List.take_of_length_le h]

theorem jobRun_run {host : Endian} {pool : HeapPool} {s : JobState Worker}
    (hs : s.Reachable host pool) {events : List (JobEvent Worker)}
    (hlegal : ∀ event ∈ events, ∀ s : JobState Worker, s.Legal event) :
    JobRun host pool (jobRun host s events) := by
  refine ⟨hs, fun n => (foldl_take_next (JobState.step host) s events n).imp_right ?_⟩
  rintro ⟨event, hevent, heq⟩
  exact ⟨event, hlegal event hevent _, heq⟩

end Runs

/-- A worker serves a client when the node is stopped: it ends if the client hangs up, and
not if the client stays. -/
theorem workers_end_iff_serving :
    ∃ pool, HeapPool.init .little 24 jobPoolCapacity (some 4096) = some pool ∧
      let s : JobState Unit := [.accept none, .check (), .test (), .stop, .wakeAll].foldl
        (.step .little) (JobState.init pool)
      (∃ n, (jobRun .little s [.hangUp (), .free (), .check ()] n).pcs () = .done) ∧
        ¬ ∃ n, (jobRun .little s [] n).pcs () = .done := by
  have hinit : HeapPool.init .little 24 jobPoolCapacity (some 4096) = some _ := rfl
  have hevents : ∀ pool, ([.accept none, .check (), .test (), .stop, .wakeAll].foldl
      (.step .little) (JobState.init pool : JobState Unit)).Reachable .little pool := by
    intro pool
    simp only [List.foldl_cons, List.foldl_nil]
    refine .step _ (.step _ (.step _ (.step _ (.step _ .init ?_) ?_) ?_) ?_) ?_ <;> trivial
  refine ⟨_, hinit, ?_⟩
  intro s
  constructor
  · refine (workers_end_iff hinit (s := jobRun .little s _) (jobRun_run (hevents _) ?_)
      (fun w => goesOn_of_rests (N := 3) ?_) ?_ ()).mpr ?_
    · simp [JobState.Legal]
    · intro n hn
      rw [jobRun_of_le _ _ hn]
      exact Or.inl (Or.inr (by decide +kernel +revert))
    · decide +kernel
    · intro job _
      refine ⟨3, fun hserving => ?_⟩
      have hdone : (jobRun .little s [.hangUp (), .free (), .check ()] 3).pcs () = .done := by
        decide +kernel
      rw [hdone] at hserving
      exact absurd hserving (by simp)
  · rw [workers_end_iff hinit (s := jobRun .little s []) (jobRun_run (hevents _) (by simp))
      (fun w => goesOn_of_rests (N := 0) ?_) ?_ ()]
    · intro hhangs
      obtain ⟨n, hn⟩ := hhangs ⟨0, 0⟩ (by decide +kernel)
      rw [jobRun_of_le _ _ (Nat.zero_le n)] at hn
      exact hn (by decide +kernel)
    · decide +kernel
    · intro n _
      rw [jobRun_of_le _ _ (Nat.zero_le n)]
      exact Or.inr ⟨⟨0, 0⟩, by decide +kernel +revert⟩

end Dmmr.Node
