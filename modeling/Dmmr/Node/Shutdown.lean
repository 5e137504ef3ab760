import Dmmr.Lib.Monitor
import Dmmr.Node.Control

/-!
# The end of the broadcast workers

A broadcast worker waits at `broadcast_cond` while the control queue is short.  The control
thread wakes the workers when the queue is long.  When `running` has become 0, `main` waits
for the control thread to end, wakes the workers and waits for them.

`main` does not lock `control_mutex` for this.  A worker that has tested `running` and has
not begun to wait has the lock, but does not keep `running` from changing and `main` from
waking the others.  Nobody wakes it later, so `main` waits for it for ever.  The module says
that this is the only way in which a worker is left behind (`broadcastWorker_ends_iff`).

Of the queue only its length matters here.  A command that is taken is processed between the
steps of this module.
-/

namespace Dmmr.Node

open Monitor

variable {Worker : Type*}

/-! ## State -/

/-- Where a thread stands in `broadcast_worker_routine`. -/
inductive BroadcastWorkerPc
  /-- At `while (running)`. -/
  | top
  /-- About to lock `control_mutex` and to test. -/
  | entering
  /-- Has the lock and has found that it must wait. -/
  | deciding
  | waiting
  /-- In `process_control_cmd`. -/
  | processing
  | done
  deriving DecidableEq

structure BroadcastState (Worker : Type*) where
  queueSize : ℕ
  pcs : Worker → BroadcastWorkerPc
  running : Bool
  /-- The control thread has ended. -/
  controlDone : Bool
  /-- `main` has woken the workers, and waits for them. -/
  woken : Bool

def BroadcastState.init : BroadcastState Worker := ⟨0, fun _ => .top, true, false, false⟩

/-! ## Steps -/

inductive BroadcastEvent (Worker : Type*)
  /-- `enqueue_broadcast` puts a command in the queue. -/
  | enqueue
  /-- The control thread takes a command. -/
  | controlTake
  /-- The control thread wakes the workers. -/
  | controlWake
  | controlEnd
  | check (w : Worker)
  | test (w : Worker)
  | sleep (w : Worker)
  /-- `pthread_cond_wait` returns without a signal. -/
  | wake (w : Worker)
  /-- `process_control_cmd` and `free_cmd` return. -/
  | finish (w : Worker)
  /-- `running` becomes 0. -/
  | stop
  /-- `main` wakes the workers. -/
  | mainWake
  deriving DecidableEq

namespace BroadcastState

/-- Nobody has `control_mutex`. -/
def Unlocked (s : BroadcastState Worker) : Prop := ∀ w, s.pcs w ≠ .deciding

instance [Fintype Worker] (s : BroadcastState Worker) : Decidable s.Unlocked :=
  inferInstanceAs (Decidable (∀ w, s.pcs w ≠ .deciding))

/-- `pthread_cond_broadcast(&broadcast_cond)`. -/
def wakeAll (s : BroadcastState Worker) : BroadcastState Worker :=
  { s with pcs := fun w => if s.pcs w = .waiting then .entering else s.pcs w }

variable [DecidableEq Worker]

def setPc (s : BroadcastState Worker) (w : Worker) (pc : BroadcastWorkerPc) :
    BroadcastState Worker :=
  { s with pcs := Function.update s.pcs w pc }

/-- What a worker does once it has the lock. -/
def testQueue (s : BroadcastState Worker) (w : Worker) : BroadcastState Worker :=
  if (s.queueSize : Int) ≤ highWatermark ∧ s.running = true then s.setPc w .deciding
  else if s.running = false then s.setPc w .done
  else if s.queueSize = 0 then s.setPc w .top
  else { s with queueSize := s.queueSize - 1 }.setPc w .processing

variable [Fintype Worker]

def step (s : BroadcastState Worker) : BroadcastEvent Worker → BroadcastState Worker
  | .enqueue => if s.Unlocked then { s with queueSize := s.queueSize + 1 } else s
  | .controlTake =>
      if s.Unlocked ∧ s.controlDone = false then { s with queueSize := s.queueSize - 1 } else s
  | .controlWake =>
      -- the second of the two calls is made without the lock
      if s.controlDone = false then s.wakeAll else s
  | .controlEnd => if s.running = false then { s with controlDone := true } else s
  | .check w =>
      match s.pcs w with
      | .top => s.setPc w (if s.running then .entering else .done)
      | _ => s
  | .test w =>
      match s.pcs w with
      | .entering => if s.Unlocked then s.testQueue w else s
      | _ => s
  | .sleep w =>
      match s.pcs w with
      | .deciding => s.setPc w .waiting
      | _ => s
  | .wake w =>
      match s.pcs w with
      | .waiting => s.setPc w .entering
      | _ => s
  | .finish w =>
      match s.pcs w with
      | .processing => s.setPc w .top
      | _ => s
  | .stop => { s with running := false }
  | .mainWake =>
      if s.controlDone = true ∧ s.woken = false then { s.wakeAll with woken := true } else s

/-- What events lead to. -/
inductive Reachable : BroadcastState Worker → Prop
  | init : Reachable .init
  | step {s : BroadcastState Worker} (event : BroadcastEvent Worker) (h : Reachable s) :
      Reachable (s.step event)

/-! ## What a worker does next -/

/-- `main` wakes the workers after the control thread has ended, and that ends after
`running` has become 0. -/
structure Over (s : BroadcastState Worker) : Prop where
  control : s.controlDone = true → s.running = false
  main : s.woken = true → s.controlDone = true

omit [Fintype Worker] in
theorem testQueue_rest (s : BroadcastState Worker) (w : Worker) :
    (s.testQueue w).running = s.running ∧ (s.testQueue w).controlDone = s.controlDone ∧
      (s.testQueue w).woken = s.woken := by
  unfold testQueue
  split_ifs <;> exact ⟨rfl, rfl, rfl⟩

theorem Over.step {s : BroadcastState Worker} (h : s.Over) (event : BroadcastEvent Worker) :
    (s.step event).Over := by
  cases event with
  | enqueue | controlTake | controlWake =>
      simp only [BroadcastState.step]
      split_ifs
      · exact ⟨h.control, h.main⟩
      · exact h
  | controlEnd =>
      simp only [BroadcastState.step]
      split_ifs with hrunning
      · exact ⟨fun _ => hrunning, fun _ => rfl⟩
      · exact h
  | test w =>
      simp only [BroadcastState.step]
      split
      · split_ifs
        · obtain ⟨hrunning, hcontrol, hwoken⟩ := s.testQueue_rest w
          constructor
          · rw [hrunning, hcontrol]
            exact h.control
          · rw [hcontrol, hwoken]
            exact h.main
        · exact h
      · exact h
  | check w | sleep w | wake w | finish w =>
      simp only [BroadcastState.step]
      split
      · exact ⟨h.control, h.main⟩
      · exact h
  | stop => exact ⟨fun _ => rfl, h.main⟩
  | mainWake =>
      simp only [BroadcastState.step]
      split_ifs with hmain
      · exact ⟨h.control, fun _ => hmain.1⟩
      · exact h

theorem Reachable.over {s : BroadcastState Worker} (h : Reachable s) : s.Over := by
  induction h with
  | init => exact ⟨by simp [BroadcastState.init], by simp [BroadcastState.init]⟩
  | step event _ ih => exact ih.step event

/-- A worker goes on once `main` has woken the workers. -/
inductive Goes : BroadcastWorkerPc → BroadcastWorkerPc → Prop
  | leave : Goes .top .done
  | quit : Goes .entering .done
  | sleep : Goes .deciding .waiting
  | finish : Goes .processing .top

/-- Nobody wakes a worker any more. -/
theorem goes_step {s : BroadcastState Worker} (h : s.Over) (hwoken : s.woken = true)
    {event : BroadcastEvent Worker} (hevent : ∀ w, event ≠ .wake w) (w : Worker) :
    (s.step event).woken = true ∧
      ((s.step event).pcs w = s.pcs w ∨ Goes (s.pcs w) ((s.step event).pcs w)) := by
  have hcontrol := h.main hwoken
  have hrunning := h.control hcontrol
  have hsame : s.woken = true ∧ (s.pcs w = s.pcs w ∨ Goes (s.pcs w) (s.pcs w)) :=
    ⟨hwoken, Or.inl rfl⟩
  have hone : ∀ {w₀ pc}, Goes (s.pcs w₀) pc →
      (s.setPc w₀ pc).woken = true ∧
        ((s.setPc w₀ pc).pcs w = s.pcs w ∨ Goes (s.pcs w) ((s.setPc w₀ pc).pcs w)) := by
    intro w₀ pc hgoes
    refine ⟨hwoken, ?_⟩
    simp only [setPc, Function.update_apply]
    split_ifs with heq
    · exact Or.inr (heq ▸ hgoes)
    · exact Or.inl rfl
  cases event with
  | enqueue | controlTake =>
      simp only [BroadcastState.step]
      split_ifs
      · exact hsame
      · exact hsame
  | controlWake =>
      simp only [BroadcastState.step, hcontrol]
      exact hsame
  | controlEnd =>
      simp only [BroadcastState.step, hrunning]
      exact hsame
  | check w₀ =>
      simp only [BroadcastState.step, hrunning]
      split
      next hpc => exact hone (hpc ▸ .leave)
      next => exact hsame
  | test w₀ =>
      simp only [BroadcastState.step]
      split
      next hpc =>
        split_ifs
        · unfold testQueue
          rw [if_neg (by simp [hrunning]), if_pos hrunning]
          exact hone (hpc ▸ .quit)
        · exact hsame
      next => exact hsame
  | sleep w₀ =>
      simp only [BroadcastState.step]
      split
      next hpc => exact hone (hpc ▸ .sleep)
      next => exact hsame
  | wake w₀ => exact absurd rfl (hevent w₀)
  | finish w₀ =>
      simp only [BroadcastState.step]
      split
      next hpc => exact hone (hpc ▸ .finish)
      next => exact hsame
  | stop => exact hsame
  | mainWake =>
      simp only [BroadcastState.step]
      rw [if_neg (by simp [hwoken])]
      exact hsame

end BroadcastState

/-! ## Runs without end -/

namespace BroadcastWorkerPc

/-- A worker waits, or has ended. -/
def Rests (pc : BroadcastWorkerPc) : Prop := pc = waiting ∨ pc = done

/-- A worker has decided to wait. -/
def Lost (pc : BroadcastWorkerPc) : Prop := pc = deciding ∨ pc = waiting

/-- How far a worker is from its end. -/
def rank : BroadcastWorkerPc → ℕ
  | processing => 3
  | top => 2
  | entering => 1
  | _ => 0

end BroadcastWorkerPc

/-- A worker is lost for good, or it is not and comes nearer to its end. -/
theorem BroadcastState.Goes.lost_iff {pc pc' : BroadcastWorkerPc} (h : Goes pc pc') :
    (pc'.Lost ↔ pc.Lost) ∧ (¬ pc.Lost → pc'.rank < pc.rank) := by
  cases h <;> simp [BroadcastWorkerPc.Lost, BroadcastWorkerPc.rank]

variable [Fintype Worker] [DecidableEq Worker]

/-- A run in which no thread wakes up without a signal, and every worker that does not wait
goes on at some time. -/
structure BroadcastRun (s : ℕ → BroadcastState Worker) : Prop where
  next : ∀ n, s (n + 1) = s n ∨
    ∃ event, (∀ w, event ≠ .wake w) ∧ s (n + 1) = (s n).step event
  fair : ∀ w, GoesOn BroadcastWorkerPc.Rests fun n => (s n).pcs w

/-- What a worker does after `main` has woken the workers. -/
theorem BroadcastRun.goes {s : ℕ → BroadcastState Worker} (h : BroadcastRun s)
    (hover : (s 0).Over) (hwoken : (s 0).woken = true) (w : Worker) (n : ℕ) :
    (s (n + 1)).pcs w = (s n).pcs w ∨
      BroadcastState.Goes ((s n).pcs w) ((s (n + 1)).pcs w) := by
  have hinv : ∀ n, (s n).Over ∧ (s n).woken = true :=
    run_invariant (A := fun _ event => ∀ w, event ≠ BroadcastEvent.wake w)
      (P := fun t : BroadcastState Worker => t.Over ∧ t.woken = true) h.next ⟨hover, hwoken⟩
      fun hevent ht => ⟨ht.1.step _, (BroadcastState.goes_step ht.1 ht.2 hevent w).1⟩
  rcases h.next n with heq | ⟨event, hevent, heq⟩
  · exact Or.inl (by rw [heq])
  · rw [heq]
    exact (BroadcastState.goes_step (hinv n).1 (hinv n).2 hevent w).2

/-- **Which broadcast workers end.**  When `main` wakes the broadcast workers at the end, a
worker ends exactly if it is not between its test and its wait at that moment.  Otherwise
`main` waits for it for ever. -/
theorem broadcastWorker_ends_iff {t : BroadcastState Worker} (ht : t.Reachable)
    (hcontrol : t.controlDone = true) (hfirst : t.woken = false)
    {s : ℕ → BroadcastState Worker} (hstart : s 0 = t.step .mainWake) (h : BroadcastRun s)
    (w : Worker) : (∃ n, (s n).pcs w = .done) ↔ t.pcs w ≠ .deciding := by
  have hzero : s 0 = { t.wakeAll with woken := true } := by
    rw [hstart]
    exact if_pos ⟨hcontrol, hfirst⟩
  have hover : (s 0).Over := hstart ▸ ht.over.step .mainWake
  have hgoes := h.goes hover (by rw [hzero]) w
  -- who is lost stays lost, and nobody else gets lost
  have hlost : ∀ n, ((s n).pcs w).Lost ↔ t.pcs w = .deciding := by
    intro n
    induction n with
    | zero =>
        rw [hzero]
        simp only [BroadcastState.wakeAll, BroadcastWorkerPc.Lost]
        split_ifs with hw
        · simp [hw]
        · simp [hw]
    | succ n ih =>
        rcases hgoes n with hsame | hmove
        · rwa [hsame]
        · exact hmove.lost_iff.1.trans ih
  constructor
  · rintro ⟨n, hn⟩ hdeciding
    have hdone := (hlost n).mpr hdeciding
    simp [hn, BroadcastWorkerPc.Lost] at hdone
  · intro hnot
    have hfree : ∀ n, ¬ ((s n).pcs w).Lost := fun n hn => hnot ((hlost n).mp hn)
    have hmoves : ∀ n, (s (n + 1)).pcs w = (s n).pcs w ∨
        ((s (n + 1)).pcs w).rank < ((s n).pcs w).rank := fun n =>
      (hgoes n).imp_right fun hmove => hmove.lost_iff.2 (hfree n)
    obtain ⟨n, hwait | hdone⟩ := (h.fair w).comes_to_rest BroadcastWorkerPc.rank hmoves
    · exact absurd (Or.inr hwait) (hfree n)
    · exact ⟨n, hdone⟩

/-- A worker has tested `running` when it becomes 0, and begins to wait when `main` has woken
the others. -/
theorem broadcastWorker_ends_iff_lost :
    ¬ ∃ n, (([.sleep ()].take n).foldl BroadcastState.step
      (([.check (), .test (), .stop, .controlEnd].foldl .step
        (BroadcastState.init : BroadcastState Unit)).step .mainWake)).pcs () = .done := by
  set t : BroadcastState Unit :=
    [.check (), .test (), .stop, .controlEnd].foldl .step BroadcastState.init with ht
  have hreach : t.Reachable := by
    simp only [ht, List.foldl_cons, List.foldl_nil]
    exact .step _ (.step _ (.step _ (.step _ .init)))
  have hrest : ∀ n ≥ 1, [BroadcastEvent.sleep ()].take n = [.sleep ()] :=
    fun n hn => List.take_of_length_le hn
  have hrun : BroadcastRun fun n => ([.sleep ()].take n).foldl BroadcastState.step
      (t.step .mainWake) := by
    refine ⟨fun n => ?_, fun w => goesOn_of_rests (N := 1) fun n hn => ?_⟩
    · cases n with
      | zero => exact Or.inr ⟨.sleep (), by simp, rfl⟩
      | succ n =>
          exact Or.inl (by simp only [hrest (n + 1 + 1) (by omega), hrest (n + 1) (by omega)])
    · simp only [hrest n hn]
      exact Or.inl rfl
  rw [broadcastWorker_ends_iff hreach rfl rfl rfl hrun ()]
  exact not_not.mpr rfl

end Dmmr.Node
