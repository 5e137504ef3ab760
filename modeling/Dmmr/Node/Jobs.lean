import Dmmr.Lib.Monitor
import Dmmr.Lib.Ownership
import Dmmr.Pool.Heap

/-!
# The workers and their queue

`main` accepts connections and passes them to `enqueue_job`, which puts them in a queue and
signals `queue_cond`.  A worker takes the first connection of the queue, stays with it until
the client hangs up (`handle_client`), gives the slot of the queue entry back and goes on;
with an empty queue it waits at `queue_cond`.  When `running` has become 0, `main` wakes all
workers under `queue_mutex` and waits for them to end.

`queue_mutex` makes a section under it one step, with one exception: a worker that finds the
queue empty has the lock until it waits, and `running` may change in between.  So the test
and the beginning of the wait are two steps here, and nobody else gets the lock meanwhile.

A connection is known by the number of connections accepted before it, since descriptors are
used again.  The lists of connections taken and closed are history.
-/

namespace Dmmr.Node

open Words Ownership Pool

/-! ## State -/

/-- `QUEUE_MAX`. -/
def queueMax : Int := 128

/-- The capacity of `job_pool`, `QUEUE_MAX`. -/
def jobPoolCapacity : UInt32 := 128

/-- `struct job_fd_entry`: its slot in `job_pool` and the connection. -/
structure Job where
  slot : ℕ
  conn : ℕ
  deriving DecidableEq

/-- Where a worker stands in `worker_routine`. -/
inductive WorkerPc
  /-- At `while (running)`. -/
  | top
  /-- About to lock `queue_mutex` and to test. -/
  | entering
  /-- Has the lock and has found the queue empty. -/
  | deciding
  | waiting
  /-- In `handle_client`. -/
  | serving (job : Job)
  /-- `handle_client` has closed the connection. -/
  | freeing (job : Job)
  | done
  deriving DecidableEq

structure JobState (Worker : Type*) where
  jobPool : PoolState
  queue : List Job
  queueSize : Int
  pcs : Worker → WorkerPc
  running : Bool
  /-- `main` has woken the workers, and waits for them. -/
  stopped : Bool
  /-- How many connections were accepted. -/
  arrived : ℕ
  closed : List ℕ
  taken : List ℕ

variable {Worker : Type*}

/-- The node when `main` has made the pool and the workers. -/
def JobState.init (pool : HeapPool) : JobState Worker :=
  ⟨⟨pool, ∅⟩, [], 0, fun _ => .top, true, false, 0, [], []⟩

/-! ## Steps -/

inductive JobEvent (Worker : Type*)
  /-- `main` has accepted a connection; `woken` is whom `pthread_cond_signal` wakes. -/
  | accept (woken : Option Worker)
  | check (w : Worker)
  | test (w : Worker)
  | sleep (w : Worker)
  /-- `pthread_cond_wait` returns without a signal. -/
  | wake (w : Worker)
  /-- `handle_client` returns. -/
  | hangUp (w : Worker)
  /-- `free_job`. -/
  | free (w : Worker)
  /-- `running` becomes 0. -/
  | stop
  /-- `main` wakes the workers. -/
  | wakeAll
  /-- A byte of the pool's block is written to. -/
  | write (offset : ℕ) (byte : UInt8)

/-- A signal wakes one of the threads that wait, if any. -/
def Signals (pcs : Worker → WorkerPc) : Option Worker → Prop
  | some w => pcs w = .waiting
  | none => ∀ w, pcs w ≠ .waiting

instance [Fintype Worker] (pcs : Worker → WorkerPc) (woken : Option Worker) :
    Decidable (Signals pcs woken) := by
  cases woken with
  | none => exact inferInstanceAs (Decidable (∀ w, pcs w ≠ .waiting))
  | some w => exact inferInstanceAs (Decidable (pcs w = .waiting))

namespace JobState

/-- Nobody writes to slots that are not handed out. -/
def Legal (s : JobState Worker) : JobEvent Worker → Prop
  | .write offset byte => s.jobPool.Legal (.write offset byte)
  | _ => True

/-- Nobody has `queue_mutex`. -/
def Unlocked (s : JobState Worker) : Prop := ∀ w, s.pcs w ≠ .deciding

instance [Fintype Worker] (s : JobState Worker) : Decidable s.Unlocked :=
  inferInstanceAs (Decidable (∀ w, s.pcs w ≠ .deciding))

variable [DecidableEq Worker]

def setPc (s : JobState Worker) (w : Worker) (pc : WorkerPc) : JobState Worker :=
  { s with pcs := Function.update s.pcs w pc }

/-- `enqueue_job` closes the connection. -/
def refuse (s : JobState Worker) : JobState Worker :=
  { s with arrived := s.arrived + 1, closed := s.closed ++ [s.arrived] }

variable (host : Endian)

/-- `enqueue_job`. -/
def enqueueJob (s : JobState Worker) (woken : Option Worker) : JobState Worker :=
  if s.queueSize ≥ queueMax then s.refuse
  else
    match (s.jobPool.pool.alloc host).1 with
    | none => s.refuse
    | some ptr =>
        let slot := (ptr - s.jobPool.pool.buffer) / s.jobPool.pool.objSize
        { s with
          jobPool := s.jobPool.step host .alloc
          queue := s.queue ++ [⟨slot, s.arrived⟩]
          queueSize := s.queueSize + 1
          arrived := s.arrived + 1
          pcs :=
            match woken with
            | none => s.pcs
            | some w => Function.update s.pcs w .entering }

/-- What a worker does once it has the lock. -/
def testQueue (s : JobState Worker) (w : Worker) : JobState Worker :=
  if s.queueSize = 0 ∧ s.running = true then s.setPc w .deciding
  else if s.running = false then s.setPc w .done
  else
    match s.queue with
    | [] => s.setPc w .top
    | job :: rest =>
        { s with
          queue := rest
          queueSize := s.queueSize - 1
          taken := s.taken ++ [job.conn] }.setPc w (.serving job)

/-- `free_job`. -/
def freeJob (s : JobState Worker) (slot : ℕ) : JobState Worker :=
  { s with
    jobPool := s.jobPool.step host
      (.free (some (s.jobPool.pool.buffer + slot * s.jobPool.pool.objSize))) }

section Steps

variable [Fintype Worker]

def step (s : JobState Worker) : JobEvent Worker → JobState Worker
  | .accept woken =>
      if s.stopped = false ∧ s.Unlocked ∧ Signals s.pcs woken then s.enqueueJob host woken else s
  | .check w =>
      match s.pcs w with
      | .top => s.setPc w (if s.running then .entering else .done)
      | _ => s
  | .test w =>
      match s.pcs w with
      | .entering => if s.Unlocked then s.testQueue w else s
      | _ => s
  | .sleep w =>
      match s.pcs w with
      | .deciding => s.setPc w .waiting
      | _ => s
  | .wake w =>
      match s.pcs w with
      | .waiting => s.setPc w .entering
      | _ => s
  | .hangUp w =>
      match s.pcs w with
      | .serving job => { s with closed := s.closed ++ [job.conn] }.setPc w (.freeing job)
      | _ => s
  | .free w =>
      match s.pcs w with
      | .freeing job => (s.freeJob host job.slot).setPc w .top
      | _ => s
  | .stop => { s with running := false }
  | .wakeAll =>
      if s.running = false ∧ s.Unlocked then
        { s with
          stopped := true
          pcs := fun w => if s.pcs w = .waiting then .entering else s.pcs w }
      else s
  | .write offset byte => { s with jobPool := s.jobPool.step host (.write offset byte) }

/-- What legal events lead to. -/
inductive Reachable (pool : HeapPool) : JobState Worker → Prop
  | init : Reachable pool (JobState.init pool)
  | step {s : JobState Worker} (event : JobEvent Worker) (h : Reachable pool s)
      (hlegal : s.Legal event) : Reachable pool (s.step host event)

end Steps

/-! ## What a step can do -/

/-- A worker goes on without touching the queue. -/
inductive Move (s : JobState Worker) : WorkerPc → WorkerPc → Prop
  | enter (hrunning : s.running = true) : Move s .top .entering
  | leave (hrunning : s.running = false) : Move s .top .done
  | decide (hrunning : s.running = true) (hsize : s.queueSize = 0) (hunlocked : s.Unlocked) :
      Move s .entering .deciding
  | quit (hrunning : s.running = false) : Move s .entering .done
  | again (hrunning : s.running = true) (hsize : s.queueSize ≠ 0) (hqueue : s.queue = []) :
      Move s .entering .top
  | sleep : Move s .deciding .waiting
  | wake : Move s .waiting .entering

/-- The threads after a signal. -/
def Woken (s : JobState Worker) (pcs : Worker → WorkerPc) : Prop :=
  pcs = s.pcs ∧ (∀ w, s.pcs w ≠ .waiting) ∨
    ∃ w, s.pcs w = .waiting ∧ pcs = Function.update s.pcs w .entering

inductive Next (s : JobState Worker) : JobState Worker → Prop
  | same : Next s s
  | refuse (hunlocked : s.Unlocked)
      (hfull : s.queueSize ≥ queueMax ∨ s.jobPool.pool.freeHead = noSlot) : Next s s.refuse
  | queue (pcs : Worker → WorkerPc) (hstopped : s.stopped = false) (hunlocked : s.Unlocked)
      (hwoken : s.Woken pcs) (hsize : s.queueSize < queueMax)
      (hfree : s.jobPool.pool.freeHead ≠ noSlot) :
      Next s
        { s with
          jobPool := ⟨(s.jobPool.pool.alloc host).2,
            insert s.jobPool.pool.freeHead.toNat s.jobPool.inUse⟩
          queue := s.queue ++ [⟨s.jobPool.pool.freeHead.toNat, s.arrived⟩]
          queueSize := s.queueSize + 1
          arrived := s.arrived + 1
          pcs := pcs }
  | move (w : Worker) (pc : WorkerPc) (hmove : s.Move (s.pcs w) pc) : Next s (s.setPc w pc)
  | take (w : Worker) {job : Job} {rest : List Job} (hpc : s.pcs w = .entering)
      (hrunning : s.running = true) (hunlocked : s.Unlocked) (hqueue : s.queue = job :: rest) :
      Next s
        ({ s with
          queue := rest
          queueSize := s.queueSize - 1
          taken := s.taken ++ [job.conn] }.setPc w (.serving job))
  | hangUp (w : Worker) {job : Job} (hpc : s.pcs w = .serving job) :
      Next s ({ s with closed := s.closed ++ [job.conn] }.setPc w (.freeing job))
  | free (w : Worker) {job : Job} (hpc : s.pcs w = .freeing job) :
      Next s ((s.freeJob host job.slot).setPc w .top)
  | stop : Next s { s with running := false }
  | wakeAll (hrunning : s.running = false) (hunlocked : s.Unlocked) :
      Next s
        { s with
          stopped := true
          pcs := fun w => if s.pcs w = .waiting then .entering else s.pcs w }
  | write {offset : ℕ} {byte : UInt8} (hlegal : s.jobPool.Legal (.write offset byte)) :
      Next s { s with jobPool := s.jobPool.step host (.write offset byte) }

variable {host : Endian} {s : JobState Worker}

theorem next_enqueueJob (hpool : s.jobPool.Inv host) {woken : Option Worker}
    (hstopped : s.stopped = false) (hunlocked : s.Unlocked) (hsignals : Signals s.pcs woken) :
    s.Next host (s.enqueueJob host woken) := by
  have hpos : 0 < s.jobPool.pool.objSize := Nat.lt_of_lt_of_le (by decide) hpool.size
  unfold enqueueJob
  split_ifs with hsize
  · exact .refuse hunlocked (Or.inl hsize)
  · by_cases hnone : s.jobPool.pool.freeHead = noSlot
    · rw [HeapPool.alloc, if_pos hnone]
      exact .refuse hunlocked (Or.inr hnone)
    · rw [PoolState.step_alloc hpos hnone]
      rw [show (s.jobPool.pool.alloc host).1 = some (s.jobPool.pool.buffer +
        s.jobPool.pool.freeHead.toNat * s.jobPool.pool.objSize) by
          rw [HeapPool.alloc, if_neg hnone]]
      simp only [Nat.add_sub_cancel_left, Nat.mul_div_cancel _ hpos]
      refine .queue _ hstopped hunlocked ?_ (not_le.mp hsize) hnone
      cases woken with
      | none => exact Or.inl ⟨rfl, hsignals⟩
      | some w => exact Or.inr ⟨w, hsignals, rfl⟩

theorem next_testQueue {w : Worker} (hpc : s.pcs w = .entering) (hunlocked : s.Unlocked) :
    s.Next host (s.testQueue w) := by
  unfold testQueue
  split_ifs with hempty hrunning
  · exact .move w _ (hpc ▸ .decide hempty.2 hempty.1 hunlocked)
  · exact .move w _ (hpc ▸ .quit hrunning)
  · rw [Bool.not_eq_false] at hrunning
    cases hqueue : s.queue with
    | nil => exact .move w _ (hpc ▸ .again hrunning (fun hsize => hempty ⟨hsize, hrunning⟩) hqueue)
    | cons job rest => exact .take w hpc hrunning hunlocked hqueue

theorem next_step [Fintype Worker] (hpool : s.jobPool.Inv host) {event : JobEvent Worker}
    (hlegal : s.Legal event) : s.Next host (s.step host event) := by
  cases event with
  | accept woken =>
      simp only [step]
      split_ifs with h
      · exact next_enqueueJob hpool h.1 h.2.1 h.2.2
      · exact .same
  | check w =>
      simp only [step]
      split
      next hpc =>
        cases hrunning : s.running with
        | true => exact .move w _ (hpc ▸ .enter hrunning)
        | false => exact .move w _ (hpc ▸ .leave hrunning)
      next => exact .same
  | test w =>
      simp only [step]
      split
      next hpc =>
        split_ifs with hunlocked
        · exact next_testQueue hpc hunlocked
        · exact .same
      next => exact .same
  | sleep w =>
      simp only [step]
      split
      next hpc => exact .move w _ (hpc ▸ .sleep)
      next => exact .same
  | wake w =>
      simp only [step]
      split
      next hpc => exact .move w _ (hpc ▸ .wake)
      next => exact .same
  | hangUp w =>
      simp only [step]
      split
      next job hpc => exact .hangUp w hpc
      next => exact .same
  | free w =>
      simp only [step]
      split
      next job hpc => exact .free w hpc
      next => exact .same
  | stop => exact .stop
  | wakeAll =>
      simp only [step]
      split_ifs with h
      · exact .wakeAll h.1 h.2
      · exact .same
  | write offset byte => exact .write hlegal

end JobState

/-! ## Slots and connections -/

namespace WorkerPc

/-- The slot a worker has. -/
def slot : WorkerPc → Option ℕ
  | serving job | freeing job => some job.slot
  | _ => none

/-- The connection a worker serves. -/
def conn : WorkerPc → Option ℕ
  | serving job => some job.conn
  | _ => none

end WorkerPc

namespace JobState

/-- The connections that are open. -/
def live (s : JobState Worker) : Finset ℕ := (Finset.range s.arrived).filter (· ∉ s.closed)

/-- Every slot in use belongs to one entry of the queue or to one worker. -/
structure SlotsInv (host : Endian) (s : JobState Worker) : Prop where
  pool : s.jobPool.Inv host
  owned : Owned (WorkerPc.slot ∘ s.pcs) (s.queue.map Job.slot) s.jobPool.inUse

/-- Every open connection is in the queue once or with one worker, and connections are taken
in the order in which they have come. -/
structure ConnsInv (s : JobState Worker) : Prop where
  size : s.queueSize = s.queue.length
  owned : Owned (WorkerPc.conn ∘ s.pcs) (s.queue.map Job.conn) s.live
  closed_nodup : s.closed.Nodup
  closed_lt : ∀ c ∈ s.closed, c < s.arrived
  order : (s.taken ++ s.queue.map Job.conn).Pairwise (· < ·)
  order_lt : ∀ c ∈ s.taken ++ s.queue.map Job.conn, c < s.arrived

variable {host : Endian} {s s' : JobState Worker}

theorem slotsInv_init {pool : HeapPool} (h : PoolState.Inv host ⟨pool, ∅⟩) :
    (JobState.init pool : JobState Worker).SlotsInv host :=
  ⟨h, Owned.init⟩

theorem connsInv_init (pool : HeapPool) : (JobState.init pool : JobState Worker).ConnsInv :=
  ⟨rfl, Owned.init, List.nodup_nil, by simp [init], List.Pairwise.nil, by simp [init]⟩

theorem Move.slot {pc pc' : WorkerPc} (h : s.Move pc pc') : pc'.slot = none ∧ pc.slot = none := by
  cases h <;> exact ⟨rfl, rfl⟩

theorem Move.conn {pc pc' : WorkerPc} (h : s.Move pc pc') : pc'.conn = none ∧ pc.conn = none := by
  cases h <;> exact ⟨rfl, rfl⟩

theorem not_mem_live_arrived (s : JobState Worker) : s.arrived ∉ s.live := by
  simp [live]

theorem comp_wakeAll {β : Type*} {f : WorkerPc → β} (hf : f .entering = f .waiting) :
    (f ∘ fun w => if s.pcs w = .waiting then .entering else s.pcs w) = f ∘ s.pcs := by
  funext w
  simp only [Function.comp_apply]
  split_ifs with hw
  · rw [hw, hf]
  · rfl

theorem live_refuse (s : JobState Worker) : s.refuse.live = s.live := by
  ext c
  simp only [live, refuse, Finset.mem_filter, Finset.mem_range, List.mem_append,
    List.mem_singleton]
  constructor
  · rintro ⟨hlt, hnot⟩
    have hne : c ≠ s.arrived := fun heq => hnot (Or.inr heq)
    exact ⟨by omega, fun hmem => hnot (Or.inl hmem)⟩
  · rintro ⟨hlt, hnot⟩
    exact ⟨by omega, by rintro (hmem | rfl); exacts [hnot hmem, absurd hlt (lt_irrefl _)]⟩

theorem ConnsInv.refuse (h : s.ConnsInv) : s.refuse.ConnsInv where
  size := h.size
  owned := by
    rw [live_refuse]
    exact h.owned
  closed_nodup := by
    refine List.nodup_append.mpr ⟨h.closed_nodup, List.nodup_singleton _, ?_⟩
    rintro c hc d hd rfl
    exact absurd (h.closed_lt c hc) (by rw [List.mem_singleton.mp hd]; exact lt_irrefl _)
  closed_lt := by
    intro c hc
    rcases List.mem_append.mp hc with hc | hc
    · exact (h.closed_lt c hc).trans (Nat.lt_succ_self _)
    · rw [List.mem_singleton.mp hc]
      exact Nat.lt_succ_self _
  order := h.order
  order_lt := fun c hc => (h.order_lt c hc).trans (Nat.lt_succ_self _)

variable [DecidableEq Worker]

theorem pcs_setPc (s : JobState Worker) (w : Worker) (pc : WorkerPc) :
    (s.setPc w pc).pcs = Function.update s.pcs w pc := rfl

/-- A signal does not change who has what. -/
theorem Woken.comp {β : Type*} {f : WorkerPc → β} {pcs : Worker → WorkerPc} (h : s.Woken pcs)
    (hf : f .entering = f .waiting) : f ∘ pcs = f ∘ s.pcs := by
  rcases h with ⟨rfl, -⟩ | ⟨w, hw, rfl⟩
  · rfl
  · rw [Function.comp_update, Function.update_eq_self_iff, hf, Function.comp_apply, hw]

theorem SlotsInv.next (h : s.SlotsInv host) (hnext : s.Next host s') : s'.SlotsInv host := by
  cases hnext with
  | same | refuse | stop => exact ⟨h.pool, h.owned⟩
  | queue pcs _ _ hwoken _ hfree =>
      obtain ⟨-, hnew, hinv⟩ := h.pool.alloc hfree
      refine ⟨hinv, ?_⟩
      show Owned (WorkerPc.slot ∘ pcs) ((s.queue ++ [_]).map Job.slot) (insert _ _)
      rw [List.map_append, hwoken.comp rfl]
      exact h.owned.append hnew
  | move w pc hmove =>
      refine ⟨h.pool, ?_⟩
      rw [pcs_setPc, comp_update_of_eq (hmove.slot.1.trans hmove.slot.2.symm)]
      exact h.owned
  | @take w job rest hpc _ _ hqueue =>
      refine ⟨h.pool, ?_⟩
      have howned := h.owned
      rw [hqueue, List.map_cons] at howned
      rw [pcs_setPc, Function.comp_update]
      exact howned.pop (by rw [Function.comp_apply, hpc]; rfl)
  | @hangUp w job hpc =>
      refine ⟨h.pool, ?_⟩
      rw [pcs_setPc, comp_update_of_eq (f := WorkerPc.slot) (by rw [hpc]; rfl)]
      exact h.owned
  | @free w job hpc =>
      have hpos : 0 < s.jobPool.pool.objSize := Nat.lt_of_lt_of_le (by decide) h.pool.size
      have hslot : (WorkerPc.slot ∘ s.pcs) w = some job.slot := by
        rw [Function.comp_apply, hpc]
        rfl
      constructor
      · refine PoolState.Inv.step h.pool (show s.jobPool.Legal (.free _) from fun i p hp hi => ?_)
        obtain rfl := Option.some.inj hp
        have heq : i = job.slot :=
          Nat.eq_of_mul_eq_mul_right hpos (Nat.add_left_cancel hi.2).symm
        exact heq ▸ h.owned.mem_of_held hslot
      · rw [pcs_setPc, Function.comp_update]
        show Owned _ _ (s.jobPool.inUse.filter _)
        rw [PoolState.filter_address hpos]
        exact h.owned.release hslot
  | wakeAll =>
      refine ⟨h.pool, ?_⟩
      show Owned (WorkerPc.slot ∘ fun w => if s.pcs w = .waiting then .entering else s.pcs w) _ _
      rw [comp_wakeAll rfl]
      exact h.owned
  | write hlegal => exact ⟨h.pool.step hlegal, h.owned⟩

/-- A connection is put in the queue. -/
theorem ConnsInv.queue (h : s.ConnsInv) {jobPool : PoolState} {slot : ℕ}
    {pcs : Worker → WorkerPc} (hwoken : s.Woken pcs) :
    ConnsInv
      { s with
        jobPool := jobPool
        queue := s.queue ++ [⟨slot, s.arrived⟩]
        queueSize := s.queueSize + 1
        arrived := s.arrived + 1
        pcs := pcs } where
  size := by
    simp only [List.length_append, List.length_singleton]
    rw [h.size]
    rfl
  owned := by
    have hlive : (Finset.range (s.arrived + 1)).filter (· ∉ s.closed) =
        insert s.arrived s.live := by
      rw [Finset.range_add_one, Finset.filter_insert,
        if_pos fun hmem => lt_irrefl _ (h.closed_lt _ hmem)]
      rfl
    show Owned (WorkerPc.conn ∘ pcs) ((s.queue ++ [_]).map Job.conn)
      ((Finset.range (s.arrived + 1)).filter (· ∉ s.closed))
    rw [hlive, List.map_append, hwoken.comp rfl]
    exact h.owned.append (not_mem_live_arrived s)
  closed_nodup := h.closed_nodup
  closed_lt := fun c hc => (h.closed_lt c hc).trans (Nat.lt_succ_self _)
  order := by
    simp only [List.map_append, ← List.append_assoc]
    refine List.pairwise_append.mpr ⟨h.order, List.pairwise_singleton _ _, fun c hc d hd => ?_⟩
    rw [List.mem_singleton.mp hd]
    exact h.order_lt c hc
  order_lt := by
    simp only [List.map_append, ← List.append_assoc]
    intro c hc
    rcases List.mem_append.mp hc with hc | hc
    · exact (h.order_lt c hc).trans (Nat.lt_succ_self _)
    · rw [List.mem_singleton.mp hc]
      exact Nat.lt_succ_self _

theorem ConnsInv.take (h : s.ConnsInv) {w : Worker} {job : Job} {rest : List Job}
    (hpc : s.pcs w = .entering) (hqueue : s.queue = job :: rest) :
    ConnsInv
      ({ s with
        queue := rest
        queueSize := s.queueSize - 1
        taken := s.taken ++ [job.conn] }.setPc w (.serving job)) := by
  have howned := h.owned
  have horder := h.order
  have horder_lt := h.order_lt
  rw [hqueue, List.map_cons] at howned horder horder_lt
  rw [List.append_cons] at horder horder_lt
  refine ⟨?_, ?_, h.closed_nodup, h.closed_lt, horder, horder_lt⟩
  · show s.queueSize - 1 = (rest.length : Int)
    rw [h.size, hqueue, List.length_cons]
    omega
  · rw [pcs_setPc, Function.comp_update]
    exact howned.pop (by rw [Function.comp_apply, hpc]; rfl)

theorem ConnsInv.hangUp (h : s.ConnsInv) {w : Worker} {job : Job} (hpc : s.pcs w = .serving job) :
    ConnsInv ({ s with closed := s.closed ++ [job.conn] }.setPc w (.freeing job)) := by
  have hconn : (WorkerPc.conn ∘ s.pcs) w = some job.conn := by
    rw [Function.comp_apply, hpc]
    rfl
  have hlive := Finset.mem_filter.mp (h.owned.mem_of_held hconn)
  refine ⟨h.size, ?_, ?_, ?_, h.order, h.order_lt⟩
  · have herase : (Finset.range s.arrived).filter (· ∉ s.closed ++ [job.conn]) =
        s.live.erase job.conn := by
      ext c
      simp only [live, Finset.mem_filter, Finset.mem_erase, List.mem_append, List.mem_singleton]
      tauto
    rw [pcs_setPc, Function.comp_update]
    show Owned _ _ ((Finset.range s.arrived).filter (· ∉ s.closed ++ [job.conn]))
    rw [herase]
    exact h.owned.release hconn
  · refine List.nodup_append.mpr ⟨h.closed_nodup, List.nodup_singleton _, ?_⟩
    rintro c hc d hd rfl
    exact hlive.2 (List.mem_singleton.mp hd ▸ hc)
  · intro c hc
    rcases List.mem_append.mp hc with hc | hc
    · exact h.closed_lt c hc
    · rw [List.mem_singleton.mp hc]
      exact Finset.mem_range.mp hlive.1

theorem ConnsInv.next (h : s.ConnsInv) (hnext : s.Next host s') : s'.ConnsInv := by
  -- the workers serve what they have served
  have hkeep : ∀ {pcs : Worker → WorkerPc} {jobPool : PoolState} {running stopped : Bool},
      WorkerPc.conn ∘ pcs = WorkerPc.conn ∘ s.pcs →
      ConnsInv { s with pcs := pcs, jobPool := jobPool, running := running, stopped := stopped } :=
    fun hpcs => ⟨h.size, hpcs ▸ h.owned, h.closed_nodup, h.closed_lt, h.order, h.order_lt⟩
  cases hnext with
  | same => exact h
  | refuse => exact h.refuse
  | queue pcs _ _ hwoken => exact h.queue hwoken
  | move w pc hmove => exact hkeep (comp_update_of_eq (hmove.conn.1.trans hmove.conn.2.symm))
  | take w hpc _ _ hqueue => exact h.take hpc hqueue
  | hangUp w hpc => exact h.hangUp hpc
  | free w hpc =>
      refine hkeep (comp_update_of_eq (f := WorkerPc.conn) ?_)
      show WorkerPc.conn .top = (s.pcs w).conn
      rw [hpc]
      rfl
  | stop | write => exact hkeep rfl
  | wakeAll => exact hkeep (comp_wakeAll rfl)

/-- The capacity of a pool does not change. -/
theorem Next.capacity (h : s.Next host s') :
    s'.jobPool.pool.capacity = s.jobPool.pool.capacity := by
  cases h with
  | same | refuse | move | take | hangUp | stop | wakeAll => rfl
  | queue =>
      show (s.jobPool.pool.alloc host).2.capacity = _
      unfold HeapPool.alloc
      split_ifs <;> rfl
  | free => exact (PoolState.shape_step host s.jobPool _).2.1
  | write => exact (PoolState.shape_step host s.jobPool _).2.1

section Reachable

variable [Fintype Worker] {pool : HeapPool}

theorem Reachable.inv (hpool : PoolState.Inv host ⟨pool, ∅⟩) (h : Reachable host pool s) :
    s.SlotsInv host ∧ s.ConnsInv := by
  induction h with
  | init => exact ⟨slotsInv_init hpool, connsInv_init pool⟩
  | step event _ hlegal ih =>
      have hnext := next_step ih.1.pool hlegal
      exact ⟨ih.1.next hnext, ih.2.next hnext⟩

theorem Reachable.capacity (hpool : PoolState.Inv host ⟨pool, ∅⟩) (h : Reachable host pool s) :
    s.jobPool.pool.capacity = pool.capacity := by
  induction h with
  | init => rfl
  | step event hreach hlegal ih =>
      exact (next_step (hreach.inv hpool).1.pool hlegal).capacity.trans ih

end Reachable

/-! ## Every connection -/

/-- What has become of a connection. -/
inductive Fate (s : JobState Worker) (c : ℕ) : Prop
  | closed (hclosed : s.closed.count c = 1) (hqueue : c ∉ s.queue.map Job.conn)
      (hworkers : ∀ w, (s.pcs w).conn ≠ some c)
  | queued (hqueue : (s.queue.map Job.conn).count c = 1) (hclosed : c ∉ s.closed)
      (hworkers : ∀ w, (s.pcs w).conn ≠ some c)
  | served (w : Worker) (hw : (s.pcs w).conn = some c)
      (hworkers : ∀ w', (s.pcs w').conn = some c → w' = w) (hqueue : c ∉ s.queue.map Job.conn)
      (hclosed : c ∉ s.closed)

omit [DecidableEq Worker] in
theorem ConnsInv.fate (h : s.ConnsInv) {c : ℕ} (hc : c < s.arrived) : s.Fate c := by
  by_cases hclosed : c ∈ s.closed
  · have hdead : c ∉ s.live := fun hmem => (Finset.mem_filter.mp hmem).2 hclosed
    exact .closed (List.count_eq_one_of_mem h.closed_nodup hclosed)
      (fun hmem => hdead (h.owned.mem_of_queue hmem)) fun w hw => hdead (h.owned.mem_of_held hw)
  · have hlive : c ∈ s.live := Finset.mem_filter.mpr ⟨Finset.mem_range.mpr hc, hclosed⟩
    rcases (h.owned.mem_iff c).mp hlive with hqueue | ⟨w, hw⟩
    · exact .queued (List.count_eq_one_of_mem h.owned.nodup hqueue) hclosed
        fun w hw => h.owned.not_mem hw hqueue
    · exact .served w hw (fun w' hw' => h.owned.unique hw hw') (h.owned.not_mem hw) hclosed

/-- How many workers have a slot. -/
def busy [Fintype Worker] (s : JobState Worker) : ℕ :=
  (Finset.univ.filter fun w => (s.pcs w).slot.isSome).card

/-- How many slots are in use. -/
theorem Reachable.inUse [Fintype Worker] {pool : HeapPool} {objSize : ℕ} {calloc : Option ℕ}
    (hpool : HeapPool.init host objSize jobPoolCapacity calloc = some pool)
    (h : Reachable host pool s) : s.jobPool.inUse.card = s.queue.length + s.busy ∧
      s.jobPool.inUse.card ≤ 128 ∧ s.jobPool.pool.capacity.toNat = 128 := by
  obtain ⟨hcapacity, hinit⟩ := HeapPool.inv_of_init hpool
  obtain ⟨hslots, -⟩ := h.inv hinit
  have hcard := hslots.owned.card_eq
  rw [List.length_map] at hcard
  have h128 : s.jobPool.pool.capacity.toNat = 128 := by
    rw [h.capacity hinit, hcapacity]
    rfl
  obtain ⟨free, hfree⟩ := hslots.pool.free
  have hle := Finset.card_le_card hfree.subset
  rw [Finset.card_range, h128] at hle
  exact ⟨hcard, hle, h128⟩

theorem enqueueJob_eq_refuse_iff (host : Endian) (s : JobState Worker) (woken : Option Worker) :
    s.enqueueJob host woken = s.refuse ↔
      s.queueSize ≥ queueMax ∨ (s.jobPool.pool.alloc host).1 = none := by
  unfold enqueueJob
  split_ifs with hsize
  · exact iff_of_true rfl (Or.inl hsize)
  · cases halloc : (s.jobPool.pool.alloc host).1 with
    | none => exact iff_of_true rfl (Or.inr rfl)
    | some ptr =>
        refine iff_of_false (fun heq => ?_) (by simpa using hsize)
        have hqueue := congrArg JobState.queue heq
        simp [JobState.refuse] at hqueue

end JobState

/-- **The job queue.**  `queue_size` is the length of the queue; each connection is closed
once, waits in the queue or is with one worker; connections are taken in the order in which
they have come; and the slots in use are those of the entries in the queue and of the workers
that have not given theirs back, as many as there are of both, at most 128. -/
theorem jobs_sound [Fintype Worker] [DecidableEq Worker] {host : Endian} {objSize : ℕ}
    {calloc : Option ℕ} {pool : HeapPool}
    (hpool : HeapPool.init host objSize jobPoolCapacity calloc = some pool)
    {s : JobState Worker} (h : s.Reachable host pool) :
    s.queueSize = s.queue.length ∧ (∀ c < s.arrived, s.Fate c) ∧
      (s.taken ++ s.queue.map Job.conn).Pairwise (· < ·) ∧
      (∀ i, i ∈ s.jobPool.inUse ↔
        i ∈ s.queue.map Job.slot ∨ ∃ w, (s.pcs w).slot = some i) ∧
      s.jobPool.inUse.card = s.queue.length + s.busy ∧ s.jobPool.inUse.card ≤ 128 := by
  obtain ⟨hslots, hconns⟩ := h.inv (HeapPool.inv_of_init hpool).2
  obtain ⟨hcard, hle, -⟩ := h.inUse hpool
  exact ⟨hconns.size, fun c hc => hconns.fate hc, hconns.order, hslots.owned.mem_iff, hcard, hle⟩

/-- A worker takes the first of two connections, and its client hangs up. -/
theorem jobs_sound_oneWorker :
    ∃ pool, HeapPool.init .little 24 jobPoolCapacity (some 4096) = some pool ∧
      ∀ c < 2, ([.accept none, .check (), .accept none, .test (), .hangUp ()].foldl
        (JobState.step .little) (JobState.init pool : JobState Unit)).Fate c := by
  have hinit : HeapPool.init .little 24 jobPoolCapacity (some 4096) = some _ := rfl
  refine ⟨_, hinit, fun c hc => (jobs_sound hinit ?_).2.1 c (hc.trans_eq ?_)⟩
  · simp only [List.foldl_cons, List.foldl_nil]
    refine .step _ (.step _ (.step _ (.step _ (.step _ .init ?_) ?_) ?_) ?_) ?_ <;> trivial
  · decide +kernel

/-- **When a connection is turned away.**  `enqueue_job` closes a connection exactly when 128
connections are queued or in the hands of workers.  So the queue is shorter than `QUEUE_MAX`
while workers are busy, and it is never the test of `queue_size` alone that decides. -/
theorem refuses_iff [Fintype Worker] [DecidableEq Worker] {host : Endian} {objSize : ℕ}
    {calloc : Option ℕ} {pool : HeapPool}
    (hpool : HeapPool.init host objSize jobPoolCapacity calloc = some pool)
    {s : JobState Worker} (h : s.Reachable host pool) (woken : Option Worker) :
    (s.enqueueJob host woken = s.refuse ↔ s.queue.length + s.busy = 128) ∧
      (s.queueSize ≥ queueMax → (s.jobPool.pool.alloc host).1 = none) := by
  obtain ⟨hslots, hconns⟩ := h.inv (HeapPool.inv_of_init hpool).2
  obtain ⟨hcard, hle, h128⟩ := h.inUse hpool
  have hexhausted := hslots.pool.sound.exhausted
  rw [hcard, h128] at hexhausted
  have hfull : s.queueSize ≥ queueMax → s.queue.length + s.busy = 128 := by
    intro hsize
    rw [hconns.size, queueMax] at hsize
    omega
  refine ⟨?_, fun hsize => hexhausted.mpr (hfull hsize)⟩
  rw [JobState.enqueueJob_eq_refuse_iff, hexhausted]
  exact ⟨fun hor => hor.elim hfull id, Or.inr⟩

/-- With one connection in the queue there is room for another. -/
theorem refuses_iff_oneWorker :
    ∃ pool, HeapPool.init .little 24 jobPoolCapacity (some 4096) = some pool ∧
      ((JobState.init pool : JobState Unit).step .little (.accept none)).enqueueJob .little none ≠
        ((JobState.init pool : JobState Unit).step .little (.accept none)).refuse := by
  have hinit : HeapPool.init .little 24 jobPoolCapacity (some 4096) = some _ := rfl
  refine ⟨_, hinit, fun heq => ?_⟩
  have hfull := (refuses_iff hinit (.step (.accept none) .init trivial) none).1.mp heq
  exact absurd hfull (by decide)

end Dmmr.Node
