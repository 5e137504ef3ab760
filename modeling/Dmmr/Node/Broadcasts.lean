import Dmmr.Lib.Monitor
import Dmmr.Lib.Progress
import Dmmr.Node.Control

/-!
# Every queued command is broadcast

The control thread does not rely on being woken: it waits for five seconds at most, and looks
at the queue again.  The broadcast workers only help while the queue is long.  So the control
thread alone sees to it that a command does not stay in the queue, and whoever takes a command
sees to it that it is passed to `broadcast_sync` and that its slot is given back
(`command_broadcast`).

A thread is assumed to go on at some time if it can go on from some time on.  A thread between
two calls can do so only if it is the control thread and the queue is not empty.  A thread in
`broadcast_sync` needs `peers_mutex`, and may wait for it in vain; that every call of
`broadcast_sync` returns is an assumption of its own.  The node is one that keeps running: at
shutdown the control thread leaves its loop, and commands stay in the queue.
-/

namespace Dmmr.Node

open Words Store Ownership Pool Progress

variable {Thread : Type*}

/-! ## Steps -/

namespace ControlState

/-- How a thread may go on, in a step from `s` to `s'`. -/
inductive Moves (s s' : ControlState Thread) : ControlPc → ControlPc → Prop
  | alloc (slot : ℕ) (call : BroadcastCall) : Moves s s' .idle (.filling slot call)
  | fill (slot : ℕ) (call : BroadcastCall) : Moves s s' (.filling slot call) (.inserting slot call)
  | drop (slot : ℕ) (call : BroadcastCall) : Moves s s' (.filling slot call) (.dropping slot)
  | insert (slot : ℕ) (call : BroadcastCall) : Moves s s' (.inserting slot call) .idle
  | take {c : QueuedCmd} (h : s.queue = c :: s'.queue) : Moves s s' .idle (.processing c)
  | process (c : QueuedCmd) : Moves s s' (.processing c) (.freeing c)
  | giveUp (slot : ℕ) : Moves s s' (.dropping slot) .idle
  | free {c : QueuedCmd} (h : c.ticket ∈ s'.freed) : Moves s s' (.freeing c) .idle

/-- What a step does, as far as progress is concerned. -/
structure Next (s s' : ControlState Thread) : Prop where
  pcs : ∀ w, s'.pcs w = s.pcs w ∨ Moves s s' (s.pcs w) (s'.pcs w)
  queue : s'.queue = s.queue ∨ (∃ c, s'.queue = s.queue ++ [c]) ∨
    ∃ w c, s.queue = c :: s'.queue ∧ s'.pcs w = .processing c
  queued : s.queued <+: s'.queued
  freed : s.freed ⊆ s'.freed

theorem Next.refl (s : ControlState Thread) : Next s s :=
  ⟨fun _ => Or.inl rfl, Or.inl rfl, List.prefix_refl _, fun _ h => h⟩

variable {s s' : ControlState Thread}

theorem Next.queue_step (h : Next s s') : Progress.Step s.queue s'.queue := by
  rcases h.queue with heq | ⟨c, heq⟩ | ⟨w, c, heq, -⟩
  · rw [heq]
    exact .same _
  · rw [heq]
    exact .add _ c
  · rw [heq]
    exact .take c _

/-- Who takes a command has it then. -/
theorem Next.exists_processing (h : Next s s') {c : QueuedCmd} (htake : s.queue = c :: s'.queue) :
    ∃ w, s'.pcs w = .processing c := by
  have hlen := congrArg List.length htake
  rw [List.length_cons] at hlen
  rcases h.queue with heq | ⟨c', heq⟩ | ⟨w, c', heq, hw⟩
  · rw [heq] at hlen
    omega
  · rw [heq, List.length_append] at hlen
    omega
  · obtain rfl := (List.cons.inj (heq.symm.trans htake)).1
    exact ⟨w, hw⟩

variable [DecidableEq Thread] {host : Endian} {w : Thread}

/-- Only the thread that goes on is elsewhere afterwards. -/
theorem pcs_of_update {pc : ControlPc} (hpcs : s'.pcs = Function.update s.pcs w pc)
    (hmoves : Moves s s' (s.pcs w) pc) (w' : Thread) :
    s'.pcs w' = s.pcs w' ∨ Moves s s' (s.pcs w') (s'.pcs w') := by
  rw [hpcs, Function.update_apply]
  split_ifs with heq
  · subst heq
    exact Or.inr hmoves
  · exact Or.inl rfl

/-- A step of a thread that leaves the queue alone. -/
theorem Next.of_update {pc : ControlPc} (hpcs : s'.pcs = Function.update s.pcs w pc)
    (hmoves : Moves s s' (s.pcs w) pc) (hqueue : s'.queue = s.queue)
    (hqueued : s'.queued = s.queued) (hfreed : s.freed ⊆ s'.freed) : Next s s' :=
  ⟨pcs_of_update hpcs hmoves, Or.inl hqueue, by rw [hqueued], hfreed⟩

theorem next_step (s : ControlState Thread) (event : ControlEvent Thread) :
    Next s (s.step host event) := by
  cases event with
  | enqueue w call =>
      simp only [ControlState.step]
      split
      · rename_i hpc
        split
        · exact .refl s
        · exact .of_update rfl (hpc ▸ .alloc _ call) rfl rfl fun _ h => h
      · exact .refl s
  | fill w mallocOk =>
      simp only [ControlState.step]
      split
      · rename_i slot call hpc
        split_ifs
        · exact .of_update rfl (hpc ▸ .drop slot call) rfl rfl fun _ h => h
        · exact .of_update rfl (hpc ▸ .fill slot call) rfl rfl fun _ h => h
      · exact .refl s
  | insert w =>
      simp only [ControlState.step]
      split
      · rename_i slot call hpc
        exact ⟨pcs_of_update rfl (hpc ▸ .insert slot call), Or.inr (Or.inl ⟨_, rfl⟩),
          List.prefix_append _ _, fun _ h => h⟩
      · exact .refl s
  | take w broadcastWorker =>
      simp only [ControlState.step]
      split
      · rename_i hpc
        split_ifs
        · exact .refl s
        · split
          · exact .refl s
          · rename_i c rest hqueue
            refine ⟨pcs_of_update rfl (hpc ▸ .take hqueue), Or.inr (Or.inr ⟨w, c, hqueue, ?_⟩),
              List.prefix_refl _, fun _ h => h⟩
            exact Function.update_self ..
      · exact .refl s
  | process w =>
      simp only [ControlState.step]
      split
      · rename_i c hpc
        split
        · exact .of_update rfl (hpc ▸ .process c) rfl rfl fun _ h => h
        · exact .of_update rfl (hpc ▸ .process c) rfl rfl fun _ h => h
      · exact .refl s
  | free w =>
      simp only [ControlState.step]
      split
      · rename_i slot hpc
        exact .of_update rfl (hpc ▸ .giveUp slot) rfl rfl fun _ h => h
      · rename_i c hpc
        refine .of_update rfl (hpc ▸ .free ?_) rfl rfl (List.subset_append_left _ _)
        exact List.mem_append_right _ (List.mem_singleton_self _)
      · exact .refl s
  | write offset byte => exact ⟨fun _ => Or.inl rfl, Or.inl rfl, List.prefix_refl _, fun _ h => h⟩

end ControlState

/-! ## Runs -/

/-- A run of the node from a state it can be in, with pauses. -/
structure ControlRun [DecidableEq Thread] (host : Endian) (pool : HeapPool)
    (s : ℕ → ControlState Thread) : Prop where
  start : (s 0).Reachable host pool
  next : ∀ n, s (n + 1) = s n ∨
    ∃ event, (s n).Legal event ∧ s (n + 1) = (s n).step host event

/-- A thread can go on by itself: it is not in `broadcast_sync`, and if it is between two calls
it is the control thread and there is something to do. -/
def ControlState.CanGo (control : Thread) (s : ControlState Thread) (w : Thread) : Prop :=
  (s.pcs w = .idle → w = control ∧ s.queue ≠ []) ∧ ∀ c, s.pcs w ≠ .processing c

/-- A thread that can go on does so at some time, every call of `broadcast_sync` returns, and
the control thread does nothing but take commands and pass them on. -/
structure ControlFair (control : Thread) (s : ℕ → ControlState Thread) : Prop where
  goes : ∀ w n, (∀ m ≥ n, (s m).CanGo control w) → ∃ m ≥ n, (s (m + 1)).pcs w ≠ (s m).pcs w
  returns : ∀ w n c, (s n).pcs w = .processing c → ∃ m ≥ n, (s m).pcs w ≠ .processing c
  control : ∀ n, ((s n).pcs control).isFilling = false

/-- How far a thread is from the end of what it does. -/
def ControlPc.rank : ControlPc → ℕ
  | .filling _ _ | .processing _ => 2
  | .inserting _ _ | .dropping _ | .freeing _ => 1
  | .idle => 0

theorem ControlState.Moves.rank_lt {s s' : ControlState Thread} {pc pc' : ControlPc}
    (h : s.Moves s' pc pc') (hne : pc ≠ .idle) : pc'.rank < pc.rank := by
  cases h with
  | alloc | take => exact absurd rfl hne
  | fill | drop | insert | process | giveUp | free => simp [ControlPc.rank]

namespace ControlRun

variable [DecidableEq Thread] {host : Endian} {pool : HeapPool} {s : ℕ → ControlState Thread}
  {control : Thread} (h : ControlRun host pool s) (hfair : ControlFair control s)
include h

theorem reachable (n : ℕ) : (s n).Reachable host pool :=
  Monitor.run_invariant h.next h.start (fun hlegal hreach => .step _ hreach hlegal) n

theorem step (n : ℕ) : (s n).Next (s (n + 1)) := by
  rcases h.next n with heq | ⟨event, -, heq⟩
  · rw [heq]
    exact .refl _
  · rw [heq]
    exact ControlState.next_step _ event

/-- What was queued stays on record. -/
theorem queued_of_le {n m : ℕ} (hle : n ≤ m) {t : ℕ} {call : BroadcastCall}
    (hcall : (s n).queued[t]? = some call) : (s m).queued[t]? = some call := by
  induction m, hle using Nat.le_induction with
  | base => exact hcall
  | succ m _ ih =>
      obtain ⟨added, hadded⟩ := (h.step m).queued
      rw [← hadded, List.getElem?_append_left (List.getElem?_eq_some_iff.mp ih).1]
      exact ih

include hfair

/-- A thread that is not between two calls, or has something to do as long as it stays there,
does go on from where it is. -/
theorem exists_move {w : Thread} {n : ℕ}
    (hgo : ∀ m ≥ n, (s n).pcs w = .idle → w = control ∧ (s m).queue ≠ []) :
    ∃ m ≥ n, (s m).pcs w = (s n).pcs w ∧
      (s m).Moves (s (m + 1)) ((s n).pcs w) ((s (m + 1)).pcs w) := by
  obtain ⟨m, hm, hsame, hne⟩ : ∃ m ≥ n, (s m).pcs w = (s n).pcs w ∧
      (s (m + 1)).pcs w ≠ (s m).pcs w := by
    refine exists_first_change (x := fun m => (s m).pcs w) fun hsame => ?_
    by_cases hprocessing : ∃ c, (s n).pcs w = .processing c
    · obtain ⟨c, hc⟩ := hprocessing
      obtain ⟨m, hm, hne⟩ := hfair.returns w n c hc
      exact absurd ((hsame m hm).trans hc) hne
    · refine hfair.goes w n fun m hm => ⟨fun hidle => ?_, fun c hc => ?_⟩
      · exact hgo m hm ((hsame m hm).symm.trans hidle)
      · exact hprocessing ⟨c, (hsame m hm).symm.trans hc⟩
  refine ⟨m, hm, hsame, ?_⟩
  have hmove := ((h.step m).pcs w).resolve_left hne
  rwa [hsame] at hmove

/-- Every thread comes to the end of what it does. -/
theorem exists_idle (w : Thread) (n : ℕ) : ∃ m ≥ n, (s m).pcs w = .idle := by
  induction hrank : ((s n).pcs w).rank using Nat.strong_induction_on generalizing n with
  | _ rank ih =>
      by_cases hidle : (s n).pcs w = .idle
      · exact ⟨n, le_rfl, hidle⟩
      · obtain ⟨m, hm, hsame, hmove⟩ := h.exists_move hfair (w := w) (n := n)
          fun _ _ hn => absurd hn hidle
        obtain ⟨m', hm', hidle'⟩ := ih _ (hrank ▸ hmove.rank_lt hidle) (m + 1) rfl
        exact ⟨m', by omega, hidle'⟩

/-- The control thread takes from a queue that is not empty. -/
theorem served : Served fun n => (s n).queue := by
  intro n hne
  obtain ⟨m, hm, hidle⟩ := h.exists_idle hfair control n
  obtain ⟨m', hm', -, hmove⟩ := h.exists_move hfair (w := control) (n := m)
    fun k hk _ => ⟨rfl, hne k (by omega)⟩
  have hnot := hfair.control (m' + 1)
  generalize (s (m' + 1)).pcs control = pc at hmove hnot
  rw [hidle] at hmove
  cases hmove with
  | alloc => exact absurd hnot (by simp [ControlPc.isFilling])
  | take htake => exact ⟨m', by omega, _, htake⟩

/-- The slot of a command that has been passed on is given back. -/
theorem exists_freed_of_freeing {w : Thread} {n : ℕ} {c : QueuedCmd}
    (hw : (s n).pcs w = .freeing c) : ∃ m ≥ n, c.ticket ∈ (s m).freed := by
  obtain ⟨m, hm, -, hmove⟩ := h.exists_move hfair (w := w) (n := n)
    fun _ _ hn => by simp [hw] at hn
  rw [hw] at hmove
  generalize (s (m + 1)).pcs w = pc at hmove
  cases hmove with
  | free hfreed => exact ⟨m + 1, by omega, hfreed⟩

/-- So is that of a command that has been taken. -/
theorem exists_freed_of_ticket {w : Thread} {n t : ℕ} (hw : ((s n).pcs w).ticket = some t) :
    ∃ m ≥ n, t ∈ (s m).freed := by
  cases hpc : (s n).pcs w with
  | processing c =>
      obtain rfl : c.ticket = t := by simpa [hpc, ControlPc.ticket] using hw
      obtain ⟨m, hm, -, hmove⟩ := h.exists_move hfair (w := w) (n := n)
        fun _ _ hn => by simp [hpc] at hn
      rw [hpc] at hmove
      generalize hnext : (s (m + 1)).pcs w = pc at hmove
      cases hmove with
      | process =>
          obtain ⟨m', hm', hfreed⟩ := h.exists_freed_of_freeing hfair hnext
          exact ⟨m', by omega, hfreed⟩
  | freeing c =>
      obtain rfl : c.ticket = t := by simpa [hpc, ControlPc.ticket] using hw
      exact h.exists_freed_of_freeing hfair hpc
  | idle | filling | inserting | dropping => simp [hpc, ControlPc.ticket] at hw

/-- A command that is in the queue is taken. -/
theorem exists_ticket {n t : ℕ} (ht : t ∈ (s n).queue.map QueuedCmd.ticket) :
    ∃ m ≥ n, ∃ w, ((s m).pcs w).ticket = some t := by
  obtain ⟨c, hc, rfl⟩ := List.mem_map.mp ht
  obtain ⟨before, after, hsplit⟩ := List.append_of_mem hc
  obtain ⟨m, hm, htake⟩ := exists_taken (fun n => (h.step n).queue_step) (h.served hfair)
    before after hsplit
  obtain ⟨w, hw⟩ := (h.step m).exists_processing htake
  exact ⟨m + 1, by omega, w, by rw [hw]; rfl⟩

end ControlRun

/-- **Every queued command is broadcast**, with what `enqueue_broadcast` was given, once, and
its slot is given back: in every run in which a thread that can go on does so at some time and
every call of `broadcast_sync` returns. -/
theorem command_broadcast [DecidableEq Thread] {host : Endian} {objSize : ℕ} {calloc : Option ℕ}
    {pool : HeapPool} (hpool : HeapPool.init host objSize cmdPoolCapacity calloc = some pool)
    {s : ℕ → ControlState Thread} (h : ControlRun host pool s) (control : Thread)
    (hfair : ControlFair control s) {n t : ℕ} {call : BroadcastCall}
    (hcall : (s n).queued[t]? = some call) :
    ∃ m ≥ n, (s m).synced.filter (fun x => x.1 = t) = [(t, call.given)] ∧ t ∈ (s m).freed := by
  have htickets : ∀ m, (s m).TicketsInv := fun m =>
    ((h.reachable m).inv (HeapPool.inv_of_init hpool).2).2
  have hfreed : ∃ m ≥ n, t ∈ (s m).freed := by
    cases (htickets n).fate hcall with
    | queued hqueue =>
        have hmem : t ∈ (s n).queue.map QueuedCmd.ticket :=
          List.count_pos_iff.mp (by omega)
        obtain ⟨m, hm, w, hw⟩ := h.exists_ticket hfair hmem
        obtain ⟨m', hm', hfreed⟩ := h.exists_freed_of_ticket hfair hw
        exact ⟨m', by omega, hfreed⟩
    | processed w hw => exact h.exists_freed_of_ticket hfair hw
    | done _ hfreed => exact ⟨n, le_rfl, List.count_pos_iff.mp (by omega)⟩
  obtain ⟨m, hm, hmem⟩ := hfreed
  refine ⟨m, hm, ?_, hmem⟩
  exact (htickets m).filter_synced (h.queued_of_le hm hcall)
    (((htickets m).synced_iff t).mpr (Or.inl hmem))

/-- The run of a list of events, after which nothing happens. -/
def controlRun [DecidableEq Thread] (host : Endian) (s : ControlState Thread)
    (events : List (ControlEvent Thread)) (n : ℕ) : ControlState Thread :=
  (events.take n).foldl (ControlState.step host) s

theorem controlRun_of_le [DecidableEq Thread] (host : Endian) (s : ControlState Thread)
    {events : List (ControlEvent Thread)} {n : ℕ} (h : events.length ≤ n) :
    controlRun host s events n = events.foldl (.step host) s := by
  rw [controlRun, List.take_of_length_le h]

theorem controlRun_run [DecidableEq Thread] {host : Endian} {pool : HeapPool}
    {events : List (ControlEvent Thread)}
    (hlegal : ∀ event ∈ events, ∀ s : ControlState Thread, s.Legal event) :
    ControlRun host pool (controlRun host (.init pool) events) := by
  refine ⟨.init, fun n => ?_⟩
  refine (Monitor.foldl_take_next (ControlState.step host) _ events n).imp_right ?_
  rintro ⟨event, hevent, heq⟩
  exact ⟨event, hlegal event hevent _, heq⟩

/-- A worker queues a command; the control thread, `true`, takes it and passes it on. -/
theorem command_broadcast_once :
    ∃ pool, HeapPool.init .little 1104 cmdPoolCapacity (some 4096) = some pool ∧
      ∃ m, 0 ∈ (controlRun .little (ControlState.init pool : ControlState Bool)
        [.enqueue false ⟨Buf.ofBytes [107], Buf.ofBytes [118], 1, 2, 3, 0, by decide, by decide⟩,
          .fill false true, .insert false, .take true false, .process true,
          .free true] m).freed := by
  have hinit : HeapPool.init .little 1104 cmdPoolCapacity (some 4096) = some _ := rfl
  refine ⟨_, hinit, Exists.imp (fun m h => h.2.2) (command_broadcast hinit
    (s := controlRun .little _ _) (controlRun_run ?_) true ⟨?_, ?_, ?_⟩ (n := 3) (t := 0) rfl)⟩
  · simp [ControlState.Legal]
  · -- in the end every thread is idle and the queue is empty
    intro w n hgo
    have hidle := (hgo (n + 6) (by omega)).1
    rw [controlRun_of_le _ _ (by simp)] at hidle
    cases w <;> exact absurd rfl (hidle rfl).2
  · intro w n c _
    refine ⟨n + 6, by omega, ?_⟩
    rw [controlRun_of_le _ _ (by simp)]
    have hne : ControlPc.idle ≠ .processing c := by simp
    cases w <;> exact hne
  · intro n
    rcases lt_or_ge n 6 with hlt | hge
    · revert n
      decide +kernel
    · rw [controlRun_of_le _ _ (by simpa using hge)]
      rfl

end Dmmr.Node
