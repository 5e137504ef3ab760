import Dmmr.Lib.Ownership
import Dmmr.Node.Threads
import Dmmr.Pool.Heap

/-!
# The control queue

`enqueue_broadcast` takes a slot from `cmd_pool`, fills it and puts it at the end of the
control queue.  The control thread takes the first command of the queue whenever there is
one, and the broadcast workers do so while the queue is long; whoever has taken a command
passes it to `broadcast_sync` and gives the slot back.

The mutex of the pool makes each of its operations atomic, and `control_mutex` each
change of the queue and of `control_queue_size`; everything between interleaves, for any
number of threads.  Which thread plays which part is left open: a thread that is between
two calls may do anything.

The content of a slot is kept apart from the bytes of the pool's block, to which the
holders of slots write as they like.  The queue and the threads carry a ticket for each
command, the position at which it was queued.  Tickets, and the lists of what was queued,
passed on and given back, are history variables, which no step reads.
-/

namespace Dmmr.Node

open Words Store Ownership Pool

/-! ## Commands -/

/-- `HIGH_WATERMARK`. -/
def highWatermark : Int := 50

/-- `QUEUE_MAX * 2`. -/
def cmdPoolCapacity : UInt32 := 128 * 2

/-- A call of `enqueue_broadcast`, with a key and a value of the lengths its callers have
checked. -/
structure BroadcastCall where
  key : Buf
  value : Buf
  ts : UInt64
  nodeId : UInt64
  expireAt : UInt64
  flags : UInt16
  key_le : key.len ≤ maxKeyLen
  value_le : value.len ≤ maxValueLen

/-- What the slot is filled with. -/
def BroadcastCall.cmd (call : BroadcastCall) : ControlCmd :=
  enqueueBroadcast call.key call.value call.ts call.nodeId call.expireAt call.flags

/-- What the call was given. -/
def BroadcastCall.given (call : BroadcastCall) : ControlCmd :=
  ⟨call.ts, call.nodeId, call.expireAt, call.flags, call.key.bytes, call.value.bytes⟩

/-- `enum control_cmd_type`. -/
inductive CmdType
  | broadcast
  | shutdown
  deriving DecidableEq

/-- The content of a slot. -/
structure CmdSlot where
  type : CmdType
  cmd : ControlCmd

/-- What `memset` leaves. -/
def CmdSlot.zero : CmdSlot := ⟨.broadcast, ⟨0, 0, 0, 0, [], []⟩⟩

/-! ## State -/

/-- A slot in the control queue, and its ticket. -/
structure QueuedCmd where
  slot : ℕ
  ticket : ℕ

/-- Where a thread stands. -/
inductive ControlPc
  | idle
  /-- `alloc_cmd` has returned a slot. -/
  | filling (slot : ℕ) (call : BroadcastCall)
  | inserting (slot : ℕ) (call : BroadcastCall)
  /-- `malloc` has returned no memory for the value. -/
  | dropping (slot : ℕ)
  /-- A command has been taken from the queue. -/
  | processing (c : QueuedCmd)
  /-- `process_control_cmd` has returned. -/
  | freeing (c : QueuedCmd)

structure ControlState (Thread : Type*) where
  cmdPool : PoolState
  slots : ℕ → CmdSlot
  queue : List QueuedCmd
  queueSize : Int
  pcs : Thread → ControlPc
  /-- What `enqueue_broadcast` has put in the queue. -/
  queued : List BroadcastCall
  /-- What `broadcast_sync` was called with, and for which ticket. -/
  synced : List (ℕ × ControlCmd)
  /-- The tickets whose slot was given back. -/
  freed : List ℕ

variable {Thread : Type*}

/-- The node when `main` has made the pool and the queue. -/
def ControlState.init (pool : HeapPool) : ControlState Thread :=
  ⟨⟨pool, ∅⟩, fun _ => .zero, [], 0, fun _ => .idle, [], [], []⟩

/-! ## Steps -/

inductive ControlEvent (Thread : Type*)
  /-- A worker or the collector calls `enqueue_broadcast`. -/
  | enqueue (w : Thread) (call : BroadcastCall)
  | fill (w : Thread) (mallocOk : Bool)
  | insert (w : Thread)
  /-- A thread is in the critical section of `control_thread_routine`, or of
  `broadcast_worker_routine`. -/
  | take (w : Thread) (broadcastWorker : Bool)
  /-- `process_control_cmd`. -/
  | process (w : Thread)
  /-- `free_cmd`. -/
  | free (w : Thread)
  /-- A byte of the pool's block is written to. -/
  | write (offset : ℕ) (byte : UInt8)

namespace ControlState

/-- Nobody writes to slots that are not handed out. -/
def Legal (s : ControlState Thread) : ControlEvent Thread → Prop
  | .write offset byte => s.cmdPool.Legal (.write offset byte)
  | _ => True

variable [DecidableEq Thread]

def setPc (s : ControlState Thread) (w : Thread) (pc : ControlPc) : ControlState Thread :=
  { s with pcs := Function.update s.pcs w pc }

variable (host : Endian)

/-- `free_cmd`. -/
def freeCmd (s : ControlState Thread) (slot : ℕ) : ControlState Thread :=
  let content := s.slots slot
  { s with
    slots := Function.update s.slots slot { content with cmd := { content.cmd with value := [] } }
    cmdPool := s.cmdPool.step host
      (.free (some (s.cmdPool.pool.buffer + slot * s.cmdPool.pool.objSize))) }

def step (s : ControlState Thread) : ControlEvent Thread → ControlState Thread
  | .enqueue w call =>
      match s.pcs w with
      | .idle =>
          match (s.cmdPool.pool.alloc host).1 with
          | none => s
          | some ptr =>
              let slot := (ptr - s.cmdPool.pool.buffer) / s.cmdPool.pool.objSize
              { s with
                cmdPool := s.cmdPool.step host .alloc
                slots := Function.update s.slots slot .zero }.setPc w (.filling slot call)
      | _ => s
  | .fill w mallocOk =>
      match s.pcs w with
      | .filling slot call =>
          -- without memory for the value the command is dropped
          if call.value.ptr ≠ none ∧ call.value.len > 0 ∧ !mallocOk then
            { s with
              slots := Function.update s.slots slot
                ⟨.broadcast, { call.cmd with value := [] }⟩ }.setPc w (.dropping slot)
          else
            { s with
              slots := Function.update s.slots slot ⟨.broadcast, call.cmd⟩ }.setPc w
                (.inserting slot call)
      | _ => s
  | .insert w =>
      match s.pcs w with
      | .inserting slot call =>
          { s with
            queue := s.queue ++ [QueuedCmd.mk slot s.queued.length]
            queueSize := s.queueSize + 1
            queued := s.queued ++ [call] }.setPc w .idle
      | _ => s
  | .take w broadcastWorker =>
      match s.pcs w with
      | .idle =>
          if broadcastWorker ∧ s.queueSize ≤ highWatermark then s
          else
            match s.queue with
            | [] => s
            | c :: rest =>
                { s with queue := rest, queueSize := s.queueSize - 1 }.setPc w (.processing c)
      | _ => s
  | .process w =>
      match s.pcs w with
      | .processing c =>
          match (s.slots c.slot).type with
          | .broadcast =>
              { s with
                synced := s.synced ++ [(c.ticket, (s.slots c.slot).cmd)] }.setPc w (.freeing c)
          | .shutdown => s.setPc w (.freeing c)
      | _ => s
  | .free w =>
      match s.pcs w with
      | .dropping slot => (s.freeCmd host slot).setPc w .idle
      | .freeing c =>
          { s.freeCmd host c.slot with freed := s.freed ++ [c.ticket] }.setPc w .idle
      | _ => s
  | .write offset byte => { s with cmdPool := s.cmdPool.step host (.write offset byte) }

/-- What legal events lead to. -/
inductive Reachable (pool : HeapPool) : ControlState Thread → Prop
  | init : Reachable pool (ControlState.init pool)
  | step {s : ControlState Thread} (event : ControlEvent Thread) (h : Reachable pool s)
      (hlegal : s.Legal event) : Reachable pool (s.step host event)

end ControlState

/-! ## Who has what -/

namespace ControlPc

/-- The slot a thread has. -/
def slot : ControlPc → Option ℕ
  | idle => none
  | filling slot _ | inserting slot _ | dropping slot => some slot
  | processing c | freeing c => some c.slot

/-- The ticket of the command it has taken from the queue. -/
def ticket : ControlPc → Option ℕ
  | processing c | freeing c => some c.ticket
  | _ => none

/-- The same, once it has been passed on. -/
def syncedTicket : ControlPc → Option ℕ
  | freeing c => some c.ticket
  | _ => none

/-- `enqueue_broadcast` is under way. -/
def isFilling : ControlPc → Bool
  | filling _ _ | inserting _ _ | dropping _ => true
  | _ => false

theorem ticket_of_syncedTicket {pc : ControlPc} {t : ℕ} (h : pc.syncedTicket = some t) :
    pc.ticket = some t := by
  cases pc with
  | freeing c => exact h
  | _ => exact absurd h nofun

end ControlPc

namespace ControlState

/-- The tickets of commands whose slot was not given back. -/
def live (s : ControlState Thread) : Finset ℕ :=
  (Finset.range s.queued.length).filter (· ∉ s.freed)

/-- A slot has what the call for its ticket was given. -/
def Stored (s : ControlState Thread) (c : QueuedCmd) : Prop :=
  ∃ call, s.queued[c.ticket]? = some call ∧ s.slots c.slot = ⟨.broadcast, call.cmd⟩

/-- Slots are in one place, and those that are in the queue or taken from it hold the
command. -/
structure SlotsInv (host : Endian) (s : ControlState Thread) : Prop where
  pool : s.cmdPool.Inv host
  owned : Owned (ControlPc.slot ∘ s.pcs) (s.queue.map QueuedCmd.slot) s.cmdPool.inUse
  filled : ∀ w slot call, s.pcs w = .inserting slot call → s.slots slot = ⟨.broadcast, call.cmd⟩
  waiting : ∀ c ∈ s.queue, s.Stored c
  taken : ∀ w c, s.pcs w = .processing c → s.Stored c

/-- The holder of a slot is the only one. -/
theorem SlotsInv.alone {host : Endian} {s : ControlState Thread} (h : s.SlotsInv host)
    {w : Thread} {i : ℕ} (hw : (s.pcs w).slot = some i) :
    i ∉ s.queue.map QueuedCmd.slot ∧ ∀ w' ≠ w, (s.pcs w').slot ≠ some i :=
  ⟨h.owned.not_mem hw, fun _ hne hw' => hne (h.owned.unique hw hw')⟩

/-- Tickets are in one place, too, and they are passed on once and given back once. -/
structure TicketsInv (s : ControlState Thread) : Prop where
  owned : Owned (ControlPc.ticket ∘ s.pcs) (s.queue.map QueuedCmd.ticket) s.live
  size : s.queueSize = s.queue.length
  freed_nodup : s.freed.Nodup
  freed_lt : ∀ t ∈ s.freed, t < s.queued.length
  synced_nodup : (s.synced.map Prod.fst).Nodup
  synced_iff : ∀ t, t ∈ s.synced.map Prod.fst ↔
    t ∈ s.freed ∨ ∃ w, (ControlPc.syncedTicket ∘ s.pcs) w = some t
  given : ∀ x ∈ s.synced, ∃ call, s.queued[x.1]? = some call ∧ x.2 = call.cmd

variable {host : Endian} {s : ControlState Thread}

theorem slotsInv_init {pool : HeapPool} (h : PoolState.Inv host ⟨pool, ∅⟩) :
    (ControlState.init pool : ControlState Thread).SlotsInv host :=
  ⟨h, Owned.init, nofun, nofun, nofun⟩

theorem ticketsInv_init (pool : HeapPool) :
    (ControlState.init pool : ControlState Thread).TicketsInv where
  owned := Owned.init
  size := rfl
  freed_nodup := List.nodup_nil
  freed_lt := nofun
  synced_nodup := List.nodup_nil
  synced_iff t := iff_of_false List.not_mem_nil (by rintro (ht | ⟨w, hw⟩) <;> contradiction)
  given := nofun

/-- The new ticket is the number of commands queued before. -/
theorem TicketsInv.live_insert (h : s.TicketsInv) (call : BroadcastCall) :
    ((Finset.range (s.queued ++ [call]).length).filter (· ∉ s.freed)) =
      insert s.queued.length s.live := by
  have hnew : s.queued.length ∉ s.freed := fun hmem => (h.freed_lt _ hmem).false
  rw [List.length_append, List.length_singleton, Finset.range_add_one, Finset.filter_insert,
    if_pos hnew]
  rfl

/-- What is being processed was not passed on, nor given back. -/
theorem TicketsInv.not_synced (h : s.TicketsInv) {w : Thread} {c : QueuedCmd}
    (hpc : s.pcs w = .processing c) : c.ticket ∉ s.synced.map Prod.fst := by
  have hticket : (ControlPc.ticket ∘ s.pcs) w = some c.ticket := by
    rw [Function.comp_apply, hpc]
    rfl
  rw [h.synced_iff]
  rintro (hfreed | ⟨w', hw'⟩)
  · exact (Finset.mem_filter.mp (h.owned.mem_of_held hticket)).2 hfreed
  · obtain rfl := h.owned.unique hticket (ControlPc.ticket_of_syncedTicket hw')
    rw [Function.comp_apply, hpc] at hw'
    exact absurd hw' nofun

variable [DecidableEq Thread]

theorem pcs_setPc (s : ControlState Thread) (w : Thread) (pc : ControlPc) :
    (s.setPc w pc).pcs = Function.update s.pcs w pc := rfl

/-! ## Slots -/

/-- A slot that nobody else has gets a new content. -/
theorem SlotsInv.change (h : s.SlotsInv host) {s' : ControlState Thread} {w : Thread} {i : ℕ}
    {content : CmdSlot} {pc : ControlPc} (hpcs : s'.pcs = Function.update s.pcs w pc)
    (hslots : s'.slots = Function.update s.slots i content) (hqueue : s'.queue = s.queue)
    (hqueued : s'.queued = s.queued) (hpool : s'.cmdPool.Inv host)
    (howned : Owned (Function.update (ControlPc.slot ∘ s.pcs) w pc.slot)
      (s.queue.map QueuedCmd.slot) s'.cmdPool.inUse)
    (hwaiting : i ∉ s.queue.map QueuedCmd.slot) (hothers : ∀ w' ≠ w, (s.pcs w').slot ≠ some i)
    (hfilled : ∀ slot call, pc = .inserting slot call →
      slot = i ∧ content = ⟨.broadcast, call.cmd⟩)
    (htaken : ∀ c, pc ≠ .processing c) : s'.SlotsInv host where
  pool := hpool
  owned := by
    rw [hpcs, hqueue, Function.comp_update]
    exact howned
  filled := by
    intro w' slot call hw'
    rw [hpcs, Function.update_apply] at hw'
    rw [hslots]
    split_ifs at hw' with heq
    · obtain ⟨rfl, rfl⟩ := hfilled slot call hw'
      exact Function.update_self ..
    · have hne : slot ≠ i := fun hi => hothers w' heq (by rw [hw', hi]; rfl)
      rw [Function.update_of_ne hne]
      exact h.filled w' slot call hw'
  waiting := by
    intro c hc
    rw [hqueue] at hc
    have hne : c.slot ≠ i := fun hi => hwaiting (hi ▸ List.mem_map_of_mem hc)
    unfold Stored
    rw [hslots, hqueued, Function.update_of_ne hne]
    exact h.waiting c hc
  taken := by
    intro w' c hw'
    rw [hpcs, Function.update_apply] at hw'
    split_ifs at hw' with heq
    · exact absurd hw' (htaken c)
    · have hne : c.slot ≠ i := fun hi => hothers w' heq (by rw [hw', ← hi]; rfl)
      unfold Stored
      rw [hslots, hqueued, Function.update_of_ne hne]
      exact h.taken w' c hw'

theorem SlotsInv.enqueue (h : s.SlotsInv host) (w : Thread) (call : BroadcastCall) :
    (s.step host (.enqueue w call)).SlotsInv host := by
  have hpos : 0 < s.cmdPool.pool.objSize := Nat.lt_of_lt_of_le (by decide) h.pool.size
  simp only [step]
  split
  next hidle =>
    by_cases hnone : s.cmdPool.pool.freeHead = noSlot
    · have halloc : (s.cmdPool.pool.alloc host).1 = none := by
        rw [HeapPool.alloc, if_pos hnone]
      rw [halloc]
      exact h
    · have halloc : (s.cmdPool.pool.alloc host).1 = some (s.cmdPool.pool.buffer +
          s.cmdPool.pool.freeHead.toNat * s.cmdPool.pool.objSize) := by
        rw [HeapPool.alloc, if_neg hnone]
      obtain ⟨-, hfree, hinv⟩ := h.pool.alloc hnone
      rw [halloc]
      simp only [Nat.add_sub_cancel_left, Nat.mul_div_cancel _ hpos]
      rw [PoolState.step_alloc hpos hnone]
      have hnot : (ControlPc.slot ∘ s.pcs) w = none := by
        rw [Function.comp_apply, hidle]
        rfl
      exact h.change rfl rfl rfl rfl hinv (h.owned.acquire hnot hfree)
        (fun hmem => hfree (h.owned.mem_of_queue hmem))
        (fun w' _ hw' => hfree (h.owned.mem_of_held hw')) (by simp) (by simp)
  next => exact h

theorem SlotsInv.fill (h : s.SlotsInv host) (w : Thread) (mallocOk : Bool) :
    (s.step host (.fill w mallocOk)).SlotsInv host := by
  simp only [step]
  split
  next slot call hpc =>
    have hslot : (s.pcs w).slot = some slot := by rw [hpc]; rfl
    have howned : Owned (Function.update (ControlPc.slot ∘ s.pcs) w (some slot))
        (s.queue.map QueuedCmd.slot) s.cmdPool.inUse := by
      rw [Function.update_eq_self_iff.mpr hslot.symm]
      exact h.owned
    obtain ⟨hwaiting, hothers⟩ := h.alone hslot
    split_ifs
    · exact h.change rfl rfl rfl rfl h.pool howned hwaiting hothers (by simp) (by simp)
    · refine h.change rfl rfl rfl rfl h.pool howned hwaiting hothers ?_ (by simp)
      rintro _ _ ⟨⟩
      exact ⟨rfl, rfl⟩
  next => exact h

theorem SlotsInv.insert (h : s.SlotsInv host) (w : Thread) :
    (s.step host (.insert w)).SlotsInv host := by
  simp only [step]
  split
  next slot call hpc =>
    have hslot : (ControlPc.slot ∘ s.pcs) w = some slot := by
      rw [Function.comp_apply, hpc]
      rfl
    have hold : ∀ c, s.Stored c → ∃ call', (s.queued ++ [call])[c.ticket]? = some call' ∧
        s.slots c.slot = ⟨.broadcast, call'.cmd⟩ := by
      rintro c ⟨call', hcall', hstored⟩
      have hlt := (List.getElem?_eq_some_iff.mp hcall').1
      exact ⟨call', (List.getElem?_append_left hlt).trans hcall', hstored⟩
    constructor
    · exact h.pool
    · rw [pcs_setPc, Function.comp_update]
      show Owned _ ((s.queue ++ [_]).map QueuedCmd.slot) _
      rw [List.map_append]
      exact h.owned.push hslot
    · intro w' slot' call' hw'
      simp only [setPc, Function.update_apply] at hw'
      split_ifs at hw'
      exact h.filled w' slot' call' hw'
    · intro c hc
      rcases List.mem_append.mp hc with hc | hc
      · exact hold c (h.waiting c hc)
      · rw [List.mem_singleton.mp hc]
        refine ⟨call, ?_, h.filled w slot call hpc⟩
        exact List.getElem?_concat_length
    · intro w' c hw'
      simp only [setPc, Function.update_apply] at hw'
      split_ifs at hw'
      exact hold c (h.taken w' c hw')
  next => exact h

theorem SlotsInv.take (h : s.SlotsInv host) (w : Thread) (broadcastWorker : Bool) :
    (s.step host (.take w broadcastWorker)).SlotsInv host := by
  simp only [step]
  split
  next hidle =>
    split_ifs
    · exact h
    · split
      next => exact h
      next c rest hqueue =>
        have hnot : (ControlPc.slot ∘ s.pcs) w = none := by
          rw [Function.comp_apply, hidle]
          rfl
        have howned := h.owned
        rw [hqueue, List.map_cons] at howned
        constructor
        · exact h.pool
        · rw [pcs_setPc, Function.comp_update]
          exact howned.pop hnot
        · intro w' slot call hw'
          simp only [setPc, Function.update_apply] at hw'
          split_ifs at hw'
          exact h.filled w' slot call hw'
        · exact fun c' hc' => h.waiting c' (hqueue ▸ List.mem_cons_of_mem c hc')
        · intro w' c' hw'
          simp only [setPc, Function.update_apply] at hw'
          split_ifs at hw'
          · obtain rfl := ControlPc.processing.inj hw'
            exact h.waiting c (hqueue ▸ List.mem_cons_self)
          · exact h.taken w' c' hw'
  next => exact h

/-- A thread goes on without a change of slots or queue. -/
theorem SlotsInv.goOn (h : s.SlotsInv host) {s' : ControlState Thread} {w : Thread}
    {pc : ControlPc} (hpcs : s'.pcs = Function.update s.pcs w pc) (hslots : s'.slots = s.slots)
    (hqueue : s'.queue = s.queue) (hqueued : s'.queued = s.queued) (hpool : s'.cmdPool = s.cmdPool)
    (hslot : pc.slot = (s.pcs w).slot) (hfilled : ∀ slot call, pc ≠ .inserting slot call)
    (htaken : ∀ c, pc ≠ .processing c) : s'.SlotsInv host where
  pool := hpool ▸ h.pool
  owned := by
    rw [hpcs, hqueue, hpool, Function.comp_update, Function.update_eq_self_iff.mpr hslot]
    exact h.owned
  filled := by
    intro w' slot call hw'
    rw [hpcs, Function.update_apply] at hw'
    rw [hslots]
    split_ifs at hw'
    · exact absurd hw' (hfilled slot call)
    · exact h.filled w' slot call hw'
  waiting := by
    unfold Stored
    rw [hqueue, hslots, hqueued]
    exact h.waiting
  taken := by
    intro w' c hw'
    rw [hpcs, Function.update_apply] at hw'
    unfold Stored
    rw [hslots, hqueued]
    split_ifs at hw'
    · exact absurd hw' (htaken c)
    · exact h.taken w' c hw'

theorem SlotsInv.process (h : s.SlotsInv host) (w : Thread) :
    (s.step host (.process w)).SlotsInv host := by
  simp only [step]
  split
  next c hpc =>
    have hslot : (ControlPc.freeing c).slot = (s.pcs w).slot := by rw [hpc]; rfl
    split
    · exact h.goOn rfl rfl rfl rfl rfl hslot (by simp) (by simp)
    · exact h.goOn rfl rfl rfl rfl rfl hslot (by simp) (by simp)
  next => exact h

theorem SlotsInv.free (h : s.SlotsInv host) (w : Thread) :
    (s.step host (.free w)).SlotsInv host := by
  have hpos : 0 < s.cmdPool.pool.objSize := Nat.lt_of_lt_of_le (by decide) h.pool.size
  -- the slot is in use, so the pool takes it back
  have hback : ∀ i, (s.pcs w).slot = some i →
      (s.freeCmd host i).cmdPool.Inv host ∧
        Owned (Function.update (ControlPc.slot ∘ s.pcs) w none) (s.queue.map QueuedCmd.slot)
          (s.freeCmd host i).cmdPool.inUse := by
    intro i hi
    have hmem : i ∈ s.cmdPool.inUse := h.owned.mem_of_held hi
    constructor
    · have hlegal : s.cmdPool.Legal
          (.free (some (s.cmdPool.pool.buffer + i * s.cmdPool.pool.objSize))) := by
        rintro j p ⟨⟩ ⟨-, haddr⟩
        rw [Nat.add_left_cancel_iff, Nat.mul_left_inj hpos.ne'] at haddr
        exact haddr ▸ hmem
      exact h.pool.step hlegal
    · simp only [freeCmd, PoolState.step]
      rw [PoolState.filter_address hpos]
      exact h.owned.release hi
  simp only [step]
  split
  next slot hpc =>
    have hslot : (s.pcs w).slot = some slot := by rw [hpc]; rfl
    obtain ⟨hpool, howned⟩ := hback slot hslot
    obtain ⟨hwaiting, hothers⟩ := h.alone hslot
    exact h.change rfl rfl rfl rfl hpool howned hwaiting hothers (by simp) (by simp)
  next c hpc =>
    have hslot : (s.pcs w).slot = some c.slot := by rw [hpc]; rfl
    obtain ⟨hpool, howned⟩ := hback c.slot hslot
    obtain ⟨hwaiting, hothers⟩ := h.alone hslot
    exact h.change rfl rfl rfl rfl hpool howned hwaiting hothers (by simp) (by simp)
  next => exact h

theorem SlotsInv.step (h : s.SlotsInv host) {event : ControlEvent Thread}
    (hlegal : s.Legal event) : (s.step host event).SlotsInv host := by
  cases event with
  | enqueue w call => exact h.enqueue w call
  | fill w mallocOk => exact h.fill w mallocOk
  | insert w => exact h.insert w
  | take w broadcastWorker => exact h.take w broadcastWorker
  | process w => exact h.process w
  | free w => exact h.free w
  | write offset byte =>
      have hpool : (s.cmdPool.step host (.write offset byte)).Inv host := h.pool.step hlegal
      exact ⟨hpool, h.owned, h.filled, h.waiting, h.taken⟩

/-! ## Tickets -/

/-- A step that is nothing to tickets. -/
theorem TicketsInv.goOn (h : s.TicketsInv) {s' : ControlState Thread} {w : Thread}
    {pc : ControlPc} (hpcs : s'.pcs = Function.update s.pcs w pc) (hqueue : s'.queue = s.queue)
    (hsize : s'.queueSize = s.queueSize) (hqueued : s'.queued = s.queued)
    (hsynced : s'.synced = s.synced) (hfreed : s'.freed = s.freed)
    (hticket : pc.ticket = (s.pcs w).ticket)
    (hsyncedTicket : pc.syncedTicket = (s.pcs w).syncedTicket) : s'.TicketsInv where
  owned := by
    unfold live
    rw [hpcs, hqueue, hqueued, hfreed, Function.comp_update,
      Function.update_eq_self_iff.mpr hticket]
    exact h.owned
  size := by rw [hsize, hqueue, h.size]
  freed_nodup := hfreed ▸ h.freed_nodup
  freed_lt := by
    rw [hfreed, hqueued]
    exact h.freed_lt
  synced_nodup := hsynced ▸ h.synced_nodup
  synced_iff := by
    rw [hpcs, hsynced, hfreed, Function.comp_update,
      Function.update_eq_self_iff.mpr hsyncedTicket]
    exact h.synced_iff
  given := by
    rw [hsynced, hqueued]
    exact h.given

theorem TicketsInv.enqueue (h : s.TicketsInv) (w : Thread) (call : BroadcastCall) :
    (s.step host (.enqueue w call)).TicketsInv := by
  simp only [step]
  split
  next hidle =>
    split
    · exact h
    · exact h.goOn rfl rfl rfl rfl rfl rfl (by rw [hidle]; rfl) (by rw [hidle]; rfl)
  next => exact h

theorem TicketsInv.fill (h : s.TicketsInv) (w : Thread) (mallocOk : Bool) :
    (s.step host (.fill w mallocOk)).TicketsInv := by
  simp only [step]
  split
  next slot call hpc =>
    split_ifs
    · exact h.goOn rfl rfl rfl rfl rfl rfl (by rw [hpc]; rfl) (by rw [hpc]; rfl)
    · exact h.goOn rfl rfl rfl rfl rfl rfl (by rw [hpc]; rfl) (by rw [hpc]; rfl)
  next => exact h

theorem TicketsInv.insert (h : s.TicketsInv) (w : Thread) :
    (s.step host (.insert w)).TicketsInv := by
  simp only [step]
  split
  next slot call hpc =>
    have hnone : (ControlPc.ticket ∘ s.pcs) w = none := by
      rw [Function.comp_apply, hpc]
      rfl
    have hnew : s.queued.length ∉ s.live := by simp [live]
    -- the ticket is taken and put in the queue in one step
    have howned := (h.owned.acquire hnone hnew).push (Function.update_self ..)
    rw [Function.update_idem] at howned
    constructor
    · rw [pcs_setPc, Function.comp_update]
      show Owned _ ((s.queue ++ [_]).map QueuedCmd.ticket)
        ((Finset.range (s.queued ++ [call]).length).filter (· ∉ s.freed))
      rw [List.map_append, h.live_insert]
      exact howned
    · show s.queueSize + 1 = ((s.queue ++ [_]).length : Int)
      rw [h.size, List.length_append, List.length_singleton]
      rfl
    · exact h.freed_nodup
    · intro t ht
      have := h.freed_lt t ht
      show t < (s.queued ++ [call]).length
      rw [List.length_append]
      omega
    · exact h.synced_nodup
    · rw [pcs_setPc, comp_update_of_eq (by rw [hpc]; rfl)]
      exact h.synced_iff
    · intro x hx
      obtain ⟨call', hcall', hx'⟩ := h.given x hx
      have hlt := (List.getElem?_eq_some_iff.mp hcall').1
      exact ⟨call', (List.getElem?_append_left hlt).trans hcall', hx'⟩
  next => exact h

theorem TicketsInv.take (h : s.TicketsInv) (w : Thread) (broadcastWorker : Bool) :
    (s.step host (.take w broadcastWorker)).TicketsInv := by
  simp only [step]
  split
  next hidle =>
    split_ifs
    · exact h
    · split
      next => exact h
      next c rest hqueue =>
        have hnone : (ControlPc.ticket ∘ s.pcs) w = none := by
          rw [Function.comp_apply, hidle]
          rfl
        have howned := h.owned
        have hsize := h.size
        rw [hqueue] at howned hsize
        constructor
        · rw [pcs_setPc, Function.comp_update]
          exact howned.pop hnone
        · show s.queueSize - 1 = (rest.length : Int)
          rw [hsize, List.length_cons]
          omega
        · exact h.freed_nodup
        · exact h.freed_lt
        · exact h.synced_nodup
        · rw [pcs_setPc, comp_update_of_eq (by rw [hidle]; rfl)]
          exact h.synced_iff
        · exact h.given
  next => exact h

theorem TicketsInv.process (h : s.TicketsInv) (hslots : s.SlotsInv host) (w : Thread) :
    (s.step host (.process w)).TicketsInv := by
  simp only [step]
  split
  next c hpc =>
    obtain ⟨call, hcall, hstored⟩ := hslots.taken w c hpc
    have hnew := h.not_synced hpc
    have hnone : (ControlPc.syncedTicket ∘ s.pcs) w = none := by
      rw [Function.comp_apply, hpc]
      rfl
    rw [hstored]
    dsimp only
    constructor
    · rw [pcs_setPc, comp_update_of_eq (by rw [hpc]; rfl)]
      exact h.owned
    · exact h.size
    · exact h.freed_nodup
    · exact h.freed_lt
    · show ((s.synced ++ [_]).map Prod.fst).Nodup
      rw [List.map_append, List.nodup_append]
      refine ⟨h.synced_nodup, List.nodup_singleton _, ?_⟩
      rintro t ht t' ht' rfl
      have heq : t = c.ticket := List.mem_singleton.mp ht'
      exact hnew (heq ▸ ht)
    · intro t
      rw [pcs_setPc, Function.comp_update]
      show t ∈ (s.synced ++ [_]).map Prod.fst ↔ t ∈ s.freed ∨ _
      rw [List.map_append, List.mem_append, h.synced_iff, or_assoc]
      apply or_congr_right
      rw [or_comm, List.map_singleton, List.mem_singleton]
      exact (exists_update_some_iff hnone).symm
    · intro x hx
      rcases List.mem_append.mp hx with hx | hx
      · exact h.given x hx
      · rw [List.mem_singleton.mp hx]
        exact ⟨call, hcall, rfl⟩
  next => exact h

theorem TicketsInv.free (h : s.TicketsInv) (w : Thread) :
    (s.step host (.free w)).TicketsInv := by
  simp only [step]
  split
  next slot hpc => exact h.goOn rfl rfl rfl rfl rfl rfl (by rw [hpc]; rfl) (by rw [hpc]; rfl)
  next c hpc =>
    have hticket : (ControlPc.ticket ∘ s.pcs) w = some c.ticket := by
      rw [Function.comp_apply, hpc]
      rfl
    have hsynced : (ControlPc.syncedTicket ∘ s.pcs) w = some c.ticket := by
      rw [Function.comp_apply, hpc]
      rfl
    obtain ⟨hlt, hnew⟩ := Finset.mem_filter.mp (h.owned.mem_of_held hticket)
    have hlive : (Finset.range s.queued.length).filter (· ∉ s.freed ++ [c.ticket]) =
        s.live.erase c.ticket := by
      ext t
      simp only [live, Finset.mem_filter, Finset.mem_erase, List.mem_append, List.mem_singleton]
      tauto
    constructor
    · rw [pcs_setPc, Function.comp_update]
      show Owned _ (s.queue.map QueuedCmd.ticket)
        ((Finset.range s.queued.length).filter (· ∉ s.freed ++ [c.ticket]))
      rw [hlive]
      exact h.owned.release hticket
    · exact h.size
    · refine List.nodup_append.mpr ⟨h.freed_nodup, List.nodup_singleton _, ?_⟩
      rintro t ht t' ht' rfl
      exact hnew (List.mem_singleton.mp ht' ▸ ht)
    · intro t ht
      rcases List.mem_append.mp ht with ht | ht
      · exact h.freed_lt t ht
      · rw [List.mem_singleton.mp ht]
        exact Finset.mem_range.mp hlt
    · exact h.synced_nodup
    · intro t
      rw [pcs_setPc, Function.comp_update]
      show t ∈ s.synced.map Prod.fst ↔ t ∈ s.freed ++ [c.ticket] ∨ _
      rw [h.synced_iff, List.mem_append, or_assoc, List.mem_singleton]
      exact or_congr_right (exists_held_iff hsynced)
    · exact h.given
  next => exact h

theorem TicketsInv.step (h : s.TicketsInv) (hslots : s.SlotsInv host)
    (event : ControlEvent Thread) : (s.step host event).TicketsInv := by
  cases event with
  | enqueue w call => exact h.enqueue w call
  | fill w mallocOk => exact h.fill w mallocOk
  | insert w => exact h.insert w
  | take w broadcastWorker => exact h.take w broadcastWorker
  | process w => exact h.process hslots w
  | free w => exact h.free w
  | write offset byte =>
      exact ⟨h.owned, h.size, h.freed_nodup, h.freed_lt, h.synced_nodup, h.synced_iff, h.given⟩

/-! ## Whole runs -/

theorem Reachable.inv {pool : HeapPool} (hpool : PoolState.Inv host ⟨pool, ∅⟩)
    (h : Reachable host pool s) : s.SlotsInv host ∧ s.TicketsInv := by
  induction h with
  | init => exact ⟨slotsInv_init hpool, ticketsInv_init pool⟩
  | step event _ hlegal ih => exact ⟨ih.1.step hlegal, ih.2.step ih.1 event⟩

/-- No step makes the pool larger. -/
theorem capacity_step (s : ControlState Thread) (event : ControlEvent Thread) :
    (s.step host event).cmdPool.pool.capacity = s.cmdPool.pool.capacity := by
  have hpool : ∀ e, (s.cmdPool.step host e).pool.capacity = s.cmdPool.pool.capacity :=
    fun e => (PoolState.shape_step host s.cmdPool e).2.1
  cases event with
  | enqueue w call =>
      simp only [ControlState.step]
      split
      · split
        · rfl
        · exact hpool .alloc
      · rfl
  | fill w mallocOk =>
      simp only [ControlState.step]
      split
      · split_ifs <;> rfl
      · rfl
  | insert w =>
      simp only [ControlState.step]
      split <;> rfl
  | take w broadcastWorker =>
      simp only [ControlState.step]
      split
      · split_ifs
        · rfl
        · split <;> rfl
      · rfl
  | process w =>
      simp only [ControlState.step]
      split
      · split <;> rfl
      · rfl
  | free w =>
      simp only [ControlState.step]
      split
      · exact hpool _
      · exact hpool _
      · rfl
  | write offset byte => exact hpool _

theorem Reachable.capacity {pool : HeapPool} (h : Reachable host pool s) :
    s.cmdPool.pool.capacity = pool.capacity := by
  induction h with
  | init => rfl
  | step event _ _ ih => exact (capacity_step _ event).trans ih

end ControlState

/-! ## What becomes of a command -/

/-- Nothing is cut off. -/
theorem BroadcastCall.cmd_eq (call : BroadcastCall) : call.cmd = call.given := by
  have hlen : ∀ b : Buf, b.bytes.length ≤ b.len := fun b => List.length_take_le ..
  have hkey : call.key.bytes.take maxKeyLen = call.key.bytes :=
    List.take_of_length_le ((hlen call.key).trans call.key_le)
  have hvalue : call.value.bytes.take maxValueLen = call.value.bytes :=
    List.take_of_length_le ((hlen call.value).trans call.value_le)
  unfold BroadcastCall.cmd BroadcastCall.given enqueueBroadcast
  rw [hkey, hvalue]
  split_ifs with h
  · rfl
  · have hnil : call.value.bytes = [] := by
      rw [not_and_or, not_ne_iff, not_lt, Nat.le_zero] at h
      rcases h with h | h <;> simp [Buf.bytes, h]
    rw [hnil]

namespace ControlState

/-- What becomes of a command that was put in the queue: it is still there, or one thread
has taken it, or it was passed to `broadcast_sync` with what the call was given and its
slot was given back.  None of these has happened twice, nor two of them at once. -/
inductive Fate (s : ControlState Thread) (t : ℕ) (call : BroadcastCall) : Prop
  | queued (hqueue : (s.queue.map QueuedCmd.ticket).count t = 1)
      (hthreads : ∀ w, (s.pcs w).ticket ≠ some t)
      (hsynced : s.synced.filter (fun x => x.1 = t) = []) (hfreed : t ∉ s.freed)
  | processed (w : Thread) (hw : (s.pcs w).ticket = some t)
      (hunique : ∀ w', (s.pcs w').ticket = some t → w' = w)
      (hqueue : t ∉ s.queue.map QueuedCmd.ticket)
      (hsynced : s.synced.filter (fun x => x.1 = t) = [] ∨
        s.synced.filter (fun x => x.1 = t) = [(t, call.given)]) (hfreed : t ∉ s.freed)
  | done (hsynced : s.synced.filter (fun x => x.1 = t) = [(t, call.given)])
      (hfreed : s.freed.count t = 1) (hqueue : t ∉ s.queue.map QueuedCmd.ticket)
      (hthreads : ∀ w, (s.pcs w).ticket ≠ some t)

variable {host : Endian} {s : ControlState Thread} {t : ℕ} {call : BroadcastCall}

/-- Of a list in which no key occurs twice, what has one of its keys. -/
theorem filter_key_eq {β : Type*} {l : List (ℕ × β)} {b : β} (hnodup : (l.map Prod.fst).Nodup)
    (h : (t, b) ∈ l) : l.filter (fun x => x.1 = t) = [(t, b)] := by
  induction l with
  | nil => exact absurd h List.not_mem_nil
  | cons x l ih =>
      rw [List.map_cons, List.nodup_cons] at hnodup
      rcases List.mem_cons.mp h with rfl | h
      · rw [List.filter_cons_of_pos (by simp)]
        congr 1
        refine List.filter_eq_nil_iff.mpr fun y hy hyt => hnodup.1 ?_
        exact List.mem_map.mpr ⟨y, hy, of_decide_eq_true hyt⟩
      · have hne : x.1 ≠ t := fun hxt => hnodup.1 (List.mem_map.mpr ⟨(t, b), h, hxt.symm⟩)
        rw [List.filter_cons_of_neg (by simpa using hne)]
        exact ih hnodup.2 h

/-- The calls of `broadcast_sync` for a ticket. -/
theorem TicketsInv.filter_synced (h : s.TicketsInv) (hcall : s.queued[t]? = some call)
    (hmem : t ∈ s.synced.map Prod.fst) :
    s.synced.filter (fun x => x.1 = t) = [(t, call.given)] := by
  obtain ⟨⟨_, cmd⟩, hx, rfl⟩ := List.mem_map.mp hmem
  obtain ⟨call', hcall', hcmd⟩ := h.given _ hx
  obtain rfl := Option.some.inj (hcall.symm.trans hcall')
  have hcmd : cmd = call.given := hcmd.trans call.cmd_eq
  rw [hcmd] at hx
  exact filter_key_eq h.synced_nodup hx

theorem TicketsInv.filter_eq_nil (hnot : t ∉ s.synced.map Prod.fst) :
    s.synced.filter (fun x => x.1 = t) = [] := by
  refine List.filter_eq_nil_iff.mpr fun x hx hxt => hnot ?_
  exact List.mem_map.mpr ⟨x, hx, of_decide_eq_true hxt⟩

theorem TicketsInv.fate (h : s.TicketsInv) (hcall : s.queued[t]? = some call) : s.Fate t call := by
  have hlt : t < s.queued.length := (List.getElem?_eq_some_iff.mp hcall).1
  by_cases hfreed : t ∈ s.freed
  · -- given back, so it is nowhere any more
    have hgone : t ∉ s.live := fun hlive => (Finset.mem_filter.mp hlive).2 hfreed
    refine .done (h.filter_synced hcall ((h.synced_iff t).mpr (Or.inl hfreed)))
      (List.count_eq_one_of_mem h.freed_nodup hfreed) ?_ ?_
    · exact fun hqueue => hgone (h.owned.mem_of_queue hqueue)
    · exact fun w hw => hgone (h.owned.mem_of_held hw)
  · have hlive : t ∈ s.live := Finset.mem_filter.mpr ⟨Finset.mem_range.mpr hlt, hfreed⟩
    rcases (h.owned.mem_iff t).mp hlive with hqueue | ⟨w, hw⟩
    · have hthreads : ∀ w, (s.pcs w).ticket ≠ some t := fun w hw => h.owned.not_mem hw hqueue
      refine .queued (List.count_eq_one_of_mem h.owned.nodup hqueue) hthreads ?_ hfreed
      apply TicketsInv.filter_eq_nil
      rw [h.synced_iff]
      rintro (hmem | ⟨w, hw⟩)
      · exact hfreed hmem
      · exact hthreads w (ControlPc.ticket_of_syncedTicket hw)
    · refine .processed w hw (fun w' hw' => h.owned.unique hw hw') (h.owned.not_mem hw) ?_ hfreed
      by_cases hsynced : t ∈ s.synced.map Prod.fst
      · exact Or.inr (h.filter_synced hcall hsynced)
      · exact Or.inl (TicketsInv.filter_eq_nil hsynced)

/-- The control queue in order. -/
structure Sound [Fintype Thread] (host : Endian) (s : ControlState Thread) : Prop where
  size : s.queueSize = s.queue.length
  fate : ∀ t call, s.queued[t]? = some call → s.Fate t call
  /-- A slot is in use for each command that is being filled, queued or processed. -/
  inUse : s.cmdPool.inUse.card = (Finset.univ.filter fun w => (s.pcs w).isFilling).card +
    s.queue.length + (Finset.univ.filter fun w => (s.pcs w).ticket.isSome).card
  capacity : s.cmdPool.inUse.card ≤ 128 * 2
  pool : PoolSound host s.cmdPool

/-- A thread with a slot is filling it, or it has taken it from the queue. -/
theorem card_slots [Fintype Thread] (s : ControlState Thread) :
    (Finset.univ.filter fun w => (s.pcs w).slot.isSome).card =
      (Finset.univ.filter fun w => (s.pcs w).isFilling).card +
        (Finset.univ.filter fun w => (s.pcs w).ticket.isSome).card := by
  classical
  rw [← Finset.card_union_of_disjoint]
  · congr 1
    ext w
    simp only [Finset.mem_filter, Finset.mem_univ, true_and, Finset.mem_union]
    cases s.pcs w <;> simp [ControlPc.slot, ControlPc.isFilling, ControlPc.ticket]
  · rw [Finset.disjoint_filter]
    intro w _
    cases s.pcs w <;> simp [ControlPc.isFilling, ControlPc.ticket]

end ControlState

/-- **No command is lost or passed on twice.** -/
theorem controlQueue_conserves [Fintype Thread] [DecidableEq Thread] {host : Endian} {objSize : ℕ}
    {calloc : Option ℕ} {pool : HeapPool}
    (hpool : HeapPool.init host objSize cmdPoolCapacity calloc = some pool)
    {s : ControlState Thread} (h : s.Reachable host pool) : s.Sound host := by
  obtain ⟨hcapacity, hinit⟩ := HeapPool.inv_of_init hpool
  obtain ⟨hslots, htickets⟩ := h.inv hinit
  refine ⟨htickets.size, fun t call hcall => htickets.fate hcall, ?_, ?_, hslots.pool.sound⟩
  · have hcard := hslots.owned.card_eq
    rw [List.length_map] at hcard
    rw [hcard, show (Finset.univ.filter fun w => ((ControlPc.slot ∘ s.pcs) w).isSome) =
      Finset.univ.filter fun w => (s.pcs w).slot.isSome from rfl, s.card_slots]
    omega
  · obtain ⟨free, hfree⟩ := hslots.pool.free
    have hle := Finset.card_le_card hfree.subset
    rw [Finset.card_range, h.capacity, hcapacity] at hle
    exact hle

/-- A worker queues a command and another thread takes it. -/
theorem controlQueue_conserves_twoThreads :
    ∃ pool, HeapPool.init .little 1104 cmdPoolCapacity (some 4096) = some pool ∧
      ([.enqueue false ⟨Buf.ofBytes [107], Buf.ofBytes [118], 1, 2, 3, 0, by decide, by decide⟩,
        .fill false true, .insert false, .take true false].foldl (ControlState.step .little)
          (ControlState.init pool)).Sound .little := by
  have hinit : HeapPool.init .little 1104 cmdPoolCapacity (some 4096) = some _ := rfl
  refine ⟨_, hinit, controlQueue_conserves hinit ?_⟩
  simp only [List.foldl_cons, List.foldl_nil]
  refine .step _ (.step _ (.step _ (.step _ .init ?_) ?_) ?_) ?_ <;> trivial

end Dmmr.Node
