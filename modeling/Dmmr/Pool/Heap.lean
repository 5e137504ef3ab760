import Dmmr.Lib.FreeList
import Dmmr.Lib.Words

/-!
# Pools of objects of one size: `dmmr_heap_pool.c`

The slots of a pool lie one behind the other in one block of memory.  A slot that is
free holds the index of the next free slot in its first four bytes; a slot that is
handed out belongs to the caller, who overwrites these bytes like all the others.

The memory is modelled byte by byte, so that this sharing is visible: a link is what
the four bytes of a slot happen to say, and the free list is what the links lead
through.  In every run in which callers write to slots they hold and free a slot only
while they hold it, the list has just the slots that are not handed out
(`heapPool_invariant`).

The block is not larger than the address space, since `calloc` has returned it; so the
products of indices and sizes do not overflow.
-/

namespace Dmmr.Pool

open Words FreeList

/-! ## Memory -/

/-- The bytes of a block, by their offset. -/
abbrev Memory := ℕ → UInt8

namespace Memory

/-- Write `bytes` at `offset`. -/
def write (m : Memory) (offset : ℕ) (bytes : Bytes) : Memory := fun o =>
  if offset ≤ o ∧ o < offset + bytes.length then bytes.getD (o - offset) 0 else m o

/-- The `n` bytes at `offset`. -/
def read (m : Memory) (offset n : ℕ) : Bytes := (List.range n).map fun k => m (offset + k)

theorem read_congr {m m' : Memory} {offset n : ℕ}
    (h : ∀ k < n, m' (offset + k) = m (offset + k)) : m'.read offset n = m.read offset n :=
  List.map_congr_left fun k hk => h k (List.mem_range.mp hk)

theorem read_write (m : Memory) (offset : ℕ) (bytes : Bytes) :
    (m.write offset bytes).read offset bytes.length = bytes := by
  apply List.ext_getElem
  · simp [read]
  · intro k hk hk'
    simp [read, write, hk']

theorem write_of_outside (m : Memory) {offset o : ℕ} {bytes : Bytes}
    (h : o < offset ∨ offset + bytes.length ≤ o) : m.write offset bytes o = m o :=
  if_neg (by omega)

end Memory

/-! ## The pool -/

/-- `(unsigned)-1`, the end of the free list. -/
def noSlot : UInt32 := 0xFFFFFFFF

/-- `dmmr_heap_pool_t`: `buffer` is the address of the block and `memory` its
content. -/
structure HeapPool where
  objSize : ℕ
  capacity : UInt32
  buffer : ℕ
  memory : Memory
  freeHead : UInt32

namespace HeapPool

variable (host : Endian)

/-- The number in the first four bytes of a slot. -/
def link (pool : HeapPool) (idx : ℕ) : UInt32 :=
  UInt32.ofNat (host.word (pool.memory.read (idx * pool.objSize) 4))

/-- The memory with a number in the first four bytes of a slot. -/
def setLink (objSize : ℕ) (m : Memory) (idx : ℕ) (next : UInt32) : Memory :=
  m.write (idx * objSize) (host.bytes 4 next.toNat)

/-- `dmmr_heap_pool_init`, with what `calloc` returns. -/
def init (objSize : ℕ) (capacity : UInt32) (calloc : Option ℕ) : Option HeapPool :=
  if objSize = 0 ∨ capacity = 0 then none
  else if objSize < 4 then none
  else
    match calloc with
    | none => none
    | some buffer =>
        -- slot `i` is linked to `i + 1`, and the last one to none
        let chained := (List.range (capacity.toNat - 1)).foldl
          (fun m i => setLink host objSize m i (UInt32.ofNat (i + 1))) fun _ => 0
        some ⟨objSize, capacity, buffer,
          setLink host objSize chained (capacity.toNat - 1) noSlot, 0⟩

/-- `dmmr_heap_pool_alloc`: the address returned, if any. -/
def alloc (pool : HeapPool) : Option ℕ × HeapPool :=
  if pool.freeHead = noSlot then (none, pool)
  else
    let slot := pool.freeHead.toNat * pool.objSize
    (some (pool.buffer + slot),
      { pool with
        freeHead := pool.link host pool.freeHead.toNat
        memory := pool.memory.write slot (List.replicate pool.objSize 0) })

/-- `dmmr_heap_pool_free`. -/
def free (pool : HeapPool) (ptr : Option ℕ) : HeapPool :=
  match ptr with
  | none => pool
  | some ptr =>
      if ptr < pool.buffer ∨ ptr ≥ pool.buffer + pool.capacity.toNat * pool.objSize then pool
      else
        let offset := ptr - pool.buffer
        if offset % pool.objSize ≠ 0 then pool
        else
          { pool with
            memory := pool.memory.write offset (host.bytes 4 pool.freeHead.toNat)
            freeHead := UInt32.ofNat (offset / pool.objSize) }

/-- The loop of `dmmr_heap_pool_used`; `none` if it takes more than `fuel` turns. -/
def usedLoop (pool : HeapPool) : ℕ → UInt32 → UInt32 → Option UInt32
  | 0, _, _ => none
  | fuel + 1, idx, freeCount =>
      if idx = noSlot then some freeCount
      else usedLoop pool fuel (pool.link host idx.toNat) (freeCount + 1)

/-- `dmmr_heap_pool_used`. -/
def used (pool : HeapPool) (fuel : ℕ) : Option UInt32 :=
  (pool.usedLoop host fuel pool.freeHead 0).map fun freeCount => pool.capacity - freeCount

end HeapPool

/-! ## Runs -/

/-- What can happen to a pool.  A caller that holds a slot writes to it, a byte at a
time. -/
inductive PoolEvent
  | alloc
  | free (ptr : Option ℕ)
  | write (offset : ℕ) (byte : UInt8)

/-- A pool, and the slots that are handed out. -/
structure PoolState where
  pool : HeapPool
  inUse : Finset ℕ

namespace PoolState

/-- The address is the start of a slot. -/
def IsSlot (s : PoolState) (i ptr : ℕ) : Prop :=
  i < s.pool.capacity.toNat ∧ ptr = s.pool.buffer + i * s.pool.objSize

/-- A slot is freed only while it is handed out, and nothing but such slots is written
to.  Any other address may be passed to `dmmr_heap_pool_free`. -/
def Legal (s : PoolState) : PoolEvent → Prop
  | .alloc => True
  | .free ptr => ∀ i p, ptr = some p → s.IsSlot i p → i ∈ s.inUse
  | .write offset _ => offset / s.pool.objSize ∈ s.inUse

def step (host : Endian) (s : PoolState) : PoolEvent → PoolState
  | .alloc =>
      match s.pool.alloc host with
      | (none, pool) => ⟨pool, s.inUse⟩
      | (some ptr, pool) => ⟨pool, insert ((ptr - pool.buffer) / pool.objSize) s.inUse⟩
  | .free ptr =>
      ⟨s.pool.free host ptr,
        s.inUse.filter fun i => ptr ≠ some (s.pool.buffer + i * s.pool.objSize)⟩
  | .write offset byte => ⟨{ s.pool with memory := s.pool.memory.write offset [byte] }, s.inUse⟩

/-- What legal events lead to. -/
inductive Reachable (host : Endian) (start : PoolState) : PoolState → Prop
  | refl : Reachable host start start
  | step {s : PoolState} (event : PoolEvent) (h : Reachable host start s)
      (hlegal : s.Legal event) : Reachable host start (s.step host event)

end PoolState

/-! ## Links -/

section Links

variable {host : Endian} {objSize : ℕ} {m m' : Memory}

/-- The links of a memory, as numbers. -/
def linkOf (host : Endian) (objSize : ℕ) (m : Memory) (idx : ℕ) : ℕ :=
  (UInt32.ofNat (host.word (m.read (idx * objSize) 4))).toNat

/-- A link depends on the bytes of its slot only. -/
theorem linkOf_congr (hsize : 4 ≤ objSize) {idx : ℕ}
    (h : ∀ o, o / objSize = idx → m' o = m o) :
    linkOf host objSize m' idx = linkOf host objSize m idx := by
  unfold linkOf
  rw [Memory.read_congr]
  intro k hk
  apply h
  rw [Nat.mul_comm, Nat.mul_add_div (by omega), Nat.div_eq_of_lt (by omega), Nat.add_zero]

theorem linkOf_setLink (m : Memory) (idx : ℕ) (next : UInt32) :
    linkOf host objSize (HeapPool.setLink host objSize m idx next) idx = next.toNat := by
  have hread : (HeapPool.setLink host objSize m idx next).read (idx * objSize) 4 =
      host.bytes 4 next.toNat := by
    have h := m.read_write (idx * objSize) (host.bytes 4 next.toNat)
    rwa [Endian.length_bytes] at h
  rw [linkOf, hread, host.word_bytes next.toNat_lt, UInt32.ofNat_toNat]

/-- A write within a slot leaves the other slots alone. -/
theorem write_of_div_ne {offset o n : ℕ} {bytes : Bytes} (hfits : offset % objSize + n ≤ objSize)
    (hlen : bytes.length = n) (ho : o / objSize ≠ offset / objSize) :
    m.write offset bytes o = m o := by
  apply m.write_of_outside
  by_contra hinside
  rw [not_or, not_lt, not_le, hlen] at hinside
  have hsplit := Nat.div_add_mod offset objSize
  apply ho
  apply Nat.div_eq_of_lt_le
  · rw [Nat.mul_comm]
    omega
  · rw [Nat.add_mul, Nat.one_mul, Nat.mul_comm]
    omega

/-- The link of another slot is not touched by it. -/
theorem linkOf_write_of_ne (hsize : 4 ≤ objSize) {offset idx : ℕ} {bytes : Bytes}
    (hfits : offset % objSize + bytes.length ≤ objSize) (hne : idx ≠ offset / objSize) :
    linkOf host objSize (m.write offset bytes) idx = linkOf host objSize m idx := by
  refine linkOf_congr hsize fun o ho => write_of_div_ne hfits rfl ?_
  rw [ho]
  exact hne

theorem linkOf_setLink_of_ne (hsize : 4 ≤ objSize) (m : Memory) {idx j : ℕ} (next : UInt32)
    (hne : j ≠ idx) :
    linkOf host objSize (HeapPool.setLink host objSize m idx next) j =
      linkOf host objSize m j := by
  apply linkOf_write_of_ne hsize
  · rw [Nat.mul_mod_left, Endian.length_bytes]
    omega
  · rw [Nat.mul_div_cancel _ (by omega)]
    exact hne

/-- The loop of `dmmr_heap_pool_init` links every slot to the next. -/
theorem linkOf_foldl (hsize : 4 ≤ objSize) (m : Memory) {n i : ℕ} (hi : i < n) :
    linkOf host objSize ((List.range n).foldl (fun m i =>
      HeapPool.setLink host objSize m i (UInt32.ofNat (i + 1))) m) i =
        (UInt32.ofNat (i + 1)).toNat := by
  induction n with
  | zero => exact absurd hi (Nat.not_lt_zero i)
  | succ n ih =>
      rw [List.range_succ, List.foldl_append, List.foldl_cons, List.foldl_nil]
      by_cases hn : i = n
      · rw [hn, linkOf_setLink]
      · rw [linkOf_setLink_of_ne hsize _ _ hn]
        exact ih (by omega)

end Links

/-- A sequence of consecutive slots, each linked to the next. -/
theorem chain_range' {next : ℕ → ℕ} {nil k n : ℕ} (hnext : ∀ i, k ≤ i → i < k + n → next i = i + 1)
    (hlast : next (k + n) = nil) (hnil : k + n < nil) :
    Chain next nil k (List.range' k (n + 1)) := by
  induction n generalizing k with
  | zero => exact ⟨rfl, by omega, hlast⟩
  | succ n ih =>
      rw [List.range'_succ]
      refine ⟨rfl, by omega, ?_⟩
      rw [hnext k le_rfl (by omega)]
      refine ih (fun i hle hlt => hnext i (by omega) (by omega)) ?_ (by omega)
      rwa [Nat.add_right_comm, Nat.add_assoc]

/-! ## The invariant -/

/-- The free list of a pool has the slots that are not in use. -/
structure PoolState.Inv (host : Endian) (s : PoolState) : Prop where
  size : 4 ≤ s.pool.objSize
  free : ∃ free, Free (linkOf host s.pool.objSize s.pool.memory) noSlot.toNat
    s.pool.freeHead.toNat (Finset.range s.pool.capacity.toNat) s.inUse free

/-- `(unsigned)-1` is not the index of a slot. -/
theorem noSlot_not_mem (capacity : UInt32) :
    noSlot.toNat ∉ Finset.range capacity.toNat := by
  have := capacity.toNat_lt
  have hval : noSlot.toNat = 4294967295 := rfl
  rw [Finset.mem_range, hval]
  omega

namespace HeapPool

variable {objSize : ℕ} {capacity : UInt32}

theorem inv_init (host : Endian) (hsize : 4 ≤ objSize) (hcap : capacity ≠ 0) (buffer : ℕ) :
    ∃ pool, init host objSize capacity (some buffer) = some pool ∧
      pool.objSize = objSize ∧ pool.capacity = capacity ∧ pool.buffer = buffer ∧
      PoolState.Inv host ⟨pool, ∅⟩ := by
  have hpos : 0 < capacity.toNat :=
    Nat.pos_of_ne_zero fun h => hcap (UInt32.toNat_inj.mp h)
  have hlt := capacity.toNat_lt
  have hnil : noSlot.toNat = 4294967295 := rfl
  unfold init
  rw [if_neg (by simp [hcap]; omega), if_neg (by omega)]
  refine ⟨_, rfl, rfl, rfl, rfl, hsize, List.range' 0 (capacity.toNat - 1 + 1), ?_, ?_, ?_, ?_⟩
  · refine chain_range' (k := 0) ?_ ?_ ?_
    · intro i _ hi
      rw [linkOf_setLink_of_ne hsize _ _ (by omega), linkOf_foldl hsize _ (by omega),
        UInt32.toNat_ofNat']
      exact Nat.mod_eq_of_lt (by omega)
    · rw [Nat.zero_add, linkOf_setLink]
    · omega
  · exact List.nodup_range'
  · intro i
    rw [List.mem_range'_1, Finset.mem_range]
    simp
    omega
  · exact Finset.empty_subset _

/-- A pool can be made in this way only. -/
theorem inv_of_init {host : Endian} {calloc : Option ℕ} {pool : HeapPool}
    (h : init host objSize capacity calloc = some pool) :
    pool.capacity = capacity ∧ PoolState.Inv host ⟨pool, ∅⟩ := by
  have hargs := h
  unfold init at hargs
  split_ifs at hargs with hzero hsmall
  cases calloc with
  | none => exact absurd hargs nofun
  | some buffer =>
      obtain ⟨pool', hpool', -, hcapacity, -, hinv⟩ :=
        inv_init host (not_lt.mp hsmall) (fun hcap => hzero (Or.inr hcap)) buffer
      obtain rfl := Option.some.inj (h.symm.trans hpool')
      exact ⟨hcapacity, hinv⟩

end HeapPool

namespace PoolState

variable {host : Endian} {s : PoolState}

/-- The slot at the head of the list is taken. -/
theorem Inv.alloc (h : s.Inv host) (hne : s.pool.freeHead ≠ noSlot) :
    s.pool.freeHead.toNat < s.pool.capacity.toNat ∧ s.pool.freeHead.toNat ∉ s.inUse ∧
      Inv host ⟨(s.pool.alloc host).2, insert s.pool.freeHead.toNat s.inUse⟩ := by
  obtain ⟨free, hfree⟩ := h.free
  have hhead : s.pool.freeHead.toNat ≠ noSlot.toNat := fun heq => hne (UInt32.toNat_inj.mp heq)
  have hpos : 0 < s.pool.objSize := Nat.lt_of_lt_of_le (by decide) h.size
  -- clearing the slot does not touch the links of the others
  have hothers : ∀ j ∉ s.inUse, j ≠ s.pool.freeHead.toNat →
      linkOf host s.pool.objSize (s.pool.memory.write
        (s.pool.freeHead.toNat * s.pool.objSize) (List.replicate s.pool.objSize 0)) j =
      linkOf host s.pool.objSize s.pool.memory j := by
    intro j _ hj
    apply linkOf_write_of_ne h.size
    · rw [Nat.mul_mod_left, List.length_replicate, Nat.zero_add]
    · rwa [Nat.mul_div_cancel _ hpos]
  obtain ⟨rest, -, hrest⟩ := hfree.take hhead hothers
  refine ⟨Finset.mem_range.mp (hfree.head_mem hhead).1, (hfree.head_mem hhead).2, ?_⟩
  have halloc : (s.pool.alloc host).2 = { s.pool with
      freeHead := s.pool.link host s.pool.freeHead.toNat
      memory := s.pool.memory.write (s.pool.freeHead.toNat * s.pool.objSize)
        (List.replicate s.pool.objSize 0) } := by
    rw [HeapPool.alloc, if_neg hne]
  rw [halloc]
  exact ⟨h.size, rest, hrest⟩

/-- A slot in use is put back. -/
theorem Inv.free_slot (h : s.Inv host) {i : ℕ} (hi : i ∈ s.inUse) :
    Inv host ⟨{ s.pool with
        memory := HeapPool.setLink host s.pool.objSize s.pool.memory i s.pool.freeHead
        freeHead := UInt32.ofNat i }, s.inUse.erase i⟩ := by
  obtain ⟨free, hfree⟩ := h.free
  have hlt : i < s.pool.capacity.toNat := Finset.mem_range.mp (hfree.subset hi)
  have hi32 : (UInt32.ofNat i).toNat = i := by
    rw [UInt32.toNat_ofNat']
    exact Nat.mod_eq_of_lt (hlt.trans s.pool.capacity.toNat_lt)
  refine ⟨h.size, i :: free, ?_⟩
  simp only [hi32]
  refine hfree.give (noSlot_not_mem _) hi (linkOf_setLink ..) fun j hj => ?_
  exact linkOf_setLink_of_ne h.size _ _ fun heq => hj (heq ▸ hi)

/-- What `dmmr_heap_pool_free` does: it puts back the slot that begins at the address,
and otherwise nothing. -/
theorem free_cases (host : Endian) (hpos : 0 < s.pool.objSize) (ptr : ℕ) :
    (∃ i, s.IsSlot i ptr ∧ s.pool.free host (some ptr) = { s.pool with
        memory := HeapPool.setLink host s.pool.objSize s.pool.memory i s.pool.freeHead
        freeHead := UInt32.ofNat i }) ∨
      ((∀ i, ¬ s.IsSlot i ptr) ∧ s.pool.free host (some ptr) = s.pool) := by
  unfold HeapPool.free
  simp only
  by_cases hrange : ptr < s.pool.buffer ∨
      ptr ≥ s.pool.buffer + s.pool.capacity.toNat * s.pool.objSize
  · rw [if_pos hrange]
    refine Or.inr ⟨?_, rfl⟩
    rintro i ⟨hi, rfl⟩
    have := Nat.mul_lt_mul_of_pos_right hi hpos
    omega
  rw [if_neg hrange]
  by_cases hstart : (ptr - s.pool.buffer) % s.pool.objSize ≠ 0
  · rw [if_pos hstart]
    refine Or.inr ⟨?_, rfl⟩
    rintro i ⟨-, rfl⟩
    exact hstart (by rw [Nat.add_sub_cancel_left, Nat.mul_mod_left])
  · rw [if_neg hstart]
    have hoffset : (ptr - s.pool.buffer) / s.pool.objSize * s.pool.objSize =
        ptr - s.pool.buffer := Nat.div_mul_cancel (Nat.dvd_of_mod_eq_zero (not_not.mp hstart))
    refine Or.inl ⟨(ptr - s.pool.buffer) / s.pool.objSize, ⟨?_, ?_⟩, ?_⟩
    · rw [Nat.div_lt_iff_lt_mul hpos]
      omega
    · rw [hoffset]
      omega
    · rw [HeapPool.setLink, hoffset]

theorem step_alloc_of_noSlot (h : s.pool.freeHead = noSlot) : s.step host .alloc = s := by
  simp [PoolState.step, HeapPool.alloc, h]

theorem step_alloc (hpos : 0 < s.pool.objSize) (hne : s.pool.freeHead ≠ noSlot) :
    s.step host .alloc =
      ⟨(s.pool.alloc host).2, insert s.pool.freeHead.toNat s.inUse⟩ := by
  simp [PoolState.step, HeapPool.alloc, hne, Nat.mul_div_cancel _ hpos]

/-- Different slots have different addresses. -/
theorem filter_address (hpos : 0 < s.pool.objSize) (i : ℕ) :
    (s.inUse.filter fun j => some (s.pool.buffer + i * s.pool.objSize) ≠
      some (s.pool.buffer + j * s.pool.objSize)) = s.inUse.erase i := by
  ext j
  rw [Finset.mem_filter, Finset.mem_erase, and_comm]
  refine and_congr_left fun _ => not_congr ?_
  rw [Option.some.injEq, Nat.add_left_cancel_iff, Nat.mul_left_inj hpos.ne', eq_comm]

/-- **One event keeps the invariant.** -/
theorem Inv.step (h : s.Inv host) {event : PoolEvent} (hlegal : s.Legal event) :
    (s.step host event).Inv host := by
  have hpos : 0 < s.pool.objSize := Nat.lt_of_lt_of_le (by decide) h.size
  cases event with
  | alloc =>
      by_cases hnone : s.pool.freeHead = noSlot
      · rwa [step_alloc_of_noSlot hnone]
      · rw [step_alloc hpos hnone]
        exact (h.alloc hnone).2.2
  | free ptr =>
      cases ptr with
      | none =>
          have hstep : s.step host (.free none) = s := by
            simp [PoolState.step, HeapPool.free]
          rwa [hstep]
      | some ptr =>
          obtain ⟨free, hfree⟩ := h.free
          rw [PoolState.step]
          rcases free_cases host hpos ptr with ⟨i, hslot, hpool⟩ | ⟨hno, hpool⟩
          · rw [hpool, hslot.2, filter_address hpos]
            exact h.free_slot (hlegal i ptr rfl hslot)
          · have hkeep : (s.inUse.filter fun j =>
                some ptr ≠ some (s.pool.buffer + j * s.pool.objSize)) = s.inUse := by
              refine Finset.filter_true_of_mem fun j hj heq => hno j ?_
              exact ⟨Finset.mem_range.mp (hfree.subset hj), Option.some.inj heq⟩
            rw [hpool, hkeep]
            exact h
  | write offset byte =>
      obtain ⟨free, hfree⟩ := h.free
      refine ⟨h.size, free, hfree.frame fun j hj => ?_⟩
      apply linkOf_write_of_ne h.size
      · exact Nat.mod_lt offset hpos
      · exact fun heq => hj (heq ▸ hlegal)

/-- Size, capacity and place of a pool never change. -/
theorem shape_step (host : Endian) (s : PoolState) (event : PoolEvent) :
    (s.step host event).pool.objSize = s.pool.objSize ∧
      (s.step host event).pool.capacity = s.pool.capacity ∧
      (s.step host event).pool.buffer = s.pool.buffer := by
  cases event with
  | alloc =>
      unfold PoolState.step HeapPool.alloc
      split_ifs <;> exact ⟨rfl, rfl, rfl⟩
  | free ptr =>
      unfold PoolState.step HeapPool.free
      cases ptr with
      | none => exact ⟨rfl, rfl, rfl⟩
      | some ptr =>
          simp only
          split_ifs <;> exact ⟨rfl, rfl, rfl⟩
  | write offset byte => exact ⟨rfl, rfl, rfl⟩

theorem Reachable.inv {start : PoolState} (h : Reachable host start s) (hstart : start.Inv host) :
    s.Inv host := by
  induction h with
  | refl => exact hstart
  | step event _ hlegal ih => exact ih.step hlegal

theorem Reachable.shape {start : PoolState} (h : Reachable host start s) :
    s.pool.objSize = start.pool.objSize ∧ s.pool.capacity = start.pool.capacity ∧
      s.pool.buffer = start.pool.buffer := by
  induction h with
  | refl => exact ⟨rfl, rfl, rfl⟩
  | @step s event _ _ ih =>
      obtain ⟨hsize, hcap, hbuffer⟩ := shape_step host s event
      exact ⟨hsize.trans ih.1, hcap.trans ih.2.1, hbuffer.trans ih.2.2⟩

/-! ## What follows from it -/

/-- The loop of `dmmr_heap_pool_used` counts the free list. -/
theorem usedLoop_eq (host : Endian) (pool : HeapPool) (fuel : ℕ) (idx : UInt32) (n : ℕ) :
    pool.usedLoop host fuel idx (UInt32.ofNat n) =
      (count (linkOf host pool.objSize pool.memory) noSlot.toNat fuel idx.toNat n).map
        UInt32.ofNat := by
  induction fuel generalizing idx n with
  | zero => rfl
  | succ fuel ih =>
      rw [HeapPool.usedLoop, count]
      by_cases hend : idx = noSlot
      · rw [if_pos hend, if_pos (congrArg UInt32.toNat hend)]
        rfl
      · rw [if_neg hend, if_neg fun heq => hend (UInt32.toNat_inj.mp heq)]
        have hnext : UInt32.ofNat n + 1 = UInt32.ofNat (n + 1) := by simp
        rw [hnext, ih]
        rfl

theorem Inv.used (h : s.Inv host) {fuel : ℕ} (hfuel : s.pool.capacity.toNat < fuel) :
    s.pool.used host fuel = some (UInt32.ofNat s.inUse.card) := by
  obtain ⟨free, hfree⟩ := h.free
  have hle : s.inUse.card ≤ s.pool.capacity.toNat := by
    have := Finset.card_le_card hfree.subset
    rwa [Finset.card_range] at this
  have hcount := hfree.count_eq ((Finset.card_range _).trans_lt hfuel)
  rw [Finset.card_range] at hcount
  have hloop := usedLoop_eq host s.pool fuel s.pool.freeHead 0
  rw [hcount] at hloop
  have hzero : (UInt32.ofNat 0 : UInt32) = 0 := rfl
  rw [HeapPool.used, ← hzero, hloop]
  simp only [Option.map_some]
  congr 1
  rw [UInt32.ofNat_sub hle, UInt32.ofNat_toNat]
  generalize UInt32.ofNat s.inUse.card = n
  calc s.pool.capacity - (s.pool.capacity - n)
      = s.pool.capacity - n + n - (s.pool.capacity - n) := by rw [UInt32.sub_add_cancel]
    _ = n := by rw [UInt32.add_comm, UInt32.add_sub_cancel]

end PoolState

/-- What holds of a pool after any legal run: the free list has just the slots that are
not handed out; a slot that is in use is not handed out again; there is none to hand out
exactly when all are in use; and `dmmr_heap_pool_used` comes to an end with their
number. -/
structure PoolSound (host : Endian) (s : PoolState) : Prop where
  freeList : ∃ free : List ℕ, Chain (fun i => (s.pool.link host i).toNat) noSlot.toNat
    s.pool.freeHead.toNat free ∧ free.Nodup ∧
      ∀ i, i ∈ free ↔ i < s.pool.capacity.toNat ∧ i ∉ s.inUse
  exclusive : ∀ ptr, (s.pool.alloc host).1 = some ptr → ∃ i, s.IsSlot i ptr ∧ i ∉ s.inUse
  exhausted : (s.pool.alloc host).1 = none ↔ s.inUse.card = s.pool.capacity.toNat
  used : ∀ fuel, s.pool.capacity.toNat < fuel →
    s.pool.used host fuel = some (UInt32.ofNat s.inUse.card)

theorem PoolState.Inv.sound {host : Endian} {s : PoolState} (h : s.Inv host) :
    PoolSound host s := by
  obtain ⟨free, hfree⟩ := h.free
  refine ⟨⟨free, hfree.chain, hfree.nodup, ?_⟩, ?_, ?_, fun fuel hfuel => h.used hfuel⟩
  · intro i
    rw [hfree.mem_iff, Finset.mem_range]
  · intro ptr hptr
    by_cases hnone : s.pool.freeHead = noSlot
    · rw [HeapPool.alloc, if_pos hnone] at hptr
      exact absurd hptr (by simp)
    · rw [HeapPool.alloc, if_neg hnone] at hptr
      obtain ⟨hlt, hnew, -⟩ := h.alloc hnone
      exact ⟨s.pool.freeHead.toNat, ⟨hlt, (Option.some.inj hptr).symm⟩, hnew⟩
  · have hiff := hfree.head_eq_nil_iff
    rw [Finset.card_range, UInt32.toNat_inj] at hiff
    rw [← hiff, HeapPool.alloc]
    split_ifs with hnone
    · exact iff_of_true rfl hnone
    · exact iff_of_false (by simp) hnone

/-- **The pool invariant.**  A pool can be made with any size that has room for an index
and any capacity that is not zero, and it is sound after every legal run. -/
theorem heapPool_invariant (host : Endian) {objSize : ℕ} {capacity : UInt32}
    (hsize : 4 ≤ objSize) (hcap : capacity ≠ 0) (buffer : ℕ) :
    ∃ pool, HeapPool.init host objSize capacity (some buffer) = some pool ∧
      ∀ s, PoolState.Reachable host ⟨pool, ∅⟩ s → s.pool.objSize = objSize ∧
        s.pool.capacity = capacity ∧ s.pool.buffer = buffer ∧ PoolSound host s := by
  obtain ⟨pool, hpool, rfl, rfl, rfl, hinv⟩ := HeapPool.inv_init host hsize hcap buffer
  refine ⟨pool, hpool, fun s hs => ?_⟩
  obtain ⟨hobj, hcapacity, hbuffer⟩ := hs.shape
  exact ⟨hobj, hcapacity, hbuffer, (hs.inv hinv).sound⟩

/-- Slots of eight bytes, two of them. -/
theorem heapPool_invariant_twoSlots :
    4 ≤ 8 ∧ (2 : UInt32) ≠ 0 ∧
      ∃ pool, HeapPool.init .little 8 2 (some 4096) = some pool ∧
        ∀ s, PoolState.Reachable .little ⟨pool, ∅⟩ s → s.pool.objSize = 8 ∧
          s.pool.capacity = 2 ∧ s.pool.buffer = 4096 ∧ PoolSound .little s :=
  ⟨by decide, by decide, heapPool_invariant .little (by decide) (by decide) 4096⟩

end Dmmr.Pool
