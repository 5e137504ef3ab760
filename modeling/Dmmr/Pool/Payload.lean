import Dmmr.Store.Entry
import Mathlib.Data.Finset.Filter
import Mathlib.Data.Finset.Insert

/-!
# Payload buffers: `dmmr_pool.c`

A worker reads the payload of a request into a buffer from a pool.  Buffers are reused
and grow when a request needs more; a buffer is cleared when it is released, but only
as far as the last request has used it, and one that has grown beyond 64 KiB is given
back to the system.

That the rest of the buffer is clear as well is a matter of its history.  A buffer that
is handed out without growing was clear altogether, and one that has grown is used to
its last byte.  So in both cases there is nothing but zeros behind `len`
(`PayloadBuf.Held`), and release leaves a clear buffer (`PayloadBuf.Clean`).
-/

namespace Dmmr.Pool

open Words Store

/-! ## Buffers -/

/-- `PAYLOAD_RETAIN_LIMIT`. -/
def payloadRetainLimit : ℕ := 64 * 1024

/-- `POOL_INITIAL_SIZE`. -/
def poolInitialSize : ℕ := 0x400

/-- `struct payload_buf`, with the content of the block `data` points to. -/
structure PayloadBuf where
  inUse : Bool
  data : Option Bytes
  len : ℕ
  capacity : ℕ

/-- An entry of a chunk that `calloc` has returned. -/
def PayloadBuf.zero : PayloadBuf := ⟨false, none, 0, 0⟩

/-- The payload buffers: how many chunks there are, their entries, numbered through,
and the free list. -/
structure PayloadPool where
  chunks : ℕ
  entries : ℕ → PayloadBuf
  free : List ℕ

/-- What the allocations in `get_payload_buf` return, and what new memory happens to
hold. -/
structure GetEnv where
  callocOk : Bool
  reallocOk : Bool
  fresh : ℕ → UInt8

/-- `realloc` to `n` bytes: the old content, and then whatever is there. -/
def realloc (old : Option Bytes) (n : ℕ) (fresh : ℕ → UInt8) : Bytes :=
  (List.range n).map fun o => (old.getD []).getD o (fresh o)

/-- `memset` of the first `n` bytes to zero. -/
def clearFirst (n : ℕ) (block : Bytes) : Bytes := List.replicate n 0 ++ block.drop n

namespace PayloadPool

/-- The static variables before `init_pools`. -/
def empty : PayloadPool := ⟨0, fun _ => .zero, []⟩

/-- `add_payload_chunk`. -/
def addPayloadChunk (pool : PayloadPool) (callocOk : Bool) : Option PayloadPool :=
  if !callocOk then none
  else
    let first := pool.chunks * poolInitialSize
    some
      { chunks := pool.chunks + 1
        entries := fun i => if first ≤ i ∧ i < first + poolInitialSize then .zero
          else pool.entries i
        free := pool.free ++ List.range' first poolInitialSize }

/-- `get_payload_buf` once the free list has been seen to. -/
def takeFirst (pool : PayloadPool) (env : GetEnv) (required : ℕ) : Option ℕ × PayloadPool :=
  match pool.free with
  | [] => (none, pool)
  | i :: rest =>
      let ret := pool.entries i
      if ret.capacity < required then
        if !env.reallocOk then (none, { pool with free := rest ++ [i] })
        else
          (some i,
            { pool with
              free := rest
              entries := Function.update pool.entries i
                ⟨true, some (realloc ret.data required env.fresh), required, required⟩ })
      else
        (some i,
          { pool with
            free := rest
            entries := Function.update pool.entries i { ret with inUse := true, len := required } })

/-- `get_payload_buf`: the entry returned, if any. -/
def getPayloadBuf (pool : PayloadPool) (env : GetEnv) (required : ℕ) : Option ℕ × PayloadPool :=
  if required = 0 ∨ required > maxKeyLen + maxValueLen then (none, pool)
  else if pool.free = [] then
    match pool.addPayloadChunk env.callocOk with
    | none => (none, pool)
    | some pool => pool.takeFirst env required
  else pool.takeFirst env required

/-- The entry as `release_payload_buf` leaves it. -/
def released (p : PayloadBuf) : PayloadBuf :=
  let data := if p.len > 0 then p.data.map (clearFirst p.len) else p.data
  if p.capacity > payloadRetainLimit then ⟨false, none, 0, 0⟩ else ⟨false, data, 0, p.capacity⟩

/-- `release_payload_buf`. -/
def releasePayloadBuf (pool : PayloadPool) (p : Option ℕ) : PayloadPool :=
  match p with
  | none => pool
  | some i =>
      { pool with
        entries := Function.update pool.entries i (released (pool.entries i))
        free := pool.free ++ [i] }

/-- A holder writes a byte. -/
def writeByte (pool : PayloadPool) (i offset : ℕ) (byte : UInt8) : PayloadPool :=
  let buf := pool.entries i
  { pool with
    entries := Function.update pool.entries i
      { buf with data := buf.data.map fun block => block.set offset byte } }

/-- `init_pools`. -/
def initPools (callocOk : Bool) : Option PayloadPool := empty.addPayloadChunk callocOk

end PayloadPool

/-! ## Runs -/

/-- What can happen to the pool. -/
inductive PayloadEvent where
  | get (env : GetEnv) (required : ℕ)
  | release (p : Option ℕ)
  | write (i offset : ℕ) (byte : UInt8)

/-- A pool, and the entries that are handed out. -/
structure PayloadState where
  pool : PayloadPool
  held : Finset ℕ

namespace PayloadState

/-- A buffer is released once for each time it is handed out, and a holder keeps to the
bytes that were asked for. -/
def Legal (s : PayloadState) : PayloadEvent → Prop
  | .get _ _ => True
  | .release p => ∀ i, p = some i → i ∈ s.held
  | .write i offset _ => i ∈ s.held ∧ offset < (s.pool.entries i).len

def step (s : PayloadState) : PayloadEvent → PayloadState
  | .get env required =>
      match s.pool.getPayloadBuf env required with
      | (none, pool) => ⟨pool, s.held⟩
      | (some i, pool) => ⟨pool, insert i s.held⟩
  | .release p => ⟨s.pool.releasePayloadBuf p, s.held.filter fun i => p ≠ some i⟩
  | .write i offset byte => ⟨s.pool.writeByte i offset byte, s.held⟩

/-- What legal events lead to, from the pool `init_pools` has made. -/
inductive Reachable : PayloadState → Prop
  | init {pool : PayloadPool} (h : PayloadPool.initPools true = some pool) :
      Reachable ⟨pool, ∅⟩
  | step {s : PayloadState} (event : PayloadEvent) (h : Reachable s) (hlegal : s.Legal event) :
      Reachable (s.step event)

end PayloadState

/-! ## The invariant -/

/-- A buffer nobody holds has no block, or one that is not large and has nothing but
zeros. -/
def PayloadBuf.Clean (b : PayloadBuf) : Prop :=
  b.inUse = false ∧ (b.data = none ∧ b.capacity = 0 ∨
    b.data = some (List.replicate b.capacity 0) ∧ b.capacity ≤ payloadRetainLimit)

/-- A buffer somebody holds has nothing but zeros behind the bytes asked for. -/
def PayloadBuf.Held (b : PayloadBuf) : Prop :=
  b.inUse = true ∧ 0 < b.len ∧ b.len ≤ b.capacity ∧
    ∃ block, b.data = some block ∧ block.length = b.capacity ∧
      block.drop b.len = List.replicate (b.capacity - b.len) 0

theorem PayloadBuf.clean_zero : PayloadBuf.zero.Clean := ⟨rfl, Or.inl ⟨rfl, rfl⟩⟩

theorem length_realloc (old : Option Bytes) (n : ℕ) (fresh : ℕ → UInt8) :
    (realloc old n fresh).length = n := by
  simp [realloc]

/-- A buffer that has to grow is used to its end. -/
theorem PayloadBuf.held_grown (data : Option Bytes) {required : ℕ} (hpos : required ≠ 0)
    (fresh : ℕ → UInt8) :
    PayloadBuf.Held ⟨true, some (realloc data required fresh), required, required⟩ := by
  refine ⟨rfl, Nat.pos_of_ne_zero hpos, le_rfl, _, rfl, length_realloc .., ?_⟩
  rw [List.drop_of_length_le (length_realloc ..).le, Nat.sub_self, List.replicate_zero]

/-- One that is large enough is clean. -/
theorem PayloadBuf.Clean.held {b : PayloadBuf} (h : b.Clean) {required : ℕ} (hpos : required ≠ 0)
    (hle : required ≤ b.capacity) : PayloadBuf.Held { b with inUse := true, len := required } := by
  rcases h.2 with ⟨-, hzero⟩ | ⟨hdata, -⟩
  · omega
  · refine ⟨rfl, Nat.pos_of_ne_zero hpos, hle, _, hdata, List.length_replicate, ?_⟩
    exact List.drop_replicate

/-- Release leaves a clean buffer. -/
theorem PayloadBuf.Held.released {b : PayloadBuf} (h : b.Held) :
    (PayloadPool.released b).Clean := by
  obtain ⟨-, hpos, hle, block, hdata, hlen, htail⟩ := h
  unfold PayloadPool.released
  by_cases hlarge : b.capacity > payloadRetainLimit
  · simp only [if_pos hlarge]
    exact ⟨rfl, Or.inl ⟨rfl, rfl⟩⟩
  · simp only [if_neg hlarge, if_pos hpos, hdata, Option.map_some]
    refine ⟨rfl, Or.inr ⟨?_, not_lt.mp hlarge⟩⟩
    rw [clearFirst, htail, List.replicate_append_replicate, Nat.add_sub_cancel' hle]

/-- A byte written where it may be leaves the rest alone. -/
theorem PayloadBuf.Held.write {b : PayloadBuf} (h : b.Held) {offset : ℕ} (hoffset : offset < b.len)
    (byte : UInt8) :
    PayloadBuf.Held { b with data := b.data.map fun block => block.set offset byte } := by
  obtain ⟨huse, hpos, hle, block, hdata, hlen, htail⟩ := h
  refine ⟨huse, hpos, hle, block.set offset byte, ?_, ?_, ?_⟩
  · simp only [hdata, Option.map_some]
  · rw [List.length_set, hlen]
  · rw [List.drop_set_of_lt hoffset, htail]

/-- Free buffers are clean, and no buffer is free twice, or free and held. -/
structure PayloadState.Inv (s : PayloadState) : Prop where
  nodup : s.pool.free.Nodup
  free_lt : ∀ i ∈ s.pool.free, i < s.pool.chunks * poolInitialSize
  held_lt : ∀ i ∈ s.held, i < s.pool.chunks * poolInitialSize
  disjoint : ∀ i ∈ s.pool.free, i ∉ s.held
  clean : ∀ i ∈ s.pool.free, (s.pool.entries i).Clean
  held : ∀ i ∈ s.held, (s.pool.entries i).Held

namespace PayloadState.Inv

variable {s : PayloadState}

/-- A new chunk is free and clean, and its entries are not among the old ones. -/
theorem addPayloadChunk (h : s.Inv) {callocOk : Bool} {pool : PayloadPool}
    (hadd : s.pool.addPayloadChunk callocOk = some pool) : PayloadState.Inv ⟨pool, s.held⟩ := by
  unfold PayloadPool.addPayloadChunk at hadd
  split at hadd
  · exact absurd hadd nofun
  have hpool := (Option.some.inj hadd).symm
  subst hpool
  have hnext : (s.pool.chunks + 1) * poolInitialSize
      = s.pool.chunks * poolInitialSize + poolInitialSize := Nat.succ_mul ..
  have hold : ∀ i < s.pool.chunks * poolInitialSize,
      ¬(s.pool.chunks * poolInitialSize ≤ i
        ∧ i < s.pool.chunks * poolInitialSize + poolInitialSize) := by omega
  constructor
  · refine List.nodup_append.mpr ⟨h.nodup, List.nodup_range', ?_⟩
    rintro i hi j hj rfl
    have := h.free_lt i hi
    have := List.mem_range'_1.mp hj
    omega
  · intro i hi
    rcases List.mem_append.mp hi with hi | hi
    · have := h.free_lt i hi
      show i < (s.pool.chunks + 1) * poolInitialSize
      omega
    · have := List.mem_range'_1.mp hi
      show i < (s.pool.chunks + 1) * poolInitialSize
      omega
  · intro i hi
    have := h.held_lt i hi
    show i < (s.pool.chunks + 1) * poolInitialSize
    omega
  · intro i hi hheld
    rcases List.mem_append.mp hi with hi | hi
    · exact h.disjoint i hi hheld
    · have := List.mem_range'_1.mp hi
      have := h.held_lt i hheld
      omega
  · intro i hi
    rcases List.mem_append.mp hi with hi | hi
    · simp only [if_neg (hold i (h.free_lt i hi))]
      exact h.clean i hi
    · simp only [if_pos (List.mem_range'_1.mp hi)]
      exact PayloadBuf.clean_zero
  · intro i hi
    simp only [if_neg (hold i (h.held_lt i hi))]
    exact h.held i hi

/-- An entry that is free moves to the end of the list. -/
theorem putBack (h : s.Inv) {i : ℕ} {rest : List ℕ} (hfree : s.pool.free = i :: rest) :
    PayloadState.Inv ⟨{ s.pool with free := rest ++ [i] }, s.held⟩ := by
  have hperm : (rest ++ [i]).Perm s.pool.free := hfree ▸ List.perm_append_singleton i rest
  exact
    { nodup := hperm.nodup_iff.mpr h.nodup
      free_lt := fun j hj => h.free_lt j (hperm.mem_iff.mp hj)
      held_lt := h.held_lt
      disjoint := fun j hj => h.disjoint j (hperm.mem_iff.mp hj)
      clean := fun j hj => h.clean j (hperm.mem_iff.mp hj)
      held := h.held }

/-- The first free entry is handed out. -/
theorem handOut (h : s.Inv) {i : ℕ} {rest : List ℕ} (hfree : s.pool.free = i :: rest)
    {buf : PayloadBuf} (hbuf : buf.Held) :
    PayloadState.Inv ⟨{ s.pool with free := rest, entries := Function.update s.pool.entries i buf },
      insert i s.held⟩ := by
  have hnodup : i ∉ rest ∧ rest.Nodup := List.nodup_cons.mp (hfree ▸ h.nodup)
  have hmem : ∀ j ∈ rest, j ∈ s.pool.free := fun j hj => hfree ▸ List.mem_cons_of_mem i hj
  have hi : i ∈ s.pool.free := hfree ▸ List.mem_cons_self
  have hne : ∀ j ∈ rest, j ≠ i := fun j hj hji => hnodup.1 (hji ▸ hj)
  constructor
  · exact hnodup.2
  · exact fun j hj => h.free_lt j (hmem j hj)
  · intro j hj
    rcases Finset.mem_insert.mp hj with rfl | hj
    · exact h.free_lt j hi
    · exact h.held_lt j hj
  · intro j hj hheld
    rcases Finset.mem_insert.mp hheld with hji | hheld
    · exact hne j hj hji
    · exact h.disjoint j (hmem j hj) hheld
  · intro j hj
    simp only [Function.update_of_ne (hne j hj)]
    exact h.clean j (hmem j hj)
  · intro j hj
    by_cases hji : j = i
    · subst hji
      simpa only [Function.update_self] using hbuf
    · simp only [Function.update_of_ne hji]
      exact h.held j ((Finset.mem_insert.mp hj).resolve_left hji)

/-- A held entry comes back. -/
theorem takeBack (h : s.Inv) {i : ℕ} (hi : i ∈ s.held) {buf : PayloadBuf} (hbuf : buf.Clean) :
    PayloadState.Inv ⟨{ s.pool with
      entries := Function.update s.pool.entries i buf, free := s.pool.free ++ [i] },
      s.held.filter fun j => some i ≠ some j⟩ := by
  have hfree : i ∉ s.pool.free := fun hmem => h.disjoint i hmem hi
  have hheld : ∀ j, j ∈ s.held.filter (fun j => some i ≠ some j) ↔ j ∈ s.held ∧ j ≠ i := by
    intro j
    simp [eq_comm]
  have hmem : ∀ j, j ∈ s.pool.free ++ [i] ↔ j ∈ s.pool.free ∨ j = i := by
    intro j
    simp
  constructor
  · exact List.nodup_append.mpr ⟨h.nodup, List.nodup_singleton i,
      fun j hj k hk hjk => hfree (List.mem_singleton.mp hk ▸ hjk ▸ hj)⟩
  · intro j hj
    rcases (hmem j).mp hj with hj | rfl
    · exact h.free_lt j hj
    · exact h.held_lt j hi
  · exact fun j hj => h.held_lt j ((hheld j).mp hj).1
  · intro j hj hj'
    obtain ⟨hj', hne⟩ := (hheld j).mp hj'
    rcases (hmem j).mp hj with hj | hj
    · exact h.disjoint j hj hj'
    · exact hne hj
  · intro j hj
    rcases (hmem j).mp hj with hj | rfl
    · have hne : j ≠ i := fun hji => hfree (hji ▸ hj)
      simp only [Function.update_of_ne hne]
      exact h.clean j hj
    · simpa only [Function.update_self] using hbuf
  · intro j hj
    obtain ⟨hj, hne⟩ := (hheld j).mp hj
    simp only [Function.update_of_ne hne]
    exact h.held j hj

/-- A held entry changes and stays held. -/
theorem modify (h : s.Inv) {i : ℕ} (hi : i ∈ s.held) {buf : PayloadBuf} (hbuf : buf.Held) :
    PayloadState.Inv ⟨{ s.pool with entries := Function.update s.pool.entries i buf }, s.held⟩ := by
  have hfree : i ∉ s.pool.free := fun hmem => h.disjoint i hmem hi
  refine ⟨h.nodup, h.free_lt, h.held_lt, h.disjoint, ?_, ?_⟩
  · intro j hj
    have hne : j ≠ i := fun hji => hfree (hji ▸ hj)
    simp only [Function.update_of_ne hne]
    exact h.clean j hj
  · intro j hj
    by_cases hji : j = i
    · subst hji
      simpa only [Function.update_self] using hbuf
    · simp only [Function.update_of_ne hji]
      exact h.held j hj

end PayloadState.Inv

/-! ## What is handed out -/

/-- What a call of `get_payload_buf` has done: nothing was handed out, or an entry that
was free and is as large as asked for, with zeros and new memory in it. -/
inductive Got (held : Finset ℕ) (env : GetEnv) (required : ℕ) : Option ℕ × PayloadPool → Prop
  | refused {pool : PayloadPool} (hinv : PayloadState.Inv ⟨pool, held⟩) :
      Got held env required (none, pool)
  | handed {i : ℕ} {pool : PayloadPool} (block : Bytes)
      (hinv : PayloadState.Inv ⟨pool, insert i held⟩) (hnew : i ∉ held)
      (hcapacity : required ≤ (pool.entries i).capacity)
      (hdata : (pool.entries i).data = some block)
      (hlength : block.length = (pool.entries i).capacity)
      (hblock : ∀ o < block.length, block[o]? = some 0 ∨ block[o]? = some (env.fresh o)) :
      Got held env required (some i, pool)

/-- What `realloc` returns for a clean buffer: the old bytes are zero. -/
theorem PayloadBuf.Clean.realloc_getElem? {b : PayloadBuf} (h : b.Clean) {required o : ℕ}
    (ho : o < required) (fresh : ℕ → UInt8) :
    (realloc b.data required fresh)[o]? = some 0
      ∨ (realloc b.data required fresh)[o]? = some (fresh o) := by
  have hget : (realloc b.data required fresh)[o]? = some ((b.data.getD []).getD o (fresh o)) := by
    simp [realloc, ho]
  rw [hget]
  rcases h.2 with ⟨hnone, -⟩ | ⟨hsome, -⟩
  · right
    simp [hnone]
  · rw [hsome, Option.getD_some]
    by_cases hlt : o < b.capacity
    · left
      simp [List.getD, hlt]
    · right
      simp [List.getD, hlt]

theorem PayloadState.Inv.got_takeFirst {s : PayloadState} (h : s.Inv) (env : GetEnv)
    {required : ℕ} (hpos : required ≠ 0) :
    Got s.held env required (s.pool.takeFirst env required) := by
  unfold PayloadPool.takeFirst
  split
  next => exact .refused h
  next i rest hfree =>
    have hi : i ∈ s.pool.free := hfree ▸ List.mem_cons_self
    have hclean := h.clean i hi
    dsimp only
    split_ifs with hsmall hfail
    · exact .refused (h.putBack hfree)
    · refine .handed (realloc (s.pool.entries i).data required env.fresh)
        (h.handOut hfree (PayloadBuf.held_grown _ hpos _)) (h.disjoint i hi) ?_ ?_ ?_ ?_
      · simp
      · simp
      · simp [length_realloc]
      · intro o ho
        exact hclean.realloc_getElem? (by rwa [length_realloc] at ho) _
    · have hle : required ≤ (s.pool.entries i).capacity := not_lt.mp hsmall
      have hdata : (s.pool.entries i).data
          = some (List.replicate (s.pool.entries i).capacity 0) := by
        rcases hclean.2 with ⟨-, hzero⟩ | ⟨hdata, -⟩
        · omega
        · exact hdata
      refine .handed (List.replicate (s.pool.entries i).capacity 0)
        (h.handOut hfree (hclean.held hpos hle)) (h.disjoint i hi) ?_ ?_ ?_ ?_
      · simpa using hle
      · simpa using hdata
      · simp
      · intro o ho
        left
        rw [List.length_replicate] at ho
        rw [List.getElem?_replicate, if_pos ho]

theorem PayloadState.Inv.got {s : PayloadState} (h : s.Inv) (env : GetEnv) (required : ℕ) :
    Got s.held env required (s.pool.getPayloadBuf env required) := by
  unfold PayloadPool.getPayloadBuf
  split_ifs with hrange hfree
  · exact .refused h
  · split
    next => exact .refused h
    next pool hadd =>
      -- the entry comes from the new chunk, but nobody else's entries have changed
      exact (h.addPayloadChunk hadd).got_takeFirst env (by tauto)
  · exact h.got_takeFirst env (by tauto)

/-! ## Whole runs -/

namespace PayloadState

theorem Inv.empty : Inv ⟨PayloadPool.empty, ∅⟩ where
  nodup := List.nodup_nil
  free_lt := nofun
  held_lt := fun _ hi => absurd hi (Finset.notMem_empty _)
  disjoint := nofun
  clean := nofun
  held := fun _ hi => absurd hi (Finset.notMem_empty _)

theorem Inv.step {s : PayloadState} (h : s.Inv) {event : PayloadEvent} (hlegal : s.Legal event) :
    (s.step event).Inv := by
  cases event with
  | get env required =>
      have hgot := h.got env required
      simp only [PayloadState.step]
      generalize s.pool.getPayloadBuf env required = result at hgot ⊢
      cases hgot with
      | refused hinv => exact hinv
      | handed _ hinv _ _ _ _ => exact hinv
  | release p =>
      cases p with
      | none => simpa [PayloadState.step, PayloadPool.releasePayloadBuf] using h
      | some i =>
          have hi : i ∈ s.held := hlegal i rfl
          exact h.takeBack hi (h.held i hi).released
  | write i offset byte =>
      obtain ⟨hi, hoffset⟩ := hlegal
      exact h.modify hi ((h.held i hi).write hoffset byte)

theorem Reachable.inv {s : PayloadState} (h : Reachable s) : s.Inv := by
  induction h with
  | init hinit => exact Inv.empty.addPayloadChunk hinit
  | step event _ hlegal ih => exact ih.step hlegal

/-- Buffers are exclusive, large enough and clean. -/
structure Sound (s : PayloadState) : Prop where
  nodup : s.pool.free.Nodup
  free_or_held : ∀ i ∈ s.pool.free, (s.pool.entries i).inUse = false ∧ i ∉ s.held
  inUse : ∀ i ∈ s.held, (s.pool.entries i).inUse = true
  /-- All the bytes of a free buffer are zero, not only those last used. -/
  clean : ∀ i ∈ s.pool.free, (s.pool.entries i).data = none ∨
    ∃ block, (s.pool.entries i).data = some block ∧ block.length = (s.pool.entries i).capacity ∧
      block.length ≤ 64 * 1024 ∧ ∀ byte ∈ block, byte = 0
  /-- Whoever gets a buffer finds zeros in it, or what new memory happened to hold. -/
  handed : ∀ (env : GetEnv) (required i : ℕ) (pool : PayloadPool),
    s.pool.getPayloadBuf env required = (some i, pool) →
      i ∉ s.held ∧ required ≤ (pool.entries i).capacity ∧
        ∃ block, (pool.entries i).data = some block ∧
          block.length = (pool.entries i).capacity ∧
          ∀ o < block.length, block[o]? = some 0 ∨ block[o]? = some (env.fresh o)

theorem Inv.clean_block {s : PayloadState} (h : s.Inv) {i : ℕ} (hi : i ∈ s.pool.free) :
    (s.pool.entries i).data = none ∨
      ∃ block, (s.pool.entries i).data = some block ∧
        block.length = (s.pool.entries i).capacity ∧ block.length ≤ 64 * 1024 ∧
        ∀ byte ∈ block, byte = 0 := by
  rcases (h.clean i hi).2 with ⟨hnone, -⟩ | ⟨hsome, hle⟩
  · exact Or.inl hnone
  · refine Or.inr ⟨_, hsome, List.length_replicate, ?_, fun byte hbyte => ?_⟩
    · rw [List.length_replicate]
      exact hle
    · exact List.eq_of_mem_replicate hbyte

end PayloadState

/-- The pool hands out clean buffers, each to one holder, whatever the holders write. -/
theorem payloadPool_clean {s : PayloadState} (h : s.Reachable) : s.Sound := by
  have hinv := h.inv
  refine ⟨hinv.nodup, ?_, ?_, fun i hi => hinv.clean_block hi, ?_⟩
  · exact fun i hi => ⟨(hinv.clean i hi).1, hinv.disjoint i hi⟩
  · exact fun i hi => (hinv.held i hi).1
  · intro env required i pool hget
    have hgot := hinv.got env required
    rw [hget] at hgot
    cases hgot with
    | handed block _ hnew hcapacity hdata hlength hblock =>
        exact ⟨hnew, hcapacity, block, hdata, hlength, hblock⟩

/-- A buffer that was written to and released. -/
theorem payloadPool_clean_reused :
    ∃ pool, PayloadPool.initPools true = some pool ∧
      (((PayloadState.mk pool ∅).step (.get ⟨true, true, fun _ => 7⟩ 3)).step (.write 0 1 9)
        |>.step (.release (some 0))).Sound := by
  have hinit : PayloadPool.initPools true = some _ := rfl
  refine ⟨_, hinit, payloadPool_clean (.step _ (.step _ (.step _ (.init hinit) trivial) ?_) ?_)⟩
  · exact ⟨by decide, by decide⟩
  · rintro i ⟨⟩
    decide

end Dmmr.Pool
