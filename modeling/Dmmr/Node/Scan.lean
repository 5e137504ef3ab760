import Dmmr.Store.Record

/-!
# The expiry scan: `scan_expired_entries`

The scan walks a persistent cursor over the database, at most
`TTL_SCAN_CHUNK_SIZE` records a call and starting over at the end, and appends
to the deletion queue the key of every record whose `expire_at` lies in the
past.  What the cursor calls and the allocator do is an input (`ScanCall`).

`mem_scanExpiredEntries` is all the rest of the development uses: a queued key
belongs to a record that had expired when the scan read the clock.
-/

namespace Dmmr.Node

open Words Store

/-- `TTL_SCAN_CHUNK_SIZE`. -/
def ttlScanChunkSize : ℕ := 100

/-- What the environment does in one iteration: whether `DB_NEXT` and
`DB_FIRST` succeed, and whether `alloc_del` finds a free slot. -/
structure ScanCall where
  nextOk : Bool
  firstOk : Bool
  allocOk : Bool
  deriving DecidableEq, Repr

/-- Every call succeeds. -/
def ScanCall.ok : ScanCall := ⟨true, true, true⟩

/-- The key queued for one visited record, if it has expired. -/
def scanVisit (host : Endian) (now : UInt64) (call : ScanCall) (key data : Bytes) : List Bytes :=
  if data.length ≥ entrySize then
    if (cacheEntryAt host data).expireAt < now && call.allocOk then [key.take maxKeyLen] else []
  else []

/-- The loop of `scan_expired_entries` with `fuel` iterations left, from cursor
position `pos`: the cursor afterwards (`none` when it was closed) and the keys
queued. -/
def scanLoop (host : Endian) (db : Database) (now : UInt64) (calls : ℕ → ScanCall) :
    ℕ → ℕ → Option Bytes → List Bytes → Option (Option Bytes) × List Bytes
  | 0, _, pos, queued => (some pos, queued)
  | fuel + 1, i, pos, queued =>
      if !(calls i).nextOk then (none, queued)
      else
        match db.next? pos with
        | some (key, data) =>
            scanLoop host db now calls fuel (i + 1) (some key)
              (queued ++ scanVisit host now (calls i) key data)
        | none =>
            if !(calls i).firstOk then (some pos, queued)
            else
              match db.next? none with
              | none => (some pos, queued)
              | some (key, data) =>
                  scanLoop host db now calls fuel (i + 1) (some key)
                    (queued ++ scanVisit host now (calls i) key data)

/-- `scan_expired_entries`: the cursor afterwards and the keys queued.  Without
a cursor one is opened first, which may fail. -/
def scanExpiredEntries (host : Endian) (db : Database) (gcCursor : Option (Option Bytes))
    (cursorOk : Bool) (calls : ℕ → ScanCall) (now : UInt64) :
    Option (Option Bytes) × List Bytes :=
  match gcCursor with
  | none =>
      if !cursorOk then (none, [])
      else scanLoop host db now calls ttlScanChunkSize 0 none []
  | some pos => scanLoop host db now calls ttlScanChunkSize 0 pos []

/-! ## What is queued -/

/-- A key whose record had expired by `now`. -/
def Expired (host : Endian) (db : Database) (now : UInt64) (key : Bytes) : Prop :=
  ∃ k : Key, k.1 = key ∧ ∃ r, contents host db k = some r ∧ r.expireAt < now

variable {host : Endian} {db : Database} {now : UInt64} {calls : ℕ → ScanCall}

theorem expired_of_mem_scanVisit (hwf : WellFormed host db) {call : ScanCall} {key data x : Bytes}
    (hentry : (key, data) ∈ db.entries) (hx : x ∈ scanVisit host now call key data) :
    Expired host db now x := by
  have hget := db.get?_eq_some_iff_mem.mpr hentry
  obtain ⟨hkey, r, rfl⟩ := hwf key data hget
  unfold scanVisit at hx
  split_ifs at hx with hsize hexp
  · rw [cacheEntryAt_blob, Bool.and_eq_true, decide_eq_true_eq] at hexp
    rw [List.mem_singleton, List.take_of_length_le hkey.2] at hx
    refine ⟨⟨key, hkey⟩, hx.symm, r, ?_, hexp.1⟩
    simp [contents, hget]
  · simp at hx
  · simp at hx

theorem mem_entries_of_next? {pos : Option Bytes} {entry : Bytes × Bytes}
    (h : db.next? pos = some entry) : entry ∈ db.entries :=
  List.mem_of_find?_eq_some h

theorem mem_scanLoop (hwf : WellFormed host db) {x : Bytes} :
    ∀ (fuel i : ℕ) (pos : Option Bytes) (queued : List Bytes),
      x ∈ (scanLoop host db now calls fuel i pos queued).2 →
        x ∈ queued ∨ Expired host db now x := by
  intro fuel
  induction fuel with
  | zero => exact fun i pos queued hx => Or.inl hx
  | succ fuel ih =>
      intro i pos queued hx
      -- both branches that go on do so with one visited entry
      have hvisit : ∀ {entry : Bytes × Bytes}, entry ∈ db.entries →
          x ∈ (scanLoop host db now calls fuel (i + 1) (some entry.1)
            (queued ++ scanVisit host now (calls i) entry.1 entry.2)).2 →
          x ∈ queued ∨ Expired host db now x := by
        intro entry hentry hmem
        rcases ih _ _ _ hmem with h | h
        · rcases List.mem_append.mp h with h | h
          · exact Or.inl h
          · exact Or.inr (expired_of_mem_scanVisit hwf hentry h)
        · exact Or.inr h
      unfold scanLoop at hx
      split at hx
      · exact Or.inl hx
      · cases hnext : db.next? pos with
        | some entry =>
            rw [hnext] at hx
            exact hvisit (mem_entries_of_next? hnext) hx
        | none =>
            simp only [hnext] at hx
            split at hx
            · exact Or.inl hx
            · cases hfirst : db.next? none with
              | none =>
                  rw [hfirst] at hx
                  exact Or.inl hx
              | some entry =>
                  rw [hfirst] at hx
                  exact hvisit (mem_entries_of_next? hfirst) hx

/-- **A scan queues only keys of expired records.** -/
theorem mem_scanExpiredEntries (hwf : WellFormed host db) {gcCursor : Option (Option Bytes)}
    {cursorOk : Bool} {x : Bytes}
    (hx : x ∈ (scanExpiredEntries host db gcCursor cursorOk calls now).2) :
    Expired host db now x := by
  have hloop : ∀ pos, x ∈ (scanLoop host db now calls ttlScanChunkSize 0 pos []).2 →
      Expired host db now x := by
    intro pos h
    rcases mem_scanLoop hwf _ _ _ _ h with h | h
    · simp at h
    · exact h
  unfold scanExpiredEntries at hx
  cases gcCursor with
  | none =>
      simp only at hx
      split_ifs at hx
      · simp at hx
      · exact hloop _ hx
  | some pos => exact hloop pos hx

end Dmmr.Node
