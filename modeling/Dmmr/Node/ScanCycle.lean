import Dmmr.Lib.Round
import Dmmr.Node.Scan
import Dmmr.Store.Merge
import Mathlib.Algebra.Order.Floor.Div

/-!
# What a scan visits

`scan_expired_entries` goes round the database: `DB_NEXT` moves its cursor on
and `DB_FIRST` takes it back to the first record from behind the last one, for
`TTL_SCAN_CHUNK_SIZE` records a call.  `scanVisits` are the records it looks at
on the way.

As long as the cursor calls succeed, these are the records of a walk round the
map, from where the last call stopped (`scanVisits_eq_walk`), so enough calls
visit every record (`scan_covers`).  But the walk does not stop where it began.
With fewer records than the chunk has room for, some of them are visited again
within one call, and queued again if they have expired: `queuesOnce_iff` says
when a call queues no key twice.
-/

namespace Dmmr.Node

open Words Store

/-! ## Visits -/

/-- Where the cursor stands; one that is still to be opened comes before the
first record. -/
def cursorPos (gcCursor : Option (Option Bytes)) : Option Bytes := gcCursor.join

/-- The records that `scanLoop` visits. -/
def scanVisits (db : Database) (calls : ℕ → ScanCall) :
    ℕ → ℕ → Option Bytes → List (Bytes × Bytes)
  | 0, _, _ => []
  | fuel + 1, i, pos =>
      if !(calls i).nextOk then []
      else
        match db.next? pos with
        | some entry => entry :: scanVisits db calls fuel (i + 1) (some entry.1)
        | none =>
            if !(calls i).firstOk then []
            else
              match db.next? none with
              | none => []
              | some entry => entry :: scanVisits db calls fuel (i + 1) (some entry.1)

/-- A stored entry that the scan takes for an expired record. -/
def HasExpired (host : Endian) (now : UInt64) (entry : Bytes × Bytes) : Prop :=
  entrySize ≤ entry.2.length ∧ (cacheEntryAt host entry.2).expireAt < now

instance (host : Endian) (now : UInt64) (entry : Bytes × Bytes) :
    Decidable (HasExpired host now entry) := inferInstanceAs (Decidable (_ ∧ _))

/-- The key that a visit queues when there is a free slot. -/
def scanKey? (host : Endian) (now : UInt64) (entry : Bytes × Bytes) : Option Bytes :=
  if HasExpired host now entry then some (entry.1.take maxKeyLen) else none

/-- What the visits from the `i`-th iteration on queue. -/
def queueVisits (host : Endian) (now : UInt64) (calls : ℕ → ScanCall) :
    ℕ → List (Bytes × Bytes) → List Bytes
  | _, [] => []
  | i, entry :: visits =>
      scanVisit host now (calls i) entry.1 entry.2 ++ queueVisits host now calls (i + 1) visits

variable {host : Endian} {db : Database} {now : UInt64} {calls : ℕ → ScanCall}

theorem scanVisit_eq (call : ScanCall) (entry : Bytes × Bytes) :
    scanVisit host now call entry.1 entry.2 =
      if call.allocOk then (scanKey? host now entry).toList else [] := by
  by_cases hsize : entrySize ≤ entry.2.length
  · by_cases hexp : (cacheEntryAt host entry.2).expireAt < now
    · cases hok : call.allocOk <;> simp [scanVisit, scanKey?, HasExpired, hsize, hexp, hok]
    · simp [scanVisit, scanKey?, HasExpired, hexp]
  · simp [scanVisit, scanKey?, HasExpired, hsize]

theorem scanKey?_eq_some_iff {entry : Bytes × Bytes} {key : Bytes} :
    scanKey? host now entry = some key ↔
      HasExpired host now entry ∧ entry.1.take maxKeyLen = key := by
  simp [scanKey?]

/-! ## One iteration -/

/-- The cursor calls of a scan succeed. -/
def CursorOk (calls : ℕ → ScanCall) : Prop :=
  ∀ i, (calls i).nextOk = true ∧ (calls i).firstOk = true

/-- An iteration ends the loop, which it does with cursor calls that succeed only
when there are no records, or it visits the record the cursor moves to. -/
theorem scanLoop_cases (host : Endian) (db : Database) (now : UInt64) (calls : ℕ → ScanCall)
    (fuel i : ℕ) (pos : Option Bytes) :
    (scanVisits db calls (fuel + 1) i pos = [] ∧
      (∀ queued, (scanLoop host db now calls (fuel + 1) i pos queued).2 = queued) ∧
      (CursorOk calls → db.cycle? pos = none ∧
        ∀ queued, (scanLoop host db now calls (fuel + 1) i pos queued).1 = some pos)) ∨
    ∃ entry, db.cycle? pos = some entry ∧
      scanVisits db calls (fuel + 1) i pos =
        entry :: scanVisits db calls fuel (i + 1) (some entry.1) ∧
      ∀ queued, scanLoop host db now calls (fuel + 1) i pos queued =
        scanLoop host db now calls fuel (i + 1) (some entry.1)
          (queued ++ scanVisit host now (calls i) entry.1 entry.2) := by
  cases hnextOk : (calls i).nextOk with
  | false =>
      refine .inl ⟨by simp [scanVisits, hnextOk], fun queued => by simp [scanLoop, hnextOk], ?_⟩
      intro hok
      rw [(hok i).1] at hnextOk
      exact absurd hnextOk (by simp)
  | true =>
      cases hnext : db.next? pos with
      | some entry =>
          refine .inr ⟨entry, by simp [OrderedMap.cycle?, hnext], ?_, fun queued => ?_⟩
          · simp [scanVisits, hnextOk, hnext]
          · simp [scanLoop, hnextOk, hnext]
      | none =>
          cases hfirstOk : (calls i).firstOk with
          | false =>
              refine .inl ⟨by simp [scanVisits, hnextOk, hnext, hfirstOk],
                fun queued => by simp [scanLoop, hnextOk, hnext, hfirstOk], ?_⟩
              intro hok
              rw [(hok i).2] at hfirstOk
              exact absurd hfirstOk (by simp)
          | true =>
              cases hfirst : db.next? none with
              | none =>
                  refine .inl ⟨by simp [scanVisits, hnext, hfirst],
                    fun queued => by simp [scanLoop, hnextOk, hnext, hfirst], fun _ => ⟨?_, ?_⟩⟩
                  · simp [OrderedMap.cycle?, hnext, hfirst]
                  · exact fun queued => by simp [scanLoop, hnextOk, hnext, hfirst]
              | some entry =>
                  refine .inr ⟨entry, by simp [OrderedMap.cycle?, hnext, hfirst], ?_,
                    fun queued => ?_⟩
                  · simp [scanVisits, hnextOk, hnext, hfirstOk, hfirst]
                  · simp [scanLoop, hnextOk, hnext, hfirstOk, hfirst]

/-- The loop queues what its visits queue. -/
theorem scanLoop_snd (fuel i : ℕ) (pos : Option Bytes) (queued : List Bytes) :
    (scanLoop host db now calls fuel i pos queued).2 =
      queued ++ queueVisits host now calls i (scanVisits db calls fuel i pos) := by
  induction fuel generalizing i pos queued with
  | zero => simp [scanLoop, scanVisits, queueVisits]
  | succ fuel ih =>
      rcases scanLoop_cases host db now calls fuel i pos with
        ⟨hvisits, hloop, -⟩ | ⟨entry, -, hvisits, hloop⟩
      · rw [hloop, hvisits, queueVisits, List.append_nil]
      · rw [hloop, hvisits, ih, queueVisits, List.append_assoc]

/-- Whatever the cursor calls do, the loop visits records of a walk. -/
theorem scanVisits_isPrefix (fuel i : ℕ) (pos : Option Bytes) :
    scanVisits db calls fuel i pos <+: db.walk pos fuel := by
  induction fuel generalizing i pos with
  | zero => exact List.prefix_rfl
  | succ fuel ih =>
      rcases scanLoop_cases .little db 0 calls fuel i pos with
        ⟨hvisits, -⟩ | ⟨entry, hcycle, hvisits, -⟩
      · rw [hvisits]
        exact List.nil_prefix
      · rw [hvisits, OrderedMap.walk_succ hcycle]
        exact (List.prefix_cons_inj entry).mpr (ih (i + 1) (some entry.1))

/-- **With cursor calls that succeed, a scan is a walk.** -/
theorem scanVisits_eq_walk (hok : CursorOk calls) (fuel i : ℕ) (pos : Option Bytes) :
    scanVisits db calls fuel i pos = db.walk pos fuel := by
  induction fuel generalizing i pos with
  | zero => rfl
  | succ fuel ih =>
      rcases scanLoop_cases .little db 0 calls fuel i pos with
        ⟨hvisits, -, hend⟩ | ⟨entry, hcycle, hvisits, -⟩
      · rw [hvisits, OrderedMap.walk, (hend hok).1]
      · rw [hvisits, OrderedMap.walk_succ hcycle, ih]

theorem scanLoop_fst (hok : CursorOk calls) (fuel i : ℕ) (pos : Option Bytes)
    (queued : List Bytes) :
    (scanLoop host db now calls fuel i pos queued).1 = some (db.walkEnd pos fuel) := by
  induction fuel generalizing i pos queued with
  | zero => rfl
  | succ fuel ih =>
      rcases scanLoop_cases host db now calls fuel i pos with
        ⟨-, -, hend⟩ | ⟨entry, hcycle, -, hloop⟩
      · obtain ⟨hcycle, hloop⟩ := hend hok
        rw [hloop, OrderedMap.walkEnd, hcycle]
      · rw [hloop, ih, OrderedMap.walkEnd_succ hcycle]

/-! ## The queue -/

theorem mem_queueVisits {visits : List (Bytes × Bytes)} {i j : ℕ} {entry : Bytes × Bytes}
    (hvisit : visits[j]? = some entry) (hexp : HasExpired host now entry)
    (hslot : (calls (i + j)).allocOk = true) :
    entry.1.take maxKeyLen ∈ queueVisits host now calls i visits := by
  induction visits generalizing i j with
  | nil => simp at hvisit
  | cons first visits ih =>
      rw [queueVisits, List.mem_append]
      cases j with
      | zero =>
          obtain rfl : first = entry := by simpa using hvisit
          have hkey := scanKey?_eq_some_iff.mpr ⟨hexp, rfl⟩
          rw [Nat.add_zero] at hslot
          exact .inl (by simp [scanVisit_eq, hslot, hkey])
      | succ j =>
          rw [List.getElem?_cons_succ] at hvisit
          exact .inr (ih hvisit (by rwa [Nat.succ_add_eq_add_succ]))

/-- Slots that are not free only shorten the queue. -/
theorem queueVisits_sublist (calls : ℕ → ScanCall) (i : ℕ) (visits : List (Bytes × Bytes)) :
    (queueVisits host now calls i visits).Sublist (visits.filterMap (scanKey? host now)) := by
  induction visits generalizing i with
  | nil => exact List.Sublist.slnil
  | cons entry visits ih =>
      have hsplit : (entry :: visits).filterMap (scanKey? host now) =
          (scanKey? host now entry).toList ++ visits.filterMap (scanKey? host now) := by
        cases hkey : scanKey? host now entry with
        | none => simp [hkey]
        | some key => simp [hkey]
      rw [queueVisits, hsplit, scanVisit_eq]
      refine List.Sublist.append ?_ (ih (i + 1))
      split_ifs
      · exact List.Sublist.refl _
      · exact List.nil_sublist _

theorem queueVisits_ok (i : ℕ) (visits : List (Bytes × Bytes)) :
    queueVisits host now (fun _ => .ok) i visits = visits.filterMap (scanKey? host now) := by
  induction visits generalizing i with
  | nil => rfl
  | cons entry visits ih =>
      rw [queueVisits, scanVisit_eq, ih]
      cases hkey : scanKey? host now entry <;> simp [ScanCall.ok, hkey]

/-! ## The call -/

theorem scanExpiredEntries_of_cursor (gcCursor : Option (Option Bytes)) (calls : ℕ → ScanCall)
    (now : UInt64) :
    scanExpiredEntries host db gcCursor true calls now =
      scanLoop host db now calls ttlScanChunkSize 0 (cursorPos gcCursor) [] := by
  cases gcCursor <;> rfl

/-- A call queues some of the keys of the expired records on its way. -/
theorem queued_sublist (gcCursor : Option (Option Bytes)) (cursorOk : Bool)
    (calls : ℕ → ScanCall) (now : UInt64) :
    (scanExpiredEntries host db gcCursor cursorOk calls now).2.Sublist
      ((db.walk (cursorPos gcCursor) ttlScanChunkSize).filterMap (scanKey? host now)) := by
  have hloop : ∀ pos, (scanLoop host db now calls ttlScanChunkSize 0 pos []).2.Sublist
      ((db.walk pos ttlScanChunkSize).filterMap (scanKey? host now)) := by
    intro pos
    rw [scanLoop_snd, List.nil_append]
    exact (queueVisits_sublist calls 0 _).trans
      ((scanVisits_isPrefix ttlScanChunkSize 0 pos).sublist.filterMap _)
  cases gcCursor with
  | some pos => exact hloop pos
  | none =>
      cases cursorOk with
      | true => exact hloop none
      | false => exact List.nil_sublist _

/-- When nothing fails it queues all of them. -/
theorem queued_ok (gcCursor : Option (Option Bytes)) (now : UInt64) :
    (scanExpiredEntries host db gcCursor true (fun _ => .ok) now).2 =
      (db.walk (cursorPos gcCursor) ttlScanChunkSize).filterMap (scanKey? host now) := by
  have hok : CursorOk fun _ => ScanCall.ok := fun _ => ⟨rfl, rfl⟩
  rw [scanExpiredEntries_of_cursor, scanLoop_snd, scanVisits_eq_walk hok, queueVisits_ok,
    List.nil_append]

/-! ## Coverage -/

/-- What happens in one call: the cursor and pool calls, and the clock. -/
structure ScanEnv where
  calls : ℕ → ScanCall
  now : UInt64

/-- The records a call visits. -/
def visited (db : Database) (gcCursor : Option (Option Bytes)) (env : ScanEnv) :
    List (Bytes × Bytes) :=
  scanVisits db env.calls ttlScanChunkSize 0 (cursorPos gcCursor)

/-- The records each of several consecutive calls visits. -/
def visitedBy (host : Endian) (db : Database) :
    Option (Option Bytes) → List ScanEnv → List (List (Bytes × Bytes))
  | _, [] => []
  | gcCursor, env :: envs =>
      visited db gcCursor env ::
        visitedBy host db (scanExpiredEntries host db gcCursor true env.calls env.now).1 envs

theorem gcCursor_scanExpiredEntries {env : ScanEnv} (hok : CursorOk env.calls)
    (gcCursor : Option (Option Bytes)) :
    (scanExpiredEntries host db gcCursor true env.calls env.now).1 =
      some (db.walkEnd (cursorPos gcCursor) ttlScanChunkSize) := by
  rw [scanExpiredEntries_of_cursor, scanLoop_fst hok]

theorem visited_eq_walk {env : ScanEnv} (hok : CursorOk env.calls)
    (gcCursor : Option (Option Bytes)) :
    visited db gcCursor env = db.walk (cursorPos gcCursor) ttlScanChunkSize :=
  scanVisits_eq_walk hok _ _ _

/-- Consecutive calls take up the walk where the last one stopped. -/
theorem flatten_visitedBy {envs : List ScanEnv} (hok : ∀ env ∈ envs, CursorOk env.calls)
    (gcCursor : Option (Option Bytes)) :
    (visitedBy host db gcCursor envs).flatten =
      db.walk (cursorPos gcCursor) (envs.length * ttlScanChunkSize) := by
  induction envs generalizing gcCursor with
  | nil => simp [visitedBy, OrderedMap.walk]
  | cons env envs ih =>
      obtain ⟨henv, henvs⟩ := List.forall_mem_cons.mp hok
      rw [visitedBy, List.flatten_cons, ih henvs, visited_eq_walk henv,
        gcCursor_scanExpiredEntries henv, List.length_cons, Nat.succ_mul,
        Nat.add_comm (envs.length * _), OrderedMap.walk_add]
      rfl

/-- A record of the store is an entry long enough for the scan. -/
theorem hasExpired_of_contents {k : Key} {data : Bytes} {r : Record}
    (hentry : (k.1, data) ∈ db.entries) (hr : contents host db k = some r)
    (hexp : r.expireAt < now) : HasExpired host now (k.1, data) := by
  rw [contents, db.get?_eq_some_iff_mem.mpr hentry, Option.bind_some] at hr
  unfold decodeRecord at hr
  split_ifs at hr with hvalid
  obtain rfl := Option.some.inj hr
  exact ⟨(Nat.le_add_right _ _).trans (bounds_of_entryIsValid host hvalid).2, hexp⟩

/-- **Incremental scan coverage.**  With cursor calls that succeed, a call visits
`TTL_SCAN_CHUNK_SIZE` records in cyclic order from behind the cursor (none in an
empty database), leaves the cursor on the last of them, and queues every expired
one under its key for which there is a free slot.  As many calls as it takes to
cover the number of records visit every record. -/
theorem scan_covers (host : Endian) (db : Database) (gcCursor : Option (Option Bytes)) :
    (∀ env : ScanEnv, CursorOk env.calls →
      (∀ i < ttlScanChunkSize, (visited db gcCursor env)[i]? =
        (db.round (cursorPos gcCursor))[i % db.entries.length]?) ∧
      (visited db gcCursor env).length = (if db.entries = [] then 0 else ttlScanChunkSize) ∧
      (∀ entry, (visited db gcCursor env).getLast? = some entry →
        (scanExpiredEntries host db gcCursor true env.calls env.now).1 = some (some entry.1)) ∧
      ∀ i (k : Key) data r, (visited db gcCursor env)[i]? = some (k.1, data) →
        contents host db k = some r → r.expireAt < env.now → (env.calls i).allocOk = true →
        k.1 ∈ (scanExpiredEntries host db gcCursor true env.calls env.now).2) ∧
    ∀ envs : List ScanEnv, (∀ env ∈ envs, CursorOk env.calls) →
      envs.length = db.entries.length ⌈/⌉ ttlScanChunkSize →
      ∀ entry ∈ db.entries, ∃ visits ∈ visitedBy host db gcCursor envs, entry ∈ visits := by
  refine ⟨fun env hok => ⟨fun i hi => ?_, ?_, fun entry hlast => ?_, ?_⟩, ?_⟩
  · rw [visited_eq_walk hok, OrderedMap.getElem?_walk, if_pos hi]
  · rw [visited_eq_walk hok]
    split_ifs with hempty
    · simp [ttlScanChunkSize, OrderedMap.walk, OrderedMap.cycle?_eq_none_iff.mpr hempty]
    · exact OrderedMap.length_walk hempty _ _
  · rw [visited_eq_walk hok] at hlast
    rw [gcCursor_scanExpiredEntries hok, OrderedMap.walkEnd_of_getLast? hlast]
  · intro i k data r hvisit hr hexp hslot
    have hentry : (k.1, data) ∈ db.entries := by
      rw [visited_eq_walk hok] at hvisit
      exact OrderedMap.mem_entries_of_mem_walk (List.mem_of_getElem? hvisit)
    have hslot' : (env.calls (0 + i)).allocOk = true := by rwa [Nat.zero_add]
    have hmem := mem_queueVisits hvisit (hasExpired_of_contents hentry hr hexp) hslot'
    rw [List.take_of_length_le k.2.2] at hmem
    rw [scanExpiredEntries_of_cursor, scanLoop_snd, List.nil_append]
    exact hmem
  · intro envs hok hlength entry hentry
    have henough : db.entries.length ≤ envs.length * ttlScanChunkSize := by
      rw [hlength, Nat.mul_comm]
      have hpos : 0 < ttlScanChunkSize := by decide
      exact le_smul_ceilDiv hpos
    have hmem : entry ∈ (visitedBy host db gcCursor envs).flatten := by
      rw [flatten_visitedBy hok]
      exact OrderedMap.mem_walk_of_length_le henough hentry
    exact List.mem_flatten.mp hmem

/-- Two records that expired at times 5 and 50. -/
def twoRecords : Database :=
  let record (expireAt : UInt64) : Record := ⟨1, 7, expireAt, some ⟨[], by decide⟩⟩
  (OrderedMap.empty.put [97] ((record 5).blob .little)).put [98] ((record 50).blob .little)

theorem scan_covers_two_records :
    [97] ∈ (scanExpiredEntries .little twoRecords none true (fun _ => .ok) 10).2 ∧
      ∀ entry ∈ twoRecords.entries,
        ∃ visits ∈ visitedBy .little twoRecords none [⟨fun _ => .ok, 10⟩], entry ∈ visits := by
  obtain ⟨hcall, hcover⟩ := scan_covers .little twoRecords none
  have hok : CursorOk fun _ => ScanCall.ok := fun _ => ⟨rfl, rfl⟩
  constructor
  · exact (hcall ⟨fun _ => .ok, 10⟩ hok).2.2.2 0 ⟨[97], by decide⟩ _ ⟨1, 7, 5, some ⟨[], by decide⟩⟩
      (by rfl) (by decide +kernel) (by decide) rfl
  · exact hcover [⟨fun _ => .ok, 10⟩] (by simpa using hok) (by decide +kernel)

/-! ## Queuing a key twice -/

/-- Whatever fails on the way, a call queues no key twice. -/
def QueuesOnce (host : Endian) (db : Database) (gcCursor : Option (Option Bytes))
    (now : UInt64) : Prop :=
  ∀ cursorOk calls, (scanExpiredEntries host db gcCursor cursorOk calls now).2.Nodup

theorem queuesOnce_iff_walk (gcCursor : Option (Option Bytes)) :
    QueuesOnce host db gcCursor now ↔
      (db.walk (cursorPos gcCursor) ttlScanChunkSize).Pairwise fun a b =>
        HasExpired host now a → HasExpired host now b →
          a.1.take maxKeyLen ≠ b.1.take maxKeyLen := by
  have hwalk : ((db.walk (cursorPos gcCursor) ttlScanChunkSize).filterMap
        (scanKey? host now)).Nodup ↔
      (db.walk (cursorPos gcCursor) ttlScanChunkSize).Pairwise fun a b =>
        HasExpired host now a → HasExpired host now b →
          a.1.take maxKeyLen ≠ b.1.take maxKeyLen := by
    unfold List.Nodup
    rw [List.pairwise_filterMap]
    refine List.Pairwise.iff fun a b => ?_
    simp only [scanKey?_eq_some_iff]
    constructor
    · exact fun h ha hb => h _ ⟨ha, rfl⟩ _ ⟨hb, rfl⟩
    · rintro h _ ⟨ha, rfl⟩ _ ⟨hb, rfl⟩
      exact h ha hb
  rw [← hwalk]
  constructor
  · intro h
    rw [← queued_ok]
    exact h true fun _ => .ok
  · intro h cursorOk calls
    exact h.sublist (queued_sublist gcCursor cursorOk calls now)

/-- **When a scan queues no key twice.**  This is so exactly if none of the first
`TTL_SCAN_CHUNK_SIZE - n` records behind the cursor has expired, where `n` is the
number of records, and no two expired records have keys that become the same
when they are cut to `MAX_KEY_LEN`. -/
theorem queuesOnce_iff (host : Endian) (db : Database) (gcCursor : Option (Option Bytes))
    (now : UInt64) :
    QueuesOnce host db gcCursor now ↔
      (∀ entry ∈ (db.round (cursorPos gcCursor)).take (ttlScanChunkSize - db.entries.length),
        ¬ HasExpired host now entry) ∧
      ∀ a ∈ (db.round (cursorPos gcCursor)).take ttlScanChunkSize,
        ∀ b ∈ (db.round (cursorPos gcCursor)).take ttlScanChunkSize, a ≠ b →
          HasExpired host now a → HasExpired host now b →
            a.1.take maxKeyLen ≠ b.1.take maxKeyLen := by
  rw [queuesOnce_iff_walk, OrderedMap.pairwise_walk_iff fun a b h hb ha => (h ha hb).symm]
  refine and_congr_left' (forall₂_congr fun entry _ => ?_)
  constructor
  · exact fun h hexp => h hexp hexp rfl
  · exact fun h hexp => absurd hexp h

/-- The store after a client has set a key to expire at time 5. -/
def oneRecord : Database :=
  ((Call.setWithMeta .ok (Buf.ofBytes [107]) 1 7 (Buf.ofBytes [118]) 5).exec .little 7
    OrderedMap.empty).2

/-- The only record of a store is queued a hundred times. -/
theorem queuesOnce_fails :
    Reachable .little oneRecord ∧
      (scanExpiredEntries .little oneRecord none true (fun _ => .ok) 10).2 =
        List.replicate 100 [107] ∧
      ¬ QueuesOnce .little oneRecord none 10 := by
  have hqueue : (scanExpiredEntries .little oneRecord none true (fun _ => .ok) 10).2 =
      List.replicate 100 [107] := by decide +kernel
  refine ⟨.call 7 _ .empty, hqueue, fun h => ?_⟩
  have hnodup := h true fun _ => .ok
  rw [hqueue, List.nodup_replicate] at hnodup
  exact absurd hnodup (by decide)

end Dmmr.Node
