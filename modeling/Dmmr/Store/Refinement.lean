import Dmmr.Store.Record
import Mathlib.Data.List.Induction

/-!
# The byte store refines a map of records

The abstract store is a map from keys to records in which a write is an offer
to the register of its key.  Every sequence of writing calls, with arbitrary
arguments and arbitrary failures of the environment, moves the database in step
with the abstract store (`wellFormed_runCalls`, `contents_runCalls`); the
readers then return what the abstract store holds.

`Call.exec_cases` says all a call can do and is the only place where the result
of `db_apply_record` is taken apart.
-/

namespace Dmmr.Store

open Words

/-! ## Writing calls -/

/-- A call of a writing operation, with what the environment does on it. -/
inductive Call
  | applyRecord (bdb : Bdb) (key : Buf) (timestamp nodeId expireAt : UInt64)
      (tombstone : Bool) (value : Buf)
  | setWithMeta (bdb : Bdb) (key : Buf) (timestamp nodeId : UInt64) (value : Buf)
      (expireAt : UInt64)
  | delKey (bdb : Bdb) (key : Buf) (now : UInt64)

variable (host : Endian) (myNodeId : UInt64)

namespace Call

/-- The call on a database. -/
def exec (db : Database) : Call → DbResult × Database
  | applyRecord bdb key timestamp nodeId expireAt tombstone value =>
      dbApplyRecord host bdb db key timestamp nodeId expireAt tombstone value
  | setWithMeta bdb key timestamp nodeId value expireAt =>
      dbSetWithMeta host bdb db key timestamp nodeId value expireAt
  | delKey bdb key now => dbDelKey host myNodeId bdb db key now

/-- What the environment does on the call. -/
def bdb : Call → Bdb
  | applyRecord bdb .. => bdb
  | setWithMeta bdb .. => bdb
  | delKey bdb .. => bdb

/-- The key and the record the call asks to store, `none` if its arguments are
rejected. -/
def request : Call → Option (Key × Record)
  | applyRecord _ key timestamp nodeId expireAt tombstone value =>
      requested key timestamp nodeId expireAt tombstone value
  | setWithMeta _ key timestamp nodeId value expireAt =>
      requested key timestamp nodeId expireAt false value
  | delKey _ key now => requested key now myNodeId 0 true Buf.null

end Call

/-- The database after a sequence of calls on an empty one. -/
def runCalls (calls : List Call) : Database :=
  calls.foldl (fun db call => (call.exec host myNodeId db).2) OrderedMap.empty

/-! ## The abstract store -/

/-- A map from keys to records. -/
abbrev AbstractStore := Key → Option Record

/-- Every call the write needs succeeds. -/
def Bdb.succeeds (bdb : Bdb) : Bool := bdb.handle && bdb.getOk && bdb.allocOk && bdb.putOk

/-- A write offers its record to the register of its key; a rejected or failing
write does nothing. -/
def AbstractStore.write (m : AbstractStore) (bdb : Bdb) : Option (Key × Record) → AbstractStore
  | none => m
  | some (k, r) =>
      if bdb.succeeds then Function.update m k (LastWrite.offer Record.stamp (m k) r) else m

/-- The abstract store after a sequence of calls on an empty one. -/
def abstractRun (calls : List Call) : AbstractStore :=
  calls.foldl (fun m call => m.write call.bdb (call.request myNodeId)) fun _ => none

variable {host myNodeId}

theorem AbstractStore.write_of_failing {m : AbstractStore} {bdb : Bdb}
    (hfail : bdb.succeeds = false) (k : Key) (r : Record) : m.write bdb (some (k, r)) = m := by
  simp [AbstractStore.write, hfail]

theorem AbstractStore.write_of_not_lt {m : AbstractStore} {bdb : Bdb} {k : Key} {old r : Record}
    (hold : m k = some old) (hnot : ¬ old.stamp < r.stamp) : m.write bdb (some (k, r)) = m := by
  simp only [AbstractStore.write]
  split_ifs
  · rw [hold, LastWrite.offer_of_not_lt hnot, ← hold, Function.update_eq_self]
  · rfl

theorem AbstractStore.write_of_lt {m : AbstractStore} {bdb : Bdb} {k : Key} {r : Record}
    (hok : bdb.succeeds = true) (hlt : ∀ old, m k = some old → old.stamp < r.stamp) :
    m.write bdb (some (k, r)) = Function.update m k (some r) := by
  simp only [AbstractStore.write, if_pos hok]
  cases hold : m k with
  | none => rfl
  | some old => rw [LastWrite.offer_of_lt (hlt old hold)]

theorem AbstractStore.write_ne_of_lt {m : AbstractStore} {bdb : Bdb} {k : Key} {r : Record}
    (hok : bdb.succeeds = true) (hlt : ∀ old, m k = some old → old.stamp < r.stamp) :
    m.write bdb (some (k, r)) ≠ m := by
  rw [AbstractStore.write_of_lt hok hlt]
  intro heq
  have hheld : m k = some r := by rw [← heq, Function.update_self]
  exact absurd (hlt r hheld) (lt_irrefl _)

/-! ## What one call can do -/

/-- Once the lookup went through, a write is made exactly when every call the
write needs succeeds. -/
theorem writeRecord_eq {bdb : Bdb} (hlookup : (!bdb.handle || !bdb.getOk) = false) (db : Database)
    (k : Key) (r : Record) :
    writeRecord host bdb db k r =
      if bdb.succeeds then (.applied, db.put k.1 (r.blob host)) else (.error, db) := by
  simp only [Bool.or_eq_false_iff, Bool.not_eq_false'] at hlookup
  simp only [writeRecord, Bdb.succeeds, hlookup.1, hlookup.2, Bool.true_and]

theorem Bdb.succeeds_of_lookup {bdb : Bdb} (hlookup : (!bdb.handle || !bdb.getOk) = true) :
    bdb.succeeds = false := by
  rw [← Bool.not_and, Bool.not_eq_true'] at hlookup
  rw [Bdb.succeeds, hlookup, Bool.false_and, Bool.false_and]

/-- An accepted request is stored, fails in the environment, or loses to the
record the key holds. -/
theorem dbApplyRecord_cases {db : Database} (hwf : WellFormed host db) (bdb : Bdb) {key value : Buf}
    {timestamp nodeId expireAt : UInt64} {tombstone : Bool} {k : Key} {r : Record}
    (hrequest : requested key timestamp nodeId expireAt tombstone value = some (k, r)) :
    (bdb.succeeds = true ∧ (∀ old, contents host db k = some old → old.stamp < r.stamp) ∧
        dbApplyRecord host bdb db key timestamp nodeId expireAt tombstone value =
          (.applied, db.put k.1 (r.blob host))) ∨
      (bdb.succeeds = false ∧
        dbApplyRecord host bdb db key timestamp nodeId expireAt tombstone value = (.error, db)) ∨
      ∃ old, contents host db k = some old ∧ ¬ old.stamp < r.stamp ∧
        dbApplyRecord host bdb db key timestamp nodeId expireAt tombstone value =
          (.ignored, db) := by
  rw [dbApplyRecord_eq hwf, hrequest]
  cases hlookup : (!bdb.handle || !bdb.getOk) with
  | true => exact Or.inr (Or.inl ⟨Bdb.succeeds_of_lookup hlookup, if_pos rfl⟩)
  | false =>
      simp only [writeRecord_eq hlookup, Bool.false_eq_true, if_false]
      cases hold : contents host db k with
      | none => cases bdb.succeeds <;> simp
      | some old =>
          by_cases hlt : old.stamp < r.stamp
          · cases bdb.succeeds <;> simp [hlt]
          · exact Or.inr (Or.inr ⟨old, rfl, hlt, if_neg hlt⟩)

/-- A record with the given stamp may replace what a database holds under a key:
nothing, or a valid entry with a smaller stamp. -/
def outranks (host : Endian) (db : Database) (key : Bytes) (timestamp nodeId : UInt64) : Bool :=
  match db.get? key with
  | none => true
  | some old => entryIsValid host old && incomingWins (cacheEntryAt host old) timestamp nodeId

/-- On any database, well-formed or not, a request whose arguments are accepted
is stored, or it is not reported as applied and changes nothing. -/
theorem dbApplyRecord_any (host : Endian) (bdb : Bdb) (db : Database) {key value : Buf}
    {tombstone : Bool} (h : Acceptable key tombstone value)
    (timestamp nodeId expireAt : UInt64) :
    (bdb.succeeds = true ∧ outranks host db key.bytes timestamp nodeId = true ∧
        dbApplyRecord host bdb db key timestamp nodeId expireAt tombstone value =
          (.applied, db.put h.toKey.1 ((h.toRecord timestamp nodeId expireAt).blob host))) ∨
      (¬ (bdb.succeeds = true ∧ outranks host db key.bytes timestamp nodeId = true) ∧
        (dbApplyRecord host bdb db key timestamp nodeId expireAt tombstone value).1 ≠ .applied ∧
        (dbApplyRecord host bdb db key timestamp nodeId expireAt tombstone value).2 = db) := by
  unfold dbApplyRecord outranks
  rw [if_neg ((acceptable_iff key tombstone value).mp h)]
  cases hlookup : (!bdb.handle || !bdb.getOk) with
  | true =>
      refine Or.inr ⟨?_, by simp, rfl⟩
      rw [Bdb.succeeds_of_lookup hlookup]
      exact fun hok => Bool.false_ne_true hok.1
  | false =>
      simp only [Bool.false_eq_true, if_false, putRecordLocked_eq h, writeRecord_eq hlookup]
      cases db.get? key.bytes with
      | none => cases bdb.succeeds <;> simp
      | some old =>
          cases hvalid : entryIsValid host old with
          | false => simp [hvalid]
          | true =>
              cases hwins : incomingWins (cacheEntryAt host old) timestamp nodeId with
              | false => simp [hvalid, hwins]
              | true => cases bdb.succeeds <;> simp [hvalid, hwins]

/-- A call stores its record, which beats the one held, and says so; or it
changes nothing, and reports that the record lost or that something failed. -/
theorem Call.exec_cases (myNodeId : UInt64) {db : Database} (hwf : WellFormed host db)
    (call : Call) :
    (∃ k r, call.request myNodeId = some (k, r) ∧ call.bdb.succeeds = true ∧
        (∀ old, contents host db k = some old → old.stamp < r.stamp) ∧
        call.exec host myNodeId db = (.applied, db.put k.1 (r.blob host))) ∨
      (((call.exec host myNodeId db).1 = .ignored ∨ (call.exec host myNodeId db).1 = .error) ∧
        (call.exec host myNodeId db).2 = db ∧
        AbstractStore.write (contents host db) call.bdb (call.request myNodeId) =
          contents host db) := by
  obtain ⟨key, timestamp, nodeId, expireAt, tombstone, value, hexec, hrequest⟩ :
      ∃ key timestamp nodeId expireAt tombstone value,
        call.exec host myNodeId db =
          dbApplyRecord host call.bdb db key timestamp nodeId expireAt tombstone value ∧
        call.request myNodeId = requested key timestamp nodeId expireAt tombstone value := by
    cases call <;> exact ⟨_, _, _, _, _, _, rfl, rfl⟩
  rw [hexec, hrequest]
  cases hreq : requested key timestamp nodeId expireAt tombstone value with
  | none =>
      rw [dbApplyRecord_eq hwf, hreq]
      exact Or.inr ⟨Or.inr rfl, rfl, rfl⟩
  | some request =>
      obtain ⟨k, r⟩ := request
      rcases dbApplyRecord_cases hwf call.bdb hreq with
        ⟨hok, hlt, h⟩ | ⟨hfail, h⟩ | ⟨old, hold, hlt, h⟩
      · exact Or.inl ⟨k, r, rfl, hok, hlt, h⟩
      · rw [h]
        exact Or.inr ⟨Or.inr rfl, rfl, AbstractStore.write_of_failing hfail k r⟩
      · rw [h]
        exact Or.inr ⟨Or.inl rfl, rfl, AbstractStore.write_of_not_lt hold hlt⟩

theorem Call.wellFormed_exec {db : Database} (hwf : WellFormed host db) (call : Call) :
    WellFormed host (call.exec host myNodeId db).2 := by
  rcases call.exec_cases myNodeId hwf with ⟨k, r, -, -, -, h⟩ | ⟨-, h, -⟩
  · rw [h]
    exact hwf.put k r
  · rw [h]
    exact hwf

theorem Call.contents_exec (myNodeId : UInt64) {db : Database} (hwf : WellFormed host db)
    (call : Call) :
    contents host (call.exec host myNodeId db).2 =
      AbstractStore.write (contents host db) call.bdb (call.request myNodeId) := by
  rcases call.exec_cases myNodeId hwf with ⟨k, r, hreq, hok, hlt, h⟩ | ⟨-, h, hsame⟩
  · rw [h, hreq, contents_put, AbstractStore.write_of_lt hok hlt]
  · rw [h, hsame]

/-- No call makes the record of a key older. -/
theorem Call.le_exec (myNodeId : UInt64) {db : Database} (hwf : WellFormed host db)
    (call : Call) {k : Key} {x : Record} (hx : contents host db k = some x) :
    ∃ y, contents host (call.exec host myNodeId db).2 k = some y ∧ x.stamp ≤ y.stamp := by
  rcases call.exec_cases myNodeId hwf with ⟨k', r, -, -, hlt, h⟩ | ⟨-, h, -⟩
  · rw [h, contents_put]
    by_cases hk : k = k'
    · subst hk
      exact ⟨r, Function.update_self .., (hlt x hx).le⟩
    · exact ⟨x, by rw [Function.update_of_ne hk, hx], le_rfl⟩
  · exact ⟨x, by rw [h, hx], le_rfl⟩

/-- The result code tells whether the map changed. -/
theorem Call.applied_iff {db : Database} (hwf : WellFormed host db) (call : Call) :
    ((call.exec host myNodeId db).1 = .applied ↔
        AbstractStore.write (contents host db) call.bdb (call.request myNodeId) ≠
          contents host db) ∧
      ((call.exec host myNodeId db).1 = .ignored ∨ (call.exec host myNodeId db).1 = .error ↔
        AbstractStore.write (contents host db) call.bdb (call.request myNodeId) =
          contents host db) ∧
      ((call.exec host myNodeId db).1 ≠ .applied → (call.exec host myNodeId db).2 = db) := by
  rcases call.exec_cases myNodeId hwf with
    ⟨k, r, hreq, hok, hlt, h⟩ | ⟨hcode, hdb, hsame⟩
  · have hchanged : AbstractStore.write (contents host db) call.bdb (call.request myNodeId) ≠
        contents host db := by
      rw [hreq]
      exact AbstractStore.write_ne_of_lt hok hlt
    rw [h]
    simp [hchanged]
  · have hnot : (call.exec host myNodeId db).1 ≠ .applied := by
      rcases hcode with h | h <;> simp [h]
    simp [hnot, hsame, hdb, hcode]

/-! ## Whole call sequences -/

theorem runCalls_append (calls : List Call) (call : Call) :
    runCalls host myNodeId (calls ++ [call]) =
      (call.exec host myNodeId (runCalls host myNodeId calls)).2 := by
  simp [runCalls]

theorem abstractRun_append (calls : List Call) (call : Call) :
    abstractRun myNodeId (calls ++ [call]) =
      (abstractRun myNodeId calls).write call.bdb (call.request myNodeId) := by
  simp [abstractRun]

variable (host myNodeId)

theorem wellFormed_runCalls (calls : List Call) :
    WellFormed host (runCalls host myNodeId calls) := by
  induction calls using List.reverseRecOn with
  | nil => exact wellFormed_empty
  | append_singleton calls call ih =>
      rw [runCalls_append]
      exact call.wellFormed_exec ih

/-- **The database moves in step with the abstract store.** -/
theorem contents_runCalls (calls : List Call) :
    contents host (runCalls host myNodeId calls) = abstractRun myNodeId calls := by
  induction calls using List.reverseRecOn with
  | nil => rfl
  | append_singleton calls call ih =>
      rw [runCalls_append, abstractRun_append,
        call.contents_exec myNodeId (wellFormed_runCalls host myNodeId calls), ih]

end Dmmr.Store
