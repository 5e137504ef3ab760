import Dmmr.Store.Merge
import Dmmr.Store.Readers

/-!
# Stamps of a key over time

Replication rests on stamps that only grow.  `db_apply_record`, and with it
`db_set_with_meta` and `db_del_key`, compares the stamp of the record it is
given with the one that is stored.  `db_tombstone_if_match` compares the stored
record with the one its caller has observed instead, and then writes a tombstone
with whatever stamp it is told to.

`stampsKept_iff` says which calls keep the stamps: all but those guarded
deletions that find the record they look for and put an older stamp on it.
-/

namespace Dmmr.Store

open Words

/-! ## The writing operations -/

/-- A call of any operation that writes. -/
inductive WriteOp
  | call (call : Call)
  | tombstoneIfMatch (bdb : Bdb) (key : Buf)
      (observedTs observedNodeId observedExpireAt tombstoneTs tombstoneNodeId : UInt64)

/-- The key a call is about. -/
def Call.key : Call → Buf
  | applyRecord _ key .. => key
  | setWithMeta _ key .. => key
  | delKey _ key _ => key

namespace WriteOp

def exec (host : Endian) (myNodeId : UInt64) (db : Database) : WriteOp → DbResult × Database
  | call c => c.exec host myNodeId db
  | tombstoneIfMatch bdb key observedTs observedNodeId observedExpireAt tombstoneTs
      tombstoneNodeId =>
      dbTombstoneIfMatch host bdb db key observedTs observedNodeId observedExpireAt tombstoneTs
        tombstoneNodeId

def key : WriteOp → Buf
  | call c => c.key
  | tombstoneIfMatch _ key .. => key

end WriteOp

variable {host : Endian} {myNodeId : UInt64} {db : Database}

theorem key_of_requested {key value : Buf} {timestamp nodeId expireAt : UInt64}
    {tombstone : Bool} {k : Key} {r : Record}
    (h : requested key timestamp nodeId expireAt tombstone value = some (k, r)) :
    k.1 = key.bytes := by
  unfold requested at h
  split_ifs at h with hacc
  obtain ⟨rfl, -⟩ := Prod.mk.inj (Option.some.inj h)
  rfl

theorem Call.key_of_request {call : Call} {k : Key} {r : Record}
    (h : call.request myNodeId = some (k, r)) : k.1 = call.key.bytes := by
  cases call <;> exact key_of_requested h

theorem Buf.val_of_toKey? {key : Buf} {k : Key} (h : key.toKey? = some k) : k.1 = key.bytes := by
  unfold Buf.toKey? at h
  split_ifs at h
  rw [← Option.some.inj h]

/-! ## The guarded deletion -/

/-- The record has the metadata that was observed, and is live. -/
def Record.Observed (ts nodeId expireAt : UInt64) (r : Record) : Prop :=
  r.body ≠ none ∧ r.timestamp = ts ∧ r.nodeId = nodeId ∧ r.expireAt = expireAt

instance (ts nodeId expireAt : UInt64) (r : Record) :
    Decidable (r.Observed ts nodeId expireAt) := inferInstanceAs (Decidable (_ ∧ _))

/-- The comparison of `db_tombstone_if_match` on the blob of a record. -/
theorem observed_blob_iff (host : Endian) (ts nodeId expireAt : UInt64) (r : Record) :
    (!entryIsValid host (r.blob host) ||
      dmmrRecordIsTombstone (cacheEntryAt host (r.blob host)) ||
      (cacheEntryAt host (r.blob host)).timestamp != ts ||
      (cacheEntryAt host (r.blob host)).nodeId != nodeId ||
      (cacheEntryAt host (r.blob host)).expireAt != expireAt) = true ↔
        ¬ r.Observed ts nodeId expireAt := by
  have hbody : r.tombstone = true ↔ r.body = none := by simp [Record.tombstone]
  simp only [entryIsValid_blob, cacheEntryAt_blob, isTombstone_header, Bool.not_true,
    Bool.false_or, Bool.or_eq_true, hbody, bne_iff_ne, Record.Observed, not_and_or, not_not,
    or_assoc, ne_eq]
  exact Iff.rfl

theorem Acceptable.toKey?_eq {key value : Buf} {tombstone : Bool}
    (h : Acceptable key tombstone value) : key.toKey? = some h.toKey := by
  unfold Buf.toKey?
  rw [dif_neg (by simp [h.keyPtr, h.keyLen_ne, h.keyLen_le])]
  rfl

/-- **`db_tombstone_if_match` on a well-formed database.** -/
theorem dbTombstoneIfMatch_eq (hwf : WellFormed host db) (bdb : Bdb) (key : Buf)
    (observedTs observedNodeId observedExpireAt tombstoneTs tombstoneNodeId : UInt64) :
    dbTombstoneIfMatch host bdb db key observedTs observedNodeId observedExpireAt tombstoneTs
        tombstoneNodeId =
      match key.toKey? with
      | none => (.error, db)
      | some k =>
          if !bdb.handle || !bdb.getOk then (.error, db)
          else
            match contents host db k with
            | none => (.notFound, db)
            | some r =>
                if r.Observed observedTs observedNodeId observedExpireAt then
                  writeRecord host bdb db k ⟨tombstoneTs, tombstoneNodeId, 0, none⟩
                else (.ignored, db) := by
  unfold dbTombstoneIfMatch
  by_cases hkey : key.ptr = none ∨ key.len = 0 ∨ key.len > maxKeyLen
  · rw [if_pos hkey, Buf.toKey?, dif_pos hkey]
  · rw [if_neg hkey]
    simp only [not_or, not_lt] at hkey
    have hacc : Acceptable key true Buf.null :=
      ⟨hkey.1, hkey.2.1, hkey.2.2, by decide, fun _ => rfl, by simp⟩
    have hget : db.get? key.bytes = (contents host db hacc.toKey).map (Record.blob host) :=
      hwf.get?_eq hacc.toKey
    have hput : putRecordLocked host bdb db key tombstoneTs tombstoneNodeId 0 true Buf.null =
        writeRecord host bdb db hacc.toKey ⟨tombstoneTs, tombstoneNodeId, 0, none⟩ :=
      putRecordLocked_eq hacc bdb db tombstoneTs tombstoneNodeId 0
    rw [hacc.toKey?_eq, hget, hput]
    cases bdb.handle with
    | false => rfl
    | true =>
        cases bdb.getOk with
        | false => rfl
        | true =>
            simp only [Bool.not_true, Bool.or_self, Bool.false_eq_true, if_false]
            cases contents host db hacc.toKey with
            | none => rfl
            | some r =>
                have hguard := observed_blob_iff host observedTs observedNodeId observedExpireAt r
                simp only [Option.map_some]
                by_cases hobs : r.Observed observedTs observedNodeId observedExpireAt
                · rw [if_neg (fun h => hguard.mp h hobs), if_pos hobs]
                · rw [if_pos (hguard.mpr hobs), if_neg hobs]

/-- A guarded deletion writes its tombstone over the record that was observed, or
it changes nothing and does not report success. -/
theorem dbTombstoneIfMatch_outcomes (hwf : WellFormed host db) (bdb : Bdb) (key : Buf)
    (observedTs observedNodeId observedExpireAt tombstoneTs tombstoneNodeId : UInt64) :
    (∃ k r, key.toKey? = some k ∧ bdb.succeeds = true ∧ contents host db k = some r ∧
        r.Observed observedTs observedNodeId observedExpireAt ∧
        dbTombstoneIfMatch host bdb db key observedTs observedNodeId observedExpireAt tombstoneTs
          tombstoneNodeId =
            (.applied, db.put k.1 (Record.blob host ⟨tombstoneTs, tombstoneNodeId, 0, none⟩))) ∨
      (¬ (∃ k r, key.toKey? = some k ∧ bdb.succeeds = true ∧ contents host db k = some r ∧
          r.Observed observedTs observedNodeId observedExpireAt) ∧
        (dbTombstoneIfMatch host bdb db key observedTs observedNodeId observedExpireAt tombstoneTs
          tombstoneNodeId).1 ≠ .applied ∧
        (dbTombstoneIfMatch host bdb db key observedTs observedNodeId observedExpireAt tombstoneTs
          tombstoneNodeId).2 = db) := by
  rw [dbTombstoneIfMatch_eq hwf]
  cases hkey : key.toKey? with
  | none => exact .inr ⟨by simp, by simp, rfl⟩
  | some k =>
      cases hlookup : (!bdb.handle || !bdb.getOk) with
      | true => exact .inr ⟨by simp [Bdb.succeeds_of_lookup hlookup], by simp, by simp⟩
      | false =>
          simp only [Bool.false_eq_true, if_false, writeRecord_eq hlookup]
          cases hr : contents host db k with
          | none => exact .inr ⟨by simp [hr], by simp, rfl⟩
          | some r =>
              by_cases hobs : r.Observed observedTs observedNodeId observedExpireAt
              · cases hok : bdb.succeeds with
                | true => exact .inl ⟨k, r, rfl, rfl, hr, hobs, by simp [hobs]⟩
                | false => exact .inr ⟨by simp, by simp [hobs], by simp [hobs]⟩
              · exact .inr ⟨by simp [hr, hobs], by simp [hobs], by simp [hobs]⟩

/-! ## Stamps -/

/-- The call leaves no key with a smaller stamp, touches no key but its own, and
changes nothing unless it returns `DMMR_DB_APPLIED`. -/
structure StampsKept (host : Endian) (myNodeId : UInt64) (db : Database) (op : WriteOp) : Prop where
  stamp_le : ∀ k r, contents host db k = some r →
    ∃ r', contents host (op.exec host myNodeId db).2 k = some r' ∧ r.stamp ≤ r'.stamp
  others : ∀ k : Key, k.1 ≠ op.key.bytes →
    contents host (op.exec host myNodeId db).2 k = contents host db k
  unchanged : (op.exec host myNodeId db).1 ≠ .applied → (op.exec host myNodeId db).2 = db

/-- The condition on a call: if it is a guarded deletion that goes through, its
tombstone is not older than the record it replaces. -/
def WriteOp.Forward (host : Endian) (db : Database) : WriteOp → Prop
  | .call _ => True
  | .tombstoneIfMatch bdb key observedTs observedNodeId observedExpireAt tombstoneTs
      tombstoneNodeId =>
      ∀ k r, key.toKey? = some k → bdb.succeeds = true → contents host db k = some r →
        r.Observed observedTs observedNodeId observedExpireAt →
          r.stamp ≤ toLex (tombstoneTs, tombstoneNodeId)

theorem stampsKept_of_eq {op : WriteOp} (h : (op.exec host myNodeId db).2 = db) :
    StampsKept host myNodeId db op where
  stamp_le k r hr := ⟨r, by rw [h, hr], le_rfl⟩
  others k _ := by rw [h]
  unchanged _ := h

/-- A record is written under the key of the call. -/
theorem stampsKept_of_put {op : WriteOp} {k : Key} {new : Record} (hkey : k.1 = op.key.bytes)
    (h : op.exec host myNodeId db = (.applied, db.put k.1 (new.blob host)))
    (hle : ∀ old, contents host db k = some old → old.stamp ≤ new.stamp) :
    StampsKept host myNodeId db op where
  stamp_le k' r hr := by
    rw [h, contents_put]
    by_cases hk : k' = k
    · subst hk
      exact ⟨new, Function.update_self .., hle r hr⟩
    · exact ⟨r, by rw [Function.update_of_ne hk, hr], le_rfl⟩
  others k' hne := by
    have hk : k' ≠ k := fun heq => hne (heq ▸ hkey)
    rw [h, contents_put, Function.update_of_ne hk]
  unchanged hcode := absurd (congrArg Prod.fst h) hcode

theorem stampsKept_call (hwf : WellFormed host db) (call : Call) :
    StampsKept host myNodeId db (.call call) := by
  rcases call.exec_cases myNodeId hwf with ⟨k, r, hreq, -, hlt, h⟩ | ⟨-, h, -⟩
  · exact stampsKept_of_put (Call.key_of_request hreq) h fun old hold => (hlt old hold).le
  · exact stampsKept_of_eq h

/-- **Stamps go back only in guarded deletions.**  On every store reachable
through the API, a call of a writing operation keeps the stamps if and only if it
is not a `db_tombstone_if_match` that finds the record it looks for, goes through,
and has a tombstone stamp that is smaller. -/
theorem stampsKept_iff (myNodeId : UInt64) (hreach : Reachable host db) (op : WriteOp) :
    StampsKept host myNodeId db op ↔ op.Forward host db := by
  have hwf := hreach.wellFormed
  cases op with
  | call call => exact iff_of_true (stampsKept_call hwf call) trivial
  | tombstoneIfMatch bdb key observedTs observedNodeId observedExpireAt tombstoneTs
      tombstoneNodeId =>
      rcases dbTombstoneIfMatch_outcomes hwf bdb key observedTs observedNodeId observedExpireAt
        tombstoneTs tombstoneNodeId with ⟨k, r, hkey, hok, hr, hobs, h⟩ | ⟨hnot, -, h⟩
      · constructor
        · intro hkept k' r' hkey' _ hr' _
          obtain rfl := Option.some.inj (hkey.symm.trans hkey')
          obtain ⟨new, hnew, hle⟩ := hkept.stamp_le k r' hr'
          simp only [WriteOp.exec, h] at hnew
          rw [contents_put, Function.update_self] at hnew
          rwa [← Option.some.inj hnew] at hle
        · intro hforward
          refine stampsKept_of_put ?_ h fun old hold => ?_
          · exact Buf.val_of_toKey? hkey
          · obtain rfl := Option.some.inj (hr.symm.trans hold)
            exact hforward k r hkey hok hr hobs
      · refine iff_of_true (stampsKept_of_eq h) ?_
        exact fun k r hkey hok hr hobs => absurd ⟨k, r, hkey, hok, hr, hobs⟩ hnot

/-- The store after one client has set a key at time 5. -/
def heldSinceFive : Database :=
  ((Call.setWithMeta .ok (Buf.ofBytes [107]) 5 1 (Buf.ofBytes [118]) 9).exec .little 1
    OrderedMap.empty).2

/-- A deletion of that key at time 6. -/
theorem stampsKept_deletion :
    StampsKept .little 1 heldSinceFive (.call (.delKey .ok (Buf.ofBytes [107]) 6)) :=
  (stampsKept_iff 1 (.call 1 _ .empty) _).mpr trivial

/-- A guarded deletion of the record from time 5, with a tombstone from time 3. -/
theorem stampsKept_fails :
    let op := WriteOp.tombstoneIfMatch .ok (Buf.ofBytes [107]) 5 1 9 3 1
    Reachable .little heldSinceFive ∧
      contents .little (op.exec .little 1 heldSinceFive).2 ⟨[107], by decide⟩ =
        some ⟨3, 1, 0, none⟩ ∧
      ¬ StampsKept .little 1 heldSinceFive op := by
  intro op
  have hafter : contents .little (op.exec .little 1 heldSinceFive).2 ⟨[107], by decide⟩ =
      some ⟨3, 1, 0, none⟩ := by decide +kernel
  refine ⟨.call 1 _ .empty, hafter, fun hkept => ?_⟩
  obtain ⟨r', hr', hle⟩ := hkept.stamp_le ⟨[107], by decide⟩ ⟨5, 1, 9, some ⟨[118], by decide⟩⟩
    (by decide +kernel)
  obtain rfl := Option.some.inj (hafter.symm.trans hr')
  exact absurd hle (by decide)

end Dmmr.Store
