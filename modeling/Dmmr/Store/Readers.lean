import Dmmr.Store.Refinement

/-!
# The readers return what the abstract store holds

`db_get_with_meta` and `db_snapshot_foreach` decode the same blobs by separate
code.  On a well-formed database both return the abstract record, and with
`contents_runCalls` this closes the refinement: after any sequence of writing
calls, what a reader sees is the abstract store.
-/

namespace Dmmr.Store

open Words

/-! ## Reading one key -/

/-- The key a pointer argument holds, `none` if the readers reject it. -/
def Buf.toKey? (key : Buf) : Option Key :=
  if h : key.ptr = none ∨ key.len = 0 ∨ key.len > maxKeyLen then none
  else some ⟨key.bytes, by
    simp only [not_or, not_lt] at h
    rw [← List.length_pos_iff, Buf.length_bytes (Or.inl h.1)]
    exact ⟨Nat.pos_of_ne_zero h.2.1, h.2.2⟩⟩

@[simp] theorem Buf.toKey?_ofBytes (k : Key) : (Buf.ofBytes k.1).toKey? = some k := by
  unfold Buf.toKey?
  rw [dif_neg (by simp [Buf.ptr_ofBytes k.2.1, k.2.1, k.2.2])]
  simp

/-- The answer of an abstract store to a read: the live value with its
metadata, an empty value being `NULL`. -/
def AbstractStore.get (m : AbstractStore) (k : Key) : DbResult × Option GetOut :=
  match m k with
  | none => (.notFound, none)
  | some r =>
      match r.body with
      | none => (.notFound, none)
      | some v =>
          let value := if v.1 = [] then none else some v.1
          (.applied, some ⟨r.timestamp, r.nodeId, value, v.1.length, r.expireAt⟩)

variable {host : Endian}

/-- What `db_get_with_meta` writes through its out-parameters for a live record. -/
def Record.getOut (r : Record) (v : Value) : GetOut :=
  ⟨r.timestamp, r.nodeId, if v.1 = [] then none else some v.1, v.1.length, r.expireAt⟩

/-- `db_get_with_meta` on any database: a lookup that fails or an entry that does
not decode is an error, a tombstone is as good as no entry, and a live value that
is not empty needs memory. -/
theorem dbGetWithMeta_any (bdb : Bdb) (db : Database) {key : Buf} {k : Key}
    (hkey : key.toKey? = some k) :
    dbGetWithMeta host bdb db key =
      if !bdb.handle || !bdb.getOk then (.error, none)
      else
        match (db.get? k.1).map (decodeRecord host) with
        | none => (.notFound, none)
        | some none => (.error, none)
        | some (some r) =>
            match r.body with
            | none => (.notFound, none)
            | some v =>
                if v.1 ≠ [] ∧ bdb.allocOk = false then (.error, none)
                else (.applied, some (r.getOut v)) := by
  unfold Buf.toKey? at hkey
  split_ifs at hkey with hrejected
  have hbytes : key.bytes = k.1 := congrArg Subtype.val (Option.some.inj hkey)
  unfold dbGetWithMeta
  rw [if_neg hrejected, hbytes]
  congr 1
  cases db.get? k.1 with
  | none => rfl
  | some data =>
      simp only [Option.map_some]
      unfold decodeRecord
      by_cases hvalid : entryIsValid host data = true
      · obtain ⟨-, hroom⟩ := bounds_of_entryIsValid host hvalid
        rw [dif_pos hvalid]
        cases htomb : dmmrRecordIsTombstone (cacheEntryAt host data) with
        | true => simp [hvalid, htomb]
        | false =>
            by_cases hzero : (dmmrRecordValueLen (cacheEntryAt host data)).toNat = 0
            · simp [hvalid, htomb, hzero, Record.getOut]
            · have hlt : entrySize < data.length := by omega
              cases bdb.allocOk with
              | false => simp [hvalid, htomb, hzero, hlt, Nat.pos_of_ne_zero hzero]
              | true =>
                  have hmin : min (dmmrRecordValueLen (cacheEntryAt host data)).toNat
                      (data.length - entrySize) =
                      (dmmrRecordValueLen (cacheEntryAt host data)).toNat := by omega
                  simp [hvalid, htomb, hzero, hlt, hmin, Nat.pos_of_ne_zero hzero, Record.getOut]
      · rw [dif_neg hvalid]
        simp [hvalid]

theorem dbGetWithMeta_of_rejected (bdb : Bdb) (db : Database) {key : Buf}
    (hkey : key.toKey? = none) : dbGetWithMeta host bdb db key = (.error, none) := by
  unfold Buf.toKey? at hkey
  split_ifs at hkey with hrejected
  exact if_pos hrejected

/-- `db_get_with_meta` answers as the abstract store does. -/
theorem dbGetWithMeta_eq {db : Database} (hwf : WellFormed host db) (key : Buf) :
    dbGetWithMeta host Bdb.ok db key =
      match key.toKey? with
      | none => (.error, none)
      | some k => AbstractStore.get (contents host db) k := by
  cases hkey : key.toKey? with
  | none => exact dbGetWithMeta_of_rejected Bdb.ok db hkey
  | some k =>
      rw [dbGetWithMeta_any Bdb.ok db hkey, hwf.get?_eq k]
      simp only [AbstractStore.get]
      cases contents host db k with
      | none => rfl
      | some r =>
          simp only [Option.map_some, decodeRecord_blob]
          cases r.body with
          | none => rfl
          | some v => simp [Bdb.ok, Record.getOut]

/-- A value that is returned has the length that is returned with it, whatever
the database holds. -/
theorem length_value_of_dbGetWithMeta {bdb : Bdb} {db : Database} {key : Buf} {out : GetOut}
    (h : dbGetWithMeta host bdb db key = (.applied, some out)) :
    (out.value.getD []).length = out.valueLen ∧ out.valueLen ≤ maxValueLen := by
  cases hkey : key.toKey? with
  | none =>
      rw [dbGetWithMeta_of_rejected bdb db hkey] at h
      simp at h
  | some k =>
      rw [dbGetWithMeta_any bdb db hkey] at h
      by_cases hlookup : (!bdb.handle || !bdb.getOk) = true
      · rw [if_pos hlookup] at h
        simp at h
      · rw [if_neg hlookup] at h
        cases hdata : (db.get? k.1).map (decodeRecord host) with
        | none => simp [hdata] at h
        | some decoded =>
            cases decoded with
            | none => simp [hdata] at h
            | some r =>
                cases hbody : r.body with
                | none => simp [hdata, hbody] at h
                | some v =>
                    simp only [hdata, hbody] at h
                    split_ifs at h
                    · simp at h
                    · obtain rfl : r.getOut v = out := by simpa using h
                      refine ⟨?_, v.2⟩
                      cases hv : v.1 <;> simp [Record.getOut, hv]

/-! ## Reading everything -/

/-- What the snapshot hands to its callback for a key and its record. -/
def Record.toDbRecord (k : Key) (r : Record) : DbRecord :=
  ⟨k.1, r.value, r.timestamp, r.nodeId, r.expireAt, r.tombstone⟩

theorem snapshotRecord_blob (k : Key) (r : Record) :
    snapshotRecord host k.1 (r.blob host) = r.toDbRecord k := by
  simp only [snapshotRecord, cacheEntryAt_blob, isTombstone_header, valueLen_header,
    drop_entrySize_blob, List.take_length]
  rfl

/-- What the callback keeps, a snapshot keeps. -/
theorem snapshotLoop_rule {σ : Type*} {P : σ → Prop} (db : Database)
    {callback : DbRecord → σ → Int × σ} (hstep : ∀ record arg, P arg → P (callback record arg).2)
    (calls : ℕ → Bdb) :
    ∀ (fuel i : ℕ) (pos : Option Bytes) (arg : σ), P arg →
      P (snapshotLoop host db callback calls fuel i pos arg).2 := by
  intro fuel
  induction fuel with
  | zero => exact fun _ _ _ h => h
  | succ fuel ih =>
      intro i pos arg h
      unfold snapshotLoop
      cases db.next? pos with
      | none => split_ifs <;> exact h
      | some entry =>
          simp only
          split_ifs
          · exact h
          · exact h
          · exact h
          · exact hstep _ _ h
          · exact ih _ _ _ (hstep _ _ h)

theorem dbSnapshotForeach_rule (host : Endian) {σ : Type*} {P : σ → Prop} (bdb : Bdb)
    (db : Database)
    {callback : DbRecord → σ → Int × σ} (hstep : ∀ record arg, P arg → P (callback record arg).2)
    (calls : ℕ → Bdb) {arg : σ} (h : P arg) :
    P (dbSnapshotForeach host bdb db callback calls arg).2 := by
  unfold dbSnapshotForeach
  split_ifs
  · exact h
  · exact snapshotLoop_rule db hstep calls _ _ _ _ h

/-- A callback that keeps every record it is given. -/
def collect (record : DbRecord) (records : List DbRecord) : Int × List DbRecord :=
  (0, records ++ [record])

theorem snapshotLoop_collect {db : Database} (hwf : WellFormed host db) :
    ∀ (fuel i : ℕ) (pos : Option Bytes) (records : List DbRecord), (db.rest pos).length < fuel →
      snapshotLoop host db collect (fun _ => Bdb.ok) fuel i pos records =
        (.applied, records ++ (db.rest pos).map fun e => snapshotRecord host e.1 e.2) := by
  intro fuel
  induction fuel with
  | zero => intro i pos records h; omega
  | succ fuel ih =>
      intro i pos records hfuel
      unfold snapshotLoop
      cases hnext : db.next? pos with
      | none => simp [db.rest_eq_nil hnext, Bdb.ok]
      | some entry =>
          obtain ⟨key, data⟩ := entry
          have hrest : db.rest pos = (key, data) :: db.rest (some key) := db.rest_eq_cons hnext
          have hmem : (key, data) ∈ db.entries :=
            List.mem_of_mem_filter (hrest ▸ List.mem_cons_self : (key, data) ∈ db.rest pos)
          obtain ⟨⟨hne, hlen⟩, r, rfl⟩ := hwf _ _ (db.get?_eq_some_iff_mem.mpr hmem)
          have hchecks : ¬ (!entryIsValid host (r.blob host) || key.length == 0 ||
              decide (key.length > maxKeyLen)) = true := by
            simp [hne, hlen]
          rw [hrest, List.length_cons] at hfuel
          simp only [Bdb.ok, Bool.not_true, Bool.false_eq_true, if_false, if_neg hchecks, collect,
            bne_self_eq_false]
          rw [show (fun _ : ℕ => (⟨true, true, true, true⟩ : Bdb)) = fun _ => Bdb.ok from rfl]
          rw [ih (i + 1) (some key) _ (by omega), hrest]
          simp

/-- The snapshot of a well-formed database goes through its entries in key
order and reports each of them once. -/
theorem dbSnapshotForeach_collect {db : Database} (hwf : WellFormed host db) :
    dbSnapshotForeach host Bdb.ok db collect (fun _ => Bdb.ok) [] =
      (.applied, db.entries.map fun e => snapshotRecord host e.1 e.2) := by
  have h := snapshotLoop_collect hwf (db.entries.length + 1) 0 none []
    (by rw [OrderedMap.rest_none]; omega)
  rw [OrderedMap.rest_none, List.nil_append] at h
  exact h

theorem nodup_snapshot_keys (db : Database) :
    ((db.entries.map fun e => snapshotRecord host e.1 e.2).map DbRecord.key).Nodup := by
  rw [List.map_map]
  exact (List.pairwise_map.mpr (db.sorted.imp fun h => h.ne))

/-- The snapshot holds exactly the records of the abstract store. -/
theorem mem_snapshot_iff {db : Database} (hwf : WellFormed host db) (record : DbRecord) :
    record ∈ (db.entries.map fun e => snapshotRecord host e.1 e.2) ↔
      ∃ k r, contents host db k = some r ∧ record = r.toDbRecord k := by
  simp only [List.mem_map, Prod.exists]
  constructor
  · rintro ⟨key, data, hmem, rfl⟩
    have hget := db.get?_eq_some_iff_mem.mpr hmem
    obtain ⟨hkey, r, rfl⟩ := hwf _ _ hget
    refine ⟨⟨key, hkey⟩, r, ?_, snapshotRecord_blob ⟨key, hkey⟩ r⟩
    simp [contents, hget]
  · rintro ⟨k, r, hheld, rfl⟩
    have hget := hwf.get?_eq k
    rw [hheld, Option.map_some] at hget
    exact ⟨k.1, r.blob host, db.get?_eq_some_iff_mem.mp hget, snapshotRecord_blob k r⟩

/-! ## The refinement -/

/-- **The byte store refines the abstract map.**  After any sequence of writing
calls on an empty database, whatever their arguments and whichever of them
fail: every stored blob passes the validator and decodes to the abstract
record; a further call is reported as applied exactly when it changes the
abstract map, and otherwise leaves the database alone; a read returns the
abstract live value; and a snapshot yields each key once with its record. -/
theorem runCalls_refines (host : Endian) (myNodeId : UInt64) (calls : List Call) :
    (∀ key data, (runCalls host myNodeId calls).get? key = some data →
      entryIsValid host data = true ∧ key ≠ [] ∧ key.length ≤ maxKeyLen) ∧
    (∀ k : Key, ((runCalls host myNodeId calls).get? k.1).map (decodeRecord host) =
      (abstractRun myNodeId calls k).map some) ∧
    (∀ call : Call,
      ((call.exec host myNodeId (runCalls host myNodeId calls)).1 = .applied ↔
        abstractRun myNodeId (calls ++ [call]) ≠ abstractRun myNodeId calls) ∧
      ((call.exec host myNodeId (runCalls host myNodeId calls)).1 = .ignored ∨
          (call.exec host myNodeId (runCalls host myNodeId calls)).1 = .error ↔
        abstractRun myNodeId (calls ++ [call]) = abstractRun myNodeId calls) ∧
      ((call.exec host myNodeId (runCalls host myNodeId calls)).1 ≠ .applied →
        runCalls host myNodeId (calls ++ [call]) = runCalls host myNodeId calls)) ∧
    (∀ key : Buf, dbGetWithMeta host Bdb.ok (runCalls host myNodeId calls) key =
      match key.toKey? with
      | none => (.error, none)
      | some k => (abstractRun myNodeId calls).get k) ∧
    ∃ records : List DbRecord,
      dbSnapshotForeach host Bdb.ok (runCalls host myNodeId calls) collect (fun _ => Bdb.ok) [] =
        (.applied, records) ∧
      (records.map DbRecord.key).Nodup ∧
      ∀ record, record ∈ records ↔
        ∃ k r, abstractRun myNodeId calls k = some r ∧ record = r.toDbRecord k := by
  have hwf := wellFormed_runCalls host myNodeId calls
  rw [← contents_runCalls host]
  refine ⟨?_, ?_, ?_, dbGetWithMeta_eq hwf, _, dbSnapshotForeach_collect hwf,
    nodup_snapshot_keys _, mem_snapshot_iff hwf⟩
  · intro key data hget
    obtain ⟨hkey, r, rfl⟩ := hwf key data hget
    exact ⟨entryIsValid_blob host r, hkey⟩
  · intro k
    rw [hwf.get?_eq k, Option.map_map]
    congr 1
    funext r
    exact decodeRecord_blob host r
  · intro call
    rw [abstractRun_append, ← contents_runCalls host, runCalls_append]
    exact call.applied_iff hwf

end Dmmr.Store
