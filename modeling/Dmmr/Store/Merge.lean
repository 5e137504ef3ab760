import Dmmr.Store.Refinement

/-!
# Replication is independent of order and repetition

Records arriving from peers are applied one after the other with
`db_apply_record`.  For every key the arrivals that name it are offers to one
last-writer-wins register (`contents_applyAll`), so the store they leave behind
depends only on which records arrived.
-/

namespace Dmmr.Store

open Words

/-! ## Databases reachable through the API -/

/-- The databases the writing operations lead to from an empty one. -/
inductive Reachable (host : Endian) : Database → Prop
  | empty : Reachable host OrderedMap.empty
  | call {db : Database} (myNodeId : UInt64) (call : Call) (h : Reachable host db) :
      Reachable host (call.exec host myNodeId db).2
  | tombstoneIfMatch {db : Database} (bdb : Bdb) (key : Buf)
      (observedTs observedNodeId observedExpireAt tombstoneTs tombstoneNodeId : UInt64)
      (h : Reachable host db) :
      Reachable host (dbTombstoneIfMatch host bdb db key observedTs observedNodeId
        observedExpireAt tombstoneTs tombstoneNodeId).2

variable {host : Endian}

/-- A guarded deletion writes a tombstone or changes nothing. -/
theorem dbTombstoneIfMatch_cases (host : Endian) (bdb : Bdb) (db : Database) (key : Buf)
    (observedTs observedNodeId observedExpireAt tombstoneTs tombstoneNodeId : UInt64) :
    (dbTombstoneIfMatch host bdb db key observedTs observedNodeId observedExpireAt tombstoneTs
        tombstoneNodeId).2 = db ∨
      ∃ k : Key, (dbTombstoneIfMatch host bdb db key observedTs observedNodeId observedExpireAt
        tombstoneTs tombstoneNodeId).2 =
          db.put k.1 (Record.blob host ⟨tombstoneTs, tombstoneNodeId, 0, none⟩) := by
  unfold dbTombstoneIfMatch
  split_ifs with hkey
  · exact Or.inl rfl
  · exact Or.inl rfl
  · exact Or.inl rfl
  · simp only [not_or, not_lt] at hkey
    have hacc : Acceptable key true Buf.null :=
      ⟨hkey.1, hkey.2.1, hkey.2.2, by decide, fun _ => rfl, by simp⟩
    cases db.get? key.bytes with
    | none => exact Or.inl rfl
    | some old =>
        simp only
        split_ifs
        · exact Or.inl rfl
        · rw [putRecordLocked_eq hacc, writeRecord]
          split_ifs
          · exact Or.inr ⟨hacc.toKey, rfl⟩
          · exact Or.inl rfl

theorem Reachable.wellFormed {db : Database} (h : Reachable host db) : WellFormed host db := by
  induction h with
  | empty => exact wellFormed_empty
  | call myNodeId call _ ih => exact call.wellFormed_exec ih
  | @tombstoneIfMatch db bdb key ots on oe tts tn _ ih =>
      rcases dbTombstoneIfMatch_cases host bdb db key ots on oe tts tn with h | ⟨k, h⟩
      · rw [h]
        exact ih
      · rw [h]
        exact ih.put k _

/-! ## Applying arrivals -/

/-- The arguments of one `db_apply_record` for a record from a peer. -/
structure Arrival where
  key : Buf
  timestamp : UInt64
  nodeId : UInt64
  expireAt : UInt64
  tombstone : Bool
  value : Buf

namespace Arrival

/-- The key and the record that arrived, `none` if they are rejected. -/
def request (a : Arrival) : Option (Key × Record) :=
  requested a.key a.timestamp a.nodeId a.expireAt a.tombstone a.value

/-- `db_apply_record` with calls that succeed. -/
def apply (host : Endian) (db : Database) (a : Arrival) : DbResult × Database :=
  dbApplyRecord host Bdb.ok db a.key a.timestamp a.nodeId a.expireAt a.tombstone a.value

end Arrival

/-- Apply arrivals one after the other. -/
def applyAll (host : Endian) (db : Database) (arrivals : List Arrival) : Database :=
  arrivals.foldl (fun db a => (a.apply host db).2) db

/-- The records for one key among some arrivals. -/
def recordsFor (k : Key) (arrivals : List Arrival) : List Record :=
  arrivals.filterMap fun a => a.request.bind fun kr => if kr.1 = k then some kr.2 else none

theorem mem_recordsFor {k : Key} {r : Record} {arrivals : List Arrival} :
    r ∈ recordsFor k arrivals ↔ ∃ a ∈ arrivals, a.request = some (k, r) := by
  simp only [recordsFor, List.mem_filterMap]
  refine exists_congr fun a => and_congr_right fun _ => ?_
  cases a.request with
  | none => simp
  | some kr =>
      obtain ⟨k', r'⟩ := kr
      by_cases h : k' = k <;> simp [h]

theorem Arrival.stamp_of_request {a : Arrival} {k : Key} {r : Record}
    (h : a.request = some (k, r)) : r.stamp = toLex (a.timestamp, a.nodeId) := by
  unfold Arrival.request requested at h
  split_ifs at h with hacc
  obtain ⟨-, rfl⟩ := Prod.mk.inj (Option.some.inj h)
  rfl

theorem Arrival.apply_eq (db : Database) (a : Arrival) (myNodeId : UInt64) :
    a.apply host db = (Call.applyRecord Bdb.ok a.key a.timestamp a.nodeId a.expireAt a.tombstone
      a.value).exec host myNodeId db := rfl

theorem Arrival.wellFormed_apply {db : Database} (hwf : WellFormed host db) (a : Arrival) :
    WellFormed host (a.apply host db).2 := by
  rw [a.apply_eq db 0]
  exact Call.wellFormed_exec hwf _

theorem Arrival.contents_apply {db : Database} (hwf : WellFormed host db) (a : Arrival) (k : Key) :
    contents host (a.apply host db).2 k =
      LastWrite.offerAll Record.stamp (contents host db k) (recordsFor k [a]) := by
  rw [a.apply_eq db 0, Call.contents_exec 0 hwf]
  change AbstractStore.write (contents host db) Bdb.ok a.request k = _
  unfold recordsFor
  cases hreq : a.request with
  | none => simp [AbstractStore.write, hreq, LastWrite.offerAll]
  | some kr =>
      obtain ⟨k', r⟩ := kr
      by_cases h : k' = k
      · subst h
        simp [AbstractStore.write, hreq, LastWrite.offerAll, Bdb.succeeds, Bdb.ok]
      · simp [AbstractStore.write, hreq, LastWrite.offerAll, Bdb.succeeds, Bdb.ok, h,
          Function.update_of_ne (Ne.symm h)]

theorem wellFormed_applyAll {db : Database} (hwf : WellFormed host db) (arrivals : List Arrival) :
    WellFormed host (applyAll host db arrivals) := by
  induction arrivals generalizing db with
  | nil => exact hwf
  | cons a arrivals ih => exact ih (a.wellFormed_apply hwf)

/-- For each key, applying arrivals offers their records to its register. -/
theorem contents_applyAll {db : Database} (hwf : WellFormed host db) (arrivals : List Arrival)
    (k : Key) :
    contents host (applyAll host db arrivals) k =
      LastWrite.offerAll Record.stamp (contents host db k) (recordsFor k arrivals) := by
  induction arrivals generalizing db with
  | nil => rfl
  | cons a arrivals ih =>
      have hstep := ih (a.wellFormed_apply hwf)
      rw [a.contents_apply hwf] at hstep
      refine hstep.trans ?_
      rw [LastWrite.offerAll, LastWrite.offerAll, LastWrite.offerAll, ← List.foldl_append]
      congr 1
      exact (List.filterMap_append (l := [a])).symm

/-- **Replication does not depend on order or repetition.**  From any store
reachable through the API, arrivals whose records for one key are determined by
their stamps lead to the same store in every order and with every repetition;
each key then holds, blob for blob, the record with the greatest stamp among
the one it held and those that arrived; and a rejected arrival has no effect. -/
theorem applyAll_order_independent {host : Endian} {db : Database} (hreach : Reachable host db)
    {arrivals : List Arrival}
    (hident : ∀ a ∈ arrivals, ∀ b ∈ arrivals, ∀ k r s, a.request = some (k, r) →
      b.request = some (k, s) → r.stamp = s.stamp → r = s) :
    (∀ arrivals' : List Arrival, (∀ a, a ∈ arrivals' ↔ a ∈ arrivals) →
      applyAll host db arrivals' = applyAll host db arrivals) ∧
    (∀ (k : Key) (r : Record),
      (applyAll host db arrivals).get? k.1 = some (r.blob host) ↔
        LastWrite.IsLast Record.stamp (contents host db k) (recordsFor k arrivals) r) ∧
    ∀ (db' : Database) (a : Arrival), a.request = none → a.apply host db' = (.error, db') := by
  have hwf := hreach.wellFormed
  have hinj : ∀ k, ∀ r ∈ recordsFor k arrivals, ∀ s ∈ recordsFor k arrivals,
      r.stamp = s.stamp → r = s := by
    intro k r hr s hs hstamp
    obtain ⟨a, ha, hra⟩ := mem_recordsFor.mp hr
    obtain ⟨b, hb, hsb⟩ := mem_recordsFor.mp hs
    exact hident a ha b hb k r s hra hsb hstamp
  refine ⟨?_, ?_, ?_⟩
  · intro arrivals' hmem
    apply (wellFormed_applyAll hwf arrivals').ext (wellFormed_applyAll hwf arrivals)
    funext k
    rw [contents_applyAll hwf, contents_applyAll hwf]
    refine (LastWrite.offerAll_eq_of_mem_iff (hinj k) fun r => ?_).symm
    simp only [mem_recordsFor, hmem]
  · intro k r
    rw [(wellFormed_applyAll hwf arrivals).get?_eq k, ← LastWrite.offerAll_eq_some_iff (hinj k),
      ← contents_applyAll hwf]
    constructor
    · intro h
      obtain ⟨s, hs, hblob⟩ := Option.map_eq_some_iff.mp h
      have hdecode := congrArg (decodeRecord host) hblob
      rw [decodeRecord_blob, decodeRecord_blob] at hdecode
      rw [hs, hdecode]
    · intro h
      rw [h, Option.map_some]
  · intro db' a hnone
    -- the arguments are checked before the database is looked at
    unfold Arrival.apply dbApplyRecord
    rw [if_pos]
    by_contra hok
    have hacc := (acceptable_iff a.key a.tombstone a.value).mpr hok
    simp [Arrival.request, requested, hacc] at hnone

/-- A value and a later deletion of the same key, delivered twice and out of
order. -/
theorem applyAll_order_independent_value_deletion :
    let set : Arrival := ⟨Buf.ofBytes [107], 5, 1, 9, false, Buf.ofBytes [118]⟩
    let del : Arrival := ⟨Buf.ofBytes [107], 6, 2, 0, true, Buf.null⟩
    applyAll .little OrderedMap.empty [del, set, del, set] =
      applyAll .little OrderedMap.empty [set, del] := by
  intro set del
  refine (applyAll_order_independent Reachable.empty ?_).1 _ fun a => by simp; tauto
  intro a ha b hb k r s hr hs hstamp
  rw [Arrival.stamp_of_request hr, Arrival.stamp_of_request hs] at hstamp
  have htime : a.timestamp = b.timestamp := congrArg (fun t => (ofLex t).1) hstamp
  have hab : a = b := by
    simp only [List.mem_cons, List.not_mem_nil, or_false] at ha hb
    rcases ha with rfl | rfl <;> rcases hb with rfl | rfl
    · rfl
    · exact absurd htime (by decide)
    · exact absurd htime (by decide)
    · rfl
  rw [hab, hs] at hr
  exact (Prod.mk.inj (Option.some.inj hr)).2.symm

end Dmmr.Store
