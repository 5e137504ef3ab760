import Dmmr.Node.Collector

/-!
# What the collection gets done

A round is a scan by the control thread and a drain of the queue by the collector.  A scan
takes up where the last one stopped, and visits `TTL_SCAN_CHUNK_SIZE` records; the deletion
of a record leaves its key in the store, with a tombstone, so that the way of the cursor
does not change.  Hence as many rounds as it takes to visit all records once make a
tombstone of every record that had expired at the beginning, and they leave alone every
record that has not expired at the end (`gc_collects`).

A deletion has the stamp of the clock.  It gets the better of a record only if the stamp of
the record is older, which is assumed here: a record that a peer with a clock ahead of this
node has written is not collected before this node's clock has passed its stamp.
-/

namespace Dmmr.Node

open Words Store Wire

/-! ## Rounds -/

/-- The clock of the scan, and what happens at each deletion. -/
structure RoundEnv where
  now : UInt64
  deletes : ℕ → GcEnv

/-- The store and the persistent cursor of the scan. -/
structure GcState where
  gcCursor : Option (Option Bytes)
  db : Database

variable (host : Endian) (myNodeId : UInt64)

/-- A scan and a drain. -/
def collectRound (s : GcState) (env : RoundEnv) : GcState :=
  let (gcCursor, queued) := scanExpiredEntries host s.db s.gcCursor true (fun _ => .ok) env.now
  ⟨gcCursor, (gcWorkerRoutine host myNodeId env.deletes 0 queued s.db).1⟩

/-- No deletion fails, and the clock shows `t` or later. -/
structure RoundEnv.Since (t : UInt64) (env : RoundEnv) : Prop where
  scan : t ≤ env.now
  bdb : ∀ i, (env.deletes i).bdb.succeeds = true
  deletes : ∀ i, t ≤ (env.deletes i).deleteTs

variable {host myNodeId}

/-! ## Deletions -/

section Deletions

variable {db : Database} (hwf : WellFormed host db)
include hwf

theorem wellFormed_gcDelete (env : GcEnv) (key : Bytes) :
    WellFormed host (gcDelete host myNodeId env key db).1 :=
  Call.wellFormed_exec hwf (.delKey env.bdb (Buf.ofBytes key) env.deleteTs)

/-- A deletion offers a tombstone to the key. -/
theorem contents_gcDelete (myNodeId : UInt64) {env : GcEnv} (hok : env.bdb.succeeds = true)
    (k : Key) :
    contents host (gcDelete host myNodeId env k.1 db).1 =
      Function.update (contents host db) k
        (LastWrite.offer Record.stamp (contents host db k) ⟨env.deleteTs, myNodeId, 0, none⟩) := by
  have hrequest : (Call.delKey env.bdb (Buf.ofBytes k.1) env.deleteTs).request myNodeId =
      some (k, ⟨env.deleteTs, myNodeId, 0, none⟩) :=
    requested_ofBytes k ⟨env.deleteTs, myNodeId, 0, none⟩
  have hcontents := Call.contents_exec myNodeId hwf
    (.delKey env.bdb (Buf.ofBytes k.1) env.deleteTs)
  rw [hrequest] at hcontents
  refine hcontents.trans ?_
  exact if_pos hok

/-- The key of a record that is deleted stays. -/
theorem keys_gcDelete (env : GcEnv) {k : Key} (hk : k.1 ∈ db.keys) :
    (gcDelete host myNodeId env k.1 db).1.keys = db.keys := by
  have hrequest : (Call.delKey env.bdb (Buf.ofBytes k.1) env.deleteTs).request myNodeId =
      some (k, ⟨env.deleteTs, myNodeId, 0, none⟩) :=
    requested_ofBytes k ⟨env.deleteTs, myNodeId, 0, none⟩
  rcases (Call.delKey env.bdb (Buf.ofBytes k.1) env.deleteTs).exec_cases myNodeId hwf with
    ⟨k', r, hrequest', -, -, hexec⟩ | ⟨-, hexec, -⟩
  · obtain ⟨rfl, -⟩ := Prod.mk.inj (Option.some.inj (hrequest.symm.trans hrequest'))
    have hdb : (gcDelete host myNodeId env k.1 db).1 = db.put k.1 (r.blob host) :=
      congrArg Prod.snd hexec
    rw [hdb]
    exact db.keys_put hk _
  · exact congrArg OrderedMap.keys hexec

end Deletions

/-- A record that a deletion at time `t` or later makes a tombstone of, if it is not one. -/
structure Collectable (t : UInt64) (x : Record) : Prop where
  expired : x.expireAt < t
  old : x.tombstone = true ∨ x.timestamp < t

theorem Collectable.offer {t : UInt64} {x : Record} (h : Collectable t x) {ts : UInt64}
    (hts : t ≤ ts) :
    ∃ y, LastWrite.offer Record.stamp (some x) ⟨ts, myNodeId, 0, none⟩ = some y ∧
      Collectable t y ∧ y.tombstone = true := by
  have hpos : 0 < t := lt_of_le_of_lt UInt64.zero_le h.expired
  have hnew : Collectable t ⟨ts, myNodeId, 0, none⟩ := ⟨hpos, Or.inl rfl⟩
  by_cases hlt : x.stamp < Record.stamp ⟨ts, myNodeId, 0, none⟩
  · exact ⟨_, LastWrite.offer_of_lt hlt, hnew, rfl⟩
  · refine ⟨x, LastWrite.offer_of_not_lt hlt, h, h.old.resolve_right fun hold => hlt ?_⟩
    exact Prod.Lex.toLex_lt_toLex.mpr (Or.inl (hold.trans_le hts))

/-! ## A round -/

/-- What deletions of the keys `ks` make of a store. -/
structure Drained (host : Endian) (t : UInt64) (ks : List Key) (db db' : Database) : Prop where
  wellFormed : WellFormed host db'
  keys : db'.keys = db.keys
  spared : ∀ k ∉ ks, contents host db' k = contents host db k
  collected : ∀ k x, contents host db k = some x → Collectable t x →
    ∃ y, contents host db' k = some y ∧ Collectable t y ∧
      (x.tombstone = true ∨ k ∈ ks → y.tombstone = true)

theorem Drained.cons {t : UInt64} {k : Key} {ks : List Key} {db db' db'' : Database}
    (h : Drained host t [k] db db') (h' : Drained host t ks db' db'') :
    Drained host t (k :: ks) db db'' where
  wellFormed := h'.wellFormed
  keys := h'.keys.trans h.keys
  spared := by
    intro k' hk'
    obtain ⟨hne, hnot⟩ := not_or.mp (mt List.mem_cons.mpr hk')
    rw [h'.spared k' hnot, h.spared k' fun hmem => hne (List.mem_singleton.mp hmem)]
  collected := by
    intro k' x hx hcollectable
    obtain ⟨y, hy, hcollectable', hdead⟩ := h.collected k' x hx hcollectable
    obtain ⟨z, hz, hcollectable'', hdead'⟩ := h'.collected k' y hy hcollectable'
    refine ⟨z, hz, hcollectable'', fun hor => hdead' ?_⟩
    rcases hor with hx | hmem
    · exact Or.inl (hdead (Or.inl hx))
    · rcases List.mem_cons.mp hmem with heq | hmem
      · exact Or.inl (hdead (Or.inr (List.mem_singleton.mpr heq)))
      · exact Or.inr hmem

section Round

variable {t : UInt64} {env : RoundEnv} (hsince : env.Since t) {db : Database}
include hsince

/-- One deletion. -/
theorem drained_gcDelete (myNodeId : UInt64) (hwf : WellFormed host db) (i : ℕ) {k : Key}
    (hk : k.1 ∈ db.keys) :
    Drained host t [k] db (gcDelete host myNodeId (env.deletes i) k.1 db).1 := by
  have hcontents := contents_gcDelete hwf myNodeId (hsince.bdb i) k
  refine ⟨wellFormed_gcDelete hwf _ _, keys_gcDelete hwf _ hk, ?_, ?_⟩
  · intro k' hk'
    rw [hcontents, Function.update_of_ne (fun heq => hk' (List.mem_singleton.mpr heq))]
  · intro k' x hx hcollectable
    rw [hcontents]
    by_cases heq : k' = k
    · subst heq
      obtain ⟨y, hy, hcollectable', hdead⟩ := hcollectable.offer (hsince.deletes i)
      rw [Function.update_self, hx]
      exact ⟨y, hy, hcollectable', fun _ => hdead⟩
    · rw [Function.update_of_ne heq]
      refine ⟨x, hx, hcollectable, fun hor => hor.resolve_right fun hmem => heq ?_⟩
      exact List.mem_singleton.mp hmem

/-- The drain of a queue. -/
theorem drained_gcWorkerRoutine (myNodeId : UInt64) (hwf : WellFormed host db) (i : ℕ)
    {ks : List Key}
    (hks : ∀ k ∈ ks, k.1 ∈ db.keys) :
    Drained host t ks db
      (gcWorkerRoutine host myNodeId env.deletes i (ks.map Subtype.val) db).1 := by
  induction ks generalizing i db with
  | nil =>
      refine ⟨hwf, rfl, fun _ _ => rfl, fun k x hx hcollectable => ⟨x, hx, hcollectable, ?_⟩⟩
      exact fun hor => hor.resolve_right List.not_mem_nil
  | cons k ks ih =>
      obtain ⟨hk, hrest⟩ := List.forall_mem_cons.mp hks
      have hfirst := drained_gcDelete hsince myNodeId hwf i hk
      refine hfirst.cons ?_
      exact ih hfirst.wellFormed (i + 1) fun k' hk' => hfirst.keys ▸ hrest k' hk'

end Round

/-- What a scan queues are the keys of the expired records that it visits. -/
theorem exists_queue {db : Database} (hwf : WellFormed host db)
    (gcCursor : Option (Option Bytes)) (now : UInt64) :
    ∃ ks : List Key,
      (scanExpiredEntries host db gcCursor true (fun _ => .ok) now).2 = ks.map Subtype.val ∧
      (∀ k ∈ ks, ∃ x, contents host db k = some x ∧ x.expireAt < now) ∧
      ∀ k x, k.1 ∈ (db.walk (cursorPos gcCursor) ttlScanChunkSize).map Prod.fst →
        contents host db k = some x → x.expireAt < now → k ∈ ks := by
  have hexpired : ∀ key ∈ (scanExpiredEntries host db gcCursor true (fun _ => .ok) now).2,
      Expired host db now key := fun key hkey => mem_scanExpiredEntries hwf hkey
  have hkeys : ∀ key ∈ (scanExpiredEntries host db gcCursor true (fun _ => .ok) now).2,
      key ≠ [] ∧ key.length ≤ maxKeyLen := by
    intro key hkey
    obtain ⟨k, rfl, -⟩ := hexpired key hkey
    exact k.2
  refine ⟨List.attachWith _ _ hkeys, (List.attachWith_map_subtype_val hkeys).symm, ?_, ?_⟩
  · intro k hk
    obtain ⟨k', hk', x, hx, hlt⟩ := hexpired k.1 ((List.mem_attachWith hkeys _).mp hk)
    obtain rfl := Subtype.ext hk'
    exact ⟨x, hx, hlt⟩
  · intro k x hvisited hx hlt
    apply (List.mem_attachWith hkeys _).mpr
    obtain ⟨entry, hentry, hfst⟩ := List.mem_map.mp hvisited
    rw [queued_ok, List.mem_filterMap]
    refine ⟨entry, hentry, scanKey?_eq_some_iff.mpr ⟨?_, ?_⟩⟩
    · have hmem := OrderedMap.mem_entries_of_mem_walk hentry
      obtain ⟨key, data⟩ := entry
      obtain rfl : key = k.1 := hfst
      exact hasExpired_of_contents hmem hx hlt
    · rw [hfst]
      exact List.take_of_length_le k.2.2

/-- What a round makes of a record. -/
theorem round_collects {t : UInt64} {env : RoundEnv} (hsince : env.Since t) (myNodeId : UInt64)
    {s : GcState} (hwf : WellFormed host s.db) :
    WellFormed host (collectRound host myNodeId s env).db ∧
      (collectRound host myNodeId s env).db.keys = s.db.keys ∧
      (collectRound host myNodeId s env).gcCursor =
        some (s.db.walkEnd (cursorPos s.gcCursor) ttlScanChunkSize) ∧
      (∀ k x, contents host s.db k = some x → env.now ≤ x.expireAt →
        contents host (collectRound host myNodeId s env).db k = some x) ∧
      ∀ k x, contents host s.db k = some x → Collectable t x →
        ∃ y, contents host (collectRound host myNodeId s env).db k = some y ∧ Collectable t y ∧
          (x.tombstone = true ∨
              k.1 ∈ (s.db.walk (cursorPos s.gcCursor) ttlScanChunkSize).map Prod.fst →
            y.tombstone = true) := by
  obtain ⟨ks, hqueue, hexpired, hvisited⟩ := exists_queue hwf s.gcCursor env.now
  have hks : ∀ k ∈ ks, k.1 ∈ s.db.keys := by
    intro k hk
    obtain ⟨x, hx, -⟩ := hexpired k hk
    obtain ⟨data, hdata, -⟩ := Option.bind_eq_some_iff.mp hx
    exact List.mem_map.mpr ⟨_, s.db.get?_eq_some_iff_mem.mp hdata, rfl⟩
  have hdrained := drained_gcWorkerRoutine hsince myNodeId hwf 0 hks
  have hdb : (collectRound host myNodeId s env).db =
      (gcWorkerRoutine host myNodeId env.deletes 0 (ks.map Subtype.val) s.db).1 := by
    rw [← hqueue]
    rfl
  have hok : CursorOk (ScanEnv.calls ⟨fun _ => .ok, env.now⟩) := fun _ => ⟨rfl, rfl⟩
  rw [hdb]
  refine ⟨hdrained.wellFormed, hdrained.keys, gcCursor_scanExpiredEntries hok s.gcCursor, ?_, ?_⟩
  · intro k x hx hlater
    rw [hdrained.spared, hx]
    intro hk
    obtain ⟨x', hx', hlt⟩ := hexpired k hk
    rw [hx] at hx'
    obtain rfl := Option.some.inj hx'
    exact absurd hlt (not_lt.mpr hlater)
  · intro k x hx hcollectable
    obtain ⟨y, hy, hcollectable', hdead⟩ := hdrained.collected k x hx hcollectable
    refine ⟨y, hy, hcollectable', fun hor => hdead (hor.imp_right fun hmem => ?_)⟩
    exact hvisited k x hmem hx (hcollectable.expired.trans_le hsince.scan)

/-! ## Many rounds -/

/-- A key that the cursor comes to becomes a tombstone. -/
theorem rounds_collect {t : UInt64} {envs : List RoundEnv} (hsince : ∀ env ∈ envs, env.Since t)
    (myNodeId : UInt64) {s : GcState} (hwf : WellFormed host s.db) {k : Key} {x : Record}
    (hx : contents host s.db k = some x) (hcollectable : Collectable t x)
    (hvisited : x.tombstone = true ∨ k.1 ∈
      (s.db.walk (cursorPos s.gcCursor) (envs.length * ttlScanChunkSize)).map Prod.fst) :
    ∃ y, contents host (envs.foldl (collectRound host myNodeId) s).db k = some y ∧
      y.tombstone = true := by
  induction envs generalizing s x with
  | nil =>
      refine ⟨x, hx, hvisited.resolve_right fun hmem => ?_⟩
      rw [List.length_nil, Nat.zero_mul] at hmem
      exact absurd hmem List.not_mem_nil
  | cons env envs ih =>
      obtain ⟨henv, hrest⟩ := List.forall_mem_cons.mp hsince
      obtain ⟨hwf', hkeys, hcursor, -, hcollected⟩ := round_collects henv myNodeId hwf
      obtain ⟨y, hy, hcollectable', hdead⟩ := hcollected k x hx hcollectable
      apply ih hrest hwf' hy hcollectable'
      -- the cursor goes on where it stopped, and the keys are the same
      have hwalk := (OrderedMap.walk_congr_keys hkeys
        (s.db.walkEnd (cursorPos s.gcCursor) ttlScanChunkSize) (envs.length * ttlScanChunkSize)).1
      rw [hcursor, show cursorPos (some (s.db.walkEnd (cursorPos s.gcCursor) ttlScanChunkSize)) =
        s.db.walkEnd (cursorPos s.gcCursor) ttlScanChunkSize from rfl, hwalk]
      rw [List.length_cons, Nat.succ_mul, Nat.add_comm, OrderedMap.walk_add, List.map_append,
        List.mem_append] at hvisited
      rcases hvisited with hx | hmem | hmem
      · exact Or.inl (hdead (Or.inl hx))
      · exact Or.inl (hdead (Or.inr hmem))
      · exact Or.inr hmem

/-- A record that has not expired stays. -/
theorem rounds_spare {t : UInt64} {envs : List RoundEnv} (hsince : ∀ env ∈ envs, env.Since t)
    (myNodeId : UInt64) {s : GcState} (hwf : WellFormed host s.db) {k : Key} {x : Record}
    (hx : contents host s.db k = some x) (hlater : ∀ env ∈ envs, env.now ≤ x.expireAt) :
    contents host (envs.foldl (collectRound host myNodeId) s).db k = some x := by
  induction envs generalizing s with
  | nil => exact hx
  | cons env envs ih =>
      obtain ⟨henv, hrest⟩ := List.forall_mem_cons.mp hsince
      obtain ⟨hnow, hnows⟩ := List.forall_mem_cons.mp hlater
      obtain ⟨hwf', -, -, hspared, -⟩ := round_collects henv myNodeId hwf
      exact ih hrest hwf' (hspared k x hx hnow) hnows

/-- **What the collection gets done.**  After as many rounds as it takes to visit each record
once, with no failing call and a clock ahead of all stamps, a record that had expired at the
beginning is a tombstone, and one that has not expired by the last scan is as it was. -/
theorem gc_collects (myNodeId : UInt64) {db : Database} (hwf : WellFormed host db)
    (gcCursor : Option (Option Bytes)) {t : UInt64}
    (hpast : ∀ k x, contents host db k = some x → x.timestamp < t) {envs : List RoundEnv}
    (hsince : ∀ env ∈ envs, env.Since t)
    (hlen : db.entries.length ⌈/⌉ ttlScanChunkSize ≤ envs.length) (k : Key) (x : Record)
    (hx : contents host db k = some x) :
    (x.expireAt < t → ∃ y,
      contents host (envs.foldl (collectRound host myNodeId) ⟨gcCursor, db⟩).db k = some y ∧
        y.tombstone = true) ∧
      ((∀ env ∈ envs, env.now ≤ x.expireAt) →
        contents host (envs.foldl (collectRound host myNodeId) ⟨gcCursor, db⟩).db k = some x) := by
  refine ⟨fun hexpired => ?_, rounds_spare hsince myNodeId hwf hx⟩
  have hcollectable : Collectable t x := ⟨hexpired, Or.inr (hpast k x hx)⟩
  apply rounds_collect hsince myNodeId hwf hx hcollectable
  have henough : db.entries.length ≤ envs.length * ttlScanChunkSize := by
    have hpos : 0 < ttlScanChunkSize := by decide
    calc
      db.entries.length ≤ ttlScanChunkSize * (db.entries.length ⌈/⌉ ttlScanChunkSize) :=
        le_smul_ceilDiv hpos
      _ ≤ ttlScanChunkSize * envs.length := Nat.mul_le_mul_left _ hlen
      _ = envs.length * ttlScanChunkSize := Nat.mul_comm _ _
  obtain ⟨data, hdata, -⟩ := Option.bind_eq_some_iff.mp hx
  have hentry := db.get?_eq_some_iff_mem.mp hdata
  exact Or.inr (List.mem_map.mpr ⟨_, OrderedMap.mem_walk_of_length_le henough hentry, rfl⟩)

/-- Of two records the first has expired and the second has not. -/
theorem gc_collects_two_records :
    let s := [(⟨10, fun _ => ⟨.ok, 10, 11, true⟩⟩ : RoundEnv)].foldl (collectRound .little 7)
      ⟨none, twoRecords⟩
    (∃ y, contents .little s.db ⟨[97], by decide⟩ = some y ∧ y.tombstone = true) ∧
      contents .little s.db ⟨[98], by decide⟩ = some ⟨1, 7, 50, some ⟨[], by decide⟩⟩ := by
  intro s
  let a : Key := ⟨[97], by decide⟩
  let b : Key := ⟨[98], by decide⟩
  let record (expireAt : UInt64) : Record := ⟨1, 7, expireAt, some ⟨[], by decide⟩⟩
  have hwf : WellFormed .little twoRecords := (wellFormed_empty.put a (record 5)).put b (record 50)
  have hcontents : contents .little twoRecords =
      Function.update (Function.update (contents .little OrderedMap.empty) a (some (record 5))) b
        (some (record 50)) := by
    rw [← contents_put, ← contents_put]
    rfl
  have hpast : ∀ k x, contents .little twoRecords k = some x → x.timestamp < 10 := by
    intro k x hx
    rw [hcontents, Function.update_apply, Function.update_apply] at hx
    split_ifs at hx
    · exact Option.some.inj hx ▸ by decide
    · exact Option.some.inj hx ▸ by decide
    · exact absurd hx (by simp [contents])
  have hsince : ∀ env ∈ [(⟨10, fun _ => ⟨.ok, 10, 11, true⟩⟩ : RoundEnv)], env.Since 10 := by
    simp only [List.mem_singleton, forall_eq]
    exact ⟨le_rfl, fun _ => rfl, fun _ => le_rfl⟩
  have hcollects := gc_collects 7 hwf none hpast hsince (by decide +kernel)
  refine ⟨(hcollects a (record 5) (by decide +kernel)).1 (by decide), ?_⟩
  exact (hcollects b (record 50) (by decide +kernel)).2 (by decide)

end Dmmr.Node
