import Dmmr.Node.Threads

/-!
# What the garbage collector deletes

The expiry scan decides that a key may go and queues it; the collector deletes
it some time later with a plain `db_del_key`.  The queue carries only the key,
so a write that lands in between is not noticed.

`Tracked` says what is known about a queued key: as long as nothing has been
written under it, it still holds the expired record the scan saw, and otherwise
it holds the record written last.  The invariant `Tracking` keeps this for every
queued key and every deletion under way, whatever the other threads and the
peers do.
-/

namespace Dmmr.Node

open Words Store Wire

/-! ## Runs of one node -/

/-- An event on one node, with what the environment does on it. -/
inductive NodeEvent
  | own (bdb : Bdb) (e : Event)
  | peer (bdb : Bdb) (r : Received)

variable (host : Endian) (myNodeId : UInt64)

def nodeStep (s : State) : NodeEvent → State
  | .own bdb e => step host myNodeId bdb s e
  | .peer bdb r => receive host myNodeId bdb s r

/-- The state a node reaches from its start. -/
def nodeRun (events : List NodeEvent) : State := events.foldl (nodeStep host myNodeId) State.init

/-! ## The invariant -/

/-- What the queue entry `e` says about the store: at time `t` its key holds an
expired record, or the record written since. -/
def Tracked (db : Database) (t : UInt64) (e : DeleteEntry) : Prop :=
  ∃ k : Key, k.1 = e.key ∧
    match e.rewritten with
    | none => ∃ r, contents host db k = some r ∧ r.expireAt < t
    | some r => contents host db k = some r

/-- The deletion a thread is carrying out for the collector, with the time from
which on it may take place. -/
def Task.collecting (clock : UInt64) : Task → Option (DeleteEntry × UInt64)
  | delReadTs (.collector rewritten) key => some (⟨key, rewritten⟩, clock)
  | delApply (.collector rewritten) key ts => some (⟨key, rewritten⟩, ts)
  | _ => none

structure Tracking (s : State) : Prop where
  wellFormed : WellFormed host s.db
  queued : ∀ e ∈ s.gcQueue, Tracked host s.db s.clock e
  collecting : ∀ w e t, (s.tasks w).collecting s.clock = some (e, t) → Tracked host s.db t e

variable {host myNodeId}

theorem Tracked.mono {db : Database} {t t' : UInt64} {e : DeleteEntry} (h : Tracked host db t e)
    (hle : t ≤ t') : Tracked host db t' e := by
  obtain ⟨k, hk, h⟩ := h
  refine ⟨k, hk, ?_⟩
  cases hr : e.rewritten with
  | none =>
      rw [hr] at h
      obtain ⟨r, hheld, hexp⟩ := h
      exact ⟨r, hheld, hexp.trans_le hle⟩
  | some r => rwa [hr] at h

/-- A write is noted by every entry for its key and leaves the others alone. -/
theorem Tracked.put {db : Database} {t : UInt64} {e : DeleteEntry} (h : Tracked host db t e)
    (k : Key) (r : Record) :
    Tracked host (db.put k.1 (r.blob host)) t (e.rewrite k.1 r) := by
  obtain ⟨k', hk', h⟩ := h
  unfold DeleteEntry.rewrite
  split_ifs with hkey
  · exact ⟨k, hkey.symm, by rw [contents_put, Function.update_self]⟩
  · have hne : k' ≠ k := fun heq => hkey (by rw [← hk', heq])
    refine ⟨k', hk', ?_⟩
    rw [contents_put, Function.update_of_ne hne]
    exact h

theorem collecting_rewrite (key : Bytes) (r : Record) (clock : UInt64) (task : Task) :
    (task.rewrite key r).collecting clock =
      (task.collecting clock).map fun et => (et.1.rewrite key r, et.2) := by
  have hkey : ∀ k rewritten, (DeleteEntry.rewrite key r ⟨k, rewritten⟩) =
      ⟨k, (DeleteEntry.rewrite key r ⟨k, rewritten⟩).rewritten⟩ := by
    intro k rewritten
    unfold DeleteEntry.rewrite
    split_ifs <;> rfl
  cases task with
  | delReadTs source k => cases source <;> simp [Task.rewrite, Task.collecting, ← hkey]
  | delApply source k ts => cases source <;> simp [Task.rewrite, Task.collecting, ← hkey]
  | _ => rfl

/-! ## Every step keeps it -/

namespace Tracking

theorem init : Tracking host State.init :=
  ⟨wellFormed_empty, by simp [State.init], by simp [State.init, Task.collecting]⟩

theorem wrote {s : State} (h : Tracking host s) (k : Key) (r : Record) :
    Tracking host (s.wrote host k r) := by
  refine ⟨h.wellFormed.put k r, ?_, ?_⟩
  · intro e he
    obtain ⟨e', he', rfl⟩ := List.mem_map.mp he
    exact (h.queued e' he').put k r
  · intro w e t he
    have hcol : ((s.tasks w).rewrite k.1 r).collecting s.clock = some (e, t) := he
    rw [collecting_rewrite] at hcol
    obtain ⟨⟨e', t'⟩, he', heq⟩ := Option.map_eq_some_iff.mp hcol
    obtain ⟨rfl, rfl⟩ := Prod.mk.inj heq
    exact (h.collecting w e' t' he').put k r

theorem perform {s : State} (h : Tracking host s) (call : Call) :
    Tracking host (s.perform host myNodeId call).2 := by
  rcases perform_cases myNodeId h.wellFormed call with ⟨k, r, -, -, -, heq⟩ |
    ⟨-, heq, -⟩
  · rw [heq]
    exact h.wrote k r
  · rw [heq]
    exact h

/-- A later clock reading. -/
theorem clock {s : State} (h : Tracking host s) {now : UInt64} (hle : s.clock ≤ now) :
    Tracking host { s with clock := now } := by
  refine ⟨h.wellFormed, fun e he => (h.queued e he).mono hle, ?_⟩
  intro w e t he
  cases htask : s.tasks w with
  | delReadTs source key =>
      cases source with
      | client => simp [htask, Task.collecting] at he
      | collector rewritten =>
          have hold := h.collecting w ⟨key, rewritten⟩ s.clock (by rw [htask]; rfl)
          simp only [htask, Task.collecting, Option.some.injEq, Prod.mk.injEq] at he
          obtain ⟨rfl, rfl⟩ := he
          exact hold.mono hle
  | delApply source key ts =>
      cases source with
      | client => simp [htask, Task.collecting] at he
      | collector rewritten =>
          exact h.collecting w e t (by rw [htask]; simpa [htask, Task.collecting] using he)
  | _ => simp [htask, Task.collecting] at he

/-- A thread moves to a task that carries out no deletion, or a tracked one. -/
theorem setTask {s : State} (h : Tracking host s) (w : ℕ) {task : Task}
    (htask : ∀ e t, task.collecting s.clock = some (e, t) → Tracked host s.db t e) :
    Tracking host (s.setTask w task) := by
  refine ⟨h.wellFormed, h.queued, ?_⟩
  intro w' e t he
  by_cases hw : w' = w
  · subst hw
    rw [tasks_setTask_self] at he
    exact htask e t he
  · rw [tasks_setTask_of_ne s hw] at he
    exact h.collecting w' e t he

theorem broadcast {s : State} (h : Tracking host s) (allocOk : Bool) (b : Broadcast) :
    Tracking host (s.broadcast allocOk b) := by
  unfold State.broadcast
  split_ifs
  · exact ⟨h.wellFormed, h.queued, h.collecting⟩
  · exact h

theorem readClock {s : State} (h : Tracking host s) {now : UInt64} {k : State → State}
    (hk : s.clock ≤ now → Tracking host (k { s with clock := now })) :
    Tracking host (s.readClock now k) := by
  unfold State.readClock
  split_ifs with hlt
  · exact h
  · exact hk (not_lt.mp hlt)

theorem advance {s : State} (h : Tracking host s) (bdb : Bdb) (w : ℕ) (now : UInt64) :
    Tracking host (advance host myNodeId bdb s w now) := by
  unfold Node.advance
  cases htask : s.tasks w with
  | idle => exact h
  | setReadTs key value =>
      exact h.readClock fun hle => (h.clock hle).setTask w (by simp [Task.collecting])
  | setReadExpire key value tsUse =>
      exact h.readClock fun hle => (h.clock hle).setTask w (by simp [Task.collecting])
  | setApply key value tsUse expireAt =>
      simp only
      split_ifs
      · exact (h.perform _).setTask w (by simp [Task.collecting])
      · exact (h.perform _).setTask w (by simp [Task.collecting])
  | setEnqueue key value tsUse expireAt =>
      exact (h.broadcast _ _).setTask w (by simp [Task.collecting])
  | delReadTs source key =>
      refine h.readClock fun hle => (h.clock hle).setTask w fun e t he => ?_
      cases source with
      | client => simp [Task.collecting] at he
      | collector rewritten =>
          -- the time of the deletion is the reading just taken
          simp only [Task.collecting, Option.some.injEq, Prod.mk.injEq] at he
          obtain ⟨rfl, rfl⟩ := he
          exact (h.collecting w _ _ (by rw [htask]; rfl)).mono hle
  | delApply source key ts => exact (h.perform _).setTask w (by simp [Task.collecting])
  | delReadBroadcastTs key storedTs =>
      exact h.readClock fun hle => (h.clock hle).setTask w (by simp [Task.collecting])
  | delEnqueue key storedTs tsDel =>
      exact (h.broadcast _ _).setTask w (by simp [Task.collecting])

theorem start {s : State} (h : Tracking host s) (w : ℕ) {task : Task}
    (htask : task.collecting s.clock = none) : Tracking host (s.start w task) := by
  unfold State.start
  split_ifs
  · exact h.setTask w (by simp [htask])
  · exact h

theorem step {s : State} (h : Tracking host s) (bdb : Bdb) (e : Event) :
    Tracking host (step host myNodeId bdb s e) := by
  cases e with
  | set w key value =>
      simp only [Node.step]
      split_ifs
      · exact h.start w rfl
      · exact h
  | del w key value =>
      simp only [Node.step]
      split_ifs
      · exact h.start w rfl
      · exact h
  | collect w =>
      simp only [Node.step]
      cases hqueue : s.gcQueue with
      | nil => exact h
      | cons e rest =>
          simp only
          split_ifs
          · have htail : Tracking host { s with gcQueue := rest } :=
              ⟨h.wellFormed, fun e' he' => h.queued e' (by rw [hqueue]; simp [he']), h.collecting⟩
            refine htail.setTask w fun e' t he' => ?_
            simp only [Task.collecting, Option.some.injEq, Prod.mk.injEq] at he'
            obtain ⟨rfl, rfl⟩ := he'
            exact h.queued e (by rw [hqueue]; simp)
          · exact h
  | advance w now => exact h.advance bdb w now
  | scan cursorOk calls now =>
      simp only [Node.step]
      refine h.readClock fun hle => ?_
      have hclock := h.clock hle
      refine ⟨hclock.wellFormed, ?_, hclock.collecting⟩
      intro e he
      rcases List.mem_append.mp he with he | he
      · exact hclock.queued e he
      · obtain ⟨key, hkey, rfl⟩ := List.mem_map.mp he
        obtain ⟨k, hk, r, hheld, hexp⟩ := mem_scanExpiredEntries h.wellFormed hkey
        exact ⟨k, hk, r, hheld, hexp⟩

theorem receive {s : State} (h : Tracking host s) (bdb : Bdb) (r : Received) :
    Tracking host (receive host myNodeId bdb s r) := by
  unfold Node.receive
  split_ifs
  · exact h
  · exact h.perform _

theorem nodeRun (events : List NodeEvent) : Tracking host (nodeRun host myNodeId events) := by
  refine List.foldlRecOn events _ init fun s hs event _ => ?_
  cases event with
  | own bdb e => exact hs.step bdb e
  | peer bdb r => exact hs.receive bdb r

end Tracking

/-! ## Deletions of the collector -/

/-- `db_del_key` replaces a record exactly when it is older than the deletion
and the calls succeed. -/
theorem applied_dbDelKey_iff {db : Database} (hwf : WellFormed host db) {k : Key} {old : Record}
    (hheld : contents host db k = some old) {bdb : Bdb} {t : UInt64} :
    (dbDelKey host myNodeId bdb db (Buf.ofBytes k.1) t).1 = .applied ↔
      bdb.succeeds = true ∧ old.stamp < toLex (t, myNodeId) := by
  have hreq : (Call.delKey bdb (Buf.ofBytes k.1) t).request myNodeId =
      some (k, ⟨t, myNodeId, 0, none⟩) := requested_ofBytes k ⟨t, myNodeId, 0, none⟩
  constructor
  · intro happlied
    rcases (Call.delKey bdb (Buf.ofBytes k.1) t).exec_cases myNodeId hwf with
      ⟨k', r, hreq', hok, hlt, -⟩ | ⟨hcode, -, -⟩
    · obtain ⟨rfl, rfl⟩ := Prod.mk.inj (Option.some.inj (hreq.symm.trans hreq'))
      exact ⟨hok, hlt old hheld⟩
    · rcases hcode with h | h
      · exact absurd (h.symm.trans happlied) (by decide)
      · exact absurd (h.symm.trans happlied) (by decide)
  · rintro ⟨hok, hlt⟩
    refine ((Call.delKey bdb (Buf.ofBytes k.1) t).applied_iff hwf).1.mpr ?_
    rw [hreq]
    refine AbstractStore.write_ne_of_lt hok fun old' h => ?_
    rw [hheld] at h
    rwa [← Option.some.inj h]

/-- The collector's deletions about to happen spare unexpired data: if the
`db_del_key` of a collector at time `t` replaces a record, that record has
expired by `t`. -/
def SparesUnexpired (host : Endian) (myNodeId : UInt64) (s : State) : Prop :=
  ∀ w rewritten t (k : Key) bdb old, s.tasks w = .delApply (.collector rewritten) k.1 t →
    contents host s.db k = some old →
    (dbDelKey host myNodeId bdb s.db (Buf.ofBytes k.1) t).1 = .applied → old.expireAt < t

/-- No key about to be deleted by a collector has, since it was queued, last
been written with a record that is unexpired and older than the deletion. -/
def NoLiveRewrite (myNodeId : UInt64) (s : State) : Prop :=
  ∀ w r key t, s.tasks w = .delApply (.collector (some r)) key t →
    r.stamp < toLex (t, myNodeId) → r.expireAt < t

/-- **Exactly the rewritten keys are at risk.**  In every state of every run, the
collector's deletions spare unexpired data if and only if no key being deleted
has been rewritten, since it was queued, with a record that is still alive. -/
theorem sparesUnexpired_nodeRun_iff (host : Endian) (myNodeId : UInt64)
    (events : List NodeEvent) :
    SparesUnexpired host myNodeId (nodeRun host myNodeId events) ↔
      NoLiveRewrite myNodeId (nodeRun host myNodeId events) := by
  have htrack : Tracking host (nodeRun host myNodeId events) := Tracking.nodeRun events
  generalize nodeRun host myNodeId events = s at htrack
  constructor
  · intro hspares w r key t htask hlt
    obtain ⟨k, rfl, hheld⟩ := htrack.collecting w ⟨key, some r⟩ t (by rw [htask]; rfl)
    exact hspares w (some r) t k Bdb.ok r htask hheld
      ((applied_dbDelKey_iff htrack.wellFormed hheld).mpr ⟨rfl, hlt⟩)
  · intro hrewrite w rewritten t k bdb old htask hheld happlied
    obtain ⟨k', hk', htracked⟩ := htrack.collecting w ⟨k.1, rewritten⟩ t (by rw [htask]; rfl)
    obtain rfl : k' = k := Subtype.ext hk'
    cases rewritten with
    | none =>
        obtain ⟨r, hr, hexp⟩ := htracked
        rw [hheld] at hr
        rwa [Option.some.inj hr]
    | some r =>
        have hr : contents host s.db k' = some r := htracked
        rw [hheld] at hr
        rw [Option.some.inj hr] at hheld ⊢
        exact hrewrite w r k'.1 t htask
          ((applied_dbDelKey_iff htrack.wellFormed hheld).mp happlied).2

/-- A key is set, expires and is queued; it is set again before the collector
comes to it, and the collector deletes the new value. -/
theorem sparesUnexpired_nodeRun_fails :
    ¬ SparesUnexpired .little 1 (nodeRun .little 1
      [.own Bdb.ok (.set 0 [107] [118]), .own Bdb.ok (.advance 0 10),
        .own Bdb.ok (.advance 0 10), .own Bdb.ok (.advance 0 10), .own Bdb.ok (.advance 0 10),
        .own Bdb.ok (.scan true (fun _ => .ok) 3600000020),
        .own Bdb.ok (.set 0 [107] [119]), .own Bdb.ok (.advance 0 3600000030),
        .own Bdb.ok (.advance 0 3600000030), .own Bdb.ok (.advance 0 3600000030),
        .own Bdb.ok (.collect 1), .own Bdb.ok (.advance 1 3600000040)]) := by
  intro h
  have hexp := h 1 (some ⟨3600000030, 1, 7200000030, some ⟨[119], by decide⟩⟩) 3600000040
    ⟨[107], by decide⟩ Bdb.ok ⟨3600000030, 1, 7200000030, some ⟨[119], by decide⟩⟩
    (by decide +kernel) (by decide +kernel) (by decide +kernel)
  exact absurd hexp (by decide)

end Dmmr.Node
