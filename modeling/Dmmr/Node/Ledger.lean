import Dmmr.Node.Threads

/-!
# What a node has written and what it owes its peers

Every local write, a client SET that was applied or a deletion whether or not it
was, is either still owed to the peers by the thread that made it or has been
passed to `enqueue_broadcast`.  `Performed` collects the two.  The invariant
`Ledger` relates these writes to the store:

* what the store holds was performed here or came from a peer (`origin`);
* the store is at least as recent as everything performed here (`covered`);
* two performed SETs of one key with the same stamp are the same (`unique`);
* what is broadcast is what was stored, except that the broadcast of a deletion
  may carry a later timestamp (`sent`).

Where the records from peers come from is left open: `P` is what is known of
them.

`Effect` says once what a step of the node's own threads can do: nothing that the
ledger is about, a write, or the announcement of one.
-/

namespace Dmmr.Node

open Words Store Wire

/-! ## Writes and the commands that announce them -/

/-- The command that announces the record `r` under the key `k`. -/
def announce (k : Key) (r : Record) : ControlCmd :=
  ⟨r.timestamp, r.nodeId, r.expireAt, if r.tombstone then flagTombstone else flagNone, k.1, r.value⟩

theorem enqueueBroadcast_ofBytes (k : Key) (r : Record) :
    enqueueBroadcast (Buf.ofBytes k.1) (Buf.ofBytes r.value) r.timestamp r.nodeId r.expireAt
      (if r.tombstone then flagTombstone else flagNone) = announce k r := by
  have hkey : k.1.take maxKeyLen = k.1 := List.take_of_length_le k.2.2
  have hvalue : r.value.take maxValueLen = r.value := List.take_of_length_le r.length_value_le
  unfold enqueueBroadcast announce
  rw [Buf.bytes_ofBytes, Buf.bytes_ofBytes, hkey, hvalue]
  congr 1
  by_cases hnil : r.value = []
  · simp [hnil]
  · have hpos : 0 < r.value.length := List.length_pos_iff.mpr hnil
    simp [Buf.ptr_ofBytes hnil, hpos]

/-- The write a thread has made and not yet announced. -/
def Task.owes (myNodeId : UInt64) : Task → Option (Bytes × Record)
  | setEnqueue key value tsUse expireAt => some (key.1, ⟨tsUse, myNodeId, expireAt, some value⟩)
  | delReadBroadcastTs key storedTs => some (key, ⟨storedTs, myNodeId, 0, none⟩)
  | delEnqueue key storedTs _ => some (key, ⟨storedTs, myNodeId, 0, none⟩)
  | _ => none

/-- The node has passed `r` under `key` to its store: a SET that was applied,
or a deletion. -/
def Performed (myNodeId : UInt64) (s : State) (key : Bytes) (r : Record) : Prop :=
  (∃ w, (s.tasks w).owes myNodeId = some (key, r)) ∨
    ∃ b ∈ s.broadcasts, b.cmd.key = key ∧ b.stored = r

/-- A broadcast announces the record that was stored, or, for a deletion, the
same deletion at the same time or later. -/
def Faithful (myNodeId : UInt64) (b : Broadcast) : Prop :=
  ∃ k : Key, (∃ r, r.tombstone = false ∧ r.nodeId = myNodeId ∧ b = ⟨announce k r, r⟩) ∨
    ∃ t t', t ≤ t' ∧ b = ⟨announce k ⟨t', myNodeId, 0, none⟩, ⟨t, myNodeId, 0, none⟩⟩

/-- What is broadcast announces a record of this node. -/
theorem Faithful.announces {myNodeId : UInt64} {b : Broadcast} (h : Faithful myNodeId b) :
    ∃ k r, b.cmd = announce k r ∧ r.nodeId = myNodeId := by
  obtain ⟨k, ⟨r, -, hid, rfl⟩ | ⟨t, t', -, rfl⟩⟩ := h
  · exact ⟨k, r, rfl, hid⟩
  · exact ⟨k, _, rfl, rfl⟩

def IsKey (key : Bytes) : Prop := key ≠ [] ∧ key.length ≤ maxKeyLen

/-- The keys and times a deletion under way carries are sound. -/
def Task.Sound (clock : UInt64) : Task → Prop
  | delReadTs _ key => IsKey key
  | delApply _ key ts => IsKey key ∧ ts ≤ clock
  | delReadBroadcastTs key storedTs => IsKey key ∧ storedTs ≤ clock
  | delEnqueue key storedTs tsDel => IsKey key ∧ storedTs ≤ tsDel
  | _ => True

structure Ledger (host : Endian) (myNodeId : UInt64) (P : Key → Record → Prop) (s : State) :
    Prop where
  wellFormed : WellFormed host s.db
  origin : ∀ k r, contents host s.db k = some r → Performed myNodeId s k.1 r ∨ P k r
  covered : ∀ (k : Key) r, Performed myNodeId s k.1 r →
    ∃ x, contents host s.db k = some x ∧ r.stamp ≤ x.stamp
  unique : ∀ key r r', r.tombstone = false → r'.tombstone = false →
    Performed myNodeId s key r → Performed myNodeId s key r' → r.stamp = r'.stamp → r = r'
  sent : ∀ b ∈ s.broadcasts, Faithful myNodeId b
  sound : ∀ w, (s.tasks w).Sound s.clock
  queued : ∀ e ∈ s.gcQueue, IsKey e.key

variable {host : Endian} {myNodeId : UInt64} {P : Key → Record → Prop}

/-! ## What a store call leaves alone -/

@[simp] theorem owes_rewrite (key : Bytes) (r : Record) (task : Task) :
    (task.rewrite key r).owes myNodeId = task.owes myNodeId := by
  cases task with
  | delReadTs source k => cases source <;> rfl
  | delApply source k ts => cases source <;> rfl
  | _ => rfl

@[simp] theorem sound_rewrite (key : Bytes) (r : Record) (clock : UInt64) (task : Task) :
    (task.rewrite key r).Sound clock ↔ task.Sound clock := by
  cases task with
  | delReadTs source k => cases source <;> rfl
  | delApply source k ts => cases source <;> rfl
  | _ => rfl

/-- A store call changes nothing a ledger is about but the database. -/
theorem perform_frame (host : Endian) (myNodeId : UInt64) (s : State) (call : Call) :
    (s.perform host myNodeId call).2.db = (call.exec host myNodeId s.db).2 ∧
      (s.perform host myNodeId call).2.broadcasts = s.broadcasts ∧
      (s.perform host myNodeId call).2.clock = s.clock ∧
      (∀ w, ((s.perform host myNodeId call).2.tasks w).owes myNodeId =
        (s.tasks w).owes myNodeId) ∧
      (∀ w, ((s.perform host myNodeId call).2.tasks w).Sound s.clock ↔
        (s.tasks w).Sound s.clock) ∧
      (s.perform host myNodeId call).2.gcQueue.map DeleteEntry.key =
        s.gcQueue.map DeleteEntry.key := by
  refine ⟨db_store _ _ _, ?_⟩
  unfold State.perform State.store
  simp only
  split_ifs
  · exact ⟨rfl, rfl, fun _ => rfl, fun _ => Iff.rfl, rfl⟩
  · cases call.request myNodeId with
    | none => exact ⟨rfl, rfl, fun _ => rfl, fun _ => Iff.rfl, rfl⟩
    | some kr =>
        refine ⟨rfl, rfl, fun w => owes_rewrite _ _ _, fun w => sound_rewrite _ _ _ _, ?_⟩
        rw [List.map_map]
        exact List.map_congr_left fun e _ => key_rewrite _ _ e

/-! ## Steps that do not touch the store -/

theorem Task.Sound.mono {clock clock' : UInt64} {task : Task}
    (h : task.Sound clock) (hle : clock ≤ clock') : task.Sound clock' := by
  cases task with
  | delApply source key ts => exact ⟨h.1, h.2.trans hle⟩
  | delReadBroadcastTs key storedTs => exact ⟨h.1, h.2.trans hle⟩
  | _ => exact h

namespace Ledger

theorem init : Ledger host myNodeId P State.init where
  wellFormed := wellFormed_empty
  origin := by simp [State.init]
  covered := by simp [Performed, State.init, Task.owes]
  unique := by simp [Performed, State.init, Task.owes]
  sent := by simp [State.init]
  sound := by simp [State.init, Task.Sound]
  queued := by simp [State.init]

theorem mono {P' : Key → Record → Prop} {s : State} (h : Ledger host myNodeId P s)
    (hP : ∀ k r, P k r → P' k r) : Ledger host myNodeId P' s :=
  { h with origin := fun k r hr => (h.origin k r hr).imp_right (hP k r) }

/-- A step that leaves the database and the performed writes alone. -/
theorem congr {s s' : State} (h : Ledger host myNodeId P s) (hdb : s'.db = s.db)
    (hperf : ∀ key r, Performed myNodeId s' key r ↔ Performed myNodeId s key r)
    (hsent : ∀ b ∈ s'.broadcasts, Faithful myNodeId b) (hsound : ∀ w, (s'.tasks w).Sound s'.clock)
    (hqueued : ∀ e ∈ s'.gcQueue, IsKey e.key) : Ledger host myNodeId P s' where
  wellFormed := by rw [hdb]; exact h.wellFormed
  origin := by simpa only [hdb, hperf] using h.origin
  covered := by simpa only [hdb, hperf] using h.covered
  unique := by simpa only [hperf] using h.unique
  sent := hsent
  sound := hsound
  queued := hqueued

theorem sound_setTask {s : State} {w : ℕ} {task : Task} {clock : UInt64}
    (h : ∀ w, (s.tasks w).Sound clock) (htask : task.Sound clock) :
    ∀ w', ((s.setTask w task).tasks w').Sound clock := by
  intro w'
  by_cases hw : w' = w
  · rw [hw, tasks_setTask_self]
    exact htask
  · rw [tasks_setTask_of_ne s hw]
    exact h w'

/-- A thread announces the write it owes and is done. -/
theorem broadcast {s : State} (h : Ledger host myNodeId P s) {w : ℕ} {b : Broadcast}
    (howes : (s.tasks w).owes myNodeId = some (b.cmd.key, b.stored))
    (hb : Faithful myNodeId b) :
    Ledger host myNodeId P ((s.broadcast true b).setTask w .idle) := by
  refine h.congr rfl ?_ ?_ ?_ h.queued
  · intro key r
    constructor
    · rintro (⟨w', hw'⟩ | ⟨b', hb', hkey, hstored⟩)
      · by_cases hw : w' = w
        · simp [hw, Task.owes] at hw'
        · rw [tasks_setTask_of_ne _ hw] at hw'
          exact Or.inl ⟨w', hw'⟩
      · rcases List.mem_append.mp hb' with hb' | hb'
        · exact Or.inr ⟨b', hb', hkey, hstored⟩
        · obtain rfl := List.mem_singleton.mp hb'
          exact Or.inl ⟨w, by rw [howes, hkey, hstored]⟩
    · rintro (⟨w', hw'⟩ | ⟨b', hb', hkey, hstored⟩)
      · by_cases hw : w' = w
        · rw [hw, howes, Option.some.injEq, Prod.mk.injEq] at hw'
          exact Or.inr ⟨b, by simp [State.setTask, State.broadcast], hw'.1, hw'.2⟩
        · exact Or.inl ⟨w', by rw [tasks_setTask_of_ne _ hw]; exact hw'⟩
      · exact Or.inr ⟨b', by simp [State.setTask, State.broadcast, hb'], hkey, hstored⟩
  · intro b' hb'
    rcases List.mem_append.mp hb' with hb' | hb'
    · exact h.sent b' hb'
    · rwa [List.mem_singleton.mp hb']
  · exact sound_setTask h.sound trivial

/-! ## Steps that write -/

/-- A successful store call leaves under its key the more recent of the record
held and the record written, and nothing else changes. -/
theorem contents_perform {s : State} (h : Ledger host myNodeId P s) {call : Call} {k : Key}
    {r : Record} (hreq : call.request myNodeId = some (k, r)) (hok : call.bdb.succeeds = true) :
    contents host (s.perform host myNodeId call).2.db =
      Function.update (contents host s.db) k
        (LastWrite.offer Record.stamp (contents host s.db k) r) := by
  rw [(perform_frame host myNodeId s call).1, call.contents_exec myNodeId h.wellFormed, hreq]
  simp only [AbstractStore.write, if_pos hok]

theorem le_perform {s : State} (h : Ledger host myNodeId P s) (call : Call) {k : Key}
    {x : Record} (hx : contents host s.db k = some x) :
    ∃ y, contents host (s.perform host myNodeId call).2.db k = some y ∧ x.stamp ≤ y.stamp := by
  rw [(perform_frame host myNodeId s call).1]
  exact call.le_exec myNodeId h.wellFormed hx

theorem origin_perform {s : State} (h : Ledger host myNodeId P s) {call : Call} {k : Key}
    {r : Record} (hreq : call.request myNodeId = some (k, r)) (hok : call.bdb.succeeds = true)
    {k' : Key} {x : Record}
    (hx : contents host (s.perform host myNodeId call).2.db k' = some x) :
    contents host s.db k' = some x ∨ k' = k ∧ x = r := by
  rw [h.contents_perform hreq hok] at hx
  by_cases hk : k' = k
  · subst hk
    rw [Function.update_self] at hx
    rcases LastWrite.offer_eq_or Record.stamp (contents host s.db k') r with h' | h'
    · exact Or.inl (by rw [← h', hx])
    · exact Or.inr ⟨rfl, Option.some.inj (hx.symm.trans h')⟩
  · rw [Function.update_of_ne hk] at hx
    exact Or.inl hx

/-- Afterwards the store is at least as recent as the record written. -/
theorem covers_perform {s : State} (h : Ledger host myNodeId P s) {call : Call} {k : Key}
    {r : Record} (hreq : call.request myNodeId = some (k, r)) (hok : call.bdb.succeeds = true) :
    ∃ y, contents host (s.perform host myNodeId call).2.db k = some y ∧ r.stamp ≤ y.stamp := by
  obtain ⟨y, hy, hle, -⟩ := LastWrite.exists_offer Record.stamp (contents host s.db k) r
  exact ⟨y, by rw [h.contents_perform hreq hok, Function.update_self, hy], hle⟩

theorem wellFormed_perform {s : State} (h : Ledger host myNodeId P s) (call : Call) :
    WellFormed host (s.perform host myNodeId call).2.db := by
  rw [(perform_frame host myNodeId s call).1]
  exact call.wellFormed_exec h.wellFormed

theorem queued_perform {s : State} (h : Ledger host myNodeId P s) (call : Call) :
    ∀ e ∈ (s.perform host myNodeId call).2.gcQueue, IsKey e.key := by
  intro e he
  have hmem : e.key ∈ (s.perform host myNodeId call).2.gcQueue.map DeleteEntry.key :=
    List.mem_map_of_mem he
  rw [(perform_frame host myNodeId s call).2.2.2.2.2] at hmem
  obtain ⟨e', he', hkey⟩ := List.mem_map.mp hmem
  rw [← hkey]
  exact h.queued e' he'

theorem performed_perform (s : State) (call : Call) (key : Bytes) (r : Record) :
    Performed myNodeId (s.perform host myNodeId call).2 key r ↔ Performed myNodeId s key r := by
  obtain ⟨-, hbroadcasts, -, howes, -⟩ := perform_frame host myNodeId s call
  simp only [Performed, hbroadcasts, howes]

/-- A record from a peer is applied. -/
theorem receive_call {s : State} (h : Ledger host myNodeId P s) {call : Call} {k : Key}
    {r : Record} (hreq : call.request myNodeId = some (k, r)) (hok : call.bdb.succeeds = true)
    (hP : P k r) : Ledger host myNodeId P (s.perform host myNodeId call).2 where
  wellFormed := h.wellFormed_perform call
  origin := by
    intro k' x hx
    rw [performed_perform]
    rcases h.origin_perform hreq hok hx with hx | ⟨rfl, rfl⟩
    · exact h.origin k' x hx
    · exact Or.inr hP
  covered := by
    intro k' x hperf
    obtain ⟨y, hy, hle⟩ := h.covered k' x ((performed_perform s call _ _).mp hperf)
    obtain ⟨z, hz, hle'⟩ := h.le_perform call hy
    exact ⟨z, hz, hle.trans hle'⟩
  unique := by
    simp only [performed_perform]
    exact h.unique
  sent := by
    rw [(perform_frame host myNodeId s call).2.1]
    exact h.sent
  sound := by
    intro w
    rw [(perform_frame host myNodeId s call).2.2.1]
    exact ((perform_frame host myNodeId s call).2.2.2.2.1 w).mpr (h.sound w)
  queued := h.queued_perform call

/-- A record from a peer reaches the store, which may fail to apply it. -/
theorem receive_request {s : State} (h : Ledger host myNodeId P s) {call : Call} {k : Key}
    {r : Record} (hreq : call.request myNodeId = some (k, r)) (hP : P k r) :
    Ledger host myNodeId P (s.perform host myNodeId call).2 := by
  rcases perform_cases myNodeId h.wellFormed call with ⟨_, _, -, hok, -, -⟩ | ⟨-, heq, -⟩
  · exact h.receive_call hreq hok hP
  · rw [heq]
    exact h

/-- A thread that owed nothing makes a write: it is performed, and nothing else
changes. -/
theorem performed_own (host : Endian) {s : State} (call : Call) {w : ℕ} {task : Task}
    {key : Bytes} {r : Record}
    (hidle : (s.tasks w).owes myNodeId = none) (howes : task.owes myNodeId = some (key, r))
    (key' : Bytes) (x : Record) :
    Performed myNodeId ((s.perform host myNodeId call).2.setTask w task) key' x ↔
      Performed myNodeId s key' x ∨ key' = key ∧ x = r := by
  obtain ⟨-, hbroadcasts, -, hrest, -, -⟩ := perform_frame host myNodeId s call
  constructor
  · rintro (⟨w', hw'⟩ | ⟨b, hb, hkey, hstored⟩)
    · by_cases hw : w' = w
      · rw [hw, tasks_setTask_self, howes, Option.some.injEq, Prod.mk.injEq] at hw'
        exact Or.inr ⟨hw'.1.symm, hw'.2.symm⟩
      · rw [tasks_setTask_of_ne _ hw, hrest] at hw'
        exact Or.inl (Or.inl ⟨w', hw'⟩)
    · exact Or.inl (Or.inr ⟨b, hbroadcasts ▸ hb, hkey, hstored⟩)
  · rintro ((⟨w', hw'⟩ | ⟨b, hb, hkey, hstored⟩) | ⟨rfl, rfl⟩)
    · have hw : w' ≠ w := by
        rintro rfl
        rw [hidle] at hw'
        simp at hw'
      exact Or.inl ⟨w', by rw [tasks_setTask_of_ne _ hw, hrest, hw']⟩
    · exact Or.inr ⟨b, hbroadcasts.symm ▸ hb, hkey, hstored⟩
    · exact Or.inl ⟨w, by rw [tasks_setTask_self, howes]⟩

/-- A thread makes a write of its own, which it then owes.  A SET only gets
here when it was applied. -/
theorem perform_own {s : State} (h : Ledger host myNodeId P s) {call : Call} {k : Key}
    {r : Record} (hreq : call.request myNodeId = some (k, r)) (hok : call.bdb.succeeds = true)
    {w : ℕ} {task : Task} (hidle : (s.tasks w).owes myNodeId = none)
    (howes : task.owes myNodeId = some (k.1, r)) (hsound : task.Sound s.clock)
    (hset : r.tombstone = false → ∀ old, contents host s.db k = some old → old.stamp < r.stamp) :
    Ledger host myNodeId P ((s.perform host myNodeId call).2.setTask w task) := by
  obtain ⟨-, hbroadcasts, hclock, -, hsame, -⟩ := perform_frame host myNodeId s call
  have hnew := performed_own host call hidle howes
  -- an applied SET is newer than everything performed under its key
  have hfresh : ∀ x, r.tombstone = false → Performed myNodeId s k.1 x → x.stamp < r.stamp := by
    intro x hlive hperf
    obtain ⟨y, hy, hle⟩ := h.covered k x hperf
    exact hle.trans_lt (hset hlive y hy)
  refine ⟨h.wellFormed_perform call, ?_, ?_, ?_, ?_, ?_, h.queued_perform call⟩
  · intro k' x hx
    rw [hnew]
    rcases h.origin_perform hreq hok hx with hx | ⟨rfl, rfl⟩
    · exact (h.origin k' x hx).imp_left Or.inl
    · exact Or.inl (Or.inr ⟨rfl, rfl⟩)
  · intro k' x hperf
    rcases (hnew k'.1 x).mp hperf with hperf | ⟨hk, rfl⟩
    · obtain ⟨y, hy, hle⟩ := h.covered k' x hperf
      obtain ⟨z, hz, hle'⟩ := h.le_perform call hy
      exact ⟨z, hz, hle.trans hle'⟩
    · obtain rfl : k' = k := Subtype.ext hk
      exact h.covers_perform hreq hok
  · intro key x x' hx hx' hperf hperf' hstamp
    rcases (hnew key x).mp hperf with hperf | ⟨rfl, rfl⟩
    · rcases (hnew key x').mp hperf' with hperf' | ⟨rfl, rfl⟩
      · exact h.unique key x x' hx hx' hperf hperf' hstamp
      · exact absurd hstamp (hfresh x hx' hperf).ne
    · rcases (hnew k.1 x').mp hperf' with hperf' | ⟨-, rfl⟩
      · exact absurd hstamp (hfresh x' hx hperf').ne'
      · rfl
  · change ∀ b ∈ (s.perform host myNodeId call).2.broadcasts, Faithful myNodeId b
    rw [hbroadcasts]
    exact h.sent
  · have hall : ∀ w', ((s.perform host myNodeId call).2.tasks w').Sound
        (s.perform host myNodeId call).2.clock := by
      intro w'
      rw [hclock]
      exact (hsame w').mpr (h.sound w')
    have htask : task.Sound (s.perform host myNodeId call).2.clock := by
      rw [hclock]
      exact hsound
    exact sound_setTask hall htask

end Ledger

/-! ## What a step can do -/

/-- What a step of a node's own threads comes to. -/
inductive Effect (host : Endian) (myNodeId : UInt64) (s s' : State) : Prop
  /-- The store, the announcements and what is owed stay as they are. -/
  | quiet (hdb : s'.db = s.db) (hbroadcasts : s'.broadcasts = s.broadcasts)
      (howes : ∀ w, (s'.tasks w).owes myNodeId = (s.tasks w).owes myNodeId)
      (hsound : ∀ w, (s'.tasks w).Sound s'.clock) (hqueued : ∀ e ∈ s'.gcQueue, IsKey e.key)
  /-- A thread that owed nothing makes a write, which it then owes.  A SET only
  gets here when it was applied. -/
  | write (call : Call) (k : Key) (r : Record) (w : ℕ) (task : Task)
      (hreq : call.request myNodeId = some (k, r)) (hok : call.bdb.succeeds = true)
      (hidle : (s.tasks w).owes myNodeId = none) (howes : task.owes myNodeId = some (k.1, r))
      (hsound : task.Sound s.clock)
      (hset : r.tombstone = false → ∀ old, contents host s.db k = some old → old.stamp < r.stamp)
      (heq : s' = (s.perform host myNodeId call).2.setTask w task)
  /-- A thread announces the write it owes. -/
  | announce (w : ℕ) (b : Broadcast)
      (howes : (s.tasks w).owes myNodeId = some (b.cmd.key, b.stored))
      (hb : Faithful myNodeId b) (heq : s' = (s.broadcast true b).setTask w .idle)

namespace Effect

theorem refl {s : State} (h : Ledger host myNodeId P s) : Effect host myNodeId s s :=
  quiet rfl rfl (fun _ => rfl) h.sound h.queued

/-- A thread moves to a task that owes what the old one did. -/
theorem setTask {s t : State} (h : Ledger host myNodeId P s) (hdb : t.db = s.db)
    (hbroadcasts : t.broadcasts = s.broadcasts) (htasks : t.tasks = s.tasks)
    (hclock : s.clock ≤ t.clock) (hqueued : ∀ e ∈ t.gcQueue, IsKey e.key) {w : ℕ} {task : Task}
    (howes : task.owes myNodeId = (s.tasks w).owes myNodeId) (htask : task.Sound t.clock) :
    Effect host myNodeId s (t.setTask w task) := by
  refine quiet hdb hbroadcasts (fun w' => ?_) (Ledger.sound_setTask (fun w' => ?_) htask) hqueued
  · by_cases hw : w' = w
    · rw [hw, tasks_setTask_self, howes]
    · rw [tasks_setTask_of_ne t hw, htasks]
  · rw [htasks]
    exact (h.sound w').mono hclock

/-- So it does after a reading of the clock. -/
theorem readClock {s : State} (h : Ledger host myNodeId P s) {now : UInt64} {w : ℕ} {task : Task}
    (howes : task.owes myNodeId = (s.tasks w).owes myNodeId)
    (htask : s.clock ≤ now → task.Sound now) :
    Effect host myNodeId s (s.readClock now fun s => s.setTask w task) := by
  unfold State.readClock
  split_ifs with hlt
  · exact refl h
  · have hle : s.clock ≤ now := not_lt.mp hlt
    exact setTask (t := { s with clock := now }) h rfl rfl rfl hle h.queued howes (htask hle)

theorem start {s : State} (h : Ledger host myNodeId P s) (w : ℕ) {task : Task}
    (howes : task.owes myNodeId = none) (htask : task.Sound s.clock) :
    Effect host myNodeId s (s.start w task) := by
  unfold State.start
  split_ifs with hidle
  · exact setTask h rfl rfl rfl le_rfl h.queued (by rw [howes, hidle]; rfl) htask
  · exact refl h

theorem advance {s : State} (h : Ledger host myNodeId P s) (w : ℕ) (now : UInt64) :
    Effect host myNodeId s (advance host myNodeId Bdb.ok s w now) := by
  have hsound := h.sound w
  unfold Node.advance
  cases htask : s.tasks w with
  | idle => exact refl h
  | setReadTs key value => exact readClock h (by rw [htask]; rfl) fun _ => trivial
  | setReadExpire key value tsUse => exact readClock h (by rw [htask]; rfl) fun _ => trivial
  | setApply key value tsUse expireAt =>
      simp only
      have hreq : (Call.setWithMeta Bdb.ok (Buf.ofBytes key.1) tsUse myNodeId
          (Buf.ofBytes value.1) expireAt).request myNodeId =
            some (key, ⟨tsUse, myNodeId, expireAt, some value⟩) :=
        requested_ofBytes key ⟨tsUse, myNodeId, expireAt, some value⟩
      rcases perform_cases myNodeId h.wellFormed (Call.setWithMeta Bdb.ok (Buf.ofBytes key.1) tsUse
        myNodeId (Buf.ofBytes value.1) expireAt) with ⟨k, r, hreq', -, hlt, heq⟩ | ⟨hcode, heq, -⟩
      · obtain ⟨rfl, rfl⟩ := Prod.mk.inj (Option.some.inj (hreq.symm.trans hreq'))
        rw [if_pos (by rw [heq])]
        exact write _ _ _ w (.setEnqueue key value tsUse expireAt) hreq rfl (by rw [htask]; rfl) rfl
          trivial (fun _ => hlt) rfl
      · rw [if_neg hcode, heq]
        exact setTask h rfl rfl rfl le_rfl h.queued (by rw [htask]; rfl) trivial
  | setEnqueue key value tsUse expireAt =>
      have hcmd : enqueueBroadcast (Buf.ofBytes key.1) (Buf.ofBytes value.1) tsUse myNodeId expireAt
          flagNone = Node.announce key ⟨tsUse, myNodeId, expireAt, some value⟩ :=
        enqueueBroadcast_ofBytes key ⟨tsUse, myNodeId, expireAt, some value⟩
      simp only [hcmd]
      exact announce w _ (by rw [htask]; rfl) ⟨key, Or.inl ⟨_, rfl, rfl, rfl⟩⟩ rfl
  | delReadTs source key =>
      rw [htask] at hsound
      exact readClock h (by rw [htask]; rfl) fun _ => ⟨hsound, le_rfl⟩
  | delApply source key ts =>
      rw [htask] at hsound
      have hreq : (Call.delKey Bdb.ok (Buf.ofBytes key) ts).request myNodeId =
          some (⟨key, hsound.1⟩, ⟨ts, myNodeId, 0, none⟩) :=
        requested_ofBytes ⟨key, hsound.1⟩ ⟨ts, myNodeId, 0, none⟩
      exact write _ _ _ w (.delReadBroadcastTs key ts) hreq rfl (by rw [htask]; rfl) rfl hsound
        (by simp [Record.tombstone]) rfl
  | delReadBroadcastTs key storedTs =>
      rw [htask] at hsound
      exact readClock h (by rw [htask]; rfl) fun hle => ⟨hsound.1, hsound.2.trans hle⟩
  | delEnqueue key storedTs tsDel =>
      rw [htask] at hsound
      have hcmd : enqueueBroadcast (Buf.ofBytes key) Buf.null tsDel myNodeId 0 flagTombstone =
          Node.announce ⟨key, hsound.1⟩ ⟨tsDel, myNodeId, 0, none⟩ :=
        enqueueBroadcast_ofBytes ⟨key, hsound.1⟩ ⟨tsDel, myNodeId, 0, none⟩
      simp only [hcmd]
      exact announce w _ (by rw [htask]; rfl)
        ⟨⟨key, hsound.1⟩, Or.inr ⟨storedTs, tsDel, hsound.2, rfl⟩⟩ rfl

/-- **Every step does one of the three.** -/
theorem step {s : State} (h : Ledger host myNodeId P s) (e : Event) :
    Effect host myNodeId s (step host myNodeId Bdb.ok s e) := by
  cases e with
  | set w key value =>
      simp only [Node.step]
      split_ifs
      · exact start h w rfl trivial
      · exact refl h
  | del w key value =>
      simp only [Node.step]
      split_ifs with hlen
      · exact start h w rfl hlen.1
      · exact refl h
  | collect w =>
      simp only [Node.step]
      cases hqueue : s.gcQueue with
      | nil => exact refl h
      | cons e rest =>
          simp only
          split_ifs with hidle
          · refine setTask (t := { s with gcQueue := rest }) h rfl rfl rfl le_rfl ?_ ?_ ?_
            · exact fun e' he' => h.queued e' (by rw [hqueue]; exact List.mem_cons_of_mem _ he')
            · rw [hidle]
              rfl
            · exact h.queued e (by rw [hqueue]; exact List.mem_cons_self)
          · exact refl h
  | advance w now => exact advance h w now
  | scan cursorOk calls now =>
      simp only [Node.step, State.readClock]
      split_ifs with hlt
      · exact refl h
      · refine quiet rfl rfl (fun _ => rfl) (fun w => (h.sound w).mono (not_lt.mp hlt)) ?_
        intro e he
        rcases List.mem_append.mp he with he | he
        · exact h.queued e he
        · obtain ⟨key, hkey, rfl⟩ := List.mem_map.mp he
          obtain ⟨k, hk, -⟩ := mem_scanExpiredEntries h.wellFormed hkey
          exact hk ▸ k.2

end Effect

/-! ## Every step keeps the ledger -/

theorem Ledger.step {s : State} (h : Ledger host myNodeId P s) (e : Event) :
    Ledger host myNodeId P (step host myNodeId Bdb.ok s e) := by
  cases Effect.step h e with
  | quiet hdb hbroadcasts howes hsound hqueued =>
      refine h.congr hdb (fun key r => ?_) (by rw [hbroadcasts]; exact h.sent) hsound hqueued
      simp only [Performed, hbroadcasts, howes]
  | write call k r w task hreq hok hidle howes hsound hset heq =>
      rw [heq]
      exact h.perform_own hreq hok hidle howes hsound hset
  | announce w b howes hb heq =>
      rw [heq]
      exact h.broadcast howes hb

/-! ## Steps lose nothing -/

/-- Nothing announced is withdrawn and no key's record gets older. -/
structure Extends (host : Endian) (s s' : State) : Prop where
  broadcasts : s.broadcasts ⊆ s'.broadcasts
  contents : ∀ k x, contents host s.db k = some x →
    ∃ y, contents host s'.db k = some y ∧ x.stamp ≤ y.stamp

namespace Extends

theorem of_db_eq {s s' : State} (hb : s.broadcasts ⊆ s'.broadcasts) (hdb : s'.db = s.db) :
    Extends host s s' :=
  ⟨hb, fun _ x hx => ⟨x, by rw [hdb, hx], le_rfl⟩⟩

theorem perform {s : State} (h : Ledger host myNodeId P s) (call : Call) :
    Extends host s (s.perform host myNodeId call).2 :=
  ⟨by rw [(perform_frame host myNodeId s call).2.1]; exact List.Subset.refl _,
    fun _ _ hx => h.le_perform call hx⟩

theorem step {s : State} (h : Ledger host myNodeId P s) (e : Event) :
    Extends host s (step host myNodeId Bdb.ok s e) := by
  cases Effect.step h e with
  | quiet hdb hbroadcasts => exact of_db_eq (by rw [hbroadcasts]; exact List.Subset.refl _) hdb
  | write call k r w task hreq hok hidle howes hsound hset heq =>
      rw [heq]
      exact ⟨(perform h call).broadcasts, (perform h call).contents⟩
  | announce w b howes hb heq =>
      rw [heq]
      exact of_db_eq (List.subset_append_left _ _) rfl

end Extends

/-! ## Records from peers -/

theorem request_syncCall (bdb : Bdb) (clusterName : Bytes) (k : Key) (r : Record) :
    (syncCall bdb (recordFrame clusterName k r)).request myNodeId = some (k, r) :=
  requested_recordFrame clusterName k r

theorem receive_recordFrame (bdb : Bdb) (s : State) (clusterName : Bytes) (k : Key) {r : Record}
    (hid : r.nodeId ≠ 0) :
    receive host myNodeId bdb s (recordFrame clusterName k r) =
      (s.perform host myNodeId (syncCall bdb (recordFrame clusterName k r))).2 := by
  have hcheck : ¬ ((recordFrame clusterName k r).frame.nodeId = 0 ∨
      (recordFrame clusterName k r).frame.keyLen = 0 ∨
      (recordFrame clusterName k r).payload = none) := by
    rintro (h | h | h)
    · exact hid h
    · exact keyLen_recordFrame clusterName k r h
    · exact payload_recordFrame clusterName k r h
  exact if_neg hcheck

end Dmmr.Node
