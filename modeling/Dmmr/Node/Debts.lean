import Dmmr.Node.Ledger

/-!
# What a step leaves to be announced

A thread that has made a write owes its announcement until it has passed it to
`enqueue_broadcast`.  `Progress` says of one step of a node that nothing gets out
of hand: what is newly held is owed, and what was owed still is or has been
announced by the step.  Everything a peer needs in order to catch up with a node
follows from this, step by step.
-/

namespace Dmmr.Node

open Words Store Wire

/-- The command announces a record of this node under `k`, stamped `t` or
later. -/
def Announces (myNodeId : UInt64) (k : Key) (t : Stamp) (cmd : ControlCmd) : Prop :=
  ∃ r : Record, cmd = announce k r ∧ r.nodeId = myNodeId ∧ t ≤ r.stamp

/-- A thread owes the announcement of a write under `k`, stamped `t` or later. -/
def Owed (myNodeId : UInt64) (s : State) (k : Key) (t : Stamp) : Prop :=
  ∃ w r, (s.tasks w).owes myNodeId = some (k.1, r) ∧ t ≤ r.stamp

/-- A step from `s` to `s'` with these new announcements. -/
structure Progress (host : Endian) (myNodeId : UInt64) (s : State) (new : List Broadcast)
    (s' : State) : Prop where
  broadcasts : s'.broadcasts = s.broadcasts ++ new
  held : ∀ k x, contents host s'.db k = some x →
    contents host s.db k = some x ∨ Owed myNodeId s' k x.stamp
  owed : ∀ k t, Owed myNodeId s k t →
    Owed myNodeId s' k t ∨ ∃ b ∈ new, Announces myNodeId k t b.cmd

variable {host : Endian} {myNodeId : UInt64} {P : Key → Record → Prop}

/-- No write is newer than what the store holds, so an owed one that is at least
as new has the same stamp. -/
theorem Ledger.stamp_of_owed {s : State} (h : Ledger host myNodeId P s) {k : Key} {x : Record}
    (hx : contents host s.db k = some x) (howed : Owed myNodeId s k x.stamp) :
    ∃ w r, (s.tasks w).owes myNodeId = some (k.1, r) ∧ r.stamp = x.stamp := by
  obtain ⟨w, r, howes, hle⟩ := howed
  obtain ⟨y, hy, hle'⟩ := h.covered k r (Or.inl ⟨w, howes⟩)
  obtain rfl : x = y := Option.some.inj (hx.symm.trans hy)
  exact ⟨w, r, howes, le_antisymm hle' hle⟩

/-- A node that has just started on a database it finds. -/
def State.initOn (db : Database) : State := { State.init with db := db }

theorem Ledger.initOn {db : Database} (hwf : WellFormed host db) :
    Ledger host myNodeId (fun _ _ => True) (State.initOn db) where
  wellFormed := hwf
  origin := fun _ _ _ => Or.inr trivial
  covered := by simp [Performed, State.initOn, State.init, Task.owes]
  unique := by simp [Performed, State.initOn, State.init, Task.owes]
  sent := by simp [State.initOn, State.init]
  sound := by simp [State.initOn, State.init, Task.Sound]
  queued := by simp [State.initOn, State.init]

/-- A broadcast announces what its thread has stored. -/
theorem Faithful.announces_stored {b : Broadcast} (h : Faithful myNodeId b) {k : Key}
    (hk : b.cmd.key = k.1) : Announces myNodeId k b.stored.stamp b.cmd := by
  obtain ⟨k', ⟨r, -, hid, rfl⟩ | ⟨t, t', hle, rfl⟩⟩ := h
  · obtain rfl : k' = k := Subtype.ext hk
    exact ⟨r, rfl, hid, le_rfl⟩
  · -- the announcement carries a later clock reading than the write
    obtain rfl : k' = k := Subtype.ext hk
    exact ⟨_, rfl, rfl, stamp_le hle myNodeId⟩

namespace Progress

/-- A step that changes neither the database nor what is owed. -/
theorem of_eq {s s' : State} (hbroadcasts : s'.broadcasts = s.broadcasts) (hdb : s'.db = s.db)
    (howes : ∀ w, (s'.tasks w).owes myNodeId = (s.tasks w).owes myNodeId) :
    Progress host myNodeId s [] s' where
  broadcasts := by rw [hbroadcasts, List.append_nil]
  held := fun k x hx => Or.inl (hdb ▸ hx)
  owed := by
    rintro k t ⟨w, r, hw, hle⟩
    exact Or.inl ⟨w, r, by rw [howes, hw], hle⟩

/-- A thread that owed nothing makes a write and owes it. -/
theorem perform {s : State} (h : Ledger host myNodeId P s) {call : Call} {k : Key} {r : Record}
    (hreq : call.request myNodeId = some (k, r)) (hok : call.bdb.succeeds = true) {w : ℕ}
    {task : Task} (hidle : (s.tasks w).owes myNodeId = none)
    (howes : task.owes myNodeId = some (k.1, r)) :
    Progress host myNodeId s [] ((s.perform host myNodeId call).2.setTask w task) := by
  obtain ⟨-, hbroadcasts, -, hrest, -, -⟩ := perform_frame host myNodeId s call
  refine ⟨by rw [List.append_nil]; exact hbroadcasts, fun k' x hx => ?_, ?_⟩
  · rcases h.origin_perform hreq hok hx with hx | ⟨rfl, rfl⟩
    · exact Or.inl hx
    · exact Or.inr ⟨w, x, by rw [tasks_setTask_self, howes], le_rfl⟩
  · rintro k' t ⟨w', r', hw', hle⟩
    have hw : w' ≠ w := by
      rintro rfl
      rw [hidle] at hw'
      simp at hw'
    exact Or.inl ⟨w', r', by rw [tasks_setTask_of_ne _ hw, hrest, hw'], hle⟩

/-- A thread announces what it owes. -/
theorem broadcast {s : State} {w : ℕ} {b : Broadcast}
    (howes : (s.tasks w).owes myNodeId = some (b.cmd.key, b.stored)) (hb : Faithful myNodeId b) :
    Progress host myNodeId s [b] ((s.broadcast true b).setTask w .idle) := by
  refine ⟨rfl, fun k x hx => Or.inl hx, ?_⟩
  rintro k t ⟨w', r, hw', hle⟩
  by_cases hw : w' = w
  · rw [hw, howes, Option.some.injEq, Prod.mk.injEq] at hw'
    obtain ⟨hkey, rfl⟩ := hw'
    obtain ⟨announced, hcmd, hid, hstamp⟩ := hb.announces_stored hkey
    exact Or.inr ⟨b, List.mem_singleton_self b, announced, hcmd, hid, hle.trans hstamp⟩
  · exact Or.inl ⟨w', r, by rw [tasks_setTask_of_ne _ hw]; exact hw', hle⟩

/-- **Every step makes progress.** -/
theorem step {s : State} (h : Ledger host myNodeId P s) (e : Event) :
    ∃ new, Progress host myNodeId s new (step host myNodeId Bdb.ok s e) := by
  cases Effect.step h e with
  | quiet hdb hbroadcasts howes => exact ⟨[], of_eq hbroadcasts hdb howes⟩
  | write call k r w task hreq hok hidle howes hsound hset heq =>
      rw [heq]
      exact ⟨[], perform h hreq hok hidle howes⟩
  | announce w b howes hb heq =>
      rw [heq]
      exact ⟨[b], broadcast howes hb⟩

end Progress

end Dmmr.Node
