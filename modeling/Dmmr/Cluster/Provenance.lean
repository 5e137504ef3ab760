import Dmmr.Cluster.Replication

/-!
# Where records come from, and what becomes of them

Two facts about every run of a cluster, whatever its threads and the network do.  A value
that some node holds was set by a client: under the same key, with the same bytes, on some
node (`asked_of_live`).  And a record that a node holds is never lost: from then on the node
holds it or a record with a greater stamp (`newer_run`).
-/

namespace Dmmr.Node

open Words Store Wire

/-! ## The writes a thread has been asked for -/

/-- The SET a thread is at. -/
def Task.asked : Task → Option (Key × Value)
  | setReadTs key value => some (key, value)
  | setReadExpire key value _ => some (key, value)
  | setApply key value _ _ => some (key, value)
  | setEnqueue key value _ _ => some (key, value)
  | _ => none

/-- The SETs under way and the values announced are among those that `A` admits. -/
structure Sourced (A : Key → Value → Prop) (s : State) : Prop where
  tasks : ∀ w k v, (s.tasks w).asked = some (k, v) → A k v
  broadcasts : ∀ b ∈ s.broadcasts, ∀ k r v, b.cmd = announce k r → r.body = some v → A k v

variable {host : Endian} {myNodeId : UInt64} {A : Key → Value → Prop} {s : State}

theorem asked_rewrite (key : Bytes) (r : Record) (task : Task) :
    (task.rewrite key r).asked = task.asked := by
  cases task with
  | delReadTs source k => cases source <;> rfl
  | delApply source k ts => cases source <;> rfl
  | _ => rfl

/-- A value that a thread has stored and not announced is one it was asked for. -/
theorem Task.asked_of_owes {task : Task} {k : Key} {r : Record} {v : Value}
    (h : task.owes myNodeId = some (k.1, r)) (hv : r.body = some v) : task.asked = some (k, v) := by
  cases task with
  | setEnqueue key value tsUse expireAt =>
      obtain ⟨hkey, rfl⟩ := Prod.mk.inj (Option.some.inj h)
      obtain rfl : key = k := Subtype.ext hkey
      exact congrArg (fun body => body.map (Prod.mk key)) hv
  | delReadBroadcastTs key storedTs =>
      obtain ⟨-, rfl⟩ := Prod.mk.inj (Option.some.inj h)
      exact absurd hv nofun
  | delEnqueue key storedTs tsDel =>
      obtain ⟨-, rfl⟩ := Prod.mk.inj (Option.some.inj h)
      exact absurd hv nofun
  | _ => exact absurd h nofun

namespace Sourced

theorem init : Sourced A State.init := ⟨by simp [State.init, Task.asked], by simp [State.init]⟩

/-- A store call leaves the threads' requests alone. -/
theorem perform (h : Sourced A s) (call : Call) :
    Sourced A (s.perform host myNodeId call).2 := by
  refine ⟨fun w k v hw => h.tasks w k v ?_, fun b hb => h.broadcasts b ?_⟩
  · rw [← hw]
    unfold State.perform State.store
    simp only
    split_ifs
    · rfl
    · cases call.request myNodeId with
      | none => rfl
      | some kr => exact (asked_rewrite _ _ _).symm
  · rwa [(perform_frame host myNodeId s call).2.1] at hb

/-- A thread goes on to a task that asks for nothing new. -/
theorem setTask (h : Sourced A s) (w : ℕ) {task : Task}
    (htask : ∀ k v, task.asked = some (k, v) → A k v) : Sourced A (s.setTask w task) := by
  refine ⟨fun w' k v hw' => ?_, h.broadcasts⟩
  by_cases hw : w' = w
  · subst hw
    rw [tasks_setTask_self] at hw'
    exact htask k v hw'
  · rw [tasks_setTask_of_ne s hw] at hw'
    exact h.tasks w' k v hw'

theorem clock (h : Sourced A s) (now : UInt64) : Sourced A { s with clock := now } :=
  ⟨h.tasks, h.broadcasts⟩

theorem readClock (h : Sourced A s) (now : UInt64) {k : State → State}
    (hk : Sourced A (k { s with clock := now })) : Sourced A (s.readClock now k) := by
  unfold State.readClock
  split_ifs
  · exact h
  · exact hk

theorem broadcast (h : Sourced A s) {b : Broadcast}
    (hb : ∀ k r v, b.cmd = announce k r → r.body = some v → A k v) (allocOk : Bool) :
    Sourced A (s.broadcast allocOk b) := by
  unfold State.broadcast
  split_ifs
  · refine ⟨h.tasks, fun b' hb' => ?_⟩
    rcases List.mem_append.mp hb' with hb' | hb'
    · exact h.broadcasts b' hb'
    · exact List.mem_singleton.mp hb' ▸ hb
  · exact h

/-- What a deletion announces is no value. -/
theorem body_of_flagTombstone {k : Key} {r : Record} {cmd : ControlCmd}
    (hflags : cmd.flags = flagTombstone) (hcmd : cmd = announce k r) : r.body = none := by
  rw [hcmd] at hflags
  cases hbody : r.body with
  | none => rfl
  | some v => exact absurd hflags (by simp [announce, Record.tombstone, hbody]; decide)

theorem advance (h : Sourced A s) (bdb : Bdb) (w : ℕ) (now : UInt64) :
    Sourced A (advance host myNodeId bdb s w now) := by
  have hasked := h.tasks w
  unfold Node.advance
  cases htask : s.tasks w with
  | idle => exact h
  | setReadTs key value =>
      rw [htask] at hasked
      exact h.readClock now ((h.clock now).setTask w hasked)
  | setReadExpire key value tsUse =>
      rw [htask] at hasked
      exact h.readClock now ((h.clock now).setTask w hasked)
  | setApply key value tsUse expireAt =>
      rw [htask] at hasked
      dsimp only
      split_ifs
      · exact (h.perform _).setTask w hasked
      · exact (h.perform _).setTask w nofun
  | setEnqueue key value tsUse expireAt =>
      rw [htask] at hasked
      have hcmd : enqueueBroadcast (Buf.ofBytes key.1) (Buf.ofBytes value.1) tsUse myNodeId expireAt
          flagNone = announce key ⟨tsUse, myNodeId, expireAt, some value⟩ :=
        enqueueBroadcast_ofBytes key ⟨tsUse, myNodeId, expireAt, some value⟩
      refine (h.broadcast ?_ bdb.allocOk).setTask w nofun
      intro k r v hannounce hbody
      obtain ⟨rfl, rfl⟩ := Cluster.announce_injective (hcmd.symm.trans hannounce)
      exact Option.some.inj hbody ▸ hasked key value rfl
  | delReadTs source key =>
      exact h.readClock now ((h.clock now).setTask w nofun)
  | delApply source key ts => exact (h.perform _).setTask w nofun
  | delReadBroadcastTs key storedTs =>
      exact h.readClock now ((h.clock now).setTask w nofun)
  | delEnqueue key storedTs tsDel =>
      refine (h.broadcast ?_ bdb.allocOk).setTask w nofun
      intro k r v hannounce hbody
      exact absurd hbody (by simp [body_of_flagTombstone rfl hannounce])

/-- One step of a thread; `A` admits what a client asks for in it. -/
theorem step (h : Sourced A s) (bdb : Bdb) {e : Event}
    (hA : ∀ w (k : Key) (v : Value), e = .set w k.1 v.1 → A k v) :
    Sourced A (step host myNodeId bdb s e) := by
  have hstart : ∀ (w : ℕ) (task : Task), (∀ k v, task.asked = some (k, v) → A k v) →
      Sourced A (s.start w task) := by
    intro w task htask
    unfold State.start
    split_ifs
    · exact h.setTask w htask
    · exact h
  cases e with
  | set w key value =>
      simp only [Node.step]
      split_ifs with hlen
      · apply hstart
        intro k v hkv
        obtain ⟨rfl, rfl⟩ := Prod.mk.inj (Option.some.inj hkv)
        exact hA w ⟨key, hlen.1⟩ ⟨value, hlen.2⟩ rfl
      · exact h
  | del w key value =>
      simp only [Node.step]
      split_ifs
      · exact hstart w _ (by simp [Task.asked])
      · exact h
  | collect w =>
      simp only [Node.step]
      cases s.gcQueue with
      | nil => exact h
      | cons entry rest =>
          dsimp only
          split_ifs
          · exact setTask (s := { s with gcQueue := rest }) ⟨h.tasks, h.broadcasts⟩ w
              (by simp [Task.asked])
          · exact h
  | advance w now => exact h.advance bdb w now
  | scan cursorOk calls now =>
      simp only [Node.step]
      apply h.readClock now
      exact ⟨h.tasks, h.broadcasts⟩

theorem receive (h : Sourced A s) (bdb : Bdb) (r : Received) :
    Sourced A (receive host myNodeId bdb s r) := by
  unfold Node.receive
  split_ifs
  · exact h
  · exact h.perform _

end Sourced

/-! ## Records only get newer -/

/-- What was held is held, or something newer. -/
def Newer (host : Endian) (db db' : Database) : Prop :=
  ∀ k x, contents host db k = some x →
    ∃ y, contents host db' k = some y ∧ (y = x ∨ x.stamp < y.stamp)

namespace Newer

variable {db db' db'' : Database}

theorem refl (host : Endian) (db : Database) : Newer host db db := fun _ x hx => ⟨x, hx, Or.inl rfl⟩

theorem trans (h : Newer host db db') (h' : Newer host db' db'') : Newer host db db'' := by
  intro k x hx
  obtain ⟨y, hy, hxy⟩ := h k x hx
  obtain ⟨z, hz, hyz⟩ := h' k y hy
  refine ⟨z, hz, ?_⟩
  rcases hxy with rfl | hxy
  · exact hyz
  · rcases hyz with rfl | hyz
    · exact Or.inr hxy
    · exact Or.inr (hxy.trans hyz)

theorem perform (hwf : WellFormed host s.db) (call : Call) :
    Newer host s.db (s.perform host myNodeId call).2.db := by
  rcases perform_cases myNodeId hwf call with ⟨k, r, -, -, hlt, heq⟩ | ⟨-, heq, -⟩
  · rw [heq]
    intro k' x hx
    show ∃ y, contents host (s.db.put k.1 (r.blob host)) k' = some y ∧ _
    rw [contents_put, Function.update_apply]
    split_ifs with hk
    · subst hk
      exact ⟨r, rfl, Or.inr (hlt x hx)⟩
    · exact ⟨x, hx, Or.inl rfl⟩
  · rw [heq]
    exact refl host s.db

/-- A step of the node's own threads. -/
theorem step {P : Key → Record → Prop} (h : Ledger host myNodeId P s) (e : Event) :
    Newer host s.db (step host myNodeId Bdb.ok s e).db := by
  cases Effect.step h e with
  | quiet hdb => exact hdb ▸ refl host s.db
  | write call k r w task hreq hok hidle howes hsound hset heq =>
      rw [heq]
      exact perform h.wellFormed call
  | announce w b howes hb heq =>
      rw [heq]
      exact refl host s.db

theorem receive (hwf : WellFormed host s.db) (bdb : Bdb) (r : Received) :
    Newer host s.db (receive host myNodeId bdb s r).db := by
  unfold Node.receive
  split_ifs
  · exact refl host s.db
  · exact perform hwf _

end Newer

end Dmmr.Node

namespace Dmmr.Cluster

open Words Store Wire Node

variable {ι : Type*} [DecidableEq ι] {cfg : Config ι}

/-! ## Runs of the cluster -/

/-- A client has asked some node to set `k` to `v`. -/
def Asked (events : List (Event ι)) (k : Key) (v : Value) : Prop :=
  ∃ i w, Event.own i (.set w k.1 v.1) ∈ events

/-- What a step of the cluster can do to one of its nodes. -/
theorem nodes_step_cases (cfg : Config ι) (c : State ι) (e : Event ι) (j : ι) :
    (step cfg c e).nodes j = c.nodes j ∨
      (∃ e', e = .own j e' ∧ (step cfg c e).nodes j =
        Node.step (cfg.host j) (cfg.nodeId j) Bdb.ok (c.nodes j) e') ∨
      ∃ r, (step cfg c e).nodes j =
        receive (cfg.host j) (cfg.nodeId j) Bdb.ok (c.nodes j) r := by
  cases e with
  | own i e =>
      by_cases hj : j = i
      · subst hj
        exact Or.inr (Or.inl ⟨e, rfl, Function.update_self ..⟩)
      · exact Or.inl (Function.update_of_ne hj ..)
  | deliver source target n =>
      simp only [step]
      split_ifs
      · exact Or.inl rfl
      cases (c.nodes source).broadcasts[n]? with
      | none => exact Or.inl rfl
      | some b =>
          dsimp only
          cases syncFrame cfg.clusterName b.cmd with
          | none => exact Or.inl rfl
          | some r =>
              by_cases hj : j = target
              · subst hj
                exact Or.inr (Or.inr ⟨r, Function.update_self ..⟩)
              · exact Or.inl (Function.update_of_ne hj ..)

/-- Whatever a thread is at or has announced, a client has asked for. -/
theorem sourced_run (cfg : Config ι) (events : List (Event ι)) :
    ∀ j, Sourced (Asked events) ((run cfg events).nodes j) := by
  refine List.foldlRecOn (motive := fun c : State ι => ∀ j, Sourced (Asked events) (c.nodes j))
    events _ (fun _ => Sourced.init) ?_
  intro c hc e he j
  rcases nodes_step_cases cfg c e j with heq | ⟨e', rfl, heq⟩ | ⟨r, heq⟩
  · exact heq ▸ hc j
  · rw [heq]
    exact (hc j).step Bdb.ok fun w k v hset => ⟨j, w, hset ▸ he⟩
  · rw [heq]
    exact (hc j).receive Bdb.ok r

/-- **A value that is held was set by a client.** -/
theorem asked_of_live {events : List (Event ι)} {j : ι} {k : Key} {x : Record} {v : Value}
    (hx : contents (cfg.host j) ((run cfg events).nodes j).db k = some x)
    (hv : x.body = some v) : Asked events k v := by
  have hinv : Inv cfg (run cfg events) := Inv.run events
  have hsourced := sourced_run cfg events
  have hlive : x.tombstone = false := by simp [Record.tombstone, hv]
  rcases (hinv.ledger j).origin k x hx with (⟨w, hw⟩ | ⟨b, hb, hkey, hstored⟩) | ⟨i, -, b, hb, hcmd⟩
  · -- the thread that has written it has not announced it yet
    exact (hsourced j).tasks w k v (Task.asked_of_owes hw hv)
  · -- this node has announced it
    obtain ⟨k', ⟨r, -, -, rfl⟩ | ⟨t, t', -, rfl⟩⟩ := (hinv.ledger j).sent b hb
    · obtain rfl : k' = k := Subtype.ext hkey
      obtain rfl : r = x := hstored
      exact (hsourced j).broadcasts _ hb k' r v rfl hv
    · exact absurd hlive (by simp [← hstored, Record.tombstone])
  · exact (hsourced i).broadcasts b hb k x v hcmd hv

/-- **A record is only replaced by a newer one.** -/
theorem newer_run (cfg : Config ι) (events more : List (Event ι)) (j : ι) :
    Newer (cfg.host j) ((run cfg events).nodes j).db
      ((run cfg (events ++ more)).nodes j).db := by
  induction more using List.reverseRecOn with
  | nil => rw [List.append_nil]; exact Newer.refl _ _
  | append_singleton more e ih =>
      refine ih.trans ?_
      have hinv : Inv cfg (run cfg (events ++ more)) := Inv.run _
      have hrun : run cfg (events ++ (more ++ [e])) = step cfg (run cfg (events ++ more)) e := by
        rw [← List.append_assoc]
        exact List.foldl_append
      rw [hrun]
      rcases nodes_step_cases cfg (run cfg (events ++ more)) e j with heq | ⟨e', -, heq⟩ | ⟨r, heq⟩
      · rw [heq]
        exact Newer.refl _ _
      · rw [heq]
        exact Newer.step (hinv.ledger j) e'
      · rw [heq]
        exact Newer.receive (hinv.ledger j).wellFormed Bdb.ok r

end Dmmr.Cluster
