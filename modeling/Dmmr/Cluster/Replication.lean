import Dmmr.Node.Ledger
import Dmmr.Store.Readers

/-!
# Replication across the cluster

Each node runs its own threads (`Node.step`); a command passed to
`enqueue_broadcast` on one node may be delivered to any other node, at any time
and any number of times, as the frame its sender puts on the wire.

The cluster need not converge: a deletion stores one timestamp on its own node
and broadcasts a later one, and a SET stamped between the two survives on that
node only.  Apart from that it does (`agree_of_separated`): if no SET of a key
is stamped between the two timestamps of a deletion of that key, then as soon as
no thread is busy and everything announced has been delivered, all nodes serve
the same value under every key.
-/

namespace Dmmr.Cluster

open Words Store Wire Node

variable {ι : Type*}

/-- The nodes of a cluster: each with the byte order of its host and a non-zero
identifier of its own. -/
structure Config (ι : Type*) where
  host : ι → Endian
  nodeId : ι → UInt64
  clusterName : Bytes
  nodeId_ne_zero : ∀ i, nodeId i ≠ 0
  nodeId_injective : Function.Injective nodeId

/-- What the receiver gets off the wire when `broadcast_sync` and a sender
thread have sent a command as an `OP_SYNC` frame. -/
def syncFrame (clusterName : Bytes) (cmd : ControlCmd) : Option Received :=
  if cmd.key.length = 0 ∨ cmd.key.length > maxKeyLen ∨ cmd.value.length > maxValueLen then none
  else do
    let bytes ← clusterSendFrame clusterName Opcode.sync.code cmd.flags (Buf.ofBytes cmd.key)
      (Buf.ofBytes cmd.value) cmd.ts cmd.nodeId cmd.expireAt
    let (r, _) ← clusterRecvFrame true bytes
    some r

/-- The nodes, and for each of them the commands delivered to it so far. -/
structure State (ι : Type*) where
  nodes : ι → Node.State
  delivered : ι → List ControlCmd

def State.init : State ι := ⟨fun _ => Node.State.init, fun _ => []⟩

inductive Event (ι : Type*)
  /-- A thread of node `i` takes a step. -/
  | own (i : ι) (e : Node.Event)
  /-- The `n`-th command announced by `source` reaches `target`. -/
  | deliver (source target : ι) (n : ℕ)

variable [DecidableEq ι] (cfg : Config ι)

def step (c : State ι) : Event ι → State ι
  | .own i e =>
      { c with
        nodes := Function.update c.nodes i
          (Node.step (cfg.host i) (cfg.nodeId i) Bdb.ok (c.nodes i) e) }
  | .deliver source target n =>
      if source = target then c
      else
        match (c.nodes source).broadcasts[n]? with
        | none => c
        | some b =>
            match syncFrame cfg.clusterName b.cmd with
            | none => c
            | some r =>
                { nodes := Function.update c.nodes target
                    (receive (cfg.host target) (cfg.nodeId target) Bdb.ok (c.nodes target) r)
                  delivered := Function.update c.delivered target
                    (b.cmd :: c.delivered target) }

/-- The state a cluster of fresh nodes reaches. -/
def run (events : List (Event ι)) : State ι := events.foldl (step cfg) State.init

/-- No thread is busy, and everything announced has reached every other node. -/
def Quiescent (c : State ι) : Prop :=
  (∀ i w, (c.nodes i).tasks w = .idle) ∧
    ∀ i, ∀ b ∈ (c.nodes i).broadcasts, ∀ j, j ≠ i → b.cmd ∈ c.delivered j

/-- The value a node serves under a key. -/
def served (c : State ι) (i : ι) (k : Key) : Option (Option Bytes × ℕ) :=
  (dbGetWithMeta (cfg.host i) Bdb.ok (c.nodes i).db (Buf.ofBytes k.1)).2.map
    fun out => (out.value, out.valueLen)

/-- The stamp a command announces. -/
def announcedStamp (cmd : ControlCmd) : Stamp := toLex (cmd.ts, cmd.nodeId)

/-- The broadcast `b` of a SET is stamped between the timestamp that the
deletion behind the broadcast `d` stored and the one it announced. -/
def Straddles (d b : Broadcast) : Prop :=
  d.cmd.key = b.cmd.key ∧ d.stored.tombstone = true ∧ b.stored.tombstone = false ∧
    d.stored.stamp ≤ b.stored.stamp ∧ b.stored.stamp ≤ announcedStamp d.cmd

instance (d b : Broadcast) : Decidable (Straddles d b) := by
  unfold Straddles
  infer_instance

/-- No SET announced for a key is stamped between the two timestamps of a
deletion of that key. -/
def Separated (c : State ι) : Prop :=
  ∀ i j, ∀ d ∈ (c.nodes i).broadcasts, ∀ b ∈ (c.nodes j).broadcasts, ¬ Straddles d b

/-! ## What a delivered command is -/

/-- The command that announces a record reaches the other node as that record. -/
theorem syncFrame_announce (clusterName : Bytes) (k : Key) (r : Record) :
    syncFrame clusterName (announce k r) = some (recordFrame clusterName k r) := by
  unfold syncFrame
  rw [if_neg]
  · have hsend := clusterSendFrame_of_le clusterName Opcode.sync.code (announce k r).flags k.2.2
      r.length_value_le r.timestamp r.nodeId r.expireAt
    have hrecv := clusterRecvFrame_send clusterName Opcode.sync.code (announce k r).flags k.2.2
      r.length_value_le r.timestamp r.nodeId r.expireAt []
    rw [List.append_nil] at hrecv
    simp only [announce] at hsend hrecv ⊢
    simp only [hsend, Option.bind_eq_bind, Option.bind_some, hrecv]
    rfl
  · have hvalue := r.length_value_le
    have hle := k.2.2
    have hkey : 0 < k.1.length := List.length_pos_iff.mpr k.2.1
    simp only [announce]
    omega

theorem announce_injective {k k' : Key} {r r' : Record} (h : announce k r = announce k' r') :
    k = k' ∧ r = r' := by
  obtain ⟨timestamp, nodeId, expireAt, body⟩ := r
  obtain ⟨timestamp', nodeId', expireAt', body'⟩ := r'
  simp only [announce, ControlCmd.mk.injEq] at h
  obtain ⟨rfl, rfl, rfl, hflags, hkey, hvalue⟩ := h
  have htomb := congrArg (fun f => f &&& flagTombstone != 0) hflags
  simp only [flags_tombstone] at htomb
  refine ⟨Subtype.ext hkey, ?_⟩
  cases body with
  | none => cases body' <;> simp_all [Record.tombstone]
  | some v =>
      cases body' with
      | none => simp [Record.tombstone] at htomb
      | some v' => simpa [Record.value, Subtype.ext_iff] using hvalue

/-! ## The invariant -/

/-- A record announced by a node other than `j`. -/
def FromPeer (c : State ι) (j : ι) (k : Key) (r : Record) : Prop :=
  ∃ i, i ≠ j ∧ ∃ b ∈ (c.nodes i).broadcasts, b.cmd = announce k r

/-- Every node keeps its ledger, with the other nodes' announcements as the
records from peers, and is at least as recent as what was delivered to it. -/
structure Inv (c : State ι) : Prop where
  ledger : ∀ j, Ledger (cfg.host j) (cfg.nodeId j) (FromPeer c j) (c.nodes j)
  delivered : ∀ j (k : Key) (r : Record), announce k r ∈ c.delivered j →
    ∃ x, contents (cfg.host j) (c.nodes j).db k = some x ∧ r.stamp ≤ x.stamp

variable {cfg}

omit [DecidableEq ι] in
theorem FromPeer.mono {c c' : State ι} (h : ∀ i, (c.nodes i).broadcasts ⊆ (c'.nodes i).broadcasts)
    {j : ι} {k : Key} {r : Record} (hr : FromPeer c j k r) : FromPeer c' j k r := by
  obtain ⟨i, hi, b, hb, hcmd⟩ := hr
  exact ⟨i, hi, b, h i hb, hcmd⟩

namespace Inv

omit [DecidableEq ι] in
theorem init : Inv cfg (State.init : State ι) :=
  ⟨fun _ => Ledger.init, by simp [State.init]⟩

/-- One node takes a step that keeps its ledger and loses nothing. -/
theorem update {c : State ι} (h : Inv cfg c) {i : ι} {s : Node.State}
    (hledger : Ledger (cfg.host i) (cfg.nodeId i) (FromPeer c i) s)
    (hext : Extends (cfg.host i) (c.nodes i) s) :
    Inv cfg { c with nodes := Function.update c.nodes i s } := by
  have hgrow : ∀ i', (c.nodes i').broadcasts ⊆ (Function.update c.nodes i s i').broadcasts := by
    intro i'
    by_cases hi : i' = i
    · subst hi
      rw [Function.update_self]
      exact hext.broadcasts
    · rw [Function.update_of_ne hi]
      exact List.Subset.refl _
  constructor
  · intro j
    by_cases hj : j = i
    · subst hj
      simp only [Function.update_self]
      exact hledger.mono fun _ _ hr => hr.mono hgrow
    · simp only [Function.update_of_ne hj]
      exact (h.ledger j).mono fun _ _ hr => hr.mono hgrow
  · intro j k r hr
    obtain ⟨x, hx, hle⟩ := h.delivered j k r hr
    by_cases hj : j = i
    · subst hj
      obtain ⟨y, hy, hle'⟩ := hext.contents k x hx
      exact ⟨y, by simpa only [Function.update_self] using hy, hle.trans hle'⟩
    · exact ⟨x, by simpa only [Function.update_of_ne hj] using hx, hle⟩

theorem deliver {c : State ι} (h : Inv cfg c) {source target : ι} (hne : source ≠ target)
    {b : Broadcast} (hb : b ∈ (c.nodes source).broadcasts) {f : Received}
    (hf : syncFrame cfg.clusterName b.cmd = some f) :
    Inv cfg
      { nodes := Function.update c.nodes target
          (receive (cfg.host target) (cfg.nodeId target) Bdb.ok (c.nodes target) f)
        delivered := Function.update c.delivered target (b.cmd :: c.delivered target) } := by
  obtain ⟨k, r, hcmd, hid⟩ := ((h.ledger source).sent b hb).announces
  have hne0 : r.nodeId ≠ 0 := by
    rw [hid]
    exact cfg.nodeId_ne_zero source
  rw [hcmd, syncFrame_announce] at hf
  obtain rfl : recordFrame cfg.clusterName k r = f := Option.some.inj hf
  have hP : FromPeer c target k r := ⟨source, hne, b, hb, hcmd⟩
  have hrequest : (syncCall Bdb.ok (recordFrame cfg.clusterName k r)).request (cfg.nodeId target) =
      some (k, r) := request_syncCall Bdb.ok cfg.clusterName k r
  have hok : (syncCall Bdb.ok (recordFrame cfg.clusterName k r)).bdb.succeeds = true := rfl
  rw [receive_recordFrame Bdb.ok _ cfg.clusterName k hne0]
  have hupdate := h.update ((h.ledger target).receive_call hrequest hok hP)
    (Extends.perform (h.ledger target) _)
  refine ⟨hupdate.ledger, ?_⟩
  intro j k' r' hr'
  by_cases hj : j = target
  · subst hj
    simp only [Function.update_self, List.mem_cons] at hr'
    rcases hr' with hr' | hr'
    · obtain ⟨rfl, rfl⟩ := announce_injective (hr'.trans hcmd)
      simp only [Function.update_self]
      exact (h.ledger j).covers_perform hrequest hok
    · exact hupdate.delivered j k' r' hr'
  · simp only [Function.update_of_ne hj] at hr'
    exact hupdate.delivered j k' r' hr'

theorem step {c : State ι} (h : Inv cfg c) (e : Event ι) : Inv cfg (step cfg c e) := by
  cases e with
  | own i e => exact h.update ((h.ledger i).step e) (Extends.step (h.ledger i) e)
  | deliver source target n =>
      simp only [Cluster.step]
      split_ifs with hne
      · exact h
      · cases hget : (c.nodes source).broadcasts[n]? with
        | none => exact h
        | some b =>
            simp only
            cases hf : syncFrame cfg.clusterName b.cmd with
            | none => exact h
            | some f => exact h.deliver hne (List.mem_of_getElem? hget) hf

theorem run (events : List (Event ι)) : Inv cfg (run cfg events) :=
  List.foldlRecOn events _ init fun _ hc e _ => hc.step e

end Inv

/-! ## Agreement -/

section Agreement

variable {c : State ι} (h : Inv cfg c) (hquiet : Quiescent c)
include h hquiet
omit [DecidableEq ι]

/-- In a quiescent state a record held anywhere was written by a thread that
has announced its write, or is what some node announced. -/
theorem broadcast_of_held {j : ι} {k : Key} {x : Record}
    (hx : contents (cfg.host j) (c.nodes j).db k = some x) :
    ∃ i, ∃ b ∈ (c.nodes i).broadcasts, b.cmd.key = k.1 ∧ b.stored = x ∨ b.cmd = announce k x := by
  rcases (h.ledger j).origin k x hx with (⟨w, hw⟩ | ⟨b, hb, hown⟩) | ⟨i, -, b, hb, hcmd⟩
  · rw [hquiet.1 j w] at hw
    simp [Task.owes] at hw
  · exact ⟨j, b, hb, Or.inl hown⟩
  · exact ⟨i, b, hb, Or.inr hcmd⟩

/-- In a quiescent state every live record held anywhere has been announced by
the node whose stamp it carries. -/
theorem announced_of_live {j : ι} {k : Key} {x : Record}
    (hx : contents (cfg.host j) (c.nodes j).db k = some x) (hlive : x.tombstone = false) :
    ∃ i, x.nodeId = cfg.nodeId i ∧ ⟨announce k x, x⟩ ∈ (c.nodes i).broadcasts := by
  obtain ⟨i, b, hb, hshape⟩ := broadcast_of_held h hquiet hx
  refine ⟨i, ?_⟩
  obtain ⟨k', ⟨r, -, hid, rfl⟩ | ⟨t, t', -, rfl⟩⟩ := (h.ledger i).sent b hb
  · rcases hshape with ⟨hkey, rfl⟩ | hcmd
    · obtain rfl : k' = k := Subtype.ext hkey
      exact ⟨hid, hb⟩
    · obtain ⟨rfl, rfl⟩ := announce_injective hcmd
      exact ⟨hid, hb⟩
  · rcases hshape with ⟨-, rfl⟩ | hcmd
    · simp [Record.tombstone] at hlive
    · obtain ⟨-, rfl⟩ := announce_injective hcmd
      simp [Record.tombstone] at hlive

/-- In a quiescent state every node is at least as recent as every SET
announced. -/
theorem le_of_announced {i : ι} {k : Key} {x : Record}
    (hb : ⟨announce k x, x⟩ ∈ (c.nodes i).broadcasts) (j : ι) :
    ∃ y, contents (cfg.host j) (c.nodes j).db k = some y ∧ x.stamp ≤ y.stamp := by
  by_cases hj : j = i
  · subst hj
    exact (h.ledger j).covered k x (Or.inr ⟨_, hb, rfl, rfl⟩)
  · exact h.delivered j k x (hquiet.2 i _ hb j hj)

/-- A tombstone held anywhere comes from a deletion, and lies between the
timestamp the deletion stored and the one it announced. -/
theorem deletion_of_tombstone {j : ι} {k : Key} {x : Record}
    (hx : contents (cfg.host j) (c.nodes j).db k = some x) (hdead : x.tombstone = true) :
    ∃ i t t', ⟨announce k ⟨t', cfg.nodeId i, 0, none⟩, ⟨t, cfg.nodeId i, 0, none⟩⟩ ∈
        (c.nodes i).broadcasts ∧ t ≤ t' ∧ x.stamp ≤ toLex (t', cfg.nodeId i) := by
  obtain ⟨i, b, hb, hshape⟩ := broadcast_of_held h hquiet hx
  refine ⟨i, ?_⟩
  obtain ⟨k', ⟨r, hlive, -, rfl⟩ | ⟨t, t', hle, rfl⟩⟩ := (h.ledger i).sent b hb
  · rcases hshape with ⟨-, rfl⟩ | hcmd
    · rw [hlive] at hdead
      simp at hdead
    · obtain ⟨-, rfl⟩ := announce_injective hcmd
      rw [hlive] at hdead
      simp at hdead
  · rcases hshape with ⟨hkey, rfl⟩ | hcmd
    · obtain rfl : k' = k := Subtype.ext hkey
      exact ⟨t, t', hb, hle, stamp_le hle _⟩
    · obtain ⟨rfl, rfl⟩ := announce_injective hcmd
      exact ⟨t, t', hb, hle, le_rfl⟩

/-- **A live record held by one node is held by every node.** -/
theorem held_everywhere (hsep : Separated c) {j : ι} {k : Key} {x : Record}
    (hx : contents (cfg.host j) (c.nodes j).db k = some x) (hlive : x.tombstone = false)
    (j' : ι) : contents (cfg.host j') (c.nodes j').db k = some x := by
  obtain ⟨i, hi, hb⟩ := announced_of_live h hquiet hx hlive
  obtain ⟨y, hy, hle⟩ := le_of_announced h hquiet hb j'
  cases hdead : y.tombstone with
  | false =>
      -- two live records: each node is as recent as the other's
      obtain ⟨i', hi', hb'⟩ := announced_of_live h hquiet hy hdead
      obtain ⟨z, hz, hle'⟩ := le_of_announced h hquiet hb' j
      obtain rfl : x = z := Option.some.inj (hx.symm.trans hz)
      have hstamp : x.stamp = y.stamp := le_antisymm hle hle'
      have hnode : x.nodeId = y.nodeId := congrArg (fun t => (ofLex t).2) hstamp
      obtain rfl : i = i' := cfg.nodeId_injective (by rw [← hi, ← hi', hnode])
      rw [hy, (h.ledger i).unique k.1 x y hlive hdead (Or.inr ⟨_, hb, rfl, rfl⟩)
        (Or.inr ⟨_, hb', rfl, rfl⟩) hstamp]
  | true =>
      -- the tombstone outlives the SET there, so the deletion has to beat it here too
      exfalso
      obtain ⟨i', t, t', hd, htt, hdle⟩ := deletion_of_tombstone h hquiet hy hdead
      refine hsep i' i _ hd _ hb ⟨rfl, rfl, hlive, ?_, hle.trans hdle⟩
      by_cases hj : j = i'
      · subst hj
        obtain ⟨z, hz, hle'⟩ := (h.ledger j).covered k _ (Or.inr ⟨_, hd, rfl, rfl⟩)
        obtain rfl : x = z := Option.some.inj (hx.symm.trans hz)
        exact hle'
      · obtain ⟨z, hz, hle'⟩ := h.delivered j k _ (hquiet.2 i' _ hd j hj)
        obtain rfl : x = z := Option.some.inj (hx.symm.trans hz)
        exact (stamp_le htt _).trans hle'

end Agreement

omit [DecidableEq ι] in
/-- What a node serves is the live value its store holds. -/
theorem served_eq {c : State ι} {j : ι} (hwf : WellFormed (cfg.host j) (c.nodes j).db) (k : Key) :
    served cfg c j k = ((contents (cfg.host j) (c.nodes j).db k).bind Record.body).map fun v =>
      (if v.1 = [] then none else some v.1, v.1.length) := by
  unfold served
  rw [dbGetWithMeta_eq hwf, Buf.toKey?_ofBytes]
  simp only [AbstractStore.get]
  cases contents (cfg.host j) (c.nodes j).db k with
  | none => rfl
  | some r =>
      cases hbody : r.body with
      | none => simp [hbody]
      | some v => simp [hbody]

/-- **The cluster converges when deletions and SETs are separated.**  In every
run of any number of nodes, clients, workers and collectors, with records
delivered in any order and any number of times: once every thread is idle and
everything announced has been delivered, all nodes serve the same value, or
none, under every key, provided no SET of a key is stamped between the timestamp
a deletion of that key stored and the one it announced. -/
theorem agree_of_separated (cfg : Config ι) (events : List (Event ι))
    (hquiet : Quiescent (run cfg events)) (hsep : Separated (run cfg events)) (i j : ι)
    (k : Key) : served cfg (run cfg events) i k = served cfg (run cfg events) j k := by
  have h : Inv cfg (run cfg events) := Inv.run events
  have hcopy : ∀ a b v, ((contents (cfg.host a) ((run cfg events).nodes a).db k).bind
      Record.body) = some v → ((contents (cfg.host b) ((run cfg events).nodes b).db k).bind
      Record.body) = some v := by
    intro a b v hv
    obtain ⟨x, hx, hbody⟩ := Option.bind_eq_some_iff.mp hv
    have hlive : x.tombstone = false := by simp [Record.tombstone, hbody]
    rw [held_everywhere h hquiet hsep hx hlive b]
    exact hbody
  rw [served_eq (h.ledger i).wellFormed, served_eq (h.ledger j).wellFormed]
  congr 1
  exact Option.ext fun v => ⟨hcopy i j v, hcopy j i v⟩

/-- Two nodes. -/
def pair : Config Bool where
  host _ := .little
  nodeId b := if b then 2 else 1
  clusterName := []
  nodeId_ne_zero := by decide
  nodeId_injective := by
    intro a b
    cases a <;> cases b <;> decide

/-- A SET on one node, delivered to the other, and then a deletion on the other,
delivered back. -/
theorem agree_of_separated_pair :
    let events : List (Event Bool) :=
      [.own false (.set 0 [107] [118]), .own false (.advance 0 10), .own false (.advance 0 10),
        .own false (.advance 0 10), .own false (.advance 0 10), .deliver false true 0,
        .own true (.del 0 [107] []), .own true (.advance 0 20), .own true (.advance 0 20),
        .own true (.advance 0 21), .own true (.advance 0 21), .deliver true false 0]
    served pair (run pair events) false ⟨[107], by decide⟩ =
      served pair (run pair events) true ⟨[107], by decide⟩ := by
  intro events
  refine agree_of_separated pair events ⟨?_, ?_⟩ ?_ false true _
  · intro i w
    cases i <;> rcases w with _ | w <;> rfl
  · decide +kernel
  · unfold Separated
    decide +kernel

/-- A worker deletes a key at time 10; another worker sets it at time 11; only
then does the first worker read the clock for its broadcast.  When everything
has been delivered, the key is alive on this node and deleted on the other. -/
theorem agree_fails :
    let events : List (Event Bool) :=
      [.own false (.del 0 [107] []), .own false (.advance 0 10), .own false (.advance 0 10),
        .own false (.set 1 [107] [118]), .own false (.advance 1 11), .own false (.advance 1 11),
        .own false (.advance 1 11), .own false (.advance 1 11),
        .own false (.advance 0 12), .own false (.advance 0 12),
        .deliver false true 0, .deliver false true 1]
    Quiescent (run pair events) ∧
      served pair (run pair events) false ⟨[107], by decide⟩ = some (some [118], 1) ∧
      served pair (run pair events) true ⟨[107], by decide⟩ = none := by
  intro events
  refine ⟨⟨?_, ?_⟩, ?_, ?_⟩
  · intro i w
    cases i <;> rcases w with _ | _ | w <;> rfl
  · decide +kernel
  · decide +kernel
  · decide +kernel

end Dmmr.Cluster
