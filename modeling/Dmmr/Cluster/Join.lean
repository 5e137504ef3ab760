import Dmmr.Cluster.Hello
import Dmmr.Cluster.Replication
import Dmmr.Cluster.Snapshot
import Dmmr.Node.Debts
import Mathlib.Data.List.Perm.Basic

/-!
# A node joins while its seed is written to

The joiner sends the seed a HELLO, which enters it into the seed's peer table, and
only then asks for a snapshot.  Meanwhile the seed's clients and its collector go
on writing: a write is applied, then passed to `enqueue_broadcast`, and some time
later `broadcast_sync` puts it into the outbox of every peer then in the table.
So a record may reach the joiner with the snapshot, through its outbox, or both.

Nothing is lost in between.  At any moment each record the seed holds has reached
the joiner, or is announced or about to be, or is in the part of the snapshot still
to come (`Session`).  What is left once the joiner has its snapshot and everything
announced has been delivered are writes whose thread has yet to call
`enqueue_broadcast` (`joiner_covers`).

The snapshot runs on a cursor of which only this is assumed: that it visits every
key present when it was opened, with the record then current.  How connections are
authenticated is left out; one that is refused is one on which nothing arrives.
-/

namespace Dmmr.Cluster

open Words Store Wire Node

/-! ## State -/

/-- The seed and the node that joins it. -/
structure JoinConfig where
  seed : NodeConfig
  joiner : NodeConfig
  valid : joiner.Valid
  seedId_ne_zero : seed.myNodeId ≠ 0
  nodeId_ne : joiner.myNodeId ≠ seed.myNodeId

/-- How far `send_snapshot` has got, `todo` being the keys the cursor has yet to
visit before it may report the end. -/
inductive SnapshotSender
  | off
  | requested
  | begun
  | reading (todo : List Bytes)
  | ended
  deriving DecidableEq, Repr

/-- Where the joiner stands in `request_snapshot`. -/
inductive SnapshotClient
  | idle
  | waiting (sawBegin : Bool)
  | returned (rc : Int)
  deriving DecidableEq, Repr

/-- `queue` holds the commands that have been passed to `enqueue_broadcast` and
not yet to `broadcast_sync`, `outbox` the messages for the joiner not yet
delivered and `stream` what has been sent of the snapshot and not yet read.
`greeted` tells whether the seed has answered a HELLO of the joiner. -/
structure JoinState where
  seed : Node.State
  queue : List ControlCmd
  peers : List Peer
  outbox : List ControlCmd
  sender : SnapshotSender
  stream : Bytes
  joiner : Node.State
  greeted : Bool
  client : SnapshotClient

/-- Two nodes that have started on databases of theirs. -/
def JoinState.init (seedDb joinerDb : Database) (peers : List Peer) : JoinState :=
  ⟨Node.State.initOn seedDb, [], peers, [], .off, [], Node.State.initOn joinerDb, false, .idle⟩

inductive JoinEvent
  /-- A thread of the seed takes a step. -/
  | seed (e : Node.Event)
  /-- The seed handles a HELLO of the joiner. -/
  | hello (allocOk : Bool) (now : Int)
  /-- The seed's peer table changes for another reason. -/
  | table (peers : List Peer)
  /-- The `n`-th command waiting goes through `broadcast_sync`. -/
  | broadcast (n : ℕ)
  /-- The `n`-th message of the outbox reaches the joiner. -/
  | deliver (n : ℕ)
  /-- The joiner calls `request_snapshot`. -/
  | request
  /-- The seed begins to answer. -/
  | begin
  /-- `db_snapshot_foreach` opens its cursor. -/
  | openCursor
  /-- The cursor visits a key, and its record is sent. -/
  | visit (key : Bytes)
  /-- The cursor has come to the end. -/
  | finish
  /-- The joiner takes a frame of the snapshot. -/
  | arrive (bdb : Bdb)
  /-- The joiner's connection fails. -/
  | giveUp
  /-- A thread of the joiner takes a step. -/
  | joiner (e : Node.Event)

/-! ## Steps -/

/-- `broadcast_sync`: the entries of the table whose outbox gets the command. -/
def broadcastSync (cfg : NodeConfig) (peers : List Peer) (cmd : ControlCmd) : List Peer :=
  if cmd.key.length = 0 ∨ cmd.key.length > maxKeyLen ∨ cmd.value.length > maxValueLen then []
  else peers.filter fun peer => !(peer.nodeId ≠ 0 && peer.nodeId == cfg.myNodeId)

instance decidableLists (peers : List Peer) (addr : Bytes) (port : UInt16) (nodeId : UInt64) :
    Decidable (Lists peers addr port nodeId) :=
  inferInstanceAs (Decidable (∃ p ∈ peers, p.addr = addr ∧ p.port = port ∧ p.nodeId = nodeId))

/-- The joiner has an entry in a table. -/
abbrev Listed (cfg : JoinConfig) (peers : List Peer) : Prop :=
  Lists peers cfg.joiner.advertiseAddress cfg.joiner.advertisePort cfg.joiner.myNodeId

/-- A call of `request_snapshot` may be made: none is under way and none has
succeeded, which `bootstrap_completed` records. -/
def SnapshotClient.mayRequest : SnapshotClient → Bool
  | idle => true
  | waiting _ => false
  | returned rc => rc ≠ 0

/-- The joiner reads a frame in the loop of `request_snapshot`. -/
def JoinState.arrive (cfg : JoinConfig) (bdb : Bdb) (s : JoinState) (sawBegin : Bool)
    (r : Received) (rest : Bytes) : JoinState :=
  match snapshotAction cfg.joiner sawBegin r with
  | .fail => { s with stream := rest, client := .returned (-1) }
  | .start => { s with stream := rest, client := .waiting true }
  | .record =>
      let (rc, joiner) := s.joiner.perform cfg.joiner.host cfg.joiner.myNodeId (syncCall bdb r)
      if rc = .error then { s with joiner := joiner, stream := rest, client := .returned (-1) }
      else { s with joiner := joiner, stream := rest }
  | .finish => { s with stream := rest, client := .returned 0 }

/-- The cursor visits a key. -/
def JoinState.visit (cfg : JoinConfig) (s : JoinState) (todo : List Bytes) (key data : Bytes) :
    JoinState :=
  if !entryIsValid cfg.seed.host data || key.length == 0 || key.length > maxKeyLen then
    { s with sender := .off }
  else
    let (rc, sent) := sendSnapshotItem cfg.seed (fun _ => true)
      (snapshotRecord cfg.seed.host key data) []
    if rc != 0 then { s with sender := .off }
    else
      { s with
        sender := .reading (todo.filter (· ≠ key))
        stream := s.stream ++ sent.flatten }

def joinStep (cfg : JoinConfig) (s : JoinState) : JoinEvent → JoinState
  | .seed e =>
      let seed := Node.step cfg.seed.host cfg.seed.myNodeId Bdb.ok s.seed e
      { s with
        seed := seed
        queue := s.queue ++ (seed.broadcasts.drop s.seed.broadcasts.length).map Broadcast.cmd }
  | .hello allocOk now =>
      -- without a secret `handle_cluster_connection` does not get to the HELLO
      if cfg.seed.clusterSecret = [] then s
      else
        let (peers, reply) := handleClusterHello cfg.seed allocOk now s.peers (helloFrame cfg.valid)
        { s with peers := peers, greeted := s.greeted || reply.isSome }
  | .table peers =>
      -- an entry takes its outbox with it
      { s with peers := peers, outbox := if Listed cfg peers then s.outbox else [] }
  | .broadcast n =>
      match s.queue[n]? with
      | none => s
      | some cmd =>
          { s with
            queue := s.queue.eraseIdx n
            outbox :=
              if Listed cfg (broadcastSync cfg.seed s.peers cmd) then s.outbox ++ [cmd]
              else s.outbox }
  | .deliver n =>
      match s.outbox[n]? with
      | none => s
      | some cmd =>
          match syncFrame cfg.seed.clusterName cmd with
          | none => { s with outbox := s.outbox.eraseIdx n }
          | some r =>
              { s with
                outbox := s.outbox.eraseIdx n
                joiner :=
                  if authenticateClusterFrame cfg.joiner.clusterName r.frame then
                    receive cfg.joiner.host cfg.joiner.myNodeId Bdb.ok s.joiner r
                  else s.joiner }
  | .request =>
      -- `discover_seed` goes on only after its HELLO has been answered
      if s.greeted && s.client.mayRequest then
        { s with sender := .requested, stream := [], client := .waiting false }
      else s
  | .begin =>
      match s.sender with
      | .requested =>
          { s with
            sender := .begun
            stream := s.stream ++ controlFrame cfg.seed .clusterSyncBegin [] }
      | _ => s
  | .openCursor =>
      match s.sender with
      | .begun => { s with sender := .reading (s.seed.db.entries.map Prod.fst) }
      | _ => s
  | .visit key =>
      match s.sender, s.seed.db.get? key with
      | .reading todo, some data => s.visit cfg todo key data
      | _, _ => s
  | .finish =>
      match s.sender with
      | .reading [] =>
          { s with
            sender := .ended
            stream := s.stream ++ controlFrame cfg.seed .clusterSyncEnd [] }
      | _ => s
  | .arrive bdb =>
      match s.client, clusterRecvFrame true s.stream with
      | .waiting sawBegin, some (r, rest) => s.arrive cfg bdb sawBegin r rest
      | _, _ => s
  | .giveUp =>
      match s.client with
      | .waiting _ => { s with client := .returned (-1) }
      | _ => s
  | .joiner e =>
      { s with joiner := Node.step cfg.joiner.host cfg.joiner.myNodeId Bdb.ok s.joiner e }

def joinRun (cfg : JoinConfig) (s : JoinState) (events : List JoinEvent) : JoinState :=
  events.foldl (joinStep cfg) s

/-- Once the seed has answered its HELLO the joiner is in the seed's peer table,
and stays there. -/
def StaysListed (cfg : JoinConfig) : JoinState → List JoinEvent → Prop
  | _, [] => True
  | s, e :: events =>
      ((joinStep cfg s e).greeted = true → Listed cfg (joinStep cfg s e).peers) ∧
        StaysListed cfg (joinStep cfg s e) events

/-- The joiner has its snapshot, and everything announced has been delivered. -/
def Drained (s : JoinState) : Prop := s.client = .returned 0 ∧ s.queue = [] ∧ s.outbox = []

/-- The joiner's stamp under `k` is at least `t`. -/
def Covers (cfg : JoinConfig) (s : JoinState) (k : Key) (t : Stamp) : Prop :=
  ∃ y, contents cfg.joiner.host s.joiner.db k = some y ∧ t ≤ y.stamp

/-! ## Where a record is -/

/-- The joiner takes the frames of the seed. -/
def Accepts (cfg : JoinConfig) : Prop :=
  ∀ frame : ClusterFrame, frame.clusterId = clusterId cfg.seed.clusterName →
    authenticateClusterFrame cfg.joiner.clusterName frame = true

/-- If the joiner takes frames of the seed at all, it has a record under `k` stamped
`t` or later, or there is one that is announced or about to be. -/
def OnItsWay (cfg : JoinConfig) (s : JoinState) (k : Key) (t : Stamp) : Prop :=
  Accepts cfg → Covers cfg s k t ∨ Owed cfg.seed.myNodeId s.seed k t ∨
    ∃ cmd ∈ s.queue ++ s.outbox, Announces cfg.seed.myNodeId k t cmd

/-- A record under `k` stamped `t` or later is among the items. -/
def Carried (items : List (Key × Record)) (k : Key) (t : Stamp) : Prop :=
  ∃ r, (k, r) ∈ items ∧ t ≤ r.stamp

/-- What is sent before the records, as far as it has not been read. -/
def opening (cfg : JoinConfig) (sawBegin : Bool) : Bytes :=
  if sawBegin then [] else controlFrame cfg.seed .clusterSyncBegin []

def recordBytes (cfg : JoinConfig) (items : List (Key × Record)) : Bytes :=
  (items.map fun item => itemBytes cfg.seed (item.2.toDbRecord item.1)).flatten

/-- While the cursor has the keys `todo` to visit: what the seed holds is to be
visited, has been sent and not been read, or is on its way. -/
def Transferring (cfg : JoinConfig) (s : JoinState) (sawBegin : Bool) (todo : List Bytes)
    (closing : Bytes) : Prop :=
  ∃ items, s.stream = opening cfg sawBegin ++ (recordBytes cfg items ++ closing) ∧
    ∀ k x, contents cfg.seed.host s.seed.db k = some x →
      k.1 ∈ todo ∨ Carried items k x.stamp ∨ OnItsWay cfg s k x.stamp

/-- What is known while the joiner waits for the snapshot. -/
def Stage (cfg : JoinConfig) (s : JoinState) (sawBegin : Bool) : Prop :=
  match s.sender with
  | .off => False
  | .requested => sawBegin = false ∧ s.stream = []
  | .begun => s.stream = opening cfg sawBegin
  | .reading todo => Transferring cfg s sawBegin todo []
  | .ended => Transferring cfg s sawBegin [] (controlFrame cfg.seed .clusterSyncEnd [])

/-- The same, and what is known once it has the snapshot. -/
def Session (cfg : JoinConfig) (s : JoinState) : Prop :=
  match s.client with
  | .idle => True
  | .waiting sawBegin => (sawBegin = true → Accepts cfg) ∧ Stage cfg s sawBegin
  | .returned rc => rc = 0 → Accepts cfg ∧
      ∀ k x, contents cfg.seed.host s.seed.db k = some x → OnItsWay cfg s k x.stamp

structure JoinInv (cfg : JoinConfig) (s : JoinState) : Prop where
  seed : Ledger cfg.seed.host cfg.seed.myNodeId (fun _ _ => True) s.seed
  joiner : Ledger cfg.joiner.host cfg.joiner.myNodeId (fun _ _ => True) s.joiner
  announced : ∀ cmd ∈ s.queue ++ s.outbox,
    ∃ k r, cmd = announce k r ∧ r.nodeId = cfg.seed.myNodeId
  greeted : s.client ≠ .idle → s.greeted = true
  session : Session cfg s

/-! ## Steps lose nothing -/

/-- No record of the seed appears unannounced, and none on its way is lost. -/
structure Keeps (cfg : JoinConfig) (s s' : JoinState) : Prop where
  held : ∀ k x, contents cfg.seed.host s'.seed.db k = some x →
    contents cfg.seed.host s.seed.db k = some x ∨ OnItsWay cfg s' k x.stamp
  onItsWay : ∀ k t, OnItsWay cfg s k t → OnItsWay cfg s' k t

variable {cfg : JoinConfig} {s s' : JoinState}

theorem Covers.mono (hext : Extends cfg.joiner.host s.joiner s'.joiner) {k : Key} {t : Stamp}
    (h : Covers cfg s k t) : Covers cfg s' k t := by
  obtain ⟨y, hy, hle⟩ := h
  obtain ⟨z, hz, hle'⟩ := hext.contents k y hy
  exact ⟨z, hz, hle.trans hle'⟩

theorem mem_or_mem_eraseIdx {α : Type*} {l : List α} {n : ℕ} {a b : α} (ha : l[n]? = some a)
    (hb : b ∈ l) : b = a ∨ b ∈ l.eraseIdx n := by
  obtain ⟨hn, rfl⟩ := List.getElem?_eq_some_iff.mp ha
  exact List.mem_cons.mp ((List.getElem_cons_eraseIdx_perm hn).mem_iff.mpr hb)

/-- `broadcast_sync` does not pass the joiner over. -/
theorem listed_broadcastSync {peers : List Peer} (h : Listed cfg peers) (k : Key) (r : Record) :
    Listed cfg (broadcastSync cfg.seed peers (announce k r)) := by
  obtain ⟨p, hp, haddr, hport, hid⟩ := h
  have hvalue := r.length_value_le
  have hle := k.2.2
  have hkey : 0 < k.1.length := List.length_pos_iff.mpr k.2.1
  refine ⟨p, ?_, haddr, hport, hid⟩
  unfold broadcastSync
  rw [if_neg (by simp only [announce]; omega), List.mem_filter]
  exact ⟨hp, by simp [hid, cfg.nodeId_ne]⟩

/-- A message of the seed is taken and applied. -/
theorem joinStep_deliver {n : ℕ} {k : Key} {r : Record} (hcmd : s.outbox[n]? = some (announce k r))
    (hid : r.nodeId ≠ 0) :
    joinStep cfg s (.deliver n) =
      { s with
        outbox := s.outbox.eraseIdx n
        joiner :=
          if authenticateClusterFrame cfg.joiner.clusterName
              (recordFrame cfg.seed.clusterName k r).frame then
            (s.joiner.perform cfg.joiner.host cfg.joiner.myNodeId
              (syncCall Bdb.ok (recordFrame cfg.seed.clusterName k r))).2
          else s.joiner } := by
  simp only [joinStep, hcmd, syncFrame_announce, receive_recordFrame Bdb.ok _ _ k hid]

namespace Keeps

/-- A step that leaves the seed's store alone and no command out. -/
theorem of_extends (hseed : s'.seed = s.seed)
    (hext : Extends cfg.joiner.host s.joiner s'.joiner)
    (hcmds : s.queue ++ s.outbox ⊆ s'.queue ++ s'.outbox) : Keeps cfg s s' where
  held := fun k x hx => Or.inl (hseed ▸ hx)
  onItsWay := by
    intro k t h haccepts
    rcases h haccepts with hcovers | howed | ⟨cmd, hcmd, ha⟩
    · exact Or.inl (hcovers.mono hext)
    · exact Or.inr (Or.inl (hseed ▸ howed))
    · exact Or.inr (Or.inr ⟨cmd, hcmds hcmd, ha⟩)

/-- Nothing but the snapshot and the table is touched. -/
theorem of_eq (hseed : s'.seed = s.seed) (hjoiner : s'.joiner = s.joiner)
    (hqueue : s'.queue = s.queue) (houtbox : s'.outbox = s.outbox) : Keeps cfg s s' :=
  of_extends hseed (Extends.of_db_eq (by rw [hjoiner]; exact List.Subset.refl _) (by rw [hjoiner]))
    (by rw [hqueue, houtbox]; exact List.Subset.refl _)

/-- A thread of the seed makes a step. -/
theorem of_progress {seed : Node.State} {new : List Broadcast}
    (h : Progress cfg.seed.host cfg.seed.myNodeId s.seed new seed) :
    Keeps cfg s { s with seed := seed, queue := s.queue ++ new.map Broadcast.cmd } where
  held := fun k x hx => (h.held k x hx).imp_right fun howed _ => Or.inr (Or.inl howed)
  onItsWay := by
    intro k t hway haccepts
    rcases hway haccepts with hcovers | howed | ⟨cmd, hcmd, ha⟩
    · exact Or.inl hcovers
    · rcases h.owed k t howed with howed | ⟨b, hb, ha⟩
      · exact Or.inr (Or.inl howed)
      · refine Or.inr (Or.inr ⟨b.cmd, ?_, ha⟩)
        exact List.mem_append_left _ (List.mem_append_right _ (List.mem_map_of_mem hb))
    · refine Or.inr (Or.inr ⟨cmd, ?_, ha⟩)
      rcases List.mem_append.mp hcmd with hcmd | hcmd
      · exact List.mem_append_left _ (List.mem_append_left _ hcmd)
      · exact List.mem_append_right _ hcmd

/-- The joiner is in the table, so its outbox gets what is broadcast. -/
theorem broadcast (h : JoinInv cfg s) (hlisted : Listed cfg s.peers) {n : ℕ} {cmd : ControlCmd}
    (hcmd : s.queue[n]? = some cmd) : Keeps cfg s (joinStep cfg s (.broadcast n)) := by
  obtain ⟨k, r, rfl, -⟩ := h.announced cmd (List.mem_append_left _ (List.mem_of_getElem? hcmd))
  have hgets := listed_broadcastSync hlisted k r
  simp only [joinStep, hcmd, if_pos hgets]
  refine of_extends rfl (Extends.of_db_eq (List.Subset.refl _) rfl) ?_
  intro cmd' hcmd'
  rcases List.mem_append.mp hcmd' with hcmd' | hcmd'
  · rcases mem_or_mem_eraseIdx hcmd hcmd' with rfl | hcmd'
    · exact List.mem_append_right _ (List.mem_append_right _ (List.mem_singleton_self _))
    · exact List.mem_append_left _ hcmd'
  · exact List.mem_append_right _ (List.mem_append_left _ hcmd')

/-- A message is delivered: the joiner has then what it announces. -/
theorem deliver (h : JoinInv cfg s) {n : ℕ} {k : Key} {r : Record}
    (hcmd : s.outbox[n]? = some (announce k r)) (hid : r.nodeId ≠ 0) :
    Keeps cfg s (joinStep cfg s (.deliver n)) := by
  have hreq : (syncCall Bdb.ok (recordFrame cfg.seed.clusterName k r)).request
      cfg.joiner.myNodeId = some (k, r) := request_syncCall Bdb.ok cfg.seed.clusterName k r
  have hok : (syncCall Bdb.ok (recordFrame cfg.seed.clusterName k r)).bdb.succeeds = true := rfl
  rw [joinStep_deliver hcmd hid]
  refine ⟨fun _ _ hx => Or.inl hx, fun k' t hway haccepts => ?_⟩
  have hpass : authenticateClusterFrame cfg.joiner.clusterName
      (recordFrame cfg.seed.clusterName k r).frame = true := haccepts _ rfl
  have hext : Extends cfg.joiner.host s.joiner (s.joiner.perform cfg.joiner.host
      cfg.joiner.myNodeId (syncCall Bdb.ok (recordFrame cfg.seed.clusterName k r))).2 :=
    Extends.perform h.joiner _
  simp only [if_pos hpass]
  rcases hway haccepts with hcovers | howed | ⟨cmd, hmem, ha⟩
  · exact Or.inl (hcovers.mono hext)
  · exact Or.inr (Or.inl howed)
  · rcases List.mem_append.mp hmem with hmem | hmem
    · exact Or.inr (Or.inr ⟨cmd, List.mem_append_left _ hmem, ha⟩)
    · rcases mem_or_mem_eraseIdx hcmd hmem with rfl | hmem
      · obtain ⟨r', heq, -, hle⟩ := ha
        obtain ⟨rfl, rfl⟩ := announce_injective heq
        obtain ⟨y, hy, hle'⟩ := h.joiner.covers_perform hreq hok
        exact Or.inl ⟨y, hy, hle.trans hle'⟩
      · exact Or.inr (Or.inr ⟨cmd, List.mem_append_right _ hmem, ha⟩)

end Keeps

/-! ## The snapshot goes on -/

/-- What was accounted for otherwise, or on its way, still is. -/
theorem Keeps.accounted (hkeeps : Keeps cfg s s') {known : Key → Record → Prop}
    (h : ∀ k x, contents cfg.seed.host s.seed.db k = some x →
      known k x ∨ OnItsWay cfg s k x.stamp)
    (k : Key) (x : Record) (hx : contents cfg.seed.host s'.seed.db k = some x) :
    known k x ∨ OnItsWay cfg s' k x.stamp := by
  rcases hkeeps.held k x hx with hx | hway
  · exact (h k x hx).imp_right (hkeeps.onItsWay k x.stamp)
  · exact Or.inr hway

theorem Transferring.mono (hkeeps : Keeps cfg s s') (hstream : s'.stream = s.stream)
    {sawBegin : Bool} {todo : List Bytes} {closing : Bytes}
    (h : Transferring cfg s sawBegin todo closing) :
    Transferring cfg s' sawBegin todo closing := by
  obtain ⟨items, hitems, hheld⟩ := h
  simp only [← or_assoc] at hheld
  refine ⟨items, hstream.trans hitems, ?_⟩
  simp only [← or_assoc]
  exact hkeeps.accounted hheld

theorem Stage.mono (hkeeps : Keeps cfg s s') (hsender : s'.sender = s.sender)
    (hstream : s'.stream = s.stream) {sawBegin : Bool} (h : Stage cfg s sawBegin) :
    Stage cfg s' sawBegin := by
  unfold Stage at h ⊢
  rw [hsender]
  cases hcase : s.sender with
  | off =>
      rw [hcase] at h
      exact h
  | requested =>
      rw [hcase] at h
      exact ⟨h.1, hstream.trans h.2⟩
  | begun =>
      rw [hcase] at h
      exact hstream.trans h
  | reading todo =>
      rw [hcase] at h
      exact h.mono hkeeps hstream
  | ended =>
      rw [hcase] at h
      exact h.mono hkeeps hstream

/-- A step that leaves the joiner where it stands in `request_snapshot`. -/
theorem Session.of_stage (h : Session cfg s) (hkeeps : s.client ≠ .idle → Keeps cfg s s')
    (hclient : s'.client = s.client)
    (hstage : Keeps cfg s s' → ∀ sawBegin, Stage cfg s sawBegin → Stage cfg s' sawBegin) :
    Session cfg s' := by
  unfold Session at h ⊢
  rw [hclient]
  cases hcase : s.client with
  | idle => trivial
  | waiting sawBegin =>
      rw [hcase] at h
      exact ⟨h.1, hstage (hkeeps (by rw [hcase]; simp)) sawBegin h.2⟩
  | returned rc =>
      rw [hcase] at h
      intro hrc
      obtain ⟨haccepts, hall⟩ := h hrc
      have hkeeps := hkeeps (by rw [hcase]; simp)
      refine ⟨haccepts, fun k x hx => ?_⟩
      rcases hkeeps.held k x hx with hx | hway
      · exact hkeeps.onItsWay k x.stamp (hall k x hx)
      · exact hway

/-- A step that does not touch the snapshot. -/
theorem Session.of_keeps (h : Session cfg s) (hkeeps : s.client ≠ .idle → Keeps cfg s s')
    (hclient : s'.client = s.client) (hsender : s'.sender = s.sender)
    (hstream : s'.stream = s.stream) : Session cfg s' :=
  h.of_stage hkeeps hclient fun hkeeps _ hstage => hstage.mono hkeeps hsender hstream

/-- The first frame is sent. -/
theorem Stage.begin (hsender : s.sender = .requested) {sawBegin : Bool}
    (h : Stage cfg s sawBegin) :
    Stage cfg { s with
      sender := .begun, stream := s.stream ++ controlFrame cfg.seed .clusterSyncBegin [] }
      sawBegin := by
  unfold Stage at h ⊢
  rw [hsender] at h
  obtain ⟨rfl, hstream⟩ := h
  simp only [hstream]
  rfl

/-- When the cursor is opened everything is still to be visited. -/
theorem Stage.openCursor (hwf : WellFormed cfg.seed.host s.seed.db) (hsender : s.sender = .begun)
    {sawBegin : Bool} (h : Stage cfg s sawBegin) :
    Stage cfg { s with sender := .reading (s.seed.db.entries.map Prod.fst) } sawBegin := by
  unfold Stage at h ⊢
  rw [hsender] at h
  refine ⟨[], h.trans (List.append_nil _).symm, fun k x hx => Or.inl ?_⟩
  have hget : s.seed.db.get? k.1 = some (x.blob cfg.seed.host) := by
    rw [hwf.get?_eq k, hx]
    rfl
  exact List.mem_map_of_mem (s.seed.db.get?_eq_some_iff_mem.mp hget)

theorem visit_blob (cfg : JoinConfig) (s : JoinState) (todo : List Bytes) (k : Key) (r : Record) :
    s.visit cfg todo k.1 (r.blob cfg.seed.host) =
      { s with
        sender := .reading (todo.filter (· ≠ k.1))
        stream := s.stream ++ itemBytes cfg.seed (r.toDbRecord k) } := by
  have hvalid : ¬ (!entryIsValid cfg.seed.host (r.blob cfg.seed.host) || k.1.length == 0 ||
      decide (k.1.length > maxKeyLen)) = true := by
    simp [k.2.1, k.2.2]
  unfold JoinState.visit
  rw [if_neg hvalid]
  simp [snapshotRecord_blob, sendSnapshotItem_eq]

/-- The key visited has been sent with its record. -/
theorem Stage.visit {todo : List Bytes} (hsender : s.sender = .reading todo) {k : Key} {r : Record}
    (hr : contents cfg.seed.host s.seed.db k = some r) {sawBegin : Bool}
    (h : Stage cfg s sawBegin) :
    Stage cfg (s.visit cfg todo k.1 (r.blob cfg.seed.host)) sawBegin := by
  rw [visit_blob]
  unfold Stage at h ⊢
  rw [hsender] at h
  obtain ⟨items, hstream, hheld⟩ := h
  refine ⟨items ++ [(k, r)], ?_, fun k' x hx => ?_⟩
  · simp [hstream, recordBytes]
  · rcases hheld k' x hx with htodo | ⟨r', hmem, hle⟩ | hway
    · by_cases hk : k' = k
      · subst hk
        obtain rfl : r = x := Option.some.inj (hr.symm.trans hx)
        exact Or.inr (Or.inl ⟨r, List.mem_append_right _ (List.mem_singleton_self _), le_rfl⟩)
      · refine Or.inl (List.mem_filter.mpr ⟨htodo, ?_⟩)
        simpa using fun heq => hk (Subtype.ext heq)
    · exact Or.inr (Or.inl ⟨r', List.mem_append_left _ hmem, hle⟩)
    · exact Or.inr (Or.inr hway)

/-- The cursor has visited all it had to. -/
theorem Stage.finish (hsender : s.sender = .reading []) {sawBegin : Bool}
    (h : Stage cfg s sawBegin) :
    Stage cfg { s with
      sender := .ended, stream := s.stream ++ controlFrame cfg.seed .clusterSyncEnd [] }
      sawBegin := by
  unfold Stage at h ⊢
  rw [hsender] at h
  obtain ⟨items, hstream, hheld⟩ := h
  exact ⟨items, by simp [hstream], hheld⟩

/-! ## The joiner reads a frame -/

theorem recv_nil : clusterRecvFrame true [] = none := by decide

/-- What the joiner reads while records are to come: the first frame, a record,
or what comes after the records. -/
theorem Transferring.recv {sawBegin : Bool} {todo : List Bytes} {closing : Bytes}
    (h : Transferring cfg s sawBegin todo closing) {r : Received} {rest : Bytes}
    (hrecv : clusterRecvFrame true s.stream = some (r, rest)) :
    (sawBegin = false ∧ r.frame.opcode = Opcode.clusterSyncBegin.code ∧
        r.frame.clusterId = clusterId cfg.seed.clusterName ∧
        Transferring cfg { s with stream := rest } true todo closing) ∨
      (sawBegin = true ∧ ∃ k x, r = recordFrame cfg.seed.clusterName k x ∧
        ∀ s', Keeps cfg s s' → s'.stream = rest → Covers cfg s' k x.stamp →
          Transferring cfg s' true todo closing) ∨
      (sawBegin = true ∧ s.stream = closing ∧
        ∀ k x, contents cfg.seed.host s.seed.db k = some x →
          k.1 ∈ todo ∨ OnItsWay cfg s k x.stamp) := by
  obtain ⟨items, hstream, hheld⟩ := h
  cases sawBegin with
  | false =>
      rw [hstream, opening, if_neg (by decide),
        clusterRecvFrame_control cfg.seed .clusterSyncBegin length_nil_le] at hrecv
      obtain ⟨rfl, rfl⟩ := Prod.mk.inj (Option.some.inj hrecv)
      exact Or.inl ⟨rfl, rfl, rfl, items, rfl, hheld⟩
  | true =>
      rw [opening, if_pos rfl, List.nil_append] at hstream
      cases items with
      | nil =>
          refine Or.inr (Or.inr ⟨rfl, hstream, fun k x hx => ?_⟩)
          rcases hheld k x hx with htodo | ⟨r', hmem, -⟩ | hway
          · exact Or.inl htodo
          · exact absurd hmem List.not_mem_nil
          · exact Or.inr hway
      | cons item items =>
          obtain ⟨k, x⟩ := item
          rw [hstream, recordBytes, List.map_cons, List.flatten_cons, List.append_assoc,
            recv_itemBytes] at hrecv
          obtain ⟨rfl, rfl⟩ := Prod.mk.inj (Option.some.inj hrecv)
          refine Or.inr (Or.inl ⟨rfl, k, x, rfl, fun s' hkeeps hrest hcovers => ?_⟩)
          refine ⟨items, hrest, fun k' x' hx' => ?_⟩
          simp only [← or_assoc] at hheld
          rcases hkeeps.accounted hheld k' x' hx' with (htodo | ⟨r', hmem, hle⟩) | hway
          · exact Or.inl htodo
          · -- the record read is the one sent, or it is one of the others
            rcases List.mem_cons.mp hmem with heq | hmem
            · obtain ⟨rfl, rfl⟩ := Prod.mk.inj heq
              obtain ⟨y, hy, hle'⟩ := hcovers
              exact Or.inr (Or.inr fun _ => Or.inl ⟨y, hy, hle.trans hle'⟩)
            · exact Or.inr (Or.inl ⟨r', hmem, hle⟩)
          · exact Or.inr (Or.inr hway)

/-- The same for the whole of the snapshot. -/
theorem Stage.recv {sawBegin : Bool} (h : Stage cfg s sawBegin) {r : Received} {rest : Bytes}
    (hrecv : clusterRecvFrame true s.stream = some (r, rest)) :
    (sawBegin = false ∧ r.frame.opcode = Opcode.clusterSyncBegin.code ∧
        r.frame.clusterId = clusterId cfg.seed.clusterName ∧
        Stage cfg { s with stream := rest } true) ∨
      (sawBegin = true ∧ ∃ k x, r = recordFrame cfg.seed.clusterName k x ∧
        ∀ s', Keeps cfg s s' → s'.sender = s.sender → s'.stream = rest →
          Covers cfg s' k x.stamp → Stage cfg s' true) ∨
      (sawBegin = true ∧ r.frame.opcode = Opcode.clusterSyncEnd.code ∧
        ∀ k x, contents cfg.seed.host s.seed.db k = some x → OnItsWay cfg s k x.stamp) := by
  unfold Stage at h ⊢
  cases hsender : s.sender with
  | off =>
      rw [hsender] at h
      exact h.elim
  | requested =>
      rw [hsender] at h
      rw [h.2, recv_nil] at hrecv
      simp at hrecv
  | begun =>
      rw [hsender] at h
      cases sawBegin with
      | true =>
          rw [show s.stream = [] from h, recv_nil] at hrecv
          simp at hrecv
      | false =>
          rw [h, opening, if_neg (by decide), ← List.append_nil (controlFrame ..),
            clusterRecvFrame_control cfg.seed .clusterSyncBegin length_nil_le] at hrecv
          obtain ⟨rfl, rfl⟩ := Prod.mk.inj (Option.some.inj hrecv)
          exact Or.inl ⟨rfl, rfl, rfl, rfl⟩
  | reading todo =>
      rw [hsender] at h
      rcases h.recv hrecv with hbegin | ⟨htrue, k, x, rfl, hnext⟩ | ⟨htrue, hstream, -⟩
      · exact Or.inl hbegin
      · refine Or.inr (Or.inl ⟨htrue, k, x, rfl, fun s' hkeeps hsame hrest hcovers => ?_⟩)
        rw [hsame]
        exact hnext s' hkeeps hrest hcovers
      · rw [hstream, recv_nil] at hrecv
        simp at hrecv
  | ended =>
      rw [hsender] at h
      rcases h.recv hrecv with hbegin | ⟨htrue, k, x, rfl, hnext⟩ | ⟨htrue, hstream, hall⟩
      · exact Or.inl hbegin
      · refine Or.inr (Or.inl ⟨htrue, k, x, rfl, fun s' hkeeps hsame hrest hcovers => ?_⟩)
        rw [hsame]
        exact hnext s' hkeeps hrest hcovers
      · rw [hstream, ← List.append_nil (controlFrame ..),
          clusterRecvFrame_control cfg.seed .clusterSyncEnd length_nil_le] at hrecv
        obtain ⟨rfl, rfl⟩ := Prod.mk.inj (Option.some.inj hrecv)
        refine Or.inr (Or.inr ⟨htrue, rfl, fun k x hx => ?_⟩)
        exact (hall k x hx).resolve_left List.not_mem_nil

/-- One frame that passes tells that all do. -/
theorem accepts_of_passes {frame : ClusterFrame}
    (hid : frame.clusterId = clusterId cfg.seed.clusterName)
    (hpass : authenticateClusterFrame cfg.joiner.clusterName frame = true) : Accepts cfg := by
  intro frame' hid'
  have hsame : frame'.clusterId = frame.clusterId := hid'.trans hid.symm
  unfold authenticateClusterFrame checkClusterId at hpass ⊢
  rw [hsame]
  exact hpass

/-- A record of the snapshot reaches the joiner's store. -/
theorem covers_perform_of_ne_error {bdb : Bdb} {node : Node.State}
    {P : Key → Record → Prop} (h : Ledger cfg.joiner.host cfg.joiner.myNodeId P node)
    (name : Bytes) (k : Key) (x : Record)
    (hrc : (node.perform cfg.joiner.host cfg.joiner.myNodeId
      (syncCall bdb (recordFrame name k x))).1 ≠ .error) :
    ∃ y, contents cfg.joiner.host (node.perform cfg.joiner.host cfg.joiner.myNodeId
      (syncCall bdb (recordFrame name k x))).2.db k = some y ∧ x.stamp ≤ y.stamp := by
  rcases applyFrame_recordFrame h.wellFormed bdb name k x with ⟨-, hfail⟩ | ⟨-, -, hcontents⟩
  · exact absurd (congrArg Prod.fst hfail) hrc
  · obtain ⟨y, hy, hle, -⟩ := LastWrite.exists_offer Record.stamp
      (contents cfg.joiner.host node.db k) x
    refine ⟨y, ?_, hle⟩
    rw [(perform_frame cfg.joiner.host cfg.joiner.myNodeId node _).1]
    refine (congrFun hcontents k).trans ?_
    rw [LastWrite.offerEach_singleton, Function.update_self, hy]

namespace JoinInv

/-- The joiner fails, and nothing has to hold of it then. -/
theorem failed (h : JoinInv cfg s) (hgreeted : s.greeted = true) {joiner : Node.State}
    (hjoiner : Ledger cfg.joiner.host cfg.joiner.myNodeId (fun _ _ => True) joiner)
    (stream : Bytes) :
    JoinInv cfg { s with joiner := joiner, stream := stream, client := .returned (-1) } :=
  ⟨h.seed, hjoiner, h.announced, fun _ => hgreeted, fun hrc => absurd hrc (by decide)⟩

theorem arrive (h : JoinInv cfg s) {sawBegin : Bool} (hclient : s.client = .waiting sawBegin)
    {r : Received} {rest : Bytes} (hrecv : clusterRecvFrame true s.stream = some (r, rest))
    (bdb : Bdb) : JoinInv cfg (s.arrive cfg bdb sawBegin r rest) := by
  have hbegin' : Opcode.sync.code ≠ Opcode.clusterSyncBegin.code := by decide
  have hend' : Opcode.sync.code ≠ Opcode.clusterSyncEnd.code := by decide
  have hgreeted : s.greeted = true := h.greeted (by rw [hclient]; simp)
  have hsession := h.session
  unfold Session at hsession
  rw [hclient] at hsession
  obtain ⟨haccepts, hstage⟩ := hsession
  unfold JoinState.arrive
  rcases snapshotAction_cases cfg.joiner sawBegin r with
    haction | ⟨haction, hpass, hop⟩ | ⟨haction, -, hop, hbegin⟩ | ⟨haction, -, hop, hbegin⟩
  · rw [haction]
    exact h.failed hgreeted h.joiner rest
  · rw [haction]
    rcases hstage.recv hrecv with ⟨-, -, hid, hnext⟩ | ⟨-, k, x, rfl, -⟩ | ⟨-, hend, -⟩
    · exact ⟨h.seed, h.joiner, h.announced, fun _ => hgreeted,
        fun _ => accepts_of_passes hid hpass, hnext⟩
    · exact absurd hop hbegin'
    · exact absurd (Opcode.code_injective (hend.symm.trans hop)) (by decide)
  · rw [haction]
    rcases hstage.recv hrecv with ⟨hfalse, -⟩ | ⟨-, k, x, rfl, hnext⟩ | ⟨-, hend, -⟩
    · rw [hbegin] at hfalse
      simp at hfalse
    · have hreq : (syncCall bdb (recordFrame cfg.seed.clusterName k x)).request
          cfg.joiner.myNodeId = some (k, x) := request_syncCall bdb cfg.seed.clusterName k x
      have hjoiner := h.joiner.receive_request hreq trivial
      simp only
      split_ifs with hrc
      · exact h.failed hgreeted hjoiner rest
      · refine ⟨h.seed, hjoiner, h.announced, fun _ => hgreeted, ?_⟩
        unfold Session
        simp only [hclient, hbegin]
        have hext : Extends cfg.joiner.host s.joiner (s.joiner.perform cfg.joiner.host
            cfg.joiner.myNodeId (syncCall bdb (recordFrame cfg.seed.clusterName k x))).2 :=
          Extends.perform h.joiner _
        refine ⟨fun _ => haccepts hbegin, hnext _ ?_ rfl rfl ?_⟩
        · exact Keeps.of_extends rfl hext (List.Subset.refl _)
        · exact covers_perform_of_ne_error h.joiner cfg.seed.clusterName k x hrc
    · exact absurd (hop.symm.trans hend) hend'
  · rw [haction]
    rcases hstage.recv hrecv with ⟨hfalse, -⟩ | ⟨-, k, x, rfl, -⟩ | ⟨-, -, hall⟩
    · rw [hbegin] at hfalse
      simp at hfalse
    · exact absurd hop hend'
    · exact ⟨h.seed, h.joiner, h.announced, fun _ => hgreeted,
        fun _ => ⟨haccepts hbegin, hall⟩⟩

/-! ## Every step keeps the invariant -/

theorem init {seedDb joinerDb : Database} (hseed : WellFormed cfg.seed.host seedDb)
    (hjoiner : WellFormed cfg.joiner.host joinerDb) (peers : List Peer) :
    JoinInv cfg (.init seedDb joinerDb peers) where
  seed := Ledger.initOn hseed
  joiner := Ledger.initOn hjoiner
  announced := by simp [JoinState.init]
  greeted := fun hne => absurd rfl hne
  session := trivial

/-- A step that touches neither node nor what is announced. -/
theorem of_session (h : JoinInv cfg s) (hseed : s'.seed = s.seed) (hjoiner : s'.joiner = s.joiner)
    (hcmds : s'.queue ++ s'.outbox ⊆ s.queue ++ s.outbox)
    (hgreeted : s'.client ≠ .idle → s'.greeted = true) (hsession : Session cfg s') :
    JoinInv cfg s' where
  seed := by rw [hseed]; exact h.seed
  joiner := by rw [hjoiner]; exact h.joiner
  announced := fun cmd hcmd => h.announced cmd (hcmds hcmd)
  greeted := hgreeted
  session := hsession

/-- A step of the sender of the snapshot. -/
theorem of_stage (h : JoinInv cfg s) {sender : SnapshotSender} {stream : Bytes}
    (hstage : ∀ sawBegin, Stage cfg s sawBegin →
      Stage cfg { s with sender := sender, stream := stream } sawBegin) :
    JoinInv cfg { s with sender := sender, stream := stream } :=
  h.of_session rfl rfl (List.Subset.refl _) h.greeted
    (h.session.of_stage (fun _ => Keeps.of_eq rfl rfl rfl rfl) rfl fun _ => hstage)

theorem seedStep (h : JoinInv cfg s) (e : Node.Event) : JoinInv cfg (joinStep cfg s (.seed e)) := by
  obtain ⟨new, hprogress⟩ := Progress.step h.seed e
  have hledger := h.seed.step e
  have hnew : (Node.step cfg.seed.host cfg.seed.myNodeId Bdb.ok s.seed e).broadcasts.drop
      s.seed.broadcasts.length = new := by
    rw [hprogress.broadcasts, List.drop_left]
  have hkeeps := Keeps.of_progress hprogress
  simp only [joinStep, hnew]
  refine ⟨hledger, h.joiner, fun cmd hcmd => ?_, h.greeted,
    h.session.of_keeps (fun _ => hkeeps) rfl rfl rfl⟩
  rcases List.mem_append.mp hcmd with hcmd | hcmd
  · rcases List.mem_append.mp hcmd with hcmd | hcmd
    · exact h.announced cmd (List.mem_append_left _ hcmd)
    · obtain ⟨b, hb, rfl⟩ := List.mem_map.mp hcmd
      refine (hledger.sent b ?_).announces
      rw [hprogress.broadcasts]
      exact List.mem_append_right _ hb
  · exact h.announced cmd (List.mem_append_right _ hcmd)

theorem broadcastStep (h : JoinInv cfg s) (hlisted : s.greeted = true → Listed cfg s.peers)
    (n : ℕ) : JoinInv cfg (joinStep cfg s (.broadcast n)) := by
  cases hcmd : s.queue[n]? with
  | none =>
      simp only [joinStep, hcmd]
      exact h
  | some cmd =>
      have hsession : Session cfg (joinStep cfg s (.broadcast n)) := by
        refine h.session.of_keeps (fun hne => Keeps.broadcast h (hlisted (h.greeted hne)) hcmd)
          ?_ ?_ ?_ <;> simp only [joinStep, hcmd]
      refine h.of_session (by simp only [joinStep, hcmd]) (by simp only [joinStep, hcmd]) ?_
        (by simpa only [joinStep, hcmd] using h.greeted) hsession
      have hmem : cmd ∈ s.queue := List.mem_of_getElem? hcmd
      simp only [joinStep, hcmd]
      intro cmd' hcmd'
      rcases List.mem_append.mp hcmd' with hcmd' | hcmd'
      · exact List.mem_append_left _ (List.mem_of_mem_eraseIdx hcmd')
      · split_ifs at hcmd'
        · rcases List.mem_append.mp hcmd' with hcmd' | hcmd'
          · exact List.mem_append_right _ hcmd'
          · rw [List.mem_singleton.mp hcmd']
            exact List.mem_append_left _ hmem
        · exact List.mem_append_right _ hcmd'

theorem deliverStep (h : JoinInv cfg s) (n : ℕ) : JoinInv cfg (joinStep cfg s (.deliver n)) := by
  cases hcmd : s.outbox[n]? with
  | none =>
      simp only [joinStep, hcmd]
      exact h
  | some cmd =>
      obtain ⟨k, r, rfl, hid⟩ :=
        h.announced cmd (List.mem_append_right _ (List.mem_of_getElem? hcmd))
      have hid : r.nodeId ≠ 0 := by
        rw [hid]
        exact cfg.seedId_ne_zero
      have hkeeps := Keeps.deliver h hcmd hid
      rw [joinStep_deliver hcmd hid] at hkeeps ⊢
      refine ⟨h.seed, ?_, fun cmd' hcmd' => ?_, h.greeted,
        h.session.of_keeps (fun _ => hkeeps) rfl rfl rfl⟩
      · simp only
        split_ifs
        · exact h.joiner.receive_request (request_syncCall Bdb.ok cfg.seed.clusterName k r) trivial
        · exact h.joiner
      · rcases List.mem_append.mp hcmd' with hcmd' | hcmd'
        · exact h.announced cmd' (List.mem_append_left _ hcmd')
        · exact h.announced cmd' (List.mem_append_right _ (List.mem_of_mem_eraseIdx hcmd'))

theorem helloStep (h : JoinInv cfg s) (allocOk : Bool) (now : Int) :
    JoinInv cfg (joinStep cfg s (.hello allocOk now)) := by
  simp only [joinStep]
  split_ifs
  · exact h
  · refine h.of_session rfl rfl (List.Subset.refl _) (fun hne => ?_)
      (h.session.of_keeps (fun _ => Keeps.of_eq rfl rfl rfl rfl) rfl rfl rfl)
    simp only [h.greeted hne, Bool.true_or]

theorem tableStep (h : JoinInv cfg s) {peers : List Peer}
    (hlisted : s.greeted = true → Listed cfg peers) :
    JoinInv cfg (joinStep cfg s (.table peers)) := by
  have hkeeps : s.client ≠ .idle → Keeps cfg s (joinStep cfg s (.table peers)) := by
    intro hne
    exact Keeps.of_eq rfl rfl rfl (if_pos (hlisted (h.greeted hne)))
  refine h.of_session rfl rfl ?_ h.greeted (h.session.of_keeps hkeeps rfl rfl rfl)
  intro cmd hcmd
  simp only [joinStep] at hcmd
  split_ifs at hcmd
  · exact hcmd
  · rw [List.append_nil] at hcmd
    exact List.mem_append_left _ hcmd

theorem visitStep (h : JoinInv cfg s) (key : Bytes) :
    JoinInv cfg (joinStep cfg s (.visit key)) := by
  simp only [joinStep]
  cases hsender : s.sender with
  | reading todo =>
      cases hget : s.seed.db.get? key with
      | none => exact h
      | some data =>
          obtain ⟨hkey, r, rfl⟩ := h.seed.wellFormed key data hget
          have hr : contents cfg.seed.host s.seed.db ⟨key, hkey⟩ = some r := by
            simp [contents, hget]
          have hvisit := visit_blob cfg s todo ⟨key, hkey⟩ r
          have hnext := fun sawBegin (hstage : Stage cfg s sawBegin) =>
            hstage.visit hsender hr
          simp only [hvisit] at hnext ⊢
          exact h.of_stage hnext
  | _ => exact h

theorem step (h : JoinInv cfg s) (e : JoinEvent)
    (hlisted : (joinStep cfg s e).greeted = true → Listed cfg (joinStep cfg s e).peers) :
    JoinInv cfg (joinStep cfg s e) := by
  cases e with
  | seed e => exact h.seedStep e
  | hello allocOk now => exact h.helloStep allocOk now
  | table peers => exact h.tableStep hlisted
  | broadcast n =>
      refine h.broadcastStep (fun hgreeted => ?_) n
      cases hcmd : s.queue[n]? with
      | none => simpa only [joinStep, hcmd] using hlisted (by simpa only [joinStep, hcmd])
      | some cmd => simpa only [joinStep, hcmd] using hlisted (by simpa only [joinStep, hcmd])
  | deliver n => exact h.deliverStep n
  | request =>
      simp only [joinStep]
      split_ifs with hmay
      · rw [Bool.and_eq_true] at hmay
        exact h.of_session rfl rfl (List.Subset.refl _) (fun _ => hmay.1)
          ⟨by simp, rfl, rfl⟩
      · exact h
  | begin =>
      simp only [joinStep]
      cases hsender : s.sender with
      | requested => exact h.of_stage fun _ hstage => hstage.begin hsender
      | _ => exact h
  | openCursor =>
      simp only [joinStep]
      cases hsender : s.sender with
      | begun => exact h.of_stage fun _ hstage => hstage.openCursor h.seed.wellFormed hsender
      | _ => exact h
  | visit key => exact h.visitStep key
  | finish =>
      simp only [joinStep]
      cases hsender : s.sender with
      | reading todo =>
          cases todo with
          | nil => exact h.of_stage fun _ hstage => hstage.finish hsender
          | cons key todo => exact h
      | _ => exact h
  | arrive bdb =>
      simp only [joinStep]
      cases hclient : s.client with
      | waiting sawBegin =>
          cases hrecv : clusterRecvFrame true s.stream with
          | none => exact h
          | some p => exact h.arrive hclient hrecv bdb
      | _ => exact h
  | giveUp =>
      simp only [joinStep]
      cases hclient : s.client with
      | waiting sawBegin => exact h.failed (h.greeted (by rw [hclient]; simp)) h.joiner s.stream
      | _ => exact h
  | joiner e =>
      have hkeeps : Keeps cfg s (joinStep cfg s (.joiner e)) :=
        Keeps.of_extends rfl (Extends.step h.joiner e) (List.Subset.refl _)
      exact ⟨h.seed, h.joiner.step e, h.announced, h.greeted,
        h.session.of_keeps (fun _ => hkeeps) rfl rfl rfl⟩

theorem run (h : JoinInv cfg s) {events : List JoinEvent} (hstays : StaysListed cfg s events) :
    JoinInv cfg (joinRun cfg s events) := by
  induction events generalizing s with
  | nil => exact h
  | cons e events ih => exact ih (h.step e hstays.1) hstays.2

end JoinInv

/-! ## Nothing is lost -/

/-- **No update is lost while a node joins.**  Whatever the seed's clients and its
collector write in the course of it, and however the snapshot, the broadcasts and
the deliveries interleave with this: once the joiner's `request_snapshot` has
returned `0` and everything announced has been delivered, its stamp under every
key is at least the seed's, or some thread of the seed has made a write with that
stamp and has yet to pass it to `enqueue_broadcast`. -/
theorem joiner_covers (cfg : JoinConfig) {seedDb joinerDb : Database}
    (hseed : WellFormed cfg.seed.host seedDb) (hjoiner : WellFormed cfg.joiner.host joinerDb)
    (peers : List Peer) (events : List JoinEvent)
    (hstays : StaysListed cfg (.init seedDb joinerDb peers) events)
    (hdrained : Drained (joinRun cfg (.init seedDb joinerDb peers) events)) (k : Key) (x : Record)
    (hx : contents cfg.seed.host (joinRun cfg (.init seedDb joinerDb peers) events).seed.db k =
      some x) :
    Covers cfg (joinRun cfg (.init seedDb joinerDb peers) events) k x.stamp ∨
      ∃ w r, ((joinRun cfg (.init seedDb joinerDb peers) events).seed.tasks w).owes
        cfg.seed.myNodeId = some (k.1, r) ∧ r.stamp = x.stamp := by
  have h : JoinInv cfg (joinRun cfg (.init seedDb joinerDb peers) events) :=
    (JoinInv.init hseed hjoiner peers).run hstays
  obtain ⟨hreturned, hqueue, houtbox⟩ := hdrained
  have hsession := h.session
  unfold Session at hsession
  rw [hreturned] at hsession
  obtain ⟨haccepts, hall⟩ := hsession rfl
  rcases hall k x hx haccepts with hcovers | howed | ⟨cmd, hcmd, -⟩
  · exact Or.inl hcovers
  · exact Or.inr (h.seed.stamp_of_owed hx howed)
  · rw [hqueue, houtbox] at hcmd
    simp at hcmd

/-- Two nodes on one host that share a secret. -/
def joinPair : JoinConfig where
  seed := configuredNode .little 1 ⟨none, 7001, none, 0, none, some ⟨[115], by decide⟩⟩
  joiner := configuredNode .little 2 ⟨none, 7002, none, 0, none, some ⟨[115], by decide⟩⟩
  valid := valid_configuredNode _ _ _
  seedId_ne_zero := by decide
  nodeId_ne := by decide

instance decidableStaysListed (cfg : JoinConfig) :
    (s : JoinState) → (events : List JoinEvent) → Decidable (StaysListed cfg s events)
  | _, [] => isTrue trivial
  | s, e :: events =>
      have := decidableStaysListed cfg (joinStep cfg s e) events
      inferInstanceAs (Decidable (_ ∧ _))

instance decidableDrained (s : JoinState) : Decidable (Drained s) :=
  inferInstanceAs (Decidable (_ ∧ _ ∧ _))

/-- The seed has one key when the joiner comes, and another is set while the cursor
is open. -/
def joinEvents : List JoinEvent :=
  [.seed (.set 0 [97] [1]), .seed (.advance 0 10), .seed (.advance 0 10), .seed (.advance 0 10),
    .seed (.advance 0 10), .broadcast 0, .hello true 0, .request, .begin, .openCursor,
    .seed (.set 0 [98] [2]), .seed (.advance 0 20), .seed (.advance 0 20), .seed (.advance 0 20),
    .seed (.advance 0 20), .visit [97], .finish, .broadcast 0, .arrive Bdb.ok, .arrive Bdb.ok,
    .arrive Bdb.ok, .deliver 0]

/-- The second key is not in the snapshot. -/
theorem joiner_covers_pair :
    let k : Key := ⟨[98], by decide⟩
    let x : Record := ⟨20, 1, 20 + ttlDefault, some ⟨[2], by decide⟩⟩
    Drained (joinRun joinPair (.init OrderedMap.empty OrderedMap.empty []) joinEvents) ∧
      contents joinPair.seed.host
          (joinRun joinPair (.init OrderedMap.empty OrderedMap.empty []) joinEvents).seed.db k =
        some x ∧
      (Covers joinPair (joinRun joinPair (.init OrderedMap.empty OrderedMap.empty []) joinEvents) k
          x.stamp ∨
        ∃ w r, ((joinRun joinPair (.init OrderedMap.empty OrderedMap.empty [])
          joinEvents).seed.tasks w).owes joinPair.seed.myNodeId = some (k.1, r) ∧
            r.stamp = x.stamp) := by
  intro k x
  have hx : contents joinPair.seed.host
      (joinRun joinPair (.init OrderedMap.empty OrderedMap.empty []) joinEvents).seed.db k =
        some x := by decide +kernel
  have hdrained : Drained (joinRun joinPair (.init OrderedMap.empty OrderedMap.empty [])
      joinEvents) := by decide +kernel
  exact ⟨hdrained, hx, joiner_covers joinPair wellFormed_empty wellFormed_empty [] joinEvents
    (by decide +kernel) hdrained k x hx⟩

/-- The joiner has its snapshot and everything announced has been delivered, but a
worker of the seed has just applied a SET and not yet announced it. -/
theorem joiner_covers_fails :
    let events : List JoinEvent :=
      [.hello true 0, .request, .begin, .openCursor, .finish, .arrive Bdb.ok, .arrive Bdb.ok,
        .seed (.set 0 [97] [1]), .seed (.advance 0 10), .seed (.advance 0 10),
        .seed (.advance 0 10)]
    let s := joinRun joinPair (.init OrderedMap.empty OrderedMap.empty []) events
    StaysListed joinPair (.init OrderedMap.empty OrderedMap.empty []) events ∧ Drained s ∧
      contents .little s.seed.db ⟨[97], by decide⟩ =
        some ⟨10, 1, 10 + ttlDefault, some ⟨[1], by decide⟩⟩ ∧
      contents .little s.joiner.db ⟨[97], by decide⟩ = none := by
  decide +kernel

end Dmmr.Cluster
