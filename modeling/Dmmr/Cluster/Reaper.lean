import Dmmr.Cluster.Locks

/-!
# Removing idle peers: `peer_reaper_thread`

The reaper takes peers out of the table that have been idle for long, waits for their
sender threads, empties their outboxes and frees them.  It finds an outbox empty under
`outbox_mutex` and gives that lock away before it removes the peer.  What keeps a message
from getting into the outbox in between is the lock of the table: the reaper has it from
the test to the removal, and `broadcast_sync` has it as long as it goes through the table.

The module puts the reaper, any number of calls of `broadcast_sync` and of `add_peer`, and
the sender threads of all peers side by side.  A step is a section under one lock, or what
a thread does between two of them; `peers_mutex` is part of the state, since the sections
under it contain others.
-/

namespace Dmmr.Cluster

open Words Store Wire Node

/-! ## State -/

/-- `struct peer_conn`.  Of the two times of the last activity that in `conn` counts. -/
structure PeerNode where
  peer : Peer
  conn : PeerConn
  active : Bool
  lastHealthcheck : Int

/-- A peer as the reaper sees it. -/
def PeerNode.entry (id : ℕ) (n : PeerNode) : TableEntry :=
  ⟨id, { n.peer with lastActivity := n.conn.lastActivity }, n.active, n.conn.outboxCount,
    n.lastHealthcheck, n.conn.staleCount⟩

/-- Who has locked `peers_mutex`. -/
inductive TableHolder
  | reaper
  | broadcast (w : ℕ)
  deriving DecidableEq

/-- Where the reaper stands.  `now` and `next` are its local variables. -/
inductive ReaperPc
  | sleeping
  | visiting (now : Int) (peer : Option ℕ)
  /-- In `send_hello`. -/
  | greeting (now : Int) (peer : ℕ) (next : Option ℕ)
  /-- The peer has been found idle. -/
  | evicting (now : Int) (peer : ℕ) (next : Option ℕ)
  /-- `active` is false. -/
  | closing (now : Int) (peer : ℕ) (next : Option ℕ)
  /-- The connection is closed. -/
  | removing (now : Int) (peer : ℕ) (next : Option ℕ)
  /-- The peer is no longer in the table, and the table is unlocked. -/
  | joining (now : Int) (peer : ℕ) (next : Option ℕ)
  | draining (now : Int) (peer : ℕ) (next : Option ℕ)
  /-- The peer is freed. -/
  | relocking (now : Int) (next : Option ℕ)

/-- Where a call of `broadcast_sync` stands. -/
inductive BroadcastPc
  | idle
  | visiting (cmd : ControlCmd) (peer : Option ℕ)

/-- The table and the threads.  Peers go by numbers, which stand for their addresses.
`reaped` and `discarded` are history: the peers that the reaper has removed, and the
messages it has found in their outboxes. -/
structure TableState where
  nodes : ℕ → PeerNode
  created : ℕ
  table : List ℕ
  mutex : Option TableHolder
  reaper : ReaperPc
  broadcasts : ℕ → BroadcastPc
  reaped : List ℕ
  discarded : List Queued

/-- Memory that no peer was made in. -/
def PeerNode.blank : PeerNode := ⟨⟨[], 0, 0, false, 0⟩, .init 0, false, 0⟩

def TableState.init : TableState :=
  ⟨fun _ => .blank, 0, [], none, .sleeping, fun _ => .idle, [], []⟩

def TableState.setNode (s : TableState) (id : ℕ) (n : PeerNode) : TableState :=
  { s with nodes := Function.update s.nodes id n }

/-! ## Steps -/

/-- `TAILQ_NEXT`. -/
def tailqNext (peer : ℕ) : List ℕ → Option ℕ
  | [] => none
  | id :: rest => if id = peer then rest.head? else tailqNext peer rest

variable (mac : Mac) (cfg : NodeConfig)

namespace TableState

/-- One step of the reaper; `now` is what `time` returns, and `hello` what becomes of a
greeting. -/
def reaperStep (s : TableState) (now : Int) (hello : HelloEnv) : TableState :=
  match s.reaper with
  | .sleeping =>
      if s.mutex = none then
        { s with mutex := some .reaper, reaper := .visiting now s.table.head? }
      else s
  | .visiting _ none => { s with mutex := none, reaper := .sleeping }
  | .visiting now (some peer) =>
      let next := tailqNext peer s.table
      match reaping cfg now ((s.nodes peer).entry peer) with
      | .skip | .leave => { s with reaper := .visiting now next }
      | .evict => { s with reaper := .evicting now peer next }
      | .healthcheck => { s with reaper := .greeting now peer next }
  | .greeting now peer next =>
      -- `add_peer_internal` waits for the lock that this thread has
      if ∃ e ∈ (sendHelloReply cfg hello).added, e.addCall.Accepted cfg then s
      else
        { s with reaper := .visiting now next }.setNode peer
          { s.nodes peer with lastHealthcheck := now }
  | .evicting now peer next =>
      { s with reaper := .closing now peer next }.setNode peer
        { s.nodes peer with active := false }
  | .closing now peer next =>
      let n := s.nodes peer
      { s with reaper := .removing now peer next }.setNode peer
        { n with conn := { n.conn with connected := false } }
  | .removing now peer next =>
      { s with
        table := s.table.erase peer, mutex := none, reaper := .joining now peer next
        reaped := s.reaped ++ [peer] }
  | .joining now peer next =>
      if (s.nodes peer).conn.pc = .ended then { s with reaper := .draining now peer next } else s
  | .draining now peer next =>
      let n := s.nodes peer
      { s with
        reaper := .relocking now next
        discarded := s.discarded ++ n.conn.outbox }.setNode peer
          { n with conn := { n.conn with outbox := [] } }
  | .relocking now next =>
      if s.mutex = none then { s with mutex := some .reaper, reaper := .visiting now next } else s

/-- The message `broadcast_sync` makes. -/
def syncMsg (cmd : ControlCmd) (time : Int) : OutboxMsg :=
  ⟨Opcode.sync.code, cmd.flags, cmd.key, cmd.value, cmd.ts, cmd.nodeId, cmd.expireAt, time⟩

/-- A call of `broadcast_sync` locks the table. -/
def broadcastBegin (s : TableState) (w : ℕ) (cmd : ControlCmd) : TableState :=
  if cmd.key.length = 0 ∨ cmd.key.length > maxKeyLen ∨ cmd.value.length > maxValueLen then s
  else
    match s.broadcasts w with
    | .idle =>
        if s.mutex = none then
          { s with
            mutex := some (.broadcast w)
            broadcasts := Function.update s.broadcasts w (.visiting cmd s.table.head?) }
        else s
    | .visiting _ _ => s

/-- One turn of the loop in `broadcast_sync`, or its end. -/
def broadcastStep (s : TableState) (w : ℕ) (allocOk : Bool) (time : Int) : TableState :=
  match s.broadcasts w with
  | .idle => s
  | .visiting _ none =>
      { s with mutex := none, broadcasts := Function.update s.broadcasts w .idle }
  | .visiting cmd (some peer) =>
      let n := s.nodes peer
      let s' : TableState :=
        { s with
          broadcasts := Function.update s.broadcasts w
            (.visiting cmd (tailqNext peer s.table)) }
      if n.peer.nodeId ≠ 0 ∧ n.peer.nodeId = cfg.myNodeId then s'
      else if !allocOk then s'
      else s'.setNode peer { n with conn := n.conn.broadcast (syncMsg cmd time) }

/-- `add_peer_internal`. -/
def addPeerInternal (s : TableState) (allocOk : Bool) (now : Int) (addr : Bytes) (port : Int)
    (nodeId : UInt64) (isSeed : Bool) : TableState :=
  if port < 1 ∨ port > 65535 then s
  else
    let port := UInt16.ofNat port.toNat
    if addr.length = 0 ∨ addr.length > peerAddrMax ∨
        endpointIsSelf cfg addr port nodeId = true then s
    else if s.mutex ≠ none then s
    else
      match s.table.find? fun id => (s.nodes id).peer.isEndpoint addr port nodeId with
      | some id =>
          let n := s.nodes id
          s.setNode id
            { n with
              peer := n.peer.update addr port nodeId isSeed now
              conn := { n.conn with lastActivity := now } }
      | none =>
          if allocOk then
            { s with created := s.created + 1, table := s.table ++ [s.created] }.setNode s.created
              ⟨⟨addr, port, nodeId, isSeed, now⟩, .init now, true, 0⟩
          else s

/-- A call of `add_peer` or `add_peer_with_node`. -/
def addPeer (s : TableState) : AddCall → TableState
  | .peer allocOk now addr port => s.addPeerInternal cfg allocOk now addr port 0 true
  | .peerWithNode allocOk now addr port nodeId =>
      s.addPeerInternal cfg allocOk now addr port nodeId false

/-- The sender thread of a peer goes on to its next section. -/
def senderStep (s : TableState) (id : ℕ) (env : SenderEnv) : TableState :=
  let n := s.nodes id
  s.setNode id
    { n with
      conn := threadStep mac cfg { env with active := n.active, waitActive := n.active } n.conn }

end TableState

/-- What can happen next. -/
inductive TableEvent where
  | reaper (now : Int) (hello : HelloEnv)
  | broadcastBegin (w : ℕ) (cmd : ControlCmd)
  | broadcast (w : ℕ) (allocOk : Bool) (time : Int)
  | addPeer (call : AddCall)
  | sender (id : ℕ) (env : SenderEnv)

namespace TableState

def step (s : TableState) : TableEvent → TableState
  | .reaper now hello => s.reaperStep cfg now hello
  | .broadcastBegin w cmd => s.broadcastBegin w cmd
  | .broadcast w allocOk time => s.broadcastStep cfg w allocOk time
  | .addPeer call => s.addPeer cfg call
  | .sender id env => s.senderStep mac cfg id env

def run (events : List TableEvent) : TableState :=
  events.foldl (TableState.step mac cfg) .init

end TableState

/-! ## What a place of the reaper says -/

namespace ReaperPc

/-- The reaper has locked the table. -/
def holds : ReaperPc → Bool
  | visiting .. | greeting .. | evicting .. | closing .. | removing .. => true
  | _ => false

/-- The peer it goes on with. -/
def next : ReaperPc → Option ℕ
  | sleeping => none
  | visiting _ peer => peer
  | greeting _ _ next | evicting _ _ next | closing _ _ next | removing _ _ next
  | joining _ _ next | draining _ _ next | relocking _ next => next

/-- The peer that it is going to remove. -/
def doomed : ReaperPc → Option ℕ
  | evicting _ peer _ | closing _ peer _ | removing _ peer _ => some peer
  | _ => none

/-- The peer that it has removed and not yet freed. -/
def leaving : ReaperPc → Option ℕ
  | joining _ peer _ | draining _ peer _ => some peer
  | _ => none

theorem holds_of_doomed {pc : ReaperPc} {id : ℕ} (h : pc.doomed = some id) : pc.holds = true := by
  cases pc with
  | evicting | closing | removing => rfl
  | _ => exact absurd h nofun

end ReaperPc

section Next

variable {table : List ℕ} {peer id : ℕ}

theorem mem_of_tailqNext (h : tailqNext peer table = some id) : id ∈ table := by
  induction table with
  | nil => exact absurd h nofun
  | cons a rest ih =>
      rw [tailqNext] at h
      split_ifs at h
      · exact List.mem_cons_of_mem a (List.mem_of_head? h)
      · exact List.mem_cons_of_mem a (ih h)

theorem tailqNext_ne (hnodup : table.Nodup) : tailqNext peer table ≠ some peer := by
  induction table with
  | nil => exact nofun
  | cons a rest ih =>
      obtain ⟨ha, hrest⟩ := List.nodup_cons.mp hnodup
      rw [tailqNext]
      split_ifs with heq
      · exact fun h => ha (heq ▸ List.mem_of_head? h)
      · exact ih hrest

end Next

/-! ## The invariant -/

/-- A peer that nothing is lost with. -/
def PeerNode.Quiet (n : PeerNode) : Prop := n.conn.outbox = [] ∧ n.peer.isSeed = false

namespace TableState

/-- Whoever goes through the table has it locked, and the reaper gets hold of quiet peers
only. -/
structure Inv (s : TableState) : Prop where
  nodup : s.table.Nodup
  table_lt : ∀ id ∈ s.table, id < s.created
  delivers : ∀ id, Delivers (s.nodes id).conn
  reaper_holds : s.reaper.holds = true ↔ s.mutex = some .reaper
  broadcast_holds : ∀ w, s.broadcasts w ≠ .idle ↔ s.mutex = some (.broadcast w)
  broadcast_mem : ∀ w cmd id, s.broadcasts w = .visiting cmd (some id) → id ∈ s.table
  next_mem : ∀ id, s.reaper.next = some id → id ∈ s.table
  doomed : ∀ id, s.reaper.doomed = some id →
    id ∈ s.table ∧ (s.nodes id).Quiet ∧ s.reaper.next ≠ some id
  leaving : ∀ id, s.reaper.leaving = some id → id ∈ s.reaped
  reaped : ∀ id ∈ s.reaped, id ∉ s.table ∧ id < s.created ∧ (s.nodes id).Quiet
  discarded : s.discarded = []

theorem inv_init : TableState.init.Inv where
  nodup := List.nodup_nil
  table_lt := nofun
  delivers _ := delivers_init 0
  reaper_holds := by simp [TableState.init, ReaperPc.holds]
  broadcast_holds w := by simp [TableState.init]
  broadcast_mem := nofun
  next_mem := nofun
  doomed := nofun
  leaving := nofun
  reaped := nofun
  discarded := rfl

variable {s : TableState}

/-- A peer changes, and if it is to be removed or is removed it stays quiet. -/
theorem Inv.setNode (h : s.Inv) {id : ℕ} {n : PeerNode} (hdelivers : Delivers n.conn)
    (hquiet : s.reaper.doomed = some id ∨ id ∈ s.reaped → (s.nodes id).Quiet → n.Quiet) :
    (s.setNode id n).Inv := by
  have hstays : ∀ j, s.reaper.doomed = some j ∨ j ∈ s.reaped → (s.nodes j).Quiet →
      ((s.setNode id n).nodes j).Quiet := by
    intro j hj hjquiet
    unfold TableState.setNode
    by_cases hji : j = id
    · subst hji
      simpa only [Function.update_self] using hquiet hj hjquiet
    · simpa only [Function.update_of_ne hji] using hjquiet
  refine ⟨h.nodup, h.table_lt, ?_, h.reaper_holds, h.broadcast_holds, h.broadcast_mem, h.next_mem,
    ?_, h.leaving, ?_, h.discarded⟩
  · intro j
    unfold TableState.setNode
    by_cases hji : j = id
    · subst hji
      simpa only [Function.update_self] using hdelivers
    · simpa only [Function.update_of_ne hji] using h.delivers j
  · intro j hj
    obtain ⟨hmem, hjquiet, hnext⟩ := h.doomed j hj
    exact ⟨hmem, hstays j (Or.inl hj) hjquiet, hnext⟩
  · intro j hj
    obtain ⟨hmem, hlt, hjquiet⟩ := h.reaped j hj
    exact ⟨hmem, hlt, hstays j (Or.inr hj) hjquiet⟩

/-- The reaper goes on. -/
theorem Inv.goOn (h : s.Inv) {pc : ReaperPc} (hholds : pc.holds = s.reaper.holds)
    (hnext : ∀ id, pc.next = some id → id ∈ s.table)
    (hdoomed : ∀ id, pc.doomed = some id →
      id ∈ s.table ∧ (s.nodes id).Quiet ∧ pc.next ≠ some id)
    (hleaving : ∀ id, pc.leaving = some id → id ∈ s.reaped) :
    Inv { s with reaper := pc } where
  nodup := h.nodup
  table_lt := h.table_lt
  delivers := h.delivers
  reaper_holds := by
    rw [hholds]
    exact h.reaper_holds
  broadcast_holds := h.broadcast_holds
  broadcast_mem := h.broadcast_mem
  next_mem := hnext
  doomed := hdoomed
  leaving := hleaving
  reaped := h.reaped
  discarded := h.discarded

/-- While nobody has the table locked, nobody goes through it. -/
theorem Inv.broadcasts_idle (h : s.Inv) (hmutex : ∀ w, s.mutex ≠ some (.broadcast w)) (w : ℕ) :
    s.broadcasts w = .idle :=
  not_not.mp fun hne => hmutex w ((h.broadcast_holds w).mp hne)

/-- The reaper locks the table. -/
theorem Inv.lock (h : s.Inv) (hmutex : s.mutex = none) {now : Int} {peer : Option ℕ}
    (hpeer : ∀ id, peer = some id → id ∈ s.table) :
    Inv { s with mutex := some .reaper, reaper := .visiting now peer } where
  nodup := h.nodup
  table_lt := h.table_lt
  delivers := h.delivers
  reaper_holds := iff_of_true rfl rfl
  broadcast_holds w := by
    have hidle := h.broadcasts_idle (fun w => by rw [hmutex]; nofun) w
    exact iff_of_false (fun hne => hne hidle) nofun
  broadcast_mem := h.broadcast_mem
  next_mem := hpeer
  doomed := nofun
  leaving := nofun
  reaped := h.reaped
  discarded := h.discarded

/-! ## The reaper -/

/-- What is evicted is no seed, and its outbox is empty. -/
theorem Inv.quiet_of_evict (h : s.Inv) {cfg : NodeConfig} {now : Int} {peer : ℕ}
    (hevict : reaping cfg now ((s.nodes peer).entry peer) = .evict) : (s.nodes peer).Quiet := by
  unfold reaping at hevict
  split_ifs at hevict with hskip hidle
  obtain ⟨hseed, -⟩ := not_or.mp hskip
  have hcount : (s.nodes peer).conn.outboxCount = 0 := hidle.1
  rw [(h.delivers peer).count] at hcount
  exact ⟨List.length_eq_zero_iff.mp (Int.ofNat_eq_zero.mp hcount), Bool.not_eq_true _ ▸ hseed⟩

theorem Inv.visit (h : s.Inv) (cfg : NodeConfig) {now : Int} {peer : ℕ}
    (hpc : s.reaper = .visiting now (some peer)) (now' : Int) (hello : HelloEnv) :
    (s.reaperStep cfg now' hello).Inv := by
  have hmem : peer ∈ s.table := h.next_mem peer (by rw [hpc]; rfl)
  have hnext : ∀ id, tailqNext peer s.table = some id → id ∈ s.table :=
    fun id hid => mem_of_tailqNext hid
  have hholds : s.reaper.holds = true := by rw [hpc]; rfl
  simp only [reaperStep, hpc]
  split
  · exact h.goOn hholds.symm hnext nofun nofun
  · exact h.goOn hholds.symm hnext nofun nofun
  next hevict =>
    refine h.goOn hholds.symm hnext ?_ nofun
    rintro id ⟨⟩
    exact ⟨hmem, h.quiet_of_evict hevict, tailqNext_ne h.nodup⟩
  · exact h.goOn hholds.symm hnext nofun nofun

/-- The peer is taken out of the table. -/
theorem Inv.removing (h : s.Inv) (cfg : NodeConfig) {now : Int} {peer : ℕ} {next : Option ℕ}
    (hpc : s.reaper = .removing now peer next) (now' : Int) (hello : HelloEnv) :
    (s.reaperStep cfg now' hello).Inv := by
  obtain ⟨hmem, hquiet, hne⟩ := h.doomed peer (by rw [hpc]; rfl)
  have hmutex : s.mutex = some .reaper := h.reaper_holds.mp (by rw [hpc]; rfl)
  -- nobody else goes through the table meanwhile
  have hidle := h.broadcasts_idle fun w => by rw [hmutex]; nofun
  rw [hpc] at hne
  simp only [reaperStep, hpc]
  constructor
  · exact h.nodup.erase peer
  · exact fun id hid => h.table_lt id (List.mem_of_mem_erase hid)
  · exact h.delivers
  · exact iff_of_false nofun nofun
  · exact fun w => iff_of_false (fun hne => hne (hidle w)) nofun
  · intro w cmd id hw
    rw [hidle w] at hw
    exact absurd hw nofun
  · intro id hid
    have hidne : id ≠ peer := by
      rintro rfl
      exact hne hid
    refine (List.mem_erase_of_ne hidne).mpr (h.next_mem id ?_)
    rw [hpc]
    exact hid
  · exact nofun
  · rintro id ⟨⟩
    exact List.mem_append_right _ (List.mem_singleton_self peer)
  · intro id hid
    rcases List.mem_append.mp hid with hid | hid
    · obtain ⟨hgone, hlt, hidquiet⟩ := h.reaped id hid
      exact ⟨fun hmem' => hgone (List.mem_of_mem_erase hmem'), hlt, hidquiet⟩
    · rw [List.mem_singleton.mp hid]
      exact ⟨h.nodup.not_mem_erase, h.table_lt peer hmem, hquiet⟩
  · exact h.discarded

/-- There is nothing in the outbox to discard. -/
theorem Inv.draining (h : s.Inv) (cfg : NodeConfig) {now : Int} {peer : ℕ} {next : Option ℕ}
    (hpc : s.reaper = .draining now peer next) (now' : Int) (hello : HelloEnv) :
    (s.reaperStep cfg now' hello).Inv := by
  have hreaped := h.leaving peer (by rw [hpc]; rfl)
  obtain ⟨-, -, hempty, -⟩ := h.reaped peer hreaped
  have hnode : { s.nodes peer with
      conn := { (s.nodes peer).conn with outbox := [] } } = s.nodes peer := by
    rw [← hempty]
  have hnext : ∀ id, next = some id → id ∈ s.table := by
    intro id hid
    apply h.next_mem
    rw [hpc]
    exact hid
  have hgo : Inv { s with reaper := .relocking now next } :=
    h.goOn (by rw [hpc]; rfl) hnext nofun nofun
  simp only [reaperStep, hpc, hempty, List.append_nil]
  rw [hnode]
  exact hgo.setNode (h.delivers peer) fun _ hquiet => hquiet

/-- A connection is closed without a change of the outbox. -/
theorem delivers_of_sameOutbox {c c' : PeerConn} (h : Delivers c) (hpc : c'.pc = c.pc)
    (hsame : SameOutbox c c') : Delivers c' where
  count := by rw [hsame.outboxCount, hsame.outbox, h.count]
  bound := hsame.outbox ▸ h.bound
  conserves := by
    rw [hsame.accepted, hsame.removed, hsame.outbox]
    exact h.conserves
  ids := by
    rw [hsame.accepted]
    exact h.ids
  transmitted := by
    rw [hsame.transmitted, hsame.removed, hpc]
    exact h.transmitted
  expired := hsame.removed ▸ h.expired
  head := by
    rw [hpc, hsame.outbox]
    exact h.head

theorem Inv.reaperStep (h : s.Inv) (cfg : NodeConfig) (now : Int) (hello : HelloEnv) :
    (s.reaperStep cfg now hello).Inv := by
  -- where the reaper goes on, and what it is about to remove
  have hnext : ∀ {pc id}, s.reaper = pc → pc.next = some id → id ∈ s.table :=
    fun hpc hid => h.next_mem _ (hpc ▸ hid)
  have hdoomed : ∀ {pc}, s.reaper = pc → ∀ id, pc.doomed = some id →
      id ∈ s.table ∧ (s.nodes id).Quiet ∧ pc.next ≠ some id :=
    fun hpc id hid => hpc ▸ h.doomed id (hpc ▸ hid)
  cases hpc : s.reaper with
  | sleeping =>
      simp only [TableState.reaperStep, hpc]
      split_ifs with hmutex
      · exact h.lock hmutex fun id hid => List.mem_of_head? hid
      · exact h
  | visiting now' peer =>
      cases peer with
      | some peer => exact h.visit cfg hpc now hello
      | none =>
          have hmutex : s.mutex = some .reaper := h.reaper_holds.mp (by rw [hpc]; rfl)
          have hidle := h.broadcasts_idle fun w => by rw [hmutex]; nofun
          simp only [TableState.reaperStep, hpc]
          exact ⟨h.nodup, h.table_lt, h.delivers, iff_of_false nofun nofun,
            fun w => iff_of_false (fun hne => hne (hidle w)) nofun, h.broadcast_mem, nofun, nofun,
            nofun, h.reaped, h.discarded⟩
  | greeting now' peer next =>
      simp only [TableState.reaperStep, hpc]
      split_ifs
      · exact h
      · have hgo : Inv { s with reaper := .visiting now' next } :=
          h.goOn (by rw [hpc]; rfl) (fun id hid => hnext hpc hid) nofun nofun
        exact hgo.setNode (h.delivers peer) fun _ hquiet => hquiet
  | evicting now' peer next =>
      simp only [TableState.reaperStep, hpc]
      have hstill := hdoomed hpc
      have hgo : Inv { s with reaper := .closing now' peer next } :=
        h.goOn (by rw [hpc]; rfl) (fun id hid => hnext hpc hid) hstill nofun
      exact hgo.setNode (h.delivers peer) fun _ hquiet => hquiet
  | closing now' peer next =>
      simp only [TableState.reaperStep, hpc]
      have hstill := hdoomed hpc
      have hgo : Inv { s with reaper := .removing now' peer next } :=
        h.goOn (by rw [hpc]; rfl) (fun id hid => hnext hpc hid) hstill nofun
      exact hgo.setNode (delivers_of_sameOutbox (h.delivers peer) rfl ⟨rfl, rfl, rfl, rfl, rfl⟩)
        fun _ hquiet => hquiet
  | removing now' peer next => exact h.removing cfg hpc now hello
  | joining now' peer next =>
      simp only [TableState.reaperStep, hpc]
      split_ifs
      · refine h.goOn (by rw [hpc]; rfl) (fun id hid => hnext hpc hid) nofun ?_
        rintro id ⟨⟩
        exact h.leaving peer (by rw [hpc]; rfl)
      · exact h
  | draining now' peer next => exact h.draining cfg hpc now hello
  | relocking now' next =>
      simp only [TableState.reaperStep, hpc]
      split_ifs with hmutex
      · exact h.lock hmutex fun id hid => hnext hpc hid
      · exact h

/-! ## The other threads -/

/-- What a call of `broadcast_sync` may touch is not about to be removed. -/
theorem Inv.not_doomed (h : s.Inv) {id : ℕ} (hmem : id ∈ s.table)
    (hmutex : s.mutex ≠ some .reaper) : ¬ (s.reaper.doomed = some id ∨ id ∈ s.reaped) := by
  rintro (hdoomed | hreaped)
  · exact hmutex (h.reaper_holds.mp (ReaperPc.holds_of_doomed hdoomed))
  · exact (h.reaped id hreaped).1 hmem

/-- While a call of `broadcast_sync` has the table locked, or nobody, the reaper has
not. -/
theorem Inv.reaper_free (h : s.Inv) (hmutex : s.mutex ≠ some .reaper) : s.reaper.holds ≠ true :=
  fun hholds => hmutex (h.reaper_holds.mp hholds)

/-- A call of `broadcast_sync` takes a step, with the table locked by whoever it should
be. -/
theorem Inv.setBroadcast (h : s.Inv) {w : ℕ} {pc : BroadcastPc} {mutex : Option TableHolder}
    (hreaper : s.reaper.holds = true ↔ mutex = some .reaper)
    (hpc : pc ≠ .idle ↔ mutex = some (.broadcast w))
    (hothers : ∀ w', w' ≠ w → (s.broadcasts w' ≠ .idle ↔ mutex = some (.broadcast w')))
    (hmem : ∀ cmd id, pc = .visiting cmd (some id) → id ∈ s.table) :
    Inv { s with mutex := mutex, broadcasts := Function.update s.broadcasts w pc } := by
  refine ⟨h.nodup, h.table_lt, h.delivers, hreaper, ?_, ?_, h.next_mem, h.doomed, h.leaving,
    h.reaped, h.discarded⟩
  · intro w'
    by_cases hw : w' = w
    · subst hw
      simpa only [Function.update_self] using hpc
    · simpa only [Function.update_of_ne hw] using hothers w' hw
  · intro w' cmd id hw'
    simp only [Function.update_apply] at hw'
    split_ifs at hw'
    · exact hmem cmd id hw'
    · exact h.broadcast_mem w' cmd id hw'

/-- It locks the table. -/
theorem Inv.broadcastLock (h : s.Inv) (hmutex : s.mutex = none) (w : ℕ) (cmd : ControlCmd) :
    Inv { s with
      mutex := some (.broadcast w)
      broadcasts := Function.update s.broadcasts w (.visiting cmd s.table.head?) } := by
  have hidle := h.broadcasts_idle fun w => by rw [hmutex]; nofun
  have hreaper := h.reaper_free (by rw [hmutex]; nofun)
  refine h.setBroadcast (iff_of_false hreaper nofun) (iff_of_true nofun rfl) ?_ ?_
  · intro w' hw
    refine iff_of_false (fun hne => hne (hidle w')) ?_
    rintro ⟨⟩
    exact hw rfl
  · rintro cmd' id hvisiting
    obtain ⟨-, hhead⟩ := BroadcastPc.visiting.inj hvisiting
    exact List.mem_of_head? hhead

theorem Inv.broadcastBegin (h : s.Inv) (w : ℕ) (cmd : ControlCmd) :
    (s.broadcastBegin w cmd).Inv := by
  unfold TableState.broadcastBegin
  split
  · exact h
  · split
    · split
      next hmutex => exact h.broadcastLock hmutex w cmd
      next => exact h
    · exact h

/-- It goes on to the next peer. -/
theorem Inv.broadcastNext (h : s.Inv) {w : ℕ} {cmd : ControlCmd} {peer : ℕ}
    (hpc : s.broadcasts w = .visiting cmd (some peer)) :
    Inv { s with
      broadcasts := Function.update s.broadcasts w (.visiting cmd (tailqNext peer s.table)) } := by
  have hmutex := (h.broadcast_holds w).mp (by rw [hpc]; nofun)
  refine h.setBroadcast h.reaper_holds (iff_of_true nofun hmutex) ?_ ?_
  · intro w' _
    exact h.broadcast_holds w'
  · rintro cmd' id hvisiting
    obtain ⟨-, hnext⟩ := BroadcastPc.visiting.inj hvisiting
    exact mem_of_tailqNext hnext

/-- It unlocks the table. -/
theorem Inv.broadcastUnlock (h : s.Inv) {w : ℕ} (hmutex : s.mutex = some (.broadcast w)) :
    Inv { s with mutex := none, broadcasts := Function.update s.broadcasts w .idle } := by
  have hreaper := h.reaper_free (by rw [hmutex]; nofun)
  refine h.setBroadcast (iff_of_false hreaper nofun) (iff_of_false (fun hne => hne rfl) nofun) ?_
    nofun
  intro w' hw
  refine iff_of_false (fun hne => hw ?_) nofun
  have hmutex' := (h.broadcast_holds w').mp hne
  rw [hmutex] at hmutex'
  exact (TableHolder.broadcast.inj (Option.some.inj hmutex')).symm

theorem Inv.broadcastStep (h : s.Inv) (cfg : NodeConfig) (w : ℕ) (allocOk : Bool) (time : Int) :
    (s.broadcastStep cfg w allocOk time).Inv := by
  unfold TableState.broadcastStep
  split
  next => exact h
  next cmd hpc =>
    exact h.broadcastUnlock ((h.broadcast_holds w).mp (by rw [hpc]; nofun))
  next cmd peer hpc =>
    have hmutex := (h.broadcast_holds w).mp (by rw [hpc]; nofun)
    have hnext := h.broadcastNext hpc
    dsimp only
    split_ifs
    · exact hnext
    · exact hnext
    · refine hnext.setNode (delivers_broadcast (h.delivers peer) _) fun hbad => ?_
      exact absurd hbad (h.not_doomed (h.broadcast_mem w cmd peer hpc) (by rw [hmutex]; nofun))

/-- A new peer is appended to the table. -/
theorem Inv.append (h : s.Inv) :
    Inv { s with created := s.created + 1, table := s.table ++ [s.created] } := by
  have hfresh : s.created ∉ s.table := fun hmem => (h.table_lt _ hmem).false
  refine ⟨?_, ?_, h.delivers, h.reaper_holds, h.broadcast_holds, ?_, ?_, ?_, h.leaving, ?_,
    h.discarded⟩
  · refine List.nodup_append.mpr ⟨h.nodup, List.nodup_singleton _, ?_⟩
    rintro a ha b hb rfl
    exact hfresh (List.mem_singleton.mp hb ▸ ha)
  · intro id hid
    rcases List.mem_append.mp hid with hid | hid
    · exact (h.table_lt id hid).trans (Nat.lt_succ_self _)
    · rw [List.mem_singleton.mp hid]
      exact Nat.lt_succ_self _
  · exact fun w cmd id hw => List.mem_append_left _ (h.broadcast_mem w cmd id hw)
  · exact fun id hid => List.mem_append_left _ (h.next_mem id hid)
  · intro id hid
    obtain ⟨hmem, hrest⟩ := h.doomed id hid
    exact ⟨List.mem_append_left _ hmem, hrest⟩
  · intro id hid
    obtain ⟨hgone, hlt, hquiet⟩ := h.reaped id hid
    refine ⟨fun hmem => ?_, hlt.trans (Nat.lt_succ_self _), hquiet⟩
    rcases List.mem_append.mp hmem with hmem | hmem
    · exact hgone hmem
    · exact hlt.ne (List.mem_singleton.mp hmem)

theorem Inv.addPeerInternal (h : s.Inv) (cfg : NodeConfig) (allocOk : Bool) (now : Int)
    (addr : Bytes) (port : Int) (nodeId : UInt64) (isSeed : Bool) :
    (s.addPeerInternal cfg allocOk now addr port nodeId isSeed).Inv := by
  unfold TableState.addPeerInternal
  split
  · exact h
  dsimp only
  split
  · exact h
  split
  · exact h
  next hlocked =>
    have hmutex : s.mutex ≠ some .reaper := by
      rw [not_not.mp hlocked]
      exact nofun
    split
    next id hfind =>
      have hmem : id ∈ s.table := List.mem_of_find?_eq_some hfind
      refine h.setNode (delivers_of_sameOutbox (h.delivers id) rfl ⟨rfl, rfl, rfl, rfl, rfl⟩) ?_
      exact fun hbad => absurd hbad (h.not_doomed hmem hmutex)
    next =>
      split
      · refine h.append.setNode (delivers_init now) fun hbad => absurd hbad ?_
        exact h.append.not_doomed (List.mem_append_right _ (List.mem_singleton_self _)) hmutex
      · exact h

/-- The sender thread finds nothing in an empty outbox, and adds nothing. -/
theorem outbox_threadStep_of_nil {c : PeerConn} (h : Delivers c) (hempty : c.outbox = [])
    (mac : Mac) (cfg : NodeConfig) (env : SenderEnv) :
    (threadStep mac cfg env c).outbox = [] := by
  have hhead : ∀ m, c.outbox.head? ≠ some m := by
    rw [hempty]
    exact fun m => nofun
  rcases threadStep_cases mac cfg env c with
    ⟨hsame, -, -⟩ | ⟨m, hm, -, -⟩ | ⟨m, hpc, -⟩ | ⟨m, hpc, -⟩
  · exact hsame.outbox.trans hempty
  · exact absurd hm (hhead m)
  · exact absurd (h.head m (by rw [hpc]; rfl)) (hhead m)
  · exact absurd (h.head m (by rw [hpc]; rfl)) (hhead m)

theorem Inv.senderStep (h : s.Inv) (mac : Mac) (cfg : NodeConfig) (id : ℕ) (env : SenderEnv) :
    (s.senderStep mac cfg id env).Inv := by
  refine h.setNode (delivers_threadStep (h.delivers id) ..) fun _ hquiet => ?_
  exact ⟨outbox_threadStep_of_nil (h.delivers id) hquiet.1 .., hquiet.2⟩

/-! ## The table as a list of peers -/

/-- The table as the other modules have it. -/
def peers (s : TableState) : List Peer := s.table.map fun id => (s.nodes id).peer

theorem updatePeer_map (addr : Bytes) (port : UInt16) (nodeId : UInt64) (isSeed : Bool) (now : Int)
    (nodes : ℕ → PeerNode) (update : PeerNode → PeerNode)
    (hupdate : ∀ n, (update n).peer = n.peer.update addr port nodeId isSeed now) {table : List ℕ}
    (hnodup : table.Nodup) :
    updatePeer addr port nodeId isSeed now (table.map fun id => (nodes id).peer) =
      (table.find? fun id => (nodes id).peer.isEndpoint addr port nodeId).map fun id =>
        table.map fun j => (Function.update nodes id (update (nodes id)) j).peer := by
  induction table with
  | nil => rfl
  | cons a rest ih =>
      obtain ⟨ha, hrest⟩ := List.nodup_cons.mp hnodup
      have hothers : ∀ id, a ≠ id → (Function.update nodes id (update (nodes id)) a).peer =
          (nodes a).peer := fun id hne => by rw [Function.update_of_ne hne]
      rw [List.map_cons, updatePeer, List.find?_cons]
      cases hfound : (nodes a).peer.isEndpoint addr port nodeId with
      | true =>
          have hsame : rest.map (fun j => (Function.update nodes a (update (nodes a)) j).peer) =
              rest.map fun j => (nodes j).peer :=
            List.map_congr_left fun j hj => by
              rw [Function.update_of_ne (ne_of_mem_of_not_mem hj ha)]
          simp only [if_true, Option.map_some, List.map_cons, hsame, Function.update_self, hupdate]
          rfl
      | false =>
          simp only [Bool.false_eq_true, if_false, ih hrest, Option.map_map]
          refine Option.map_congr fun id hid => ?_
          have hne : a ≠ id := (ne_of_mem_of_not_mem (List.mem_of_find?_eq_some hid) ha).symm
          simp only [Function.comp_apply, List.map_cons, hothers id hne]

/-- `add_peer_internal` does to the table what it does to a list of peers. -/
theorem Inv.peers_addPeerInternal (h : s.Inv) (cfg : NodeConfig) (hmutex : s.mutex = none)
    (allocOk : Bool) (now : Int) (addr : Bytes) (port : Int) (nodeId : UInt64) (isSeed : Bool) :
    (s.addPeerInternal cfg allocOk now addr port nodeId isSeed).peers =
      Dmmr.Cluster.addPeerInternal cfg allocOk now s.peers addr port nodeId isSeed := by
  unfold TableState.addPeerInternal Dmmr.Cluster.addPeerInternal
  by_cases hport : port < 1 ∨ port > 65535
  · rw [if_pos hport, if_pos hport]
  rw [if_neg hport, if_neg hport]
  dsimp only
  by_cases haddr : addr.length = 0 ∨ addr.length > peerAddrMax ∨
      endpointIsSelf cfg addr (UInt16.ofNat port.toNat) nodeId = true
  · rw [if_pos haddr, if_pos haddr]
  have hupdate := updatePeer_map addr (UInt16.ofNat port.toNat) nodeId isSeed now s.nodes
    (fun n => { n with
      peer := n.peer.update addr (UInt16.ofNat port.toNat) nodeId isSeed now
      conn := { n.conn with lastActivity := now } }) (fun _ => rfl) h.nodup
  rw [if_neg haddr, if_neg haddr, if_neg (not_not.mpr hmutex)]
  unfold TableState.peers
  rw [hupdate]
  cases s.table.find? fun id =>
      (s.nodes id).peer.isEndpoint addr (UInt16.ofNat port.toNat) nodeId with
  | some id => rfl
  | none =>
      have hfresh : s.created ∉ s.table := fun hmem => (h.table_lt _ hmem).false
      cases allocOk with
      | false => rfl
      | true =>
          simp only [if_true, TableState.setNode, List.map_append, List.map_cons, List.map_nil,
            Function.update_self, Option.map_none]
          congr 1
          exact List.map_congr_left fun j hj => by
            rw [Function.update_of_ne (ne_of_mem_of_not_mem hj hfresh)]

theorem Inv.peers_addPeer (h : s.Inv) (cfg : NodeConfig) (hmutex : s.mutex = none)
    (call : AddCall) : (s.addPeer cfg call).peers = call.exec cfg s.peers := by
  cases call with
  | peer allocOk now addr port => exact h.peers_addPeerInternal cfg hmutex ..
  | peerWithNode allocOk now addr port nodeId => exact h.peers_addPeerInternal cfg hmutex ..

/-! ## Whole runs -/

theorem Inv.step (h : s.Inv) (mac : Mac) (cfg : NodeConfig) (event : TableEvent) :
    (s.step mac cfg event).Inv := by
  cases event with
  | reaper now hello => exact h.reaperStep cfg now hello
  | broadcastBegin w cmd => exact h.broadcastBegin w cmd
  | broadcast w allocOk time => exact h.broadcastStep cfg w allocOk time
  | addPeer call =>
      cases call with
      | peer allocOk now addr port => exact h.addPeerInternal ..
      | peerWithNode allocOk now addr port nodeId => exact h.addPeerInternal ..
  | sender id env => exact h.senderStep mac cfg id env

theorem inv_run (mac : Mac) (cfg : NodeConfig) (events : List TableEvent) :
    (TableState.run mac cfg events).Inv := by
  unfold TableState.run
  generalize hstart : TableState.init = start
  have hinv : start.Inv := hstart ▸ inv_init
  clear hstart
  induction events generalizing start with
  | nil => exact hinv
  | cons event events ih => exact ih _ (hinv.step mac cfg event)

/-- Nothing is lost when a peer is removed: it is no seed, its outbox is empty from then
on, whatever it had accepted was transmitted or had become too old, and no message was
ever discarded. -/
structure LosesNothing (s : TableState) : Prop where
  empty : ∀ id ∈ s.reaped, (s.nodes id).conn.outbox = []
  notSeed : ∀ id ∈ s.reaped, (s.nodes id).peer.isSeed = false
  settled : ∀ id ∈ s.reaped, ∀ m ∈ (s.nodes id).conn.accepted,
    ((m, .sent) ∈ (s.nodes id).conn.removed ∧ (s.nodes id).conn.transmitted.count m = 1) ∨
      ∃ t, (m, .expired t) ∈ (s.nodes id).conn.removed ∧ outboxMsgTtl < t - m.msg.enqueuedAt
  discarded : s.discarded = []

end TableState

/-- **Reaping loses no update.** -/
theorem reaper_loses_nothing (mac : Mac) (cfg : NodeConfig) (events : List TableEvent) :
    (TableState.run mac cfg events).LosesNothing := by
  have h := TableState.inv_run mac cfg events
  refine ⟨fun id hid => (h.reaped id hid).2.2.1, fun id hid => (h.reaped id hid).2.2.2, ?_,
    h.discarded⟩
  intro id hid m hm
  rcases (h.delivers id).fate hm with ⟨hqueued, -⟩ | ⟨-, hsent, hcount⟩ | ⟨-, -, hexpired⟩
  · rw [(h.reaped id hid).2.2.1] at hqueued
    exact absurd hqueued List.not_mem_nil
  · exact Or.inl ⟨hsent, hcount⟩
  · exact Or.inr hexpired

/-- A peer that has been idle for five minutes is removed. -/
example :
    let hello : HelloEnv := ⟨false, false, none⟩
    let reaper : TableEvent := .reaper 301 hello
    let s := TableState.run Mac.constant plainNode
      ([.addPeer (.peerWithNode true 0 [97] 1 5)] ++ List.replicate 5 reaper ++
        List.replicate 2 (.sender 0 (outboxEnv true)) ++ List.replicate 2 reaper)
    s.reaped = [0] ∧ s.table = [] := by
  decide +kernel

end Dmmr.Cluster
