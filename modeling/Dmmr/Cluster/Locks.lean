import Dmmr.Cluster.Outbox
import Dmmr.Cluster.PeerList
import Dmmr.Lib.LockTrace

/-!
# Locks of the cluster layer

The table of peers has one lock, `peers_mutex`, and every peer has another,
`outbox_mutex`.  Neither may be locked twice by one thread, and the first is to be
taken before the second.

For each function the module gives the trace of its lock operations, as a function
of the table, the clock and what is received from peers; entries that are visited
are arbitrary, since other threads change the table whenever it is not locked.
`disciplined_iff` says that one thing can go wrong.  The reaper keeps the table
locked while it greets a stale peer, and every entry of the list it gets in return
goes to `add_peer_internal`, which locks the table again.
-/

namespace Dmmr.Cluster

open Words Store Wire Node LockTrace

/-! ## Locks -/

/-- `peers_mutex`, and the `outbox_mutex` of a peer, which goes by its address. -/
inductive ClusterLock
  | peers
  | outbox (peer : ℕ)
  deriving DecidableEq, Repr

/-- `peers_mutex` is not requested by a thread that holds it, or an
`outbox_mutex`. -/
def clusterOrder (held : List ClusterLock) : ClusterLock → Prop
  | .peers => .peers ∉ held ∧ ∀ peer, .outbox peer ∉ held
  | .outbox _ => True

/-- The second part of this alone. -/
def outboxOrder (held : List ClusterLock) : ClusterLock → Prop
  | .peers => ∀ peer, .outbox peer ∉ held
  | .outbox _ => True

/-- A section under a lock in which nothing else is locked. -/
def brief (lock : ClusterLock) : List (Op ClusterLock) := critical lock []

/-! ## What each function locks -/

instance instDecidableAccepted (cfg : NodeConfig) (c : AddCall) : Decidable (c.Accepted cfg) :=
  inferInstanceAs (Decidable (_ ∧ _))

/-- `add_peer_internal` locks the table unless it turns the call away. -/
def addPeerTrace (cfg : NodeConfig) (c : AddCall) : List (Op ClusterLock) :=
  if c.Accepted cfg then brief .peers else []

/-- The call made for an entry of a peer list.  What `calloc` returns and the time
do not matter to the locks. -/
def Endpoint.addCall (e : Endpoint) : AddCall := .peerWithNode true 0 e.addr e.port.toNat e.nodeId

/-- The calls `parse_peer_list` makes. -/
def addedTrace (cfg : NodeConfig) (added : List Endpoint) : List (Op ClusterLock) :=
  added.flatMap fun e => addPeerTrace cfg e.addCall

/-- `send_hello`. -/
def sendHelloTrace (cfg : NodeConfig) (env : HelloEnv) : List (Op ClusterLock) :=
  addedTrace cfg (sendHelloReply cfg env).added

/-- `PEER_EVICT_TIMEOUT`, in seconds. -/
def peerEvictTimeout : Int := 300

/-- `PEER_HEALTHCHECK_INTERVAL`, in seconds. -/
def peerHealthcheckInterval : Int := 15

/-- An entry of the table as it is visited. -/
structure TableEntry where
  id : ℕ
  peer : Peer
  active : Bool
  outboxCount : Int
  lastHealthcheck : Int
  staleCount : ℕ

/-- What the reaper does about an entry. -/
inductive Reaping
  | skip
  | evict
  | healthcheck
  | leave
  deriving DecidableEq, Repr

def reaping (cfg : NodeConfig) (now : Int) (entry : TableEntry) : Reaping :=
  if entry.peer.isSeed ∨ entry.peer.nodeId = cfg.myNodeId then .skip
  else if entry.outboxCount = 0 ∧ now - entry.peer.lastActivity > peerEvictTimeout then .evict
  else if entry.outboxCount = 0 ∧ now - entry.lastHealthcheck > peerHealthcheckInterval ∧
      entry.staleCount > 0 then .healthcheck
  else .leave

/-- One turn of the loop over the table in `peer_reaper_thread`.  The thread of an
evicted peer is joined with the table unlocked. -/
def reapTrace (cfg : NodeConfig) (now : Int) (visit : TableEntry × HelloEnv) :
    List (Op ClusterLock) :=
  let (entry, env) := visit
  match reaping cfg now entry with
  | .skip => []
  | .evict =>
      brief (.outbox entry.id) ++ (brief (.outbox entry.id) ++
        (.unlock .peers :: (brief (.outbox entry.id) ++ [.lock .peers])))
  | .healthcheck =>
      -- the table stays locked during `send_hello`
      brief (.outbox entry.id) ++ (sendHelloTrace cfg env ++ brief (.outbox entry.id))
  | .leave => brief (.outbox entry.id)

/-- One pass of `peer_reaper_thread`: the time, and the entries visited, each with
what becomes of a greeting. -/
structure ReaperPass where
  now : Int
  visits : List (TableEntry × HelloEnv)

def ReaperPass.trace (cfg : NodeConfig) (pass : ReaperPass) : List (Op ClusterLock) :=
  critical .peers (pass.visits.flatMap (reapTrace cfg pass.now))

/-- One turn of the loop in `broadcast_sync`: an entry, and whether the message
could be allocated. -/
def enqueueTrace (cfg : NodeConfig) (visit : TableEntry × Bool) : List (Op ClusterLock) :=
  let (entry, allocOk) := visit
  if entry.peer.nodeId ≠ 0 ∧ entry.peer.nodeId = cfg.myNodeId then []
  else if !allocOk then []
  else brief (.outbox entry.id)

/-- `broadcast_sync`. -/
def broadcastTrace (cfg : NodeConfig) (cmd : ControlCmd) (visits : List (TableEntry × Bool)) :
    List (Op ClusterLock) :=
  if cmd.key.length = 0 ∨ cmd.key.length > maxKeyLen ∨ cmd.value.length > maxValueLen then []
  else critical .peers (visits.flatMap (enqueueTrace cfg))

/-- One turn of the second loop in `rediscover_from_known_peers`. -/
def greetTrace (cfg : NodeConfig) (envs : ℕ → HelloEnv) (known : TableEntry × ℕ) :
    List (Op ClusterLock) :=
  let (entry, i) := known
  if endpointIsSelf cfg entry.peer.addr entry.peer.port entry.peer.nodeId then []
  else sendHelloTrace cfg (envs i)

/-- `rediscover_from_known_peers`: the table is copied and then the peers are
greeted, with the outcomes in `envs`. -/
def rediscoverTrace (cfg : NodeConfig) (table : List TableEntry) (envs : ℕ → HelloEnv) :
    List (Op ClusterLock) :=
  let known := (table.filter fun entry => entry.active && !entry.peer.isSeed).take
    maxDiscoveredPeers
  brief .peers ++ known.zipIdx.flatMap (greetTrace cfg envs)

/-- The section `peer_sender_thread` enters next, if it does.  A wait for a message
ends a section, and waking up begins another. -/
def threadTrace (id : ℕ) (env : SenderEnv) (s : PeerConn) : List (Op ClusterLock) :=
  match s.pc with
  | .auth =>
      if !s.authenticated || env.authClock ≥ s.authExpireAt then brief (.outbox id) else []
  | .ended => []
  | _ => brief (.outbox id)

/-- `peer_sender_thread` of the peer `id`. -/
def senderTrace (mac : Mac) (cfg : NodeConfig) (id : ℕ) :
    List OutboxEvent → PeerConn → List (Op ClusterLock)
  | [], _ => []
  | .broadcast msg :: events, s => senderTrace mac cfg id events (s.broadcast msg)
  | .thread env :: events, s =>
      threadTrace id env s ++ senderTrace mac cfg id events (threadStep mac cfg env s)

/-! ## Executions -/

/-- An execution of one of the functions, with all it depends on. -/
inductive Execution where
  | peerReaperThread (passes : List ReaperPass)
  | broadcastSync (cmd : ControlCmd) (visits : List (TableEntry × Bool))
  | addPeerInternal (call : AddCall)
  | sendHello (env : HelloEnv)
  | parsePeerList (payload : Option Bytes) (payloadLen : ℕ)
  | rediscoverFromKnownPeers (table : List TableEntry) (envs : ℕ → HelloEnv)
  | peerSenderThread (id : ℕ) (now : Int) (events : List OutboxEvent)

def Execution.trace (mac : Mac) (cfg : NodeConfig) : Execution → List (Op ClusterLock)
  | peerReaperThread passes => passes.flatMap (ReaperPass.trace cfg)
  | broadcastSync cmd visits => broadcastTrace cfg cmd visits
  | addPeerInternal call => addPeerTrace cfg call
  | sendHello env => sendHelloTrace cfg env
  | parsePeerList payload payloadLen =>
      addedTrace cfg (Dmmr.Cluster.parsePeerList cfg payload payloadLen).added
  | rediscoverFromKnownPeers table envs => rediscoverTrace cfg table envs
  | peerSenderThread id now events => senderTrace mac cfg id events (.init now)

/-- A thread that holds nothing runs the function and keeps to the order. -/
def Execution.Disciplined (mac : Mac) (cfg : NodeConfig) (e : Execution) : Prop :=
  Obeys clusterOrder [] (e.trace mac cfg)

/-- The list a peer returns holds nothing that `add_peer_internal` would take. -/
def HelloEnv.Harmless (cfg : NodeConfig) (env : HelloEnv) : Prop :=
  ∀ e ∈ (sendHelloReply cfg env).added, ¬ e.addCall.Accepted cfg

/-- Every peer the reaper greets returns such a list, or none. -/
def Execution.Harmless (cfg : NodeConfig) : Execution → Prop
  | peerReaperThread passes => ∀ pass ∈ passes, ∀ visit ∈ pass.visits,
      reaping cfg pass.now visit.1 = .healthcheck → visit.2.Harmless cfg
  | _ => True

/-! ## Parts of a trace

The lemmas are about any discipline that leaves the outboxes alone and lets a thread
that holds nothing lock the table. -/

theorem held_brief (h : List ClusterLock) (lock : ClusterLock) : held h (brief lock) = h :=
  held_critical rfl

theorem held_addPeerTrace (cfg : NodeConfig) (h : List ClusterLock) (c : AddCall) :
    held h (addPeerTrace cfg c) = h := by
  unfold addPeerTrace
  split_ifs
  · exact held_brief h .peers
  · rfl

theorem held_addedTrace (cfg : NodeConfig) (h : List ClusterLock) (added : List Endpoint) :
    held h (addedTrace cfg added) = h :=
  held_flatMap fun e _ => held_addPeerTrace cfg h e.addCall

section Discipline

variable {allowed : List ClusterLock → ClusterLock → Prop} {cfg : NodeConfig}

theorem obeys_brief {h : List ClusterLock} {lock : ClusterLock} :
    Obeys allowed h (brief lock) ↔ allowed h lock := by
  rw [brief, obeys_critical]
  exact and_iff_left trivial

theorem obeys_addPeerTrace {h : List ClusterLock} {c : AddCall} :
    Obeys allowed h (addPeerTrace cfg c) ↔ (c.Accepted cfg → allowed h .peers) := by
  unfold addPeerTrace
  split_ifs with haccepted
  · rw [obeys_brief]
    exact ⟨fun h _ => h, fun h => h haccepted⟩
  · exact ⟨fun _ h => absurd h haccepted, fun _ => trivial⟩

theorem obeys_addedTrace {h : List ClusterLock} {added : List Endpoint} :
    Obeys allowed h (addedTrace cfg added) ↔
      ∀ e ∈ added, e.addCall.Accepted cfg → allowed h .peers := by
  rw [addedTrace, obeys_flatMap fun e _ => held_addPeerTrace cfg h e.addCall]
  exact forall₂_congr fun e _ => obeys_addPeerTrace

variable (houtbox : ∀ h peer, allowed h (.outbox peer)) (hfree : allowed [] .peers)

include houtbox in
theorem obeys_outbox (h : List ClusterLock) (peer : ℕ) : Obeys allowed h (brief (.outbox peer)) :=
  obeys_brief.mpr (houtbox h peer)

/-! ## The reaper -/

theorem held_reapTrace (cfg : NodeConfig) (now : Int) (visit : TableEntry × HelloEnv) :
    held [.peers] (reapTrace cfg now visit) = [.peers] := by
  obtain ⟨entry, env⟩ := visit
  simp only [reapTrace]
  cases reaping cfg now entry with
  | skip => rfl
  | evict => simp only [held_append, held_brief, held, List.erase_cons_head]
  | healthcheck => simp only [held_append, held_brief, sendHelloTrace, held_addedTrace]
  | leave => exact held_brief _ _

include houtbox hfree

/-- What a turn of the loop needs: to lock the table twice, if it greets a peer
that lists another. -/
theorem obeys_reapTrace (now : Int) (visit : TableEntry × HelloEnv) :
    Obeys allowed [.peers] (reapTrace cfg now visit) ↔
      (reaping cfg now visit.1 = .healthcheck →
        allowed [.peers] .peers ∨ visit.2.Harmless cfg) := by
  obtain ⟨entry, env⟩ := visit
  have hbrief := fun h => obeys_outbox houtbox h entry.id
  simp only [reapTrace]
  cases reaping cfg now entry with
  | skip => exact iff_of_true trivial (by simp)
  | evict =>
      -- the table is given away before it is locked again
      refine iff_of_true ?_ (by simp)
      simp only [obeys_append, held_brief, Obeys, hbrief, List.erase_cons_head, true_and, and_true]
      exact hfree
  | healthcheck =>
      simp only [obeys_append, held_brief, hbrief, true_and, and_true, sendHelloTrace,
        obeys_addedTrace, forall_const]
      by_cases htwice : allowed [.peers] .peers
      · simp [htwice]
      · simp only [htwice, imp_false, false_or]
        rfl
  | leave => exact iff_of_true (hbrief _) (by simp)

omit houtbox hfree in
theorem held_reaperPass (cfg : NodeConfig) (pass : ReaperPass) : held [] (pass.trace cfg) = [] :=
  held_critical (held_flatMap fun visit _ => held_reapTrace cfg pass.now visit)

theorem obeys_reaperPass (pass : ReaperPass) :
    Obeys allowed [] (pass.trace cfg) ↔ ∀ visit ∈ pass.visits,
      reaping cfg pass.now visit.1 = .healthcheck →
        allowed [.peers] .peers ∨ visit.2.Harmless cfg := by
  rw [ReaperPass.trace, obeys_critical,
    obeys_flatMap fun visit _ => held_reapTrace cfg pass.now visit, and_iff_right hfree]
  exact forall₂_congr fun visit _ => obeys_reapTrace houtbox hfree pass.now visit

/-! ## The other functions -/

omit houtbox in
theorem obeys_sendHelloTrace (env : HelloEnv) : Obeys allowed [] (sendHelloTrace cfg env) :=
  obeys_addedTrace.mpr fun _ _ _ => hfree

omit houtbox hfree in
theorem held_enqueueTrace (cfg : NodeConfig) (h : List ClusterLock) (visit : TableEntry × Bool) :
    held h (enqueueTrace cfg visit) = h := by
  obtain ⟨entry, allocOk⟩ := visit
  simp only [enqueueTrace]
  split_ifs
  · rfl
  · rfl
  · exact held_brief h _

omit hfree in
theorem obeys_enqueueTrace (h : List ClusterLock) (visit : TableEntry × Bool) :
    Obeys allowed h (enqueueTrace cfg visit) := by
  obtain ⟨entry, allocOk⟩ := visit
  simp only [enqueueTrace]
  split_ifs
  · trivial
  · trivial
  · exact obeys_outbox houtbox h _

theorem obeys_broadcastTrace (cmd : ControlCmd) (visits : List (TableEntry × Bool)) :
    Obeys allowed [] (broadcastTrace cfg cmd visits) := by
  unfold broadcastTrace
  split_ifs
  · trivial
  · rw [obeys_critical, obeys_flatMap fun visit _ => held_enqueueTrace cfg _ visit]
    exact ⟨hfree, fun visit _ => obeys_enqueueTrace houtbox _ visit⟩

omit houtbox hfree in
theorem held_greetTrace (cfg : NodeConfig) (envs : ℕ → HelloEnv) (known : TableEntry × ℕ) :
    held [] (greetTrace cfg envs known) = [] := by
  obtain ⟨entry, i⟩ := known
  simp only [greetTrace]
  split_ifs
  · rfl
  · exact held_addedTrace cfg [] _

omit houtbox in
theorem obeys_greetTrace (envs : ℕ → HelloEnv) (known : TableEntry × ℕ) :
    Obeys allowed [] (greetTrace cfg envs known) := by
  obtain ⟨entry, i⟩ := known
  simp only [greetTrace]
  split_ifs
  · trivial
  · exact obeys_sendHelloTrace hfree _

omit houtbox in
theorem obeys_rediscoverTrace (table : List TableEntry) (envs : ℕ → HelloEnv) :
    Obeys allowed [] (rediscoverTrace cfg table envs) := by
  unfold rediscoverTrace
  rw [obeys_append, held_brief, obeys_brief,
    obeys_flatMap fun known _ => held_greetTrace cfg envs known]
  exact ⟨hfree, fun known _ => obeys_greetTrace hfree envs known⟩

omit hfree in
/-- The sender's thread locks nothing but its outbox, one section at a time. -/
theorem obeys_senderTrace (mac : Mac) (id : ℕ) (events : List OutboxEvent) (s : PeerConn) :
    Obeys allowed [] (senderTrace mac cfg id events s) := by
  have hstep : ∀ env s, held [] (threadTrace id env s) = [] ∧
      Obeys allowed [] (threadTrace id env s) := by
    intro env s
    have hbrief : held [] (brief (.outbox id)) = [] ∧ Obeys allowed [] (brief (.outbox id)) :=
      ⟨held_brief [] _, obeys_outbox houtbox [] id⟩
    unfold threadTrace
    split
    · split_ifs
      · exact hbrief
      · exact ⟨rfl, trivial⟩
    · exact ⟨rfl, trivial⟩
    · exact hbrief
  -- every step begins and ends with nothing held, whatever the state
  induction events generalizing s with
  | nil => trivial
  | cons event events ih =>
      cases event with
      | broadcast msg => exact ih (s.broadcast msg)
      | thread env =>
          rw [senderTrace, obeys_append, (hstep env s).1]
          exact ⟨(hstep env s).2, ih (threadStep mac cfg env s)⟩

/-! ## All executions -/

theorem obeys_trace_iff (mac : Mac) (e : Execution) :
    Obeys allowed [] (e.trace mac cfg) ↔ allowed [.peers] .peers ∨ e.Harmless cfg := by
  cases e with
  | peerReaperThread passes =>
      rw [Execution.trace, obeys_flatMap fun pass _ => held_reaperPass cfg pass]
      simp only [obeys_reaperPass houtbox hfree]
      by_cases htwice : allowed [.peers] .peers
      · simp [htwice]
      · simp only [htwice, false_or]
        rfl
  | broadcastSync cmd visits =>
      exact iff_of_true (obeys_broadcastTrace houtbox hfree cmd visits) (Or.inr trivial)
  | addPeerInternal call =>
      exact iff_of_true (obeys_addPeerTrace.mpr fun _ => hfree) (Or.inr trivial)
  | sendHello env => exact iff_of_true (obeys_sendHelloTrace hfree env) (Or.inr trivial)
  | parsePeerList payload payloadLen =>
      exact iff_of_true (obeys_addedTrace.mpr fun _ _ _ => hfree) (Or.inr trivial)
  | rediscoverFromKnownPeers table envs =>
      exact iff_of_true (obeys_rediscoverTrace hfree table envs) (Or.inr trivial)
  | peerSenderThread id now events =>
      exact iff_of_true (obeys_senderTrace houtbox mac id events _) (Or.inr trivial)

end Discipline

/-- The table is never locked by a thread that holds an outbox. -/
theorem obeys_outboxOrder (mac : Mac) (cfg : NodeConfig) (e : Execution) :
    Obeys outboxOrder [] (e.trace mac cfg) :=
  (obeys_trace_iff (fun _ _ => trivial) (fun _ => List.not_mem_nil) mac e).mpr
    (Or.inl fun _ => by simp)

theorem clusterOrder_free : clusterOrder [] .peers :=
  ⟨List.not_mem_nil, fun _ => List.not_mem_nil⟩

theorem not_clusterOrder_twice : ¬ clusterOrder [.peers] .peers :=
  fun h => h.1 List.mem_cons_self

/-- **The order is kept by every execution, except that of a reaper that greets a
peer and is told of another.** -/
theorem disciplined_iff (mac : Mac) (cfg : NodeConfig) (e : Execution) :
    e.Disciplined mac cfg ↔ e.Harmless cfg := by
  rw [Execution.Disciplined, obeys_trace_iff (fun _ _ => trivial) clusterOrder_free mac e]
  exact or_iff_right not_clusterOrder_twice

/-- A reaper that greets any peer with a table that lists a third node locks the
table twice. -/
theorem not_disciplined_of_listed (mac : Mac) {cfg : NodeConfig} (hsend : (sendHello cfg).isSome)
    (sender : NodeConfig) {peers : List Peer} (hpeers : ∀ p ∈ peers, p.Writable) {p : Peer}
    (hp : p ∈ peers.take maxDiscoveredPeers) (haccepted : p.endpoint.addCall.Accepted cfg)
    {now : Int} {entry : TableEntry} (hreaping : reaping cfg now entry = .healthcheck) :
    ∃ bytes r, sendPeerList sender true peers = some bytes ∧
      clusterRecvFrame true bytes = some (r, []) ∧
      ¬ (Execution.peerReaperThread [⟨now, [(entry, ⟨true, true, some r⟩)]⟩]).Disciplined
        mac cfg := by
  obtain ⟨bytes, r, hbytes, hrecv, hop, -, hadded⟩ := parsePeerList_sendPeerList cfg sender hpeers
  refine ⟨bytes, r, hbytes, hrecv, fun hdisciplined => ?_⟩
  rw [Execution.Disciplined, obeys_trace_iff (fun _ _ => trivial) clusterOrder_free mac]
    at hdisciplined
  have hharmless : HelloEnv.Harmless cfg ⟨true, true, some r⟩ :=
    hdisciplined.resolve_left not_clusterOrder_twice _ List.mem_cons_self _ List.mem_cons_self
      hreaping
  have hreply : sendHelloReply cfg ⟨true, true, some r⟩ =
      parsePeerList cfg r.payload r.frame.valueLen.toNat := by
    simp [sendHelloReply, hop, Option.isSome_iff_ne_none.mp hsend]
  unfold HelloEnv.Harmless at hharmless
  rw [hreply, hadded] at hharmless
  exact hharmless p.endpoint (List.mem_map_of_mem hp) haccepted

/-- A peer that has been silent for 16 seconds answers with a list of one other. -/
theorem disciplined_fails :
    ∃ bytes r, sendPeerList plainNode true [⟨[98], 2, 6, false, 0⟩] = some bytes ∧
      clusterRecvFrame true bytes = some (r, []) ∧
      ¬ (Execution.peerReaperThread
        [⟨16, [(⟨0, ⟨[97], 1, 5, false, 0⟩, true, 0, 0, 1⟩, ⟨true, true, some r⟩)]⟩]).Disciplined
        Mac.constant plainNode := by
  refine not_disciplined_of_listed Mac.constant (by decide) plainNode ?_ List.mem_cons_self
    (by decide) (by decide)
  intro p hp
  rw [List.mem_singleton.mp hp]
  exact ⟨by decide, by decide, by decide⟩

end Dmmr.Cluster
