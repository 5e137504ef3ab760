import Dmmr.Cluster.Seeds
import Mathlib.Data.Fintype.Card

/-!
# Discovery among any number of nodes

The discovery thread of a node greets its seeds, greets every peer a seed has told it
about, asks for a snapshot, and then greets all peers it knows of and has not got from its
own configuration (`discover_once`).  A greeting is a call of `send_hello`: the node that is
greeted enters the caller in its table and answers with the table, and the caller enters
what it has been told.  The reaper greets peers as well, and removes those that are idle.

The module puts these threads side by side, for any number of nodes.  A step is what a
thread does under the lock of one table, or between two of them: the node greeted enters
the caller in one step and copies its table in another, and the caller takes over the answer
one entry at a time.  Any call may fail, at any step.  A caller waits three seconds for an
answer, and a HELLO that is read later still enters it.

When a listener gets to a connection is left open here: it may be at any time, and two
callers may be answered at the same time.  `Dmmr.Cluster.Listeners` says which of these runs
a listener allows that serves one connection after the other.

What a thread has yet to do in a round is kept as a list of tasks, of which the first is
under way.  The numbers of rounds, and whether a call has failed, are history.

Whatever fails, the tables stay in order (`discovery_sound`): a table has one entry for a
node, with the endpoint of that node, and none for nodes that are not there or for its owner.
-/

namespace Dmmr.Cluster

open Words Store Wire

variable {ι : Type*}

/-! ## Nodes -/

/-- The nodes of a cluster.  Each of them has an endpoint and an identifier of its own, and
the seeds are nodes. -/
structure Deployment (ι : Type*) where
  cfg : ι → NodeConfig
  seeds : ι → Bytes
  valid : ∀ i, (cfg i).Valid
  id_ne_zero : ∀ i, (cfg i).myNodeId ≠ 0
  id_inj : ∀ {i j}, (cfg i).myNodeId = (cfg j).myNodeId → i = j
  endpoint_inj : ∀ {i j}, (cfg i).advertiseAddress = (cfg j).advertiseAddress →
    (cfg i).advertisePort = (cfg j).advertisePort → i = j
  seeds_real : ∀ i, ∀ e ∈ seedEndpoints (cfg i) (seeds i),
    ∃ j, e.addr = (cfg j).advertiseAddress ∧ e.port = (cfg j).advertisePort

/-- The node has this address and port. -/
def Deployment.At (d : Deployment ι) (j : ι) (addr : Bytes) (port : UInt16) : Prop :=
  addr = (d.cfg j).advertiseAddress ∧ port = (d.cfg j).advertisePort

instance (d : Deployment ι) (j : ι) (addr : Bytes) (port : UInt16) :
    Decidable (d.At j addr port) := inferInstanceAs (Decidable (_ ∧ _))

/-! ## State -/

/-- What the discovery thread has yet to do. -/
inductive Task
  /-- `add_peer` in `discover_seed`. -/
  | addSeed (seed : Endpoint)
  /-- `send_hello` to a seed. -/
  | greetSeed (seed : Endpoint)
  /-- `send_hello` to another peer. -/
  | greet (peer : Endpoint)
  /-- `request_snapshot`, unless one has succeeded. -/
  | requestSnapshot (seed : Endpoint)
  /-- `rediscover_from_known_peers`. -/
  | rediscover
  deriving DecidableEq

/-- Whom the task is to greet. -/
def Task.target : Task → Option Endpoint
  | greetSeed e | greet e => some e
  | _ => none

/-- How far `send_hello` has got. -/
inductive HelloStage (ι : Type*)
  | ready
  /-- The HELLO is on its way. -/
  | greeting (peer : ι)
  /-- The peer has entered the caller. -/
  | entered (peer : ι)
  /-- The peer has sent its list. -/
  | replied (peer : ι) (bytes : Bytes)
  /-- `parse_peer_list` is about to add the entries `todo`. -/
  | adding (peer : ι) (todo : List Endpoint) (rc : Int) (items : List Endpoint)
  deriving DecidableEq

/-- What a node has for discovery. -/
structure Site (ι : Type*) where
  peers : List Peer
  agenda : List Task
  stage : HelloStage ι
  bootstrapCompleted : Bool
  /-- The nodes at which a HELLO of this node waits although its caller has given up. -/
  abandoned : List ι
  /-- The rounds that have been begun, those that have ended, and the last one of which every
  HELLO was answered. -/
  begun : ℕ
  ended : ℕ
  answered : ℕ
  /-- A HELLO of the round has failed. -/
  failed : Bool

def Site.init : Site ι := ⟨[], [], .ready, false, [], 0, 0, 0, false⟩

/-! ## Steps -/

/-- The tasks of `discover_once`. -/
def discoverOnce (cfg : NodeConfig) (seeds : Bytes) : List Task :=
  if seeds = [] then [.rediscover]
  else (seedEndpoints cfg seeds).flatMap (fun seed => [.addSeed seed, .greetSeed seed]) ++
    [.rediscover]

/-- The peers that `rediscover_from_known_peers` copies from the table. -/
def knownEndpoints (peers : List Peer) : List Endpoint :=
  ((peers.filter fun p => !p.isSeed).take maxDiscoveredPeers).map Peer.endpoint

namespace Site

/-- `discover_once` is called. -/
def begin (cfg : NodeConfig) (seeds : Bytes) (t : Site ι) : Site ι :=
  { t with agenda := discoverOnce cfg seeds, begun := t.begun + 1, failed := false }

/-- `discover_once` returns. -/
def rest (t : Site ι) : Site ι :=
  { t with ended := t.begun, answered := if t.failed then t.answered else t.begun }

/-- `send_hello` returns, and its caller goes on. -/
def finish (t : Site ι) (rc : Int) (items : List Endpoint) : Site ι :=
  let t := { t with stage := .ready, failed := t.failed || decide (rc ≠ 0) }
  match t.agenda with
  | .greetSeed seed :: rest =>
      { t with
        agenda :=
          if rc ≠ 0 then rest
          else (items.filter fun e => e.port ≠ seed.port || e.addr ≠ seed.addr).map .greet ++
            .requestSnapshot seed :: rest }
  | _ :: rest => { t with agenda := rest }
  | [] => t

/-- A task other than a greeting; `snapshotOk` is the outcome of `request_snapshot`. -/
def task (cfg : NodeConfig) (allocOk : Bool) (now : Int) (snapshotOk : Bool) (t : Site ι) :
    Site ι :=
  match t.agenda with
  | .addSeed seed :: rest =>
      { t with
        agenda := rest
        peers := addPeerInternal cfg allocOk now t.peers seed.addr seed.port.toNat 0 true }
  | .requestSnapshot _ :: rest =>
      { t with agenda := rest, bootstrapCompleted := t.bootstrapCompleted || snapshotOk }
  | .rediscover :: rest =>
      { t with
        agenda := ((knownEndpoints t.peers).filter fun e =>
          !endpointIsSelf cfg e.addr e.port e.nodeId).map .greet ++ rest }
  | _ => t

/-- The answer is read. -/
def receive (cfg : NodeConfig) (allocOk : Bool) (peer : ι) (bytes : Bytes) (t : Site ι) :
    Site ι :=
  match clusterRecvFrame allocOk bytes with
  | none => t.finish (-1) []
  | some (r, _) =>
      if r.frame.opcode ≠ Opcode.clusterPeerList.code then t.finish (-1) []
      else
        let list := parsePeerList cfg r.payload r.frame.valueLen.toNat
        { t with stage := .adding peer list.added list.rc list.items }

end Site

/-- What happens at the node `a`, or in a call that it has made. -/
inductive DiscoveryEvent (ι : Type*)
  /-- The discovery thread calls `discover_once`. -/
  | begin (a : ι)
  /-- `discover_once` returns. -/
  | rest (a : ι)
  | task (a : ι) (allocOk : Bool) (now : Int) (snapshotOk : Bool)
  /-- `connect_endpoint` and the HELLO; a connection leads to the node that has the
  address. -/
  | connect (a : ι) (peer : Option ι)
  /-- `handle_cluster_hello` enters the caller. -/
  | enter (a : ι) (allocOk : Bool) (now : Int)
  /-- `send_peer_list`. -/
  | reply (a : ι) (allocOk sendOk : Bool)
  /-- `cluster_recv_frame` and `parse_peer_list`. -/
  | receive (a : ι) (allocOk : Bool)
  /-- `add_peer_with_node` in `parse_peer_list`, or the end of `send_hello`. -/
  | add (a : ι) (allocOk : Bool) (now : Int)
  /-- `peer_reaper_thread` removes a peer. -/
  | reap (a : ι) (addr : Bytes) (port : UInt16)
  /-- `send_hello` in `peer_reaper_thread`. -/
  | healthcheck (a peer : ι) (allocOk : Bool) (now : Int)
  /-- `DMMR_CLUSTER_TIMEOUT_SECONDS` have passed in `cluster_recv_frame`. -/
  | giveUp (a : ι)
  /-- The same in a call of `peer_reaper_thread`. -/
  | giveUpCheck (a peer : ι)
  /-- `handle_cluster_hello` enters a caller that has given up. -/
  | late (a peer : ι) (allocOk : Bool) (now : Int)

namespace Deployment

variable [DecidableEq ι] (d : Deployment ι)

/-- `handle_cluster_hello` at `b`, up to `send_peer_list`: a node without a secret does not
answer, and one with another name turns the caller away. -/
def welcome (s : ι → Site ι) (a b : ι) (allocOk : Bool) (now : Int) : Option (ι → Site ι) :=
  if (d.cfg b).clusterSecret = [] then none
  else
    match acceptHello (d.cfg b) (helloFrame (d.valid a)) with
    | none => none
    | some (address, port) =>
        some (Function.update s b
          { s b with
            peers := addPeerWithNode (d.cfg b) allocOk now (s b).peers address port
              (d.cfg a).myNodeId })

def step (s : ι → Site ι) : DiscoveryEvent ι → ι → Site ι
  | .begin a =>
      -- without seeds `cluster_start_discovery` does not start the thread
      if (s a).begun = (s a).ended ∧ d.seeds a ≠ [] then
        Function.update s a ((s a).begin (d.cfg a) (d.seeds a))
      else s
  | .rest a =>
      if (s a).begun ≠ (s a).ended ∧ (s a).agenda = [] then Function.update s a (s a).rest
      else s
  | .task a allocOk now snapshotOk =>
      Function.update s a ((s a).task (d.cfg a) allocOk now snapshotOk)
  | .connect a peer =>
      match (s a).stage, (s a).agenda.head?.bind Task.target with
      | .ready, some e =>
          match peer with
          | none => Function.update s a ((s a).finish (-1) [])
          | some b =>
              if d.At b e.addr e.port then
                Function.update s a { s a with stage := .greeting b }
              else s
      | _, _ => s
  | .enter a allocOk now =>
      match (s a).stage with
      | .greeting b =>
          match d.welcome s a b allocOk now with
          | none => Function.update s a ((s a).finish (-1) [])
          | some s' => Function.update s' a { s' a with stage := .entered b }
      | _ => s
  | .reply a allocOk sendOk =>
      match (s a).stage with
      | .entered b =>
          match sendPeerList (d.cfg b) allocOk (s b).peers with
          | none => Function.update s a ((s a).finish (-1) [])
          | some bytes =>
              if sendOk then Function.update s a { s a with stage := .replied b bytes }
              else Function.update s a ((s a).finish (-1) [])
      | _ => s
  | .receive a allocOk =>
      match (s a).stage with
      | .replied b bytes => Function.update s a ((s a).receive (d.cfg a) allocOk b bytes)
      | _ => s
  | .add a allocOk now =>
      match (s a).stage with
      | .adding b (e :: todo) rc items =>
          Function.update s a
            { s a with
              peers := addPeerWithNode (d.cfg a) allocOk now (s a).peers e.addr e.port e.nodeId
              stage := .adding b todo rc items }
      | .adding _ [] rc items => Function.update s a ((s a).finish rc items)
      | _ => s
  | .reap a addr port =>
      Function.update s a
        { s a with
          peers := (s a).peers.filter fun p => p.isSeed || p.port ≠ port || p.addr ≠ addr }
  | .healthcheck a b allocOk now =>
      -- the reaper has `peers_mutex`: it does not get past the first entry of an answer
      if (s a).peers.any fun p => d.At b p.addr p.port then (d.welcome s a b allocOk now).getD s
      else s
  | .giveUp a =>
      match (s a).stage with
      | .greeting b =>
          Function.update s a
            { (s a).finish (-1) [] with abandoned := b :: (s a).abandoned }
      | .entered _ | .replied _ _ => Function.update s a ((s a).finish (-1) [])
      | _ => s
  | .giveUpCheck a b =>
      if (s a).peers.any fun p => d.At b p.addr p.port then
        Function.update s a { s a with abandoned := b :: (s a).abandoned }
      else s
  | .late a b allocOk now =>
      if b ∈ (s a).abandoned then
        let s' := (d.welcome s a b allocOk now).getD s
        Function.update s' a { s' a with abandoned := (s' a).abandoned.erase b }
      else s

def run (s : ι → Site ι) (events : List (DiscoveryEvent ι)) : ι → Site ι := events.foldl d.step s

end Deployment

/-! ## A call of `add_peer_internal` -/

namespace Deployment

variable {d : Deployment ι} {a j k : ι} {addr : Bytes} {port : UInt16}

theorem At.unique (hj : d.At j addr port) (hk : d.At k addr port) : j = k :=
  d.endpoint_inj (hj.1.symm.trans hk.1) (hj.2.symm.trans hk.2)

/-- The endpoint is that of a node, with the identifier of the node or without one. -/
structure Real (d : Deployment ι) (j : ι) (e : Endpoint) : Prop where
  here : d.At j e.addr e.port
  id : e.nodeId = 0 ∨ e.nodeId = (d.cfg j).myNodeId

variable {e : Endpoint} {p : Peer} {peers : List Peer}

theorem isEndpoint_iff_of_real (hp : d.Real k p.endpoint) (he : d.Real j e) :
    p.isEndpoint e.addr e.port e.nodeId = true ↔ k = j := by
  rw [isEndpoint_iff]
  constructor
  · rintro (⟨hne, hid⟩ | ⟨haddr, hport⟩)
    · have hj := he.id.resolve_left hne
      have hk := hp.id.resolve_left (show p.nodeId ≠ 0 from hid ▸ hne)
      exact d.id_inj (hk.symm.trans (hid.trans hj))
    · exact hp.here.unique (show d.At j p.addr p.port from haddr ▸ hport ▸ he.here)
  · rintro rfl
    exact Or.inr ⟨hp.here.1.trans he.here.1.symm, hp.here.2.trans he.here.2.symm⟩

theorem endpointIsSelf_iff_of_real (he : d.Real j e) (a : ι) :
    endpointIsSelf (d.cfg a) e.addr e.port e.nodeId = true ↔ j = a := by
  simp only [endpointIsSelf, Bool.or_eq_true, Bool.and_eq_true, decide_eq_true_eq, beq_iff_eq]
  constructor
  · rintro (⟨hne, hid⟩ | ⟨hport, haddr⟩)
    · exact d.id_inj ((he.id.resolve_left hne).symm.trans hid)
    · exact he.here.unique ⟨haddr, hport⟩
  · rintro rfl
    exact Or.inr ⟨he.here.2, he.here.1⟩

/-- The table of the node `a`: one entry for a node, none for `a`, and `is_seed` only where
the configuration says so. -/
structure Table (d : Deployment ι) (a : ι) (peers : List Peer) : Prop where
  real : ∀ p ∈ peers, ∃ j, j ≠ a ∧ d.Real j p.endpoint
  distinct : peers.Pairwise fun p q => ¬ (p.addr = q.addr ∧ p.port = q.port)
  seeds : ∀ p ∈ peers, p.isSeed = true →
    ∃ e ∈ seedEndpoints (d.cfg a) (d.seeds a), p.addr = e.addr ∧ p.port = e.port

theorem table_nil (d : Deployment ι) (a : ι) : d.Table a [] :=
  ⟨by simp, List.Pairwise.nil, by simp⟩

/-- The table has an entry for the node. -/
def Knows (d : Deployment ι) (peers : List Peer) (j : ι) : Prop := ∃ p ∈ peers, d.At j p.addr p.port

/-- A call for a node leaves the table alone, updates the entry of the node or appends
one. -/
theorem Table.add_cases (h : d.Table a peers) (he : d.Real j e) (allocOk : Bool) (now : Int)
    (isSeed : Bool) :
    (addPeerInternal (d.cfg a) allocOk now peers e.addr e.port.toNat e.nodeId isSeed = peers ∧
        (j = a ∨ allocOk = false)) ∨
      (j ≠ a ∧ ∃ before p after, peers = before ++ p :: after ∧ d.Real j p.endpoint ∧
        addPeerInternal (d.cfg a) allocOk now peers e.addr e.port.toNat e.nodeId isSeed =
          before ++ p.update e.addr e.port e.nodeId isSeed now :: after) ∨
      (j ≠ a ∧ ¬ d.Knows peers j ∧
        addPeerInternal (d.cfg a) allocOk now peers e.addr e.port.toNat e.nodeId isSeed =
          peers ++ [⟨e.addr, e.port, e.nodeId, isSeed, now⟩]) := by
  have hport : ¬ ((e.port.toNat : Int) < 1 ∨ (e.port.toNat : Int) > 65535) := by
    have hne : e.port.toNat ≠ 0 := by
      rw [he.here.2]
      exact fun hzero => (d.valid j).port_ne (UInt16.toNat_inj.mp hzero)
    have hlt := e.port.toNat_lt
    omega
  unfold addPeerInternal
  rw [if_neg hport]
  simp only [Int.toNat_natCast, UInt16.ofNat_toNat]
  by_cases hself : j = a
  · rw [if_pos (Or.inr (Or.inr ((endpointIsSelf_iff_of_real he a).mpr hself)))]
    exact Or.inl ⟨rfl, Or.inl hself⟩
  have haddr : ¬ (e.addr.length = 0 ∨ e.addr.length > peerAddrMax ∨
      endpointIsSelf (d.cfg a) e.addr e.port e.nodeId = true) := by
    rw [endpointIsSelf_iff_of_real he, he.here.1, List.length_eq_zero_iff]
    rintro (hnil | hlong | heq)
    · exact (d.valid j).address_ne hnil
    · exact absurd (d.valid j).address_le (not_le.mpr hlong)
    · exact hself heq
  rw [if_neg haddr]
  rcases updatePeer_cases e.addr e.port e.nodeId isSeed now peers with
    ⟨hnone, hupdate⟩ | ⟨before, p, after, rfl, -, hp, hupdate⟩
  · rw [hupdate]
    cases allocOk with
    | false => exact Or.inl ⟨rfl, Or.inr rfl⟩
    | true =>
        refine Or.inr (Or.inr ⟨hself, ?_, rfl⟩)
        rintro ⟨p, hp, hat⟩
        obtain ⟨k, -, hreal⟩ := h.real p hp
        have hcandidate := (isEndpoint_iff_of_real hreal he).mpr (hreal.here.unique hat)
        rw [hnone p hp] at hcandidate
        exact absurd hcandidate (by simp)
  · rw [hupdate]
    refine Or.inr (Or.inl ⟨hself, before, p, after, rfl, ?_, rfl⟩)
    obtain ⟨k, -, hreal⟩ := h.real p (by simp)
    exact (isEndpoint_iff_of_real hreal he).mp hp ▸ hreal

/-- The updated entry is one for the same node. -/
theorem real_update (he : d.Real j e) (hp : d.Real j p.endpoint) (isSeed : Bool) (now : Int) :
    d.Real j (p.update e.addr e.port e.nodeId isSeed now).endpoint := by
  refine ⟨he.here, ?_⟩
  by_cases hzero : e.nodeId = 0
  · simpa [Peer.update, Peer.endpoint, hzero] using hp.id
  · simpa [Peer.update, Peer.endpoint, hzero] using he.id.resolve_left hzero

/-- The table stays in order. -/
theorem Table.add (h : d.Table a peers) (he : d.Real j e) (allocOk : Bool) (now : Int)
    {isSeed : Bool} (hseed : isSeed = true →
      ∃ e' ∈ seedEndpoints (d.cfg a) (d.seeds a), e.addr = e'.addr ∧ e.port = e'.port) :
    d.Table a
      (addPeerInternal (d.cfg a) allocOk now peers e.addr e.port.toNat e.nodeId isSeed) := by
  rcases h.add_cases he allocOk now isSeed with
    ⟨heq, -⟩ | ⟨hne, before, p, after, rfl, hp, heq⟩ | ⟨hne, hnew, heq⟩
  · rw [heq]
    exact h
  · rw [heq]
    -- the entry keeps its endpoint
    have haddr : p.addr = e.addr := hp.here.1.trans he.here.1.symm
    have hport : p.port = e.port := hp.here.2.trans he.here.2.symm
    obtain ⟨hfront, hrear, hacross⟩ := List.pairwise_append.mp h.distinct
    obtain ⟨hhead, hafter⟩ := List.pairwise_cons.mp hrear
    have hold : ∀ q, q ∈ before ++ p.update e.addr e.port e.nodeId isSeed now :: after →
        q ∈ before ++ p :: after ∨ q = p.update e.addr e.port e.nodeId isSeed now := by
      intro q hq
      simp only [List.mem_append, List.mem_cons] at hq ⊢
      tauto
    constructor
    · intro q hq
      rcases hold q hq with hq | rfl
      · exact h.real q hq
      · exact ⟨j, hne, real_update he hp isSeed now⟩
    · refine List.pairwise_append.mpr ⟨hfront, List.pairwise_cons.mpr ⟨?_, hafter⟩, ?_⟩
      · intro q hq
        rw [show (p.update e.addr e.port e.nodeId isSeed now).addr = p.addr from haddr.symm,
          show (p.update e.addr e.port e.nodeId isSeed now).port = p.port from hport.symm]
        exact hhead q hq
      · intro q hq x hx
        rcases List.mem_cons.mp hx with rfl | hx
        · rw [show (p.update e.addr e.port e.nodeId isSeed now).addr = p.addr from haddr.symm,
            show (p.update e.addr e.port e.nodeId isSeed now).port = p.port from hport.symm]
          exact hacross q hq p List.mem_cons_self
        · exact hacross q hq x (List.mem_cons_of_mem p hx)
    · intro q hq hflag
      rcases hold q hq with hq | rfl
      · exact h.seeds q hq hflag
      · rcases Bool.or_eq_true_iff.mp hflag with hp' | hnew
        · obtain ⟨e', he', hat⟩ := h.seeds p (by simp) hp'
          exact ⟨e', he', haddr ▸ hat.1, hport ▸ hat.2⟩
        · exact hseed hnew
  · rw [heq]
    constructor
    · intro q hq
      rcases List.mem_append.mp hq with hq | hq
      · exact h.real q hq
      · rw [List.mem_singleton.mp hq]
        exact ⟨j, hne, he⟩
    · refine List.pairwise_append.mpr ⟨h.distinct, List.pairwise_singleton _ _, ?_⟩
      intro p hp q hq
      rw [List.mem_singleton.mp hq]
      rintro ⟨haddr, hport⟩
      exact hnew ⟨p, hp, haddr.trans he.here.1, hport.trans he.here.2⟩
    · intro q hq hflag
      rcases List.mem_append.mp hq with hq | hq
      · exact h.seeds q hq hflag
      · rw [List.mem_singleton.mp hq] at hflag ⊢
        exact hseed hflag

/-- Who is known after the call. -/
theorem Table.knows_add (h : d.Table a peers) (he : d.Real j e) (allocOk : Bool) (now : Int)
    (isSeed : Bool) :
    (∀ b, d.Knows peers b → d.Knows
        (addPeerInternal (d.cfg a) allocOk now peers e.addr e.port.toNat e.nodeId isSeed) b) ∧
      (j ≠ a → allocOk = true → d.Knows
        (addPeerInternal (d.cfg a) allocOk now peers e.addr e.port.toNat e.nodeId isSeed) j) := by
  rcases h.add_cases he allocOk now isSeed with
    ⟨heq, hwhy⟩ | ⟨hne, before, p, after, rfl, hp, heq⟩ | ⟨hne, hnew, heq⟩
  · rw [heq]
    refine ⟨fun b hb => hb, fun hne halloc => ?_⟩
    rcases hwhy with hself | hfail
    · exact absurd hself hne
    · rw [halloc] at hfail
      exact absurd hfail (by simp)
  · rw [heq]
    constructor
    · rintro b ⟨q, hq, hat⟩
      rcases List.mem_append.mp hq with hq | hq
      · exact ⟨q, List.mem_append_left _ hq, hat⟩
      · rcases List.mem_cons.mp hq with rfl | hq
        · obtain rfl := hp.here.unique hat
          exact ⟨_, List.mem_append_right _ List.mem_cons_self, he.here⟩
        · exact ⟨q, List.mem_append_right _ (List.mem_cons_of_mem _ hq), hat⟩
    · exact fun _ _ => ⟨_, List.mem_append_right _ List.mem_cons_self, he.here⟩
  · rw [heq]
    constructor
    · rintro b ⟨q, hq, hat⟩
      exact ⟨q, List.mem_append_left _ hq, hat⟩
    · exact fun _ _ => ⟨_, List.mem_append_right _ (List.mem_singleton_self _), he.here⟩

/-- A table has room for every node but its owner. -/
theorem Table.length_lt [Fintype ι] (h : d.Table a peers) : peers.length < Fintype.card ι := by
  classical
  have hnodup : (peers.map fun p => (p.addr, p.port)).Nodup := by
    rw [List.Nodup, List.pairwise_map]
    refine h.distinct.imp fun hne heq => hne ?_
    exact ⟨congrArg Prod.fst heq, congrArg Prod.snd heq⟩
  have hsubset : (peers.map fun p => (p.addr, p.port)).toFinset ⊆
      (Finset.univ.erase a).image fun j =>
        ((d.cfg j).advertiseAddress, (d.cfg j).advertisePort) := by
    intro x hx
    obtain ⟨p, hp, rfl⟩ := List.mem_map.mp (List.mem_toFinset.mp hx)
    obtain ⟨j, hj, hreal⟩ := h.real p hp
    refine Finset.mem_image.mpr ⟨j, Finset.mem_erase.mpr ⟨hj, Finset.mem_univ j⟩, ?_⟩
    exact Prod.ext hreal.here.1.symm hreal.here.2.symm
  have hcard := (Finset.card_le_card hsubset).trans Finset.card_image_le
  rw [List.toFinset_card_of_nodup hnodup, List.length_map,
    Finset.card_erase_of_mem (Finset.mem_univ a), Finset.card_univ] at hcard
  have hpos : 0 < Fintype.card ι := Fintype.card_pos_iff.mpr ⟨a⟩
  omega

/-- No node has two entries. -/
theorem Table.length_filter_le (h : d.Table a peers) (j : ι) :
    (peers.filter fun p => d.At j p.addr p.port).length ≤ 1 := by
  have hdistinct := h.distinct.filter fun p => decide (d.At j p.addr p.port)
  have hat : ∀ p ∈ peers.filter fun p => d.At j p.addr p.port, d.At j p.addr p.port :=
    fun p hp => of_decide_eq_true (List.mem_filter.mp hp).2
  rcases hlist : peers.filter fun p => d.At j p.addr p.port with _ | ⟨p, _ | ⟨q, rest⟩⟩
  · rw [hlist]
    simp
  · rw [hlist]
    simp
  · rw [hlist] at hdistinct hat
    have hp := hat p (by simp)
    have hq := hat q (by simp)
    exact absurd ⟨hp.1.trans hq.1.symm, hp.2.trans hq.2.symm⟩
      ((List.pairwise_cons.mp hdistinct).1 q (by simp))

/-! ## What is in a list -/

theorem Table.writable (h : d.Table a peers) : ∀ p ∈ peers, p.Writable := by
  intro p hp
  obtain ⟨j, -, hreal⟩ := h.real p hp
  have haddr : p.addr = (d.cfg j).advertiseAddress := hreal.here.1
  rw [Peer.Writable, haddr]
  exact ⟨(d.valid j).address_ne, (d.valid j).address_le, (d.valid j).address_nul⟩

end Deployment

theorem sendPeerList_of_some {cfg : NodeConfig} {allocOk : Bool} {peers : List Peer}
    {bytes : Bytes} (h : sendPeerList cfg allocOk peers = some bytes) :
    sendPeerList cfg true peers = some bytes := by
  cases allocOk with
  | true => exact h
  | false =>
      unfold sendPeerList at h
      simp at h

theorem items_parsePeerList (cfg : NodeConfig) (payload : Option Bytes) (len : ℕ) :
    (parsePeerList cfg payload len).items =
      ((parsePeerList cfg payload len).added.filter fun e =>
        !endpointIsSelf cfg e.addr e.port e.nodeId).take maxDiscoveredPeers := by
  unfold parsePeerList
  split
  · rfl
  · split_ifs <;> rfl

namespace Deployment

variable {d : Deployment ι} {a b : ι} {peers : List Peer} {bytes : Bytes}

/-- The list of a table in order is read as it was written. -/
theorem Table.receive (h : d.Table b peers)
    (hbytes : sendPeerList (d.cfg b) true peers = some bytes) {allocOk : Bool} {r : Received}
    {rest : Bytes} (hrecv : clusterRecvFrame allocOk bytes = some (r, rest)) (cfg : NodeConfig) :
    r.frame.opcode = Opcode.clusterPeerList.code ∧
      (parsePeerList cfg r.payload r.frame.valueLen.toNat).rc = 0 ∧
      (parsePeerList cfg r.payload r.frame.valueLen.toNat).added =
        (peers.take maxDiscoveredPeers).map Peer.endpoint := by
  obtain ⟨bytes', r', hbytes', hrecv', hopcode, hrc, hadded⟩ :=
    parsePeerList_sendPeerList cfg (d.cfg b) h.writable
  obtain rfl : bytes' = bytes := Option.some.inj (hbytes'.symm.trans hbytes)
  obtain rfl : r' = r := congrArg Prod.fst
    (Option.some.inj (hrecv'.symm.trans (clusterRecvFrame_inv hrecv).1))
  exact ⟨hopcode, hrc, hadded⟩

theorem Table.receive_true (h : d.Table b peers)
    (hbytes : sendPeerList (d.cfg b) true peers = some bytes) :
    ∃ r rest, clusterRecvFrame true bytes = some (r, rest) := by
  obtain ⟨bytes', r, hbytes', hrecv, -⟩ := parsePeerList_sendPeerList (d.cfg b) (d.cfg b) h.writable
  obtain rfl : bytes' = bytes := Option.some.inj (hbytes'.symm.trans hbytes)
  exact ⟨r, [], hrecv⟩

/-! ## The nodes stay in order -/

end Deployment

/-- The endpoint of a task. -/
def Task.endpoint : Task → Option Endpoint
  | addSeed e | greetSeed e | greet e | requestSnapshot e => some e
  | rediscover => none

theorem Task.endpoint_of_target {task : Task} {e : Endpoint} (h : task.target = some e) :
    task.endpoint = some e := by
  cases task with
  | greetSeed | greet => exact h
  | _ => simp [Task.target] at h

/-- The peer that is being greeted. -/
def HelloStage.peer : HelloStage ι → Option ι
  | ready => none
  | greeting b | entered b | replied b _ | adding b _ _ _ => some b

namespace Deployment

/-- What is on its way to the node has come from a table in order. -/
def StageOk (d : Deployment ι) (a : ι) : HelloStage ι → Prop
  | .replied b bytes => ∃ peers, d.Table b peers ∧ sendPeerList (d.cfg b) true peers = some bytes
  | .adding _ todo _ items =>
      (∀ e ∈ todo, ∃ j, d.Real j e) ∧ ∀ e ∈ items, ∃ j, j ≠ a ∧ d.Real j e
  | _ => True

/-- A node in order. -/
structure SiteOk (d : Deployment ι) (a : ι) (t : Site ι) : Prop where
  table : d.Table a t.peers
  agenda : ∀ task ∈ t.agenda, ∀ e, task.endpoint = some e → ∃ j, j ≠ a ∧ d.At j e.addr e.port
  seeds : ∀ e, .addSeed e ∈ t.agenda → e ∈ seedEndpoints (d.cfg a) (d.seeds a)
  head : ∀ b, t.stage.peer = some b →
    ∃ e, t.agenda.head?.bind Task.target = some e ∧ d.At b e.addr e.port
  stage : d.StageOk a t.stage
  idle : t.begun = t.ended → t.agenda = []
  answered : t.answered ≤ t.begun

variable {d : Deployment ι} {a b : ι} {t : Site ι}

theorem siteOk_init (d : Deployment ι) (a : ι) : d.SiteOk a .init :=
  ⟨d.table_nil a, by simp [Site.init], by simp [Site.init], by simp [Site.init, HelloStage.peer],
    trivial, fun _ => rfl, le_rfl⟩

/-- If the first task is not a greeting, none is under way. -/
theorem SiteOk.ready (h : d.SiteOk a t) (hhead : t.agenda.head?.bind Task.target = none) :
    t.stage = .ready := by
  have hpeer : ∀ b, t.stage.peer ≠ some b := by
    intro b hb
    obtain ⟨e, he, -⟩ := h.head b hb
    exact absurd (hhead.symm.trans he) (by simp)
  cases hstage : t.stage with
  | ready => rfl
  | greeting b | entered b | replied b _ | adding b _ _ _ =>
      rw [hstage] at hpeer
      exact absurd rfl (hpeer b)

/-- Nobody greets itself. -/
theorem SiteOk.peer_ne (h : d.SiteOk a t) (hb : t.stage.peer = some b) : b ≠ a := by
  obtain ⟨e, he, hat⟩ := h.head b hb
  obtain ⟨task, htask, htarget⟩ := Option.bind_eq_some_iff.mp he
  obtain ⟨j, hj, hat'⟩ := h.agenda task (List.mem_of_head? htask) e
    (Task.endpoint_of_target htarget)
  exact hat.unique hat' ▸ hj

theorem SiteOk.setPeers (h : d.SiteOk a t) {peers : List Peer} (hpeers : d.Table a peers) :
    d.SiteOk a { t with peers := peers } :=
  ⟨hpeers, h.agenda, h.seeds, h.head, h.stage, h.idle, h.answered⟩

theorem SiteOk.setAbandoned (h : d.SiteOk a t) (abandoned : List ι) :
    d.SiteOk a { t with abandoned := abandoned } :=
  ⟨h.table, h.agenda, h.seeds, h.head, h.stage, h.idle, h.answered⟩

/-- The greeting goes on. -/
theorem SiteOk.setStage (h : d.SiteOk a t) (stage : HelloStage ι)
    (hpeer : stage.peer = t.stage.peer) (hstage : d.StageOk a stage) :
    d.SiteOk a { t with stage := stage } :=
  ⟨h.table, h.agenda, h.seeds, fun b hb => h.head b (hpeer ▸ hb), hstage, h.idle,
    h.answered⟩

/-- Other tasks take the place of the first. -/
theorem SiteOk.setAgenda (h : d.SiteOk a t) {task : Task} {rest : List Task}
    (hagenda : t.agenda = task :: rest) (new : List Task)
    (hnew : ∀ task ∈ new, ∀ e, task.endpoint = some e → ∃ j, j ≠ a ∧ d.At j e.addr e.port)
    (hseeds : ∀ e, .addSeed e ∉ new) (failed : Bool) :
    d.SiteOk a { t with stage := .ready, agenda := new ++ rest, failed := failed } where
  table := h.table
  agenda := by
    intro task' htask' e he
    rcases List.mem_append.mp htask' with hmem | hmem
    · exact hnew task' hmem e he
    · exact h.agenda task' (hagenda ▸ List.mem_cons_of_mem task hmem) e he
  seeds := by
    intro e he
    rcases List.mem_append.mp he with hmem | hmem
    · exact absurd hmem (hseeds e)
    · exact h.seeds e (hagenda ▸ List.mem_cons_of_mem task hmem)
  head := by simp [HelloStage.peer]
  stage := trivial
  idle := fun hidle => absurd (hagenda.symm.trans (h.idle hidle)) (by simp)
  answered := h.answered

theorem SiteOk.finish (h : d.SiteOk a t) (rc : Int) {items : List Endpoint}
    (hitems : ∀ e ∈ items, ∃ j, j ≠ a ∧ d.Real j e) : d.SiteOk a (t.finish rc items) := by
  unfold Site.finish
  dsimp only
  split
  next seed rest hagenda =>
    split_ifs with hrc
    · exact h.setAgenda hagenda [] (by simp) (by simp) _
    · rw [List.append_cons]
      refine h.setAgenda hagenda _ ?_ (by simp) _
      intro task htask e he
      rcases List.mem_append.mp htask with hmem | hmem
      · obtain ⟨e', he', rfl⟩ := List.mem_map.mp hmem
        obtain rfl : e' = e := Option.some.inj he
        obtain ⟨j, hj, hreal⟩ := hitems e' (List.mem_of_mem_filter he')
        exact ⟨j, hj, hreal.here⟩
      · obtain rfl := List.mem_singleton.mp hmem
        obtain rfl : seed = e := Option.some.inj he
        exact h.agenda (.greetSeed seed) (hagenda ▸ List.mem_cons_self) seed rfl
  next task rest _ hagenda => exact h.setAgenda hagenda [] (by simp) (by simp) _
  next hagenda =>
    exact ⟨h.table, h.agenda, h.seeds, by simp [HelloStage.peer], trivial, h.idle,
      h.answered⟩

/-! ### The steps of a node -/

/-- The seeds of a node are other nodes. -/
theorem seed_ne (d : Deployment ι) {e : Endpoint}
    (he : e ∈ seedEndpoints (d.cfg a) (d.seeds a)) : ∃ j, j ≠ a ∧ d.At j e.addr e.port := by
  obtain ⟨j, hat⟩ := d.seeds_real a e he
  obtain ⟨token, -, htoken⟩ := List.mem_filterMap.mp he
  have hself := (Option.filter_eq_some_iff.mp htoken).2
  refine ⟨j, fun hj => ?_, hat⟩
  have hreal : d.Real j ⟨e.addr, e.port, 0⟩ := ⟨hat, Or.inl rfl⟩
  rw [(endpointIsSelf_iff_of_real hreal a).mpr hj] at hself
  simp at hself

theorem mem_discoverOnce {cfg : NodeConfig} {seeds : Bytes} {task : Task}
    (h : task ∈ discoverOnce cfg seeds) :
    task = .rediscover ∨
      ∃ e ∈ seedEndpoints cfg seeds, task = .addSeed e ∨ task = .greetSeed e := by
  unfold discoverOnce at h
  split_ifs at h
  · exact Or.inl (List.mem_singleton.mp h)
  · rcases List.mem_append.mp h with hmem | hmem
    · obtain ⟨e, he, hmem⟩ := List.mem_flatMap.mp hmem
      exact Or.inr ⟨e, he, by simpa using hmem⟩
    · exact Or.inl (List.mem_singleton.mp hmem)

/-- Each seed is entered and greeted. -/
theorem mem_discoverOnce_of_seed {cfg : NodeConfig} {seeds : Bytes} (hseeds : seeds ≠ [])
    {e : Endpoint} (he : e ∈ seedEndpoints cfg seeds) :
    .addSeed e ∈ discoverOnce cfg seeds ∧ .greetSeed e ∈ discoverOnce cfg seeds := by
  unfold discoverOnce
  rw [if_neg hseeds]
  constructor
  all_goals exact List.mem_append_left _ (List.mem_flatMap.mpr ⟨e, he, by simp⟩)

theorem SiteOk.begin (h : d.SiteOk a t) (hidle : t.begun = t.ended) :
    d.SiteOk a (t.begin (d.cfg a) (d.seeds a)) where
  table := h.table
  agenda := by
    intro task htask e he
    rcases mem_discoverOnce htask with rfl | ⟨e', he', rfl | rfl⟩
    · simp [Task.endpoint] at he
    all_goals
      obtain rfl : e' = e := Option.some.inj he
      exact d.seed_ne he'
  seeds := by
    intro e he
    rcases mem_discoverOnce he with heq | ⟨e', he', heq | heq⟩
    · simp at heq
    · obtain rfl : e = e' := by simpa using heq
      exact he'
    · simp at heq
  head := by simp [Site.begin, h.ready (by simp [h.idle hidle]), HelloStage.peer]
  stage := by
    rw [Site.begin, h.ready (by simp [h.idle hidle])]
    trivial
  idle := fun heq => absurd heq (by simp [Site.begin, hidle])
  answered := h.answered.trans (Nat.le_succ _)

theorem SiteOk.rest (h : d.SiteOk a t) (hagenda : t.agenda = []) :
    d.SiteOk a t.rest := by
  refine ⟨h.table, h.agenda, h.seeds, h.head, h.stage, fun _ => hagenda, ?_⟩
  cases hfailed : t.failed with
  | true => simpa [Site.rest, hfailed] using h.answered
  | false => simp [Site.rest, hfailed]

theorem SiteOk.task (h : d.SiteOk a t) (allocOk : Bool) (now : Int) (snapshotOk : Bool) :
    d.SiteOk a (t.task (d.cfg a) allocOk now snapshotOk) := by
  unfold Site.task
  split
  next seed rest hagenda =>
    have hseed := h.seeds seed (hagenda ▸ List.mem_cons_self)
    obtain ⟨j, -, hat⟩ := d.seed_ne hseed
    have hreal : d.Real j ⟨seed.addr, seed.port, 0⟩ := ⟨hat, Or.inl rfl⟩
    have hnext := h.setAgenda hagenda [] (by simp) (by simp) t.failed
    rw [← h.ready (by rw [hagenda]; rfl)] at hnext
    exact hnext.setPeers (h.table.add hreal allocOk now fun _ => ⟨seed, hseed, rfl, rfl⟩)
  next seed rest hagenda =>
    have hnext := h.setAgenda hagenda [] (by simp) (by simp) t.failed
    rw [← h.ready (by rw [hagenda]; rfl)] at hnext
    exact ⟨hnext.table, hnext.agenda, hnext.seeds, hnext.head, hnext.stage, hnext.idle,
      hnext.answered⟩
  next rest hagenda =>
    rw [h.ready (by rw [hagenda]; rfl)]
    refine h.setAgenda hagenda _ ?_ (by simp) t.failed
    intro task htask e he
    obtain ⟨e', he', rfl⟩ := List.mem_map.mp htask
    obtain rfl : e' = e := Option.some.inj he
    obtain ⟨p, hp, rfl⟩ := List.mem_map.mp (List.mem_of_mem_filter he')
    obtain ⟨j, hj, hreal⟩ := h.table.real p (List.mem_of_mem_filter (List.mem_of_mem_take hp))
    exact ⟨j, hj, hreal.here⟩
  next => exact h

theorem SiteOk.receive (h : d.SiteOk a t) (allocOk : Bool) {bytes : Bytes}
    (hstage : t.stage = .replied b bytes) :
    d.SiteOk a (t.receive (d.cfg a) allocOk b bytes) := by
  have hreplied := h.stage
  rw [hstage] at hreplied
  obtain ⟨peers, htable, hbytes⟩ := hreplied
  unfold Site.receive
  split
  next => exact h.finish (-1) (by simp)
  next r rest hrecv =>
    obtain ⟨hopcode, -, hadded⟩ := htable.receive hbytes hrecv (d.cfg a)
    rw [if_neg (not_not.mpr hopcode)]
    refine h.setStage _ (by rw [hstage]; rfl) ?_
    have hreal : ∀ e ∈ (parsePeerList (d.cfg a) r.payload r.frame.valueLen.toNat).added,
        ∃ j, d.Real j e := by
      rw [hadded]
      intro e he
      obtain ⟨p, hp, rfl⟩ := List.mem_map.mp he
      obtain ⟨j, -, hreal⟩ := htable.real p (List.mem_of_mem_take hp)
      exact ⟨j, hreal⟩
    refine ⟨hreal, fun e he => ?_⟩
    rw [items_parsePeerList] at he
    obtain ⟨hmem, hself⟩ := List.mem_filter.mp (List.mem_of_mem_take he)
    obtain ⟨j, hj⟩ := hreal e hmem
    refine ⟨j, fun hja => ?_, hj⟩
    rw [(endpointIsSelf_iff_of_real hj a).mpr hja] at hself
    simp at hself

theorem SiteOk.addEntry (h : d.SiteOk a t) (allocOk : Bool) (now : Int) {e : Endpoint}
    {todo items : List Endpoint} {rc : Int} (hstage : t.stage = .adding b (e :: todo) rc items) :
    d.SiteOk a
      { t with
        peers := addPeerWithNode (d.cfg a) allocOk now t.peers e.addr e.port e.nodeId
        stage := .adding b todo rc items } := by
  have hadding := h.stage
  rw [hstage] at hadding
  obtain ⟨htodo, hitems⟩ := hadding
  obtain ⟨j, hj⟩ := htodo e List.mem_cons_self
  refine (h.setStage (.adding b todo rc items) (by rw [hstage]; rfl) ?_).setPeers
    (h.table.add hj allocOk now (by simp))
  exact ⟨fun e' he' => htodo e' (List.mem_cons_of_mem e he'), hitems⟩

theorem SiteOk.addEnd (h : d.SiteOk a t) {items : List Endpoint} {rc : Int}
    (hstage : t.stage = .adding b [] rc items) : d.SiteOk a (t.finish rc items) := by
  have hadding := h.stage
  rw [hstage] at hadding
  exact h.finish rc hadding.2

theorem Table.filter {peers : List Peer} (h : d.Table a peers) (keep : Peer → Bool) :
    d.Table a (peers.filter keep) :=
  ⟨fun p hp => h.real p (List.mem_of_mem_filter hp), h.distinct.filter keep,
    fun p hp => h.seeds p (List.mem_of_mem_filter hp)⟩

/-- A caller that is let in is a node. -/
theorem SiteOk.welcome (h : d.SiteOk b t) (allocOk : Bool) (now : Int) (a : ι) :
    d.SiteOk b
      { t with
        peers := addPeerWithNode (d.cfg b) allocOk now t.peers (d.cfg a).advertiseAddress
          (d.cfg a).advertisePort (d.cfg a).myNodeId } :=
  have hreal : d.Real a
      ⟨(d.cfg a).advertiseAddress, (d.cfg a).advertisePort, (d.cfg a).myNodeId⟩ :=
    ⟨⟨rfl, rfl⟩, Or.inr rfl⟩
  h.setPeers (h.table.add hreal allocOk now (by simp))

/-! ### Runs -/

/-- All nodes are in order. -/
def Ok (d : Deployment ι) (s : ι → Site ι) : Prop := ∀ i, d.SiteOk i (s i)

theorem ok_init (d : Deployment ι) : d.Ok fun _ => .init := fun i => siteOk_init d i

variable [DecidableEq ι] {s : ι → Site ι}

theorem Ok.update (h : d.Ok s) {t : Site ι} (ht : d.SiteOk a t) :
    d.Ok (Function.update s a t) := by
  intro i
  by_cases hi : i = a
  · subst hi
    rwa [Function.update_self]
  · rw [Function.update_of_ne hi]
    exact h i

/-- The nodes after `handle_cluster_hello`. -/
theorem welcome_eq {s' : ι → Site ι} {allocOk : Bool} {now : Int}
    (h : d.welcome s a b allocOk now = some s') :
    s' = Function.update s b
      { s b with
        peers := addPeerWithNode (d.cfg b) allocOk now (s b).peers (d.cfg a).advertiseAddress
          (d.cfg a).advertisePort (d.cfg a).myNodeId } := by
  unfold welcome at h
  rw [acceptHello_helloFrame (d.valid a) (d.id_ne_zero a)] at h
  split_ifs at h
  exact (Option.some.inj h).symm

theorem Ok.welcome (h : d.Ok s) {s' : ι → Site ι} {allocOk : Bool} {now : Int}
    (hwelcome : d.welcome s a b allocOk now = some s') : d.Ok s' := by
  rw [welcome_eq hwelcome]
  exact h.update ((h b).welcome allocOk now a)

theorem Ok.getD_welcome (h : d.Ok s) (a b : ι) (allocOk : Bool) (now : Int) :
    d.Ok ((d.welcome s a b allocOk now).getD s) := by
  cases hwelcome : d.welcome s a b allocOk now with
  | none => exact h
  | some s' => exact h.welcome hwelcome

/-- Every step keeps all nodes in order. -/
theorem Ok.step (h : d.Ok s) (event : DiscoveryEvent ι) : d.Ok (d.step s event) := by
  have hfail : ∀ a, d.Ok (Function.update s a ((s a).finish (-1) [])) :=
    fun a => h.update ((h a).finish (-1) (by simp))
  cases event with
  | begin a =>
      simp only [Deployment.step]
      split_ifs with hidle
      · exact h.update ((h a).begin hidle.1)
      · exact h
  | rest a =>
      simp only [Deployment.step]
      split_ifs with hend
      · exact h.update ((h a).rest hend.2)
      · exact h
  | task a allocOk now snapshotOk => exact h.update ((h a).task allocOk now snapshotOk)
  | connect a peer =>
      simp only [Deployment.step]
      split
      next e hstage hhead =>
        cases peer with
        | none => exact hfail a
        | some b =>
            simp only
            split_ifs with hat
            · refine h.update ⟨(h a).table, (h a).agenda, (h a).seeds, ?_, trivial, (h a).idle,
                (h a).answered⟩
              intro b' hb'
              obtain rfl : b = b' := Option.some.inj hb'
              exact ⟨e, hhead, hat⟩
            · exact h
      next => exact h
  | enter a allocOk now =>
      simp only [Deployment.step]
      split
      next b hstage =>
        split
        next => exact hfail a
        next s' hwelcome =>
          have hs' := h.welcome hwelcome
          refine hs'.update ((hs' a).setStage _ ?_ trivial)
          rw [welcome_eq hwelcome, Function.update_of_ne, hstage]
          · rfl
          · exact ((h a).peer_ne (by rw [hstage]; rfl)).symm
      next => exact h
  | reply a allocOk sendOk =>
      simp only [Deployment.step]
      split
      next b hstage =>
        split
        next => exact hfail a
        next bytes hbytes =>
          cases sendOk with
          | false => exact hfail a
          | true =>
              refine h.update ((h a).setStage _ (by rw [hstage]; rfl) ?_)
              exact ⟨_, (h b).table, sendPeerList_of_some hbytes⟩
      next => exact h
  | receive a allocOk =>
      simp only [Deployment.step]
      split
      next b bytes hstage => exact h.update ((h a).receive allocOk hstage)
      next => exact h
  | add a allocOk now =>
      simp only [Deployment.step]
      split
      next b e todo rc items hstage => exact h.update ((h a).addEntry allocOk now hstage)
      next b rc items hstage => exact h.update ((h a).addEnd hstage)
      next => exact h
  | reap a addr port => exact h.update ((h a).setPeers ((h a).table.filter _))
  | healthcheck a b allocOk now =>
      simp only [Deployment.step]
      split_ifs
      · exact h.getD_welcome a b allocOk now
      · exact h
  | giveUp a =>
      simp only [Deployment.step]
      split
      next b _ => exact h.update (((h a).finish (-1) (by simp)).setAbandoned (b :: (s a).abandoned))
      next => exact hfail a
      next => exact hfail a
      next => exact h
  | giveUpCheck a b =>
      simp only [Deployment.step]
      split_ifs
      · exact h.update ((h a).setAbandoned _)
      · exact h
  | late a b allocOk now =>
      simp only [Deployment.step]
      split_ifs
      · have hs' := h.getD_welcome a b allocOk now
        exact hs'.update ((hs' a).setAbandoned _)
      · exact h

theorem Ok.run (h : d.Ok s) (events : List (DiscoveryEvent ι)) : d.Ok (d.run s events) := by
  induction events generalizing s with
  | nil => exact h
  | cons event events ih => exact ih (h.step event)

/-- Whatever fails and in whatever order the threads run: an entry of a table is for a node
other than the owner of the table, with the address, the port and, if any, the identifier
of that node; no node has two entries; and a table is shorter than the number of nodes. -/
theorem discovery_sound [Fintype ι] (d : Deployment ι) (events : List (DiscoveryEvent ι))
    (a : ι) :
    let peers := (d.run (fun _ => .init) events a).peers
    (∀ p ∈ peers, ∃ j, j ≠ a ∧ d.Real j p.endpoint) ∧
      (∀ j, (peers.filter fun p => d.At j p.addr p.port).length ≤ 1) ∧
      peers.length < Fintype.card ι := by
  have htable := (d.ok_init.run events a).table
  exact ⟨htable.real, htable.length_filter_le, htable.length_lt⟩

/-- Two nodes, of which the first has the second as its seed. -/
def pair : Deployment (Fin 2) where
  cfg := fun i =>
    ⟨.little, if i = 0 then 1 else 2, [], cText "s", if i = 0 then cText "a" else cText "b", 7001⟩
  seeds := fun i => if i = 0 then cText "b:7001" else []
  valid := fun i => by constructor <;> revert i <;> decide
  id_ne_zero := by decide
  id_inj := by decide
  endpoint_inj := by decide
  seeds_real := by decide

/-- The second node has read the HELLO of the first, which has given up. -/
theorem discovery_sound_pair :
    let peers := (pair.run (fun _ => .init) [.begin 0, .task 0 true 5 true, .connect 0 (some 1),
      .giveUp 0, .late 0 1 true 9] 1).peers
    peers.length = 1 ∧ (∀ p ∈ peers, ∃ j, j ≠ 1 ∧ pair.Real j p.endpoint) ∧
      (∀ j, (peers.filter fun p => pair.At j p.addr p.port).length ≤ 1) ∧
      peers.length < Fintype.card (Fin 2) :=
  ⟨by decide +kernel, discovery_sound pair _ 1⟩

end Deployment

end Dmmr.Cluster
