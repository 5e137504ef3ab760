import Dmmr.Cluster.Join

/-!
# One entry per node in the peer table

A broadcast goes to every entry of the peer table, so a node with two entries
gets it twice.  `add_peer_internal` is to prevent this: it looks for an entry with
the node identifier or the endpoint it was given, and appends only if there is
none.

It takes the first such entry, however, and gives it both the identifier and the
endpoint.  When one entry has the identifier and another the endpoint, which is
what a node that has moved to the address of another one looks like, the first is
made a copy of the second.  `tableSound_iff` says that nothing else can go wrong:
the table has one entry per node throughout a run exactly when no call of the run
finds two entries.
-/

namespace Dmmr.Cluster

open Words Store Wire Node

/-! ## Calls -/

/-- A call of `add_peer` or of `add_peer_with_node`, with the outcome of `calloc`
and the time. -/
inductive AddCall
  | peer (allocOk : Bool) (now : Int) (addr : Bytes) (port : Int)
  | peerWithNode (allocOk : Bool) (now : Int) (addr : Bytes) (port : Int) (nodeId : UInt64)

namespace AddCall

def addr : AddCall → Bytes
  | peer _ _ addr _ => addr
  | peerWithNode _ _ addr _ _ => addr

def port : AddCall → Int
  | peer _ _ _ port => port
  | peerWithNode _ _ _ port _ => port

def nodeId : AddCall → UInt64
  | peer .. => 0
  | peerWithNode _ _ _ _ nodeId => nodeId

/-- The table after the call. -/
def exec (cfg : NodeConfig) (peers : List Peer) : AddCall → List Peer
  | peer allocOk now addr port => addPeerInternal cfg allocOk now peers addr port 0 true
  | peerWithNode allocOk now addr port nodeId =>
      addPeerInternal cfg allocOk now peers addr port nodeId false

/-- The call is not turned away: its port and its address are acceptable and it is
not about the node itself. -/
def Accepted (cfg : NodeConfig) (c : AddCall) : Prop :=
  ¬ (c.port < 1 ∨ c.port > 65535) ∧ ¬ (c.addr.length = 0 ∨ c.addr.length > peerAddrMax ∨
    endpointIsSelf cfg c.addr (UInt16.ofNat c.port.toNat) c.nodeId = true)

/-- The entries the call might be about. -/
def candidates (peers : List Peer) (c : AddCall) : List Peer :=
  peers.filter (Peer.isEndpoint c.addr (UInt16.ofNat c.port.toNat) c.nodeId)

/-- The call is turned away, or there is at most one entry it might be about. -/
def Unambiguous (cfg : NodeConfig) (peers : List Peer) (c : AddCall) : Prop :=
  c.Accepted cfg → (c.candidates peers).length ≤ 1

end AddCall

/-- The table after a sequence of calls on an empty one. -/
def runAdds (cfg : NodeConfig) (calls : List AddCall) : List Peer :=
  calls.foldl (AddCall.exec cfg) []

/-! ## What the table is to look like -/

/-- Two entries stand for one node: they have one endpoint, or one identifier. -/
def Peer.SameNode (p q : Peer) : Prop :=
  (p.addr = q.addr ∧ p.port = q.port) ∨ (p.nodeId ≠ 0 ∧ p.nodeId = q.nodeId)

/-- No two entries stand for one node, none stands for the node itself, and so a
broadcast is queued at most once for each remote node. -/
structure TableSound (cfg : NodeConfig) (peers : List Peer) : Prop where
  distinct : peers.Pairwise fun p q => ¬ p.SameNode q
  notSelf : ∀ p ∈ peers, endpointIsSelf cfg p.addr p.port p.nodeId = false
  queuedOnce : ∀ cmd, (broadcastSync cfg peers cmd).Pairwise fun p q => ¬ p.SameNode q

theorem Peer.SameNode.symm {p q : Peer} (h : p.SameNode q) : q.SameNode p := by
  rcases h with ⟨haddr, hport⟩ | ⟨hne, hid⟩
  · exact Or.inl ⟨haddr.symm, hport.symm⟩
  · exact Or.inr ⟨hid ▸ hne, hid.symm⟩

/-- The broadcasts take care of themselves. -/
theorem TableSound.mk_of_distinct {cfg : NodeConfig} {peers : List Peer}
    (hdistinct : peers.Pairwise fun p q => ¬ p.SameNode q)
    (hself : ∀ p ∈ peers, endpointIsSelf cfg p.addr p.port p.nodeId = false) :
    TableSound cfg peers := by
  refine ⟨hdistinct, hself, fun cmd => ?_⟩
  unfold broadcastSync
  split_ifs
  · exact List.Pairwise.nil
  · exact hdistinct.sublist List.filter_sublist

theorem tableSound_nil (cfg : NodeConfig) : TableSound cfg [] :=
  .mk_of_distinct List.Pairwise.nil (by simp)

/-! ## The entry that is updated -/

/-- An entry after it has been updated. -/
def Peer.update (addr : Bytes) (port : UInt16) (nodeId : UInt64) (isSeed : Bool) (now : Int)
    (p : Peer) : Peer where
  addr := addr
  port := port
  nodeId := if nodeId ≠ 0 then nodeId else p.nodeId
  isSeed := p.isSeed || isSeed
  lastActivity := now

theorem isEndpoint_iff (addr : Bytes) (port : UInt16) (nodeId : UInt64) (p : Peer) :
    p.isEndpoint addr port nodeId = true ↔
      (nodeId ≠ 0 ∧ p.nodeId = nodeId) ∨ (p.addr = addr ∧ p.port = port) := by
  simp only [Peer.isEndpoint, Bool.or_eq_true, Bool.and_eq_true, decide_eq_true_eq, beq_iff_eq]
  rw [and_comm (a := p.port = port)]

/-- The first entry the call might be about is updated, if there is one. -/
theorem updatePeer_cases (addr : Bytes) (port : UInt16) (nodeId : UInt64) (isSeed : Bool)
    (now : Int) (peers : List Peer) :
    ((∀ p ∈ peers, p.isEndpoint addr port nodeId = false) ∧
        updatePeer addr port nodeId isSeed now peers = none) ∨
      ∃ before p after, peers = before ++ p :: after ∧
        (∀ q ∈ before, q.isEndpoint addr port nodeId = false) ∧
        p.isEndpoint addr port nodeId = true ∧
        updatePeer addr port nodeId isSeed now peers =
          some (before ++ p.update addr port nodeId isSeed now :: after) := by
  induction peers with
  | nil => exact Or.inl ⟨by simp, rfl⟩
  | cons peer peers ih =>
      rw [updatePeer]
      cases hpeer : peer.isEndpoint addr port nodeId with
      | true => exact Or.inr ⟨[], peer, peers, rfl, by simp, hpeer, rfl⟩
      | false =>
          simp only [Bool.false_eq_true, if_false]
          rcases ih with ⟨hnone, hupdate⟩ | ⟨before, p, after, rfl, hbefore, hp, hupdate⟩
          · exact Or.inl ⟨List.forall_mem_cons.mpr ⟨hpeer, hnone⟩, by rw [hupdate]; rfl⟩
          · exact Or.inr ⟨peer :: before, p, after, rfl,
              List.forall_mem_cons.mpr ⟨hpeer, hbefore⟩, hp, by rw [hupdate]; rfl⟩

variable {cfg : NodeConfig} {addr : Bytes} {port : UInt16} {nodeId : UInt64}

/-- An updated entry stands for the node of every other entry the call might have
been about. -/
theorem sameNode_update_of_isEndpoint {q : Peer} (hq : q.isEndpoint addr port nodeId = true)
    (isSeed : Bool) (now : Int) (p : Peer) :
    (p.update addr port nodeId isSeed now).SameNode q := by
  rcases (isEndpoint_iff ..).mp hq with ⟨hne, hid⟩ | ⟨haddr, hport⟩
  · right
    simp [Peer.update, hne, hid]
  · exact Or.inl ⟨haddr.symm, hport.symm⟩

/-- And it stands for that of no other entry, unless it did so before. -/
theorem not_sameNode_update {p q : Peer} (hpq : ¬ p.SameNode q)
    (hq : q.isEndpoint addr port nodeId = false) (isSeed : Bool) (now : Int) :
    ¬ (p.update addr port nodeId isSeed now).SameNode q := by
  have hq' : ¬ ((nodeId ≠ 0 ∧ q.nodeId = nodeId) ∨ (q.addr = addr ∧ q.port = port)) := by
    rw [← isEndpoint_iff, hq]
    simp
  obtain ⟨hid, hendpoint⟩ := not_or.mp hq'
  rintro (⟨haddr, hport⟩ | ⟨hne, heq⟩)
  · exact hendpoint ⟨haddr.symm, hport.symm⟩
  · by_cases hzero : nodeId = 0
    · -- a call without an identifier leaves the one of the entry alone
      simp only [Peer.update, hzero, ne_eq, not_true_eq_false, if_false] at hne heq
      exact hpq (Or.inr ⟨hne, heq⟩)
    · simp only [Peer.update, ne_eq, hzero, not_false_eq_true, if_true] at heq
      exact hid ⟨hzero, heq.symm⟩

theorem notSelf_update {p : Peer} (hp : endpointIsSelf cfg p.addr p.port p.nodeId = false)
    (hcall : endpointIsSelf cfg addr port nodeId = false) (isSeed : Bool) (now : Int) :
    endpointIsSelf cfg (p.update addr port nodeId isSeed now).addr
      (p.update addr port nodeId isSeed now).port
      (p.update addr port nodeId isSeed now).nodeId = false := by
  by_cases hzero : nodeId = 0
  · simp_all [endpointIsSelf, Peer.update]
  · simp_all [endpointIsSelf, Peer.update]

/-! ## One call -/

/-- An entry is updated: the table stays sound if and only if no later entry is a
candidate as well. -/
theorem tableSound_update_iff {before after : List Peer} {p : Peer}
    (hsound : TableSound cfg (before ++ p :: after))
    (hcall : endpointIsSelf cfg addr port nodeId = false)
    (hbefore : ∀ q ∈ before, q.isEndpoint addr port nodeId = false) (isSeed : Bool) (now : Int) :
    TableSound cfg (before ++ p.update addr port nodeId isSeed now :: after) ↔
      ∀ q ∈ after, q.isEndpoint addr port nodeId = false := by
  obtain ⟨hfront, hrear, hacross⟩ := List.pairwise_append.mp hsound.distinct
  obtain ⟨hp, hafter⟩ := List.pairwise_cons.mp hrear
  constructor
  · intro h q hq
    by_contra hcandidate
    rw [Bool.not_eq_false] at hcandidate
    obtain ⟨-, hrear', -⟩ := List.pairwise_append.mp h.distinct
    exact (List.pairwise_cons.mp hrear').1 q hq
      (sameNode_update_of_isEndpoint hcandidate isSeed now p)
  · intro hnone
    refine .mk_of_distinct ?_ ?_
    · refine List.pairwise_append.mpr ⟨hfront, List.pairwise_cons.mpr ⟨?_, hafter⟩, ?_⟩
      · intro q hq
        exact not_sameNode_update (hp q hq) (hnone q hq) isSeed now
      · intro q hq x hx
        rcases List.mem_cons.mp hx with rfl | hx
        · have hqp : ¬ q.SameNode p := hacross q hq p List.mem_cons_self
          intro h
          exact not_sameNode_update (fun h' => hqp h'.symm) (hbefore q hq) isSeed now h.symm
        · exact hacross q hq x (List.mem_cons_of_mem p hx)
    · intro x hx
      rcases List.mem_append.mp hx with hx | hx
      · exact hsound.notSelf x (List.mem_append_left _ hx)
      · rcases List.mem_cons.mp hx with rfl | hx
        · exact notSelf_update (hsound.notSelf p (by simp)) hcall isSeed now
        · exact hsound.notSelf x (by simp [hx])

/-- An entry is appended when there is no candidate. -/
theorem tableSound_append {peers : List Peer} (hsound : TableSound cfg peers)
    (hcall : endpointIsSelf cfg addr port nodeId = false)
    (hnone : ∀ p ∈ peers, p.isEndpoint addr port nodeId = false) (isSeed : Bool) (now : Int) :
    TableSound cfg (peers ++ [⟨addr, port, nodeId, isSeed, now⟩]) := by
  refine .mk_of_distinct ?_ ?_
  · refine List.pairwise_append.mpr ⟨hsound.distinct, List.pairwise_singleton _ _, ?_⟩
    intro p hp x hx
    rw [List.mem_singleton.mp hx]
    intro hsame
    have hcandidate : p.isEndpoint addr port nodeId = true := by
      rw [isEndpoint_iff]
      rcases hsame.symm with ⟨haddr, hport⟩ | ⟨hne, hid⟩
      · exact Or.inr ⟨haddr.symm, hport.symm⟩
      · exact Or.inl ⟨hne, hid.symm⟩
    rw [hnone p hp] at hcandidate
    exact absurd hcandidate (by simp)
  · intro x hx
    rcases List.mem_append.mp hx with hx | hx
    · exact hsound.notSelf x hx
    · rw [List.mem_singleton.mp hx]
      exact hcall

/-- Both functions call `add_peer_internal`. -/
theorem AddCall.exec_eq (cfg : NodeConfig) (c : AddCall) : ∃ allocOk now isSeed, ∀ peers,
    c.exec cfg peers = addPeerInternal cfg allocOk now peers c.addr c.port c.nodeId isSeed := by
  cases c with
  | peer allocOk now addr port => exact ⟨allocOk, now, true, fun _ => rfl⟩
  | peerWithNode allocOk now addr port nodeId => exact ⟨allocOk, now, false, fun _ => rfl⟩

/-- **One call keeps a sound table sound exactly when it is not ambiguous.** -/
theorem tableSound_exec_iff {peers : List Peer} (hsound : TableSound cfg peers) (c : AddCall) :
    TableSound cfg (c.exec cfg peers) ↔ c.Unambiguous cfg peers := by
  obtain ⟨allocOk, now, isSeed, hexec⟩ := c.exec_eq cfg
  rw [hexec]
  unfold addPeerInternal AddCall.Unambiguous AddCall.Accepted
  by_cases hport : c.port < 1 ∨ c.port > 65535
  · rw [if_pos hport]
    exact iff_of_true hsound fun hacc => absurd hport hacc.1
  rw [if_neg hport]
  simp only
  by_cases haddr : c.addr.length = 0 ∨ c.addr.length > peerAddrMax ∨
      endpointIsSelf cfg c.addr (UInt16.ofNat c.port.toNat) c.nodeId = true
  · rw [if_pos haddr]
    exact iff_of_true hsound fun hacc => absurd haddr hacc.2
  have hcall : endpointIsSelf cfg c.addr (UInt16.ofNat c.port.toNat) c.nodeId = false := by
    rw [← Bool.not_eq_true]
    exact fun h => haddr (Or.inr (Or.inr h))
  rw [if_neg haddr]
  simp only [hport, haddr, not_false_eq_true, true_and, true_implies, AddCall.candidates]
  rcases updatePeer_cases c.addr (UInt16.ofNat c.port.toNat) c.nodeId isSeed now peers with
    ⟨hnone, hupdate⟩ | ⟨before, p, after, rfl, hbefore, hp, hupdate⟩
  · rw [hupdate, List.filter_eq_nil_iff.mpr (by simpa using hnone)]
    refine iff_of_true ?_ (Nat.zero_le 1)
    cases allocOk with
    | false => exact hsound
    | true => exact tableSound_append hsound hcall hnone isSeed now
  · have hfront : before.filter (Peer.isEndpoint c.addr (UInt16.ofNat c.port.toNat) c.nodeId) =
        [] := List.filter_eq_nil_iff.mpr (by simpa using hbefore)
    have hone : ∀ l : List Peer, (p :: l).length ≤ 1 ↔ l = [] := by
      intro l
      rw [List.length_cons, ← List.length_eq_zero_iff]
      omega
    rw [hupdate, List.filter_append, hfront, List.nil_append, List.filter_cons_of_pos hp, hone,
      List.filter_eq_nil_iff]
    simp only [tableSound_update_iff hsound hcall hbefore isSeed now, Bool.not_eq_true]

/-! ## Runs of calls -/

theorem runAdds_concat (cfg : NodeConfig) (calls : List AddCall) (c : AddCall) :
    runAdds cfg (calls ++ [c]) = c.exec cfg (runAdds cfg calls) := by
  simp [runAdds]

/-- **One entry per node.**  In every run of calls on an empty table, the table is
sound after each call if and only if no call is ambiguous in the table it finds. -/
theorem tableSound_iff (cfg : NodeConfig) (calls : List AddCall) :
    (∀ before, before <+: calls → TableSound cfg (runAdds cfg before)) ↔
      ∀ before c, before ++ [c] <+: calls → c.Unambiguous cfg (runAdds cfg before) := by
  constructor
  · intro h before c hle
    have hsound := h before ((List.prefix_append before [c]).trans hle)
    rw [← tableSound_exec_iff hsound, ← runAdds_concat]
    exact h _ hle
  · intro h before
    induction before using List.reverseRecOn with
    | nil =>
        intro _
        exact tableSound_nil cfg
    | append_singleton before c ih =>
        intro hle
        have hsound := ih ((List.prefix_append before [c]).trans hle)
        rw [runAdds_concat, tableSound_exec_iff hsound]
        exact h before c hle

/-- Node 5 turns up at the endpoint of node 6: both entries now stand for it. -/
theorem tableSound_fails :
    ¬ ∀ before, before <+: [AddCall.peerWithNode true 0 [97] 1 5, .peerWithNode true 0 [98] 2 6,
        .peerWithNode true 0 [98] 2 5] → TableSound plainNode (runAdds plainNode before) := by
  intro h
  have hdistinct := (h _ (List.prefix_refl _)).distinct
  have htable : runAdds plainNode [AddCall.peerWithNode true 0 [97] 1 5,
      .peerWithNode true 0 [98] 2 6, .peerWithNode true 0 [98] 2 5] =
      [⟨[98], 2, 5, false, 0⟩, ⟨[98], 2, 6, false, 0⟩] := by decide +kernel
  rw [htable] at hdistinct
  exact (List.pairwise_cons.mp hdistinct).1 _ List.mem_cons_self (Or.inl ⟨rfl, rfl⟩)

end Dmmr.Cluster
