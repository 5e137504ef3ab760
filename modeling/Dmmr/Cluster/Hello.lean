import Dmmr.Cluster.Configure
import Dmmr.Cluster.Knowledge
import Mathlib.Data.List.TakeWhile

/-!
# Discovery

A node makes itself known by a HELLO frame with its address, its port and its
cluster name, and gets the receiver's peer table in return.  The receiver should
enter every node it may talk to, and nobody else (`Discovers`), whether or not it
has a secret.

`handle_cluster_connection` looks for HELLO frames only on a node with a secret.
A node without one ignores them, so there discovery works only where nothing is
to be discovered (`discovers_iff`).
-/

namespace Dmmr.Cluster

open Words Store Wire Node

/-! ## The HELLO frame -/

/-- The value of a HELLO: the port, the length of the name and the name. -/
def helloValue (cfg : NodeConfig) : Bytes :=
  Endian.big.bytes 2 cfg.advertisePort.toNat ++
    (UInt8.ofNat cfg.clusterName.length :: cfg.clusterName)

/-- `send_hello`: the frame it writes. -/
def sendHello (cfg : NodeConfig) : Option Bytes :=
  clusterSendFrame cfg.clusterName Opcode.clusterHello.code flagNone
    (Buf.ofBytes cfg.advertiseAddress) (Buf.ofBytes (helloValue cfg)) 0 cfg.myNodeId 0

section Frame

variable {cfg : NodeConfig} (hvalid : cfg.Valid)
include hvalid

theorem length_address_le : cfg.advertiseAddress.length ≤ maxKeyLen :=
  hvalid.address_le.trans (by decide)

omit hvalid in
theorem length_helloValue (cfg : NodeConfig) :
    (helloValue cfg).length = 3 + cfg.clusterName.length := by
  simp [helloValue]
  omega

theorem length_helloValue_le : (helloValue cfg).length ≤ maxValueLen := by
  have hname := hvalid.name_le
  rw [length_helloValue]
  unfold clusterNameMax at hname
  unfold maxValueLen
  omega

end Frame

/-- The HELLO as it is received. -/
def helloFrame {cfg : NodeConfig} (hvalid : cfg.Valid) : Received :=
  receivedOf cfg.clusterName Opcode.clusterHello.code flagNone cfg.advertiseAddress
    (helloValue cfg) 0 cfg.myNodeId 0 (length_address_le hvalid) (length_helloValue_le hvalid)

/-- A HELLO is sent, and received as it was sent. -/
theorem recv_sendHello {cfg : NodeConfig} (hvalid : cfg.Valid) :
    ∃ bytes, sendHello cfg = some bytes ∧
      clusterRecvFrame true bytes = some (helloFrame hvalid, []) := by
  refine ⟨_, clusterSendFrame_of_le _ _ _ (length_address_le hvalid) (length_helloValue_le hvalid)
    _ _ _, ?_⟩
  have h := clusterRecvFrame_send cfg.clusterName Opcode.clusterHello.code flagNone
    (length_address_le hvalid) (length_helloValue_le hvalid) 0 cfg.myNodeId 0 []
  rwa [List.append_nil] at h

theorem cString_of_not_mem {s : Bytes} (h : 0 ∉ s) : cString s = s := by
  apply List.takeWhile_eq_self_iff.mpr
  intro b hb
  simpa using fun hzero : b = 0 => h (hzero ▸ hb)

/-- The receiver finds the sender's name in it. -/
theorem helloName_helloFrame {cfg : NodeConfig} (hvalid : cfg.Valid) :
    helloName (helloFrame hvalid) = some cfg.clusterName := by
  have hlen : (helloFrame hvalid).frame.valueLen.toNat = 3 + cfg.clusterName.length := by
    rw [← length_helloValue cfg]
    exact toNat_valueLen (length_helloValue_le hvalid)
  have hbytes : ∀ off n, (helloFrame hvalid).valueBytes off n =
      ((helloValue cfg).drop off).take n := fun off n => valueBytes_receivedOf ..
  have hname := hvalid.name_le
  have hdrop : ∀ off, (helloValue cfg).drop (2 + off) =
      (UInt8.ofNat cfg.clusterName.length :: cfg.clusterName).drop off := by
    intro off
    rw [helloValue, ← List.drop_drop, List.drop_left' (Endian.length_bytes ..)]
  have hsize : (((helloFrame hvalid).valueBytes 2 1).headD 0).toNat = cfg.clusterName.length := by
    rw [hbytes, hdrop 0]
    unfold clusterNameMax at hname
    simp only [List.drop_zero, List.take_succ_cons, List.headD_cons, UInt8.toNat_ofNat']
    omega
  have htext : (helloFrame hvalid).valueBytes 3 cfg.clusterName.length = cfg.clusterName := by
    rw [hbytes, hdrop 1, List.drop_one, List.tail_cons, List.take_length]
  unfold helloName
  simp only [hlen, hsize, htext]
  rw [if_pos (by omega), if_neg (by omega), cString_of_not_mem hvalid.name_nul]

/-! ## The peer table -/

/-- The table holds an entry with this address, port and identifier. -/
def Lists (peers : List Peer) (addr : Bytes) (port : UInt16) (nodeId : UInt64) : Prop :=
  ∃ p ∈ peers, p.addr = addr ∧ p.port = port ∧ p.nodeId = nodeId

theorem lists_updatePeer {addr : Bytes} {port : UInt16} {nodeId : UInt64} (hid : nodeId ≠ 0)
    {isSeed : Bool} {now : Int} {peers peers' : List Peer}
    (h : updatePeer addr port nodeId isSeed now peers = some peers') :
    Lists peers' addr port nodeId := by
  induction peers generalizing peers' with
  | nil => simp [updatePeer] at h
  | cons peer peers ih =>
      rw [updatePeer] at h
      split_ifs at h with hpeer
      · rw [← Option.some.inj h]
        exact ⟨_, List.mem_cons_self, rfl, rfl, rfl⟩
      · obtain ⟨rest, hrest, rfl⟩ := Option.map_eq_some_iff.mp h
        obtain ⟨p, hp, hfields⟩ := ih hrest
        exact ⟨p, List.mem_cons_of_mem _ hp, hfields⟩

/-- A node that is not the receiver itself is entered. -/
theorem lists_addPeerWithNode {cfg : NodeConfig} {addr : Bytes} {port : UInt16} {nodeId : UInt64}
    (hne : addr ≠ []) (hle : addr.length ≤ peerAddrMax) (hport : port ≠ 0) (hid : nodeId ≠ 0)
    (hself : endpointIsSelf cfg addr port nodeId = false) (now : Int) (peers : List Peer) :
    Lists (addPeerWithNode cfg true now peers addr port nodeId) addr port nodeId := by
  have hpos : 0 < port.toNat :=
    Nat.pos_of_ne_zero fun h => hport (UInt16.toNat_inj.mp h)
  have hlt : port.toNat < 2 ^ 16 := port.toNat_lt
  have haddr : ¬ (addr.length = 0 ∨ addr.length > peerAddrMax ∨
      endpointIsSelf cfg addr port nodeId = true) := by
    simp [hne, hle, hself]
  unfold addPeerWithNode addPeerInternal
  rw [if_neg (by omega)]
  simp only [Int.toNat_natCast, UInt16.ofNat_toNat]
  rw [if_neg haddr]
  cases hupdate : updatePeer addr port nodeId false now peers with
  | some peers' => exact lists_updatePeer hid hupdate
  | none => exact ⟨_, List.mem_append_right _ (List.mem_singleton_self _), rfl, rfl, rfl⟩

/-- The receiver itself is not. -/
theorem addPeerWithNode_self {cfg : NodeConfig} {addr : Bytes} {port : UInt16} {nodeId : UInt64}
    (hself : endpointIsSelf cfg addr port nodeId = true) (allocOk : Bool) (now : Int)
    (peers : List Peer) : addPeerWithNode cfg allocOk now peers addr port nodeId = peers := by
  unfold addPeerWithNode addPeerInternal
  simp only [Int.toNat_natCast, UInt16.ofNat_toNat, hself, or_true, if_true, ite_self]

/-- `add_peer_internal` leaves the table alone, updates an entry or appends
one. -/
theorem addPeerInternal_cases (cfg : NodeConfig) (allocOk : Bool) (now : Int) (peers : List Peer)
    (addr : Bytes) (port : Int) (nodeId : UInt64) (isSeed : Bool) :
    addPeerInternal cfg allocOk now peers addr port nodeId isSeed = peers ∨
      (addr.length ≤ peerAddrMax ∧ updatePeer addr (UInt16.ofNat port.toNat) nodeId isSeed now
        peers = some (addPeerInternal cfg allocOk now peers addr port nodeId isSeed)) ∨
      (addr.length ≤ peerAddrMax ∧ addPeerInternal cfg allocOk now peers addr port nodeId isSeed =
        peers ++ [⟨addr, UInt16.ofNat port.toNat, nodeId, isSeed, now⟩]) := by
  unfold addPeerInternal
  by_cases hport : port < 1 ∨ port > 65535
  · exact Or.inl (if_pos hport)
  · rw [if_neg hport]
    simp only
    by_cases haddr : addr.length = 0 ∨ addr.length > peerAddrMax ∨
        endpointIsSelf cfg addr (UInt16.ofNat port.toNat) nodeId = true
    · exact Or.inl (if_pos haddr)
    · have hle : addr.length ≤ peerAddrMax := not_lt.mp (not_or.mp (not_or.mp haddr).2).1
      rw [if_neg haddr]
      cases hupdate : updatePeer addr (UInt16.ofNat port.toNat) nodeId isSeed now peers with
      | some peers' => exact Or.inr (Or.inl ⟨hle, rfl⟩)
      | none =>
          cases allocOk with
          | false => exact Or.inl rfl
          | true => exact Or.inr (Or.inr ⟨hle, rfl⟩)

theorem forall_mem_updatePeer {q : Bytes → Prop} {addr : Bytes} {port : UInt16} {nodeId : UInt64}
    {isSeed : Bool} {now : Int} {peers peers' : List Peer} (haddr : q addr)
    (hpeers : ∀ p ∈ peers, q p.addr)
    (h : updatePeer addr port nodeId isSeed now peers = some peers') :
    ∀ p ∈ peers', q p.addr := by
  induction peers generalizing peers' with
  | nil => simp [updatePeer] at h
  | cons peer peers ih =>
      obtain ⟨hpeer, hrest⟩ := List.forall_mem_cons.mp hpeers
      rw [updatePeer] at h
      split_ifs at h
      · rw [← Option.some.inj h]
        exact List.forall_mem_cons.mpr ⟨haddr, hrest⟩
      · rw [← Option.some.inj h]
        exact List.forall_mem_cons.mpr ⟨haddr, hrest⟩
      · obtain ⟨rest, hupdate, rfl⟩ := Option.map_eq_some_iff.mp h
        exact List.forall_mem_cons.mpr ⟨hpeer, ih hrest hupdate⟩

/-- The addresses in the table keep fitting their buffers. -/
theorem length_addr_addPeerWithNode (cfg : NodeConfig) (allocOk : Bool) (now : Int)
    {peers : List Peer} (hpeers : ∀ p ∈ peers, p.addr.length ≤ peerAddrMax) (addr : Bytes)
    (port : UInt16) (nodeId : UInt64) :
    ∀ p ∈ addPeerWithNode cfg allocOk now peers addr port nodeId, p.addr.length ≤ peerAddrMax := by
  rcases addPeerInternal_cases cfg allocOk now peers addr port.toNat nodeId false with
    h | ⟨hle, hupdate⟩ | ⟨hle, h⟩
  · rw [addPeerWithNode, h]
    exact hpeers
  · exact forall_mem_updatePeer (q := (·.length ≤ peerAddrMax)) hle hpeers hupdate
  · rw [addPeerWithNode, h]
    intro p hp
    rcases List.mem_append.mp hp with hp | hp
    · exact hpeers p hp
    · rw [List.mem_singleton.mp hp]
      exact hle

/-- The peer list of such a table fits a frame. -/
theorem length_peerList_le {peers : List Peer} (hpeers : ∀ p ∈ peers, p.addr.length ≤ peerAddrMax) :
    (Endian.big.bytes 2 (peers.take maxDiscoveredPeers).length ++
      (peers.take maxDiscoveredPeers).flatMap peerListEntry).length ≤ maxValueLen := by
  have hentries : ∀ l : List Peer, (∀ p ∈ l, p.addr.length ≤ peerAddrMax) →
      (l.flatMap peerListEntry).length ≤ l.length * (11 + peerAddrMax) := by
    intro l hl
    induction l with
    | nil => simp
    | cons p l ih =>
        obtain ⟨hp, hl⟩ := List.forall_mem_cons.mp hl
        have := ih hl
        rw [List.flatMap_cons, List.length_append, List.length_cons, Nat.succ_mul]
        simp only [peerListEntry, List.length_append, Endian.length_bytes, List.length_cons]
        omega
  have hlisted := hentries (peers.take maxDiscoveredPeers)
    fun p hp => hpeers p (List.mem_of_mem_take hp)
  have hcount : (peers.take maxDiscoveredPeers).length ≤ 128 := List.length_take_le _ _
  rw [List.length_append, Endian.length_bytes]
  unfold peerAddrMax at hlisted
  unfold maxValueLen
  omega

theorem sendPeerList_of_le (cfg : NodeConfig) {peers : List Peer}
    (hlen : (Endian.big.bytes 2 (peers.take maxDiscoveredPeers).length ++
      (peers.take maxDiscoveredPeers).flatMap peerListEntry).length ≤ maxValueLen) :
    sendPeerList cfg true peers = some (controlFrame cfg .clusterPeerList
      (Endian.big.bytes 2 (peers.take maxDiscoveredPeers).length ++
        (peers.take maxDiscoveredPeers).flatMap peerListEntry)) := by
  refine Eq.trans ?_ (clusterSendFrame_control cfg .clusterPeerList hlen)
  unfold sendPeerList
  simp only
  rw [if_neg (not_lt.mpr hlen), if_neg (by simp)]

/-- And so it is sent. -/
theorem sendPeerList_eq (cfg : NodeConfig) {peers : List Peer}
    (hpeers : ∀ p ∈ peers, p.addr.length ≤ peerAddrMax) :
    ∃ payload, sendPeerList cfg true peers = some (controlFrame cfg .clusterPeerList payload) :=
  ⟨_, sendPeerList_of_le cfg (length_peerList_le hpeers)⟩

/-! ## The receiver of a HELLO -/

/-- What the beginning of `handle_cluster_hello` makes of a HELLO: the address and the port
to be entered, unless the caller is turned away. -/
def acceptHello (cfg : NodeConfig) (r : Received) : Option (Bytes × UInt16) :=
  if r.frame.nodeId = 0 ∨ r.frame.keyLen = 0 ∨ r.frame.keyLen.toNat > peerAddrMax ∨
      r.frame.valueLen.toNat < 2 ∨ r.payload = none then none
  else
    match helloName r with
    | none => none
    | some peerName =>
        if cfg.clusterName ≠ [] ∧ cfg.clusterName ≠ peerName then none
        else some (cString r.key.bytes, UInt16.ofNat (Endian.big.word (r.valueBytes 0 2)))

/-- `handle_cluster_hello` enters the caller and sends its list. -/
theorem handleClusterHello_eq (cfg : NodeConfig) (allocOk : Bool) (now : Int) (peers : List Peer)
    (r : Received) :
    handleClusterHello cfg allocOk now peers r =
      match acceptHello cfg r with
      | none => (peers, none)
      | some (address, port) =>
          let peers := addPeerWithNode cfg allocOk now peers address port r.frame.nodeId
          (peers, sendPeerList cfg allocOk peers) := by
  unfold handleClusterHello acceptHello
  split_ifs with hguard
  · rfl
  · cases helloName r with
    | none => rfl
    | some peerName =>
        simp only
        split_ifs <;> rfl

/-- A node of the same name, or one without a name, accepts the HELLO of a sender. -/
theorem acceptHello_helloFrame {sender : NodeConfig} (hvalid : sender.Valid)
    (hid : sender.myNodeId ≠ 0) (receiver : NodeConfig) :
    acceptHello receiver (helloFrame hvalid) =
      if receiver.clusterName ≠ [] ∧ receiver.clusterName ≠ sender.clusterName then none
      else some (sender.advertiseAddress, sender.advertisePort) := by
  have hkeyLen : (helloFrame hvalid).frame.keyLen.toNat = sender.advertiseAddress.length :=
    toNat_keyLen (length_address_le hvalid)
  have hvalueLen : (helloFrame hvalid).frame.valueLen.toNat = 3 + sender.clusterName.length := by
    rw [← length_helloValue sender]
    exact toNat_valueLen (length_helloValue_le hvalid)
  have hpos : 0 < sender.advertiseAddress.length := List.length_pos_iff.mpr hvalid.address_ne
  have hguard : ¬ ((helloFrame hvalid).frame.nodeId = 0 ∨ (helloFrame hvalid).frame.keyLen = 0 ∨
      (helloFrame hvalid).frame.keyLen.toNat > peerAddrMax ∨
      (helloFrame hvalid).frame.valueLen.toNat < 2 ∨ (helloFrame hvalid).payload = none) := by
    rintro (h | h | h | h | h)
    · exact hid h
    · rw [h] at hkeyLen
      exact hpos.ne hkeyLen
    · exact absurd hvalid.address_le (not_le.mpr (hkeyLen ▸ h))
    · omega
    · have := (helloFrame hvalid).payload_none.mp h
      omega
  have haddress : cString (helloFrame hvalid).key.bytes = sender.advertiseAddress := by
    rw [helloFrame, key_receivedOf, cString_of_not_mem hvalid.address_nul]
  have hport : UInt16.ofNat (Endian.big.word ((helloFrame hvalid).valueBytes 0 2)) =
      sender.advertisePort := by
    have hbytes : (helloFrame hvalid).valueBytes 0 2 =
        Endian.big.bytes 2 sender.advertisePort.toNat := by
      rw [helloFrame, valueBytes_receivedOf, List.drop_zero, helloValue,
        List.take_left' (Endian.length_bytes ..)]
    rw [hbytes, Endian.word_bytes _ (UInt16.toNat_lt _), UInt16.ofNat_toNat]
  unfold acceptHello
  rw [if_neg hguard]
  simp only [helloName_helloFrame hvalid, haddress, hport]

/-- What `handle_cluster_hello` makes of a HELLO. -/
theorem handleClusterHello_helloFrame {sender : NodeConfig} (hvalid : sender.Valid)
    (hid : sender.myNodeId ≠ 0) (receiver : NodeConfig) (allocOk : Bool) (now : Int)
    (peers : List Peer) :
    handleClusterHello receiver allocOk now peers (helloFrame hvalid) =
      if receiver.clusterName ≠ [] ∧ receiver.clusterName ≠ sender.clusterName then (peers, none)
      else
        (addPeerWithNode receiver allocOk now peers sender.advertiseAddress sender.advertisePort
            sender.myNodeId,
          sendPeerList receiver allocOk (addPeerWithNode receiver allocOk now peers
            sender.advertiseAddress sender.advertisePort sender.myNodeId)) := by
  rw [handleClusterHello_eq, acceptHello_helloFrame hvalid hid]
  split_ifs <;> rfl

/-- A sender without an identifier is ignored. -/
theorem handleClusterHello_of_id {receiver : NodeConfig} {r : Received} (hid : r.frame.nodeId = 0)
    (allocOk : Bool) (now : Int) (peers : List Peer) :
    handleClusterHello receiver allocOk now peers r = (peers, none) :=
  if_pos (Or.inl hid)

/-! ## The connection -/

section Connection

variable {cfg : NodeConfig} {env : ConnEnv} (hrunning : env.running = true)
  (halloc : env.allocOk = true) {bytes : Bytes} {r : Received}
  (hrecv : clusterRecvFrame true bytes = some (r, []))
  (hopcode : r.frame.opcode = Opcode.clusterHello.code)
include hrunning halloc hrecv hopcode

/-- A node with a secret handles the HELLO and closes the connection. -/
theorem serveConnection_hello (hsecret : cfg.clusterSecret ≠ []) (mac : Mac) (envs : List ConnEnv)
    (server : Server) :
    serveConnection mac cfg (env :: envs) bytes server =
      (hello cfg env r ⟨false, 0, [], server, []⟩).2 := by
  rw [serveConnection, handleClusterConnection_cons]
  simp [connIteration, hrunning, halloc, hrecv, hsecret, hopcode, hello]

/-- A node without one does nothing. -/
theorem serveConnection_no_secret (hsecret : cfg.clusterSecret = []) (mac : Mac)
    (envs : List ConnEnv) (server : Server) :
    serveConnection mac cfg (env :: envs) bytes server = ⟨false, 0, [], server, []⟩ := by
  have hrequest : Opcode.clusterHello.code ≠ Opcode.clusterSyncRequest.code := by decide
  have hsync : Opcode.clusterHello.code ≠ Opcode.sync.code := by decide
  have hdispatch : ∀ s, (dispatch cfg env r s).2 = s := by
    intro s
    unfold dispatch
    rw [hopcode, if_neg hrequest, if_neg hsync]
    split_ifs <;> rfl
  have hiteration : (connIteration mac cfg env ⟨false, 0, bytes, server, []⟩).2 =
      ⟨false, 0, [], server, []⟩ := by
    simp [connIteration, hrunning, halloc, hrecv, hsecret, hdispatch]
  rw [serveConnection, handleClusterConnection_cons, hiteration]
  split_ifs
  · exact handleClusterConnection_of_end mac cfg envs rfl
  · rfl

end Connection

/-! ## The property -/

/-- A HELLO of the sender has the effect discovery is for: if the receiver has
no name or the sender's, it enters the sender and answers with its peer list;
otherwise nothing happens. -/
def Discovers (receiver sender : NodeConfig) : Prop :=
  ∀ (mac : Mac) (env : ConnEnv) (envs : List ConnEnv) (server : Server) (bytes : Bytes),
    env.running = true → env.allocOk = true → (∀ i, env.sendOk i = true) →
    (∀ p ∈ server.peers, p.addr.length ≤ peerAddrMax) → sendHello sender = some bytes →
    let s := serveConnection mac receiver (env :: envs) bytes server
    if receiver.clusterName = [] ∨ receiver.clusterName = sender.clusterName then
      Lists s.server.peers sender.advertiseAddress sender.advertisePort sender.myNodeId ∧
        ∃ payload, s.sent = [controlFrame receiver .clusterPeerList payload]
    else s.server.peers = server.peers ∧ s.sent = []

/-- The names differ, so that nothing is to happen, or the receiver has a secret
and does not take the sender for nobody or for itself. -/
def Discoverable (receiver sender : NodeConfig) : Prop :=
  (receiver.clusterName ≠ [] ∧ receiver.clusterName ≠ sender.clusterName) ∨
    (receiver.clusterSecret ≠ [] ∧ sender.myNodeId ≠ 0 ∧
      endpointIsSelf receiver sender.advertiseAddress sender.advertisePort sender.myNodeId = false)

section Discovery

variable {receiver sender : NodeConfig} (hvalid : sender.Valid)
include hvalid

/-- A receiver with a secret does what `handle_cluster_hello` does. -/
theorem serveConnection_sendHello (hsecret : receiver.clusterSecret ≠ []) (mac : Mac)
    {env : ConnEnv} (hrunning : env.running = true) (halloc : env.allocOk = true)
    (hsend : ∀ i, env.sendOk i = true) (envs : List ConnEnv) (server : Server) {bytes : Bytes}
    (hbytes : sendHello sender = some bytes) :
    (serveConnection mac receiver (env :: envs) bytes server).server.peers =
        (handleClusterHello receiver true env.time server.peers (helloFrame hvalid)).1 ∧
      (serveConnection mac receiver (env :: envs) bytes server).sent =
        (handleClusterHello receiver true env.time server.peers (helloFrame hvalid)).2.toList := by
  obtain ⟨bytes', hbytes', hrecv⟩ := recv_sendHello hvalid
  obtain rfl : bytes' = bytes := Option.some.inj (hbytes'.symm.trans hbytes)
  rw [serveConnection_hello hrunning halloc hrecv rfl hsecret, hello, halloc]
  simp only [hsend, if_true, List.nil_append, and_self]

/-- A receiver without one does nothing. -/
theorem serveConnection_sendHello_no_secret (hsecret : receiver.clusterSecret = []) (mac : Mac)
    {env : ConnEnv} (hrunning : env.running = true) (halloc : env.allocOk = true)
    (envs : List ConnEnv) (server : Server) {bytes : Bytes}
    (hbytes : sendHello sender = some bytes) :
    (serveConnection mac receiver (env :: envs) bytes server).server.peers = server.peers ∧
      (serveConnection mac receiver (env :: envs) bytes server).sent = [] := by
  obtain ⟨bytes', hbytes', hrecv⟩ := recv_sendHello hvalid
  obtain rfl : bytes' = bytes := Option.some.inj (hbytes'.symm.trans hbytes)
  rw [serveConnection_no_secret hrunning halloc hrecv rfl hsecret]
  exact ⟨rfl, rfl⟩

theorem discovers_of_discoverable (h : Discoverable receiver sender) :
    Discovers receiver sender := by
  intro mac env envs server bytes hrunning halloc hsend hpeers hbytes s
  by_cases hname : receiver.clusterName ≠ [] ∧ receiver.clusterName ≠ sender.clusterName
  · -- another cluster
    rw [if_neg (by simpa using hname)]
    by_cases hsecret : receiver.clusterSecret = []
    · exact serveConnection_sendHello_no_secret hvalid hsecret mac hrunning halloc envs server
        hbytes
    · obtain ⟨hpeers', hsent⟩ := serveConnection_sendHello hvalid hsecret mac hrunning halloc hsend
        envs server hbytes
      have hignored : handleClusterHello receiver true env.time server.peers (helloFrame hvalid) =
          (server.peers, none) := by
        by_cases hid : sender.myNodeId = 0
        · exact handleClusterHello_of_id hid true env.time server.peers
        · rw [handleClusterHello_helloFrame hvalid hid, if_pos hname]
      rw [hignored] at hpeers' hsent
      exact ⟨hpeers', hsent⟩
  · obtain ⟨hsecret, hid, hself⟩ := h.resolve_left hname
    have hlists := lists_addPeerWithNode hvalid.address_ne hvalid.address_le hvalid.port_ne hid
      hself env.time server.peers
    obtain ⟨payload, hlist⟩ := sendPeerList_eq receiver (length_addr_addPeerWithNode receiver true
      env.time hpeers sender.advertiseAddress sender.advertisePort sender.myNodeId)
    obtain ⟨hpeers', hsent⟩ := serveConnection_sendHello hvalid hsecret mac hrunning halloc hsend
      envs server hbytes
    rw [handleClusterHello_helloFrame hvalid hid, if_neg hname] at hpeers' hsent
    rw [hlist] at hsent
    have hsame := (not_and_or.mp hname).imp not_not.mp not_not.mp
    rw [if_pos hsame]
    exact ⟨hpeers' ▸ hlists, payload, hsent⟩

/-- Without a secret, an identifier or an endpoint of its own the sender is not
entered into an empty table. -/
theorem discoverable_of_discovers (mac : Mac) (h : Discovers receiver sender) :
    Discoverable receiver sender := by
  by_cases hname : receiver.clusterName ≠ [] ∧ receiver.clusterName ≠ sender.clusterName
  · exact Or.inl hname
  · obtain ⟨bytes, hbytes, -⟩ := recv_sendHello hvalid
    have hrunning : ConnEnv.ok.running = true := rfl
    have halloc : ConnEnv.ok.allocOk = true := rfl
    have hone := h mac .ok [] ⟨OrderedMap.empty, []⟩ bytes hrunning halloc (fun _ => rfl) (by simp)
      hbytes
    simp only at hone
    have hsame := (not_and_or.mp hname).imp not_not.mp not_not.mp
    rw [if_pos hsame] at hone
    obtain ⟨⟨p, hp, -⟩, payload, hsent⟩ := hone
    have hsecret : receiver.clusterSecret ≠ [] := by
      intro hsecret
      have hno := serveConnection_sendHello_no_secret hvalid hsecret mac hrunning halloc []
        ⟨OrderedMap.empty, []⟩ hbytes
      rw [hno.1] at hp
      simp at hp
    obtain ⟨hpeers, -⟩ := serveConnection_sendHello hvalid hsecret mac hrunning halloc
      (fun _ => rfl) [] ⟨OrderedMap.empty, []⟩ hbytes
    rw [hpeers] at hp
    have hid : sender.myNodeId ≠ 0 := by
      intro hid
      rw [handleClusterHello_of_id hid] at hp
      simp at hp
    refine Or.inr ⟨hsecret, hid, ?_⟩
    cases hself : endpointIsSelf receiver sender.advertiseAddress sender.advertisePort
        sender.myNodeId with
    | false => rfl
    | true =>
        rw [handleClusterHello_helloFrame hvalid hid, if_neg hname,
          addPeerWithNode_self hself] at hp
        simp at hp

end Discovery

/-- **Discovery works only with a secret.**  For configured nodes the HELLO of
one has the intended effect on the other exactly when the sender is
`Discoverable`. -/
theorem discovers_iff (host host' : Endian) (nodeId nodeId' : UInt64) (args args' : ClusterArgs) :
    Discovers (configuredNode host nodeId args) (configuredNode host' nodeId' args') ↔
      Discoverable (configuredNode host nodeId args) (configuredNode host' nodeId' args') :=
  ⟨discoverable_of_discovers (valid_configuredNode host' nodeId' args') .constant,
    discovers_of_discoverable (valid_configuredNode host' nodeId' args')⟩

/-- Two nodes without names or secrets: the second does not get to know the
first. -/
theorem discovers_fails :
    ¬ Discovers
      (configuredNode .little 1 ⟨some ⟨[49], by decide⟩, 7001, none, 10, none, none⟩)
      (configuredNode .little 2 ⟨some ⟨[50], by decide⟩, 7002, none, 10, none, none⟩) := by
  intro h
  rcases discoverable_of_discovers (valid_configuredNode ..) .constant h with
    ⟨hname, -⟩ | ⟨hsecret, -⟩
  · exact hname rfl
  · exact hsecret rfl

end Dmmr.Cluster
