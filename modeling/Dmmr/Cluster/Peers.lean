import Dmmr.Cluster.Auth

/-!
# The peer table and the HELLO handshake

A node learns its peers from HELLO frames and from the peer lists it gets in
return.  The table never holds the node itself; an entry is recognised by its
node identifier or by its address and port.
-/

namespace Dmmr.Cluster

open Words Store Wire

/-- `DMMR_PEER_ADDR_MAX`. -/
def peerAddrMax : ℕ := 255

/-- `DMMR_CLUSTER_NAME_MAX`. -/
def clusterNameMax : ℕ := 63

/-- `DMMR_MAX_DISCOVERED_PEERS`. -/
def maxDiscoveredPeers : ℕ := 128

/-- The C string in a buffer: the bytes before the first NUL. -/
def cString (bs : Bytes) : Bytes := bs.takeWhile (· ≠ 0)

/-- The fields of `struct peer_conn` that the table is about. -/
structure Peer where
  addr : Bytes
  port : UInt16
  nodeId : UInt64
  isSeed : Bool
  lastActivity : Int
  deriving DecidableEq, Repr

/-- `endpoint_is_self`. -/
def endpointIsSelf (cfg : NodeConfig) (addr : Bytes) (port : UInt16) (nodeId : UInt64) : Bool :=
  (nodeId ≠ 0 && nodeId == cfg.myNodeId) ||
    (port == cfg.advertisePort && addr == cfg.advertiseAddress)

/-- An entry of the table stands for the given endpoint. -/
def Peer.isEndpoint (addr : Bytes) (port : UInt16) (nodeId : UInt64) (peer : Peer) : Bool :=
  (nodeId ≠ 0 && peer.nodeId == nodeId) || (peer.port == port && peer.addr == addr)

/-- `TAILQ_FOREACH` in `add_peer_internal`: the first entry for the endpoint is
updated; `none` if there is none. -/
def updatePeer (addr : Bytes) (port : UInt16) (nodeId : UInt64) (isSeed : Bool) (now : Int) :
    List Peer → Option (List Peer)
  | [] => none
  | peer :: peers =>
      if peer.isEndpoint addr port nodeId then
        some ({ addr := addr
                port := port
                nodeId := if nodeId ≠ 0 then nodeId else peer.nodeId
                isSeed := peer.isSeed || isSeed
                lastActivity := now } :: peers)
      else (updatePeer addr port nodeId isSeed now peers).map (peer :: ·)

/-- `add_peer_internal`, with the address a C string and `now` the time. -/
def addPeerInternal (cfg : NodeConfig) (allocOk : Bool) (now : Int) (peers : List Peer)
    (addr : Bytes) (port : Int) (nodeId : UInt64) (isSeed : Bool) : List Peer :=
  if port < 1 ∨ port > 65535 then peers
  else
    let port := UInt16.ofNat port.toNat
    if addr.length = 0 ∨ addr.length > peerAddrMax ∨ endpointIsSelf cfg addr port nodeId = true then
      peers
    else
      match updatePeer addr port nodeId isSeed now peers with
      | some peers => peers
      | none => if allocOk then peers ++ [⟨addr, port, nodeId, isSeed, now⟩] else peers

/-- `add_peer_with_node`. -/
def addPeerWithNode (cfg : NodeConfig) (allocOk : Bool) (now : Int) (peers : List Peer)
    (addr : Bytes) (port : UInt16) (nodeId : UInt64) : List Peer :=
  addPeerInternal cfg allocOk now peers addr port.toNat nodeId false

/-- One entry of a peer list. -/
def peerListEntry (peer : Peer) : Bytes :=
  Endian.big.bytes 8 peer.nodeId.toNat ++ (Endian.big.bytes 2 peer.port.toNat ++
    UInt8.ofNat peer.addr.length :: peer.addr)

/-- `send_peer_list`: the frame it writes. -/
def sendPeerList (cfg : NodeConfig) (allocOk : Bool) (peers : List Peer) : Option Bytes :=
  let listed := peers.take maxDiscoveredPeers
  let payload := Endian.big.bytes 2 listed.length ++ listed.flatMap peerListEntry
  if payload.length > maxValueLen then none
  else if !allocOk then none
  else clusterSendFrame cfg.clusterName Opcode.clusterPeerList.code flagNone Buf.null
    (Buf.ofBytes payload) 0 cfg.myNodeId 0

/-- The cluster name in a HELLO value, empty in the old format; `none` if it is
malformed. -/
def helloName (r : Received) : Option Bytes :=
  if r.frame.valueLen.toNat > 2 then
    let nameLen := ((r.valueBytes 2 1).headD 0).toNat
    if nameLen > clusterNameMax ∨ r.frame.valueLen.toNat < 2 + 1 + nameLen then none
    else some (cString (r.valueBytes 3 nameLen))
  else some []

/-- `handle_cluster_hello`: the peer table afterwards and the frame sent in
return. -/
def handleClusterHello (cfg : NodeConfig) (allocOk : Bool) (now : Int) (peers : List Peer)
    (r : Received) : List Peer × Option Bytes :=
  if r.frame.nodeId = 0 ∨ r.frame.keyLen = 0 ∨ r.frame.keyLen.toNat > peerAddrMax ∨
      r.frame.valueLen.toNat < 2 ∨ r.payload = none then (peers, none)
  else
    let address := cString r.key.bytes
    let port := UInt16.ofNat (Endian.big.word (r.valueBytes 0 2))
    match helloName r with
    | none => (peers, none)
    | some peerName =>
        -- a node with a name accepts only peers of the same name
        if cfg.clusterName ≠ [] ∧ cfg.clusterName ≠ peerName then (peers, none)
        else
          let peers := addPeerWithNode cfg allocOk now peers address port r.frame.nodeId
          (peers, sendPeerList cfg allocOk peers)

end Dmmr.Cluster
