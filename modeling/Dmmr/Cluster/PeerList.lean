import Dmmr.Cluster.Table

/-!
# Reading a peer list

`send_hello` greets a peer and reads the list it gets in return.  Each entry is
passed to `add_peer_with_node` as soon as it has been read, so a list that turns
out to be malformed has been taken over up to there.  What `send_peer_list` writes
is read back as it was (`parsePeerEntries_listed`).
-/

namespace Dmmr.Cluster

open Words Store Wire

/-- `struct peer_endpoint`. -/
structure Endpoint where
  addr : Bytes
  port : UInt16
  nodeId : UInt64
  deriving DecidableEq, Repr

def Peer.endpoint (p : Peer) : Endpoint := ⟨p.addr, p.port, p.nodeId⟩

/-- The entry at the start of `data`, and what follows it. -/
def parsePeerEntry (data : Bytes) : Option (Endpoint × Bytes) :=
  if data.length < 8 + 2 + 1 then none
  else
    let addrLen := (data.getD 10 0).toNat
    let text := data.drop 11
    if addrLen = 0 ∨ text.length < addrLen then none
    else
      some (⟨cString (text.take addrLen), UInt16.ofNat (Endian.big.field 8 2 data),
        UInt64.ofNat (Endian.big.field 0 8 data)⟩, text.drop addrLen)

/-- The loop of `parse_peer_list`: the entries read, and what is left if all of
them could be. -/
def parsePeerEntries : ℕ → Bytes → List Endpoint × Option Bytes
  | 0, data => ([], some data)
  | n + 1, data =>
      match parsePeerEntry data with
      | none => ([], none)
      | some (endpoint, data) =>
          let (endpoints, rest) := parsePeerEntries n data
          (endpoint :: endpoints, rest)

/-- `parse_peer_list`: its result, the endpoints passed to `add_peer_with_node`
and those put into `list`. -/
structure ParsedList where
  rc : Int
  added : List Endpoint
  items : List Endpoint

/-- `parse_peer_list`.  The payload is read from its start, where a key would be. -/
def parsePeerList (cfg : NodeConfig) (payload : Option Bytes) (payloadLen : ℕ) : ParsedList :=
  match payload with
  | none => ⟨-1, [], []⟩
  | some bytes =>
      if payloadLen < 2 then ⟨-1, [], []⟩
      else
        let data := bytes.take payloadLen
        let (endpoints, rest) := parsePeerEntries (Endian.big.field 0 2 data) (data.drop 2)
        ⟨if rest = some [] then 0 else -1, endpoints,
          (endpoints.filter fun e => !endpointIsSelf cfg e.addr e.port e.nodeId).take
            maxDiscoveredPeers⟩

/-- What happens to a call of `send_hello`: whether the connection is made, whether
the frame can be sent, and the frame received. -/
structure HelloEnv where
  connectOk : Bool
  sendOk : Bool
  response : Option Received

/-- `send_hello`: what is made of the reply. -/
def sendHelloReply (cfg : NodeConfig) (env : HelloEnv) : ParsedList :=
  if !env.connectOk then ⟨-1, [], []⟩
  else if (sendHello cfg).isNone || !env.sendOk then ⟨-1, [], []⟩
  else
    match env.response with
    | none => ⟨-1, [], []⟩
    | some r =>
        if r.frame.opcode ≠ Opcode.clusterPeerList.code then ⟨-1, [], []⟩
        else parsePeerList cfg r.payload r.frame.valueLen.toNat

/-! ## What was written is read back -/

/-- The address of an entry can be written and read back. -/
def Peer.Writable (p : Peer) : Prop :=
  p.addr ≠ [] ∧ p.addr.length ≤ peerAddrMax ∧ 0 ∉ p.addr

theorem parsePeerEntry_peerListEntry {p : Peer} (hp : p.Writable) (rest : Bytes) :
    parsePeerEntry (peerListEntry p ++ rest) = some (p.endpoint, rest) := by
  obtain ⟨hne, hle, hnul⟩ := hp
  have hpos : p.addr.length ≠ 0 := fun h => hne (List.length_eq_zero_iff.mp h)
  have hlen : (UInt8.ofNat p.addr.length).toNat = p.addr.length := by
    rw [UInt8.toNat_ofNat']
    exact Nat.mod_eq_of_lt (Nat.lt_of_le_of_lt hle (by decide))
  have hsplit : peerListEntry p ++ rest = Endian.big.bytes 8 p.nodeId.toNat ++
      (Endian.big.bytes 2 p.port.toNat ++ (UInt8.ofNat p.addr.length :: (p.addr ++ rest))) := by
    simp [peerListEntry]
  have hcount : ((peerListEntry p ++ rest).getD 10 0).toNat = p.addr.length := by
    rw [hsplit, ← hlen]
    simp [List.getD_eq_getElem?_getD, List.getElem?_append_right]
  have htext : (peerListEntry p ++ rest).drop 11 = p.addr ++ rest := by
    rw [hsplit]
    simp [List.drop_append, List.drop_of_length_le]
  have hfields : UInt16.ofNat (Endian.big.field 8 2 (peerListEntry p ++ rest)) = p.port ∧
      UInt64.ofNat (Endian.big.field 0 8 (peerListEntry p ++ rest)) = p.nodeId := by
    rw [hsplit]
    exact ⟨by simp [Endian.field_skip], by simp⟩
  have hlength : ¬ (peerListEntry p ++ rest).length < 8 + 2 + 1 := by
    rw [hsplit]
    simp
    omega
  unfold parsePeerEntry
  rw [if_neg hlength]
  simp only [hcount, htext, hfields.1, hfields.2]
  rw [if_neg (by simp [hpos]), List.take_left, List.drop_left, cString_of_not_mem hnul]
  rfl

theorem parsePeerEntries_listed {peers : List Peer} (hpeers : ∀ p ∈ peers, p.Writable) :
    parsePeerEntries peers.length (peers.flatMap peerListEntry) =
      (peers.map Peer.endpoint, some []) := by
  induction peers with
  | nil => rfl
  | cons p peers ih =>
      obtain ⟨hp, hpeers⟩ := List.forall_mem_cons.mp hpeers
      rw [List.flatMap_cons, List.length_cons, parsePeerEntries,
        parsePeerEntry_peerListEntry hp]
      simp only [ih hpeers]
      rfl

/-- The payload `send_peer_list` builds. -/
def peerListPayload (peers : List Peer) : Bytes :=
  Endian.big.bytes 2 (peers.take maxDiscoveredPeers).length ++
    (peers.take maxDiscoveredPeers).flatMap peerListEntry

/-- The payload is read back, as far as it has been written. -/
theorem parsePeerList_peerListPayload (cfg : NodeConfig) {peers : List Peer}
    (hpeers : ∀ p ∈ peers, p.Writable) :
    parsePeerList cfg (some (peerListPayload peers)) (peerListPayload peers).length =
      ⟨0, (peers.take maxDiscoveredPeers).map Peer.endpoint,
        ((peers.take maxDiscoveredPeers).map Peer.endpoint).filter fun e =>
          !endpointIsSelf cfg e.addr e.port e.nodeId⟩ := by
  have hlisted : ∀ p ∈ peers.take maxDiscoveredPeers, p.Writable :=
    fun p hp => hpeers p (List.mem_of_mem_take hp)
  have hle : (peers.take maxDiscoveredPeers).length ≤ maxDiscoveredPeers := List.length_take_le _ _
  have hcount : Endian.big.field 0 2 (peerListPayload peers) =
      (peers.take maxDiscoveredPeers).length := by
    apply Endian.field_zero
    unfold maxDiscoveredPeers at hle ⊢
    omega
  have hlong : ¬ (peerListPayload peers).length < 2 := by
    rw [peerListPayload, List.length_append, Endian.length_bytes]
    omega
  have hdata : (peerListPayload peers).drop 2 =
      (peers.take maxDiscoveredPeers).flatMap peerListEntry :=
    List.drop_left' (Endian.length_bytes ..)
  simp only [parsePeerList]
  rw [if_neg hlong, List.take_length, hcount, hdata, parsePeerEntries_listed hlisted]
  -- the list has room for all of them
  have hroom : (((peers.take maxDiscoveredPeers).map Peer.endpoint).filter fun e =>
      !endpointIsSelf cfg e.addr e.port e.nodeId).length ≤ maxDiscoveredPeers := by
    refine (List.length_filter_le _ _).trans ?_
    rwa [List.length_map]
  simp only [List.take_of_length_le hroom, if_true]

/-- **A peer list is taken over as it was sent**, up to the number of entries a
list has room for. -/
theorem parsePeerList_sendPeerList (cfg sender : NodeConfig) {peers : List Peer}
    (hpeers : ∀ p ∈ peers, p.Writable) :
    ∃ bytes r, sendPeerList sender true peers = some bytes ∧
      clusterRecvFrame true bytes = some (r, []) ∧
      r.frame.opcode = Opcode.clusterPeerList.code ∧
      (parsePeerList cfg r.payload r.frame.valueLen.toNat).rc = 0 ∧
      (parsePeerList cfg r.payload r.frame.valueLen.toNat).added =
        (peers.take maxDiscoveredPeers).map Peer.endpoint := by
  have hlen : (peerListPayload peers).length ≤ maxValueLen :=
    length_peerList_le fun p hp => (hpeers p hp).2.1
  have hrecv := clusterRecvFrame_control sender .clusterPeerList hlen []
  rw [List.append_nil] at hrecv
  have hpayload : (controlReceived sender .clusterPeerList hlen).payload =
      some (peerListPayload peers) := by
    refine payload_controlReceived sender .clusterPeerList hlen fun hnil => ?_
    have := congrArg List.length hnil
    simp [peerListPayload] at this
  have hvalueLen : (controlReceived sender .clusterPeerList hlen).frame.valueLen.toNat =
      (peerListPayload peers).length := toNat_valueLen hlen
  refine ⟨_, _, sendPeerList_of_le sender hlen, hrecv, rfl, ?_, ?_⟩
  · rw [hvalueLen, hpayload, parsePeerList_peerListPayload cfg hpeers]
  · rw [hvalueLen, hpayload, parsePeerList_peerListPayload cfg hpeers]

end Dmmr.Cluster
