import Dmmr.Store.Record

/-!
# Cluster frames on the wire

A cluster frame is a 48-byte header in network byte order, followed by
`key_len` key bytes and `value_len` value bytes.  `cluster_send_frame` writes
one and `cluster_recv_frame` takes one off the front of a byte stream; what the
receiver hands on is a `Received`, which carries the bounds the receiver has
checked and the length of the payload it has read.

`clusterRecvFrame_send` is the round trip.
-/

namespace Dmmr.Wire

open Words Store

/-- `enum dmmr_opcode`. -/
inductive Opcode
  | get
  | set
  | del
  | sync
  | clusterHello
  | clusterPeerList
  | clusterSyncRequest
  | clusterSyncBegin
  | clusterSyncEnd
  | ping
  | status
  | stats
  | authRequest
  | authResponse
  | authOk
  deriving DecidableEq, Repr

def Opcode.code : Opcode → UInt16
  | get => 1
  | set => 2
  | del => 3
  | sync => 4
  | clusterHello => 5
  | clusterPeerList => 6
  | clusterSyncRequest => 7
  | clusterSyncBegin => 8
  | clusterSyncEnd => 9
  | ping => 10
  | status => 11
  | stats => 12
  | authRequest => 13
  | authResponse => 14
  | authOk => 15

theorem Opcode.code_injective : Function.Injective Opcode.code := by
  intro a b
  cases a <;> cases b <;> decide

/-- `FLAG_NONE`. -/
def flagNone : UInt16 := 0

/-- `FLAG_TOMBSTONE`. -/
def flagTombstone : UInt16 := 2

/-- `DMMR_MAGIC`. -/
def dmmrMagic : UInt16 := 0xD4D4

/-- `DMMR_CLUSTER_VERSION`. -/
def clusterVersion : UInt16 := 3

/-- `struct dmmr_cluster_frame`. -/
structure ClusterFrame where
  magic : UInt16
  version : UInt16
  opcode : UInt16
  flags : UInt16
  keyLen : UInt32
  valueLen : UInt32
  timestamp : UInt64
  nodeId : UInt64
  expireAt : UInt64
  clusterId : UInt32
  deriving DecidableEq, Repr

/-- `sizeof(struct dmmr_cluster_frame)`, with the four bytes of padding at its
end. -/
def frameSize : ℕ := 48

/-- The header as it is sent: every field in network byte order, the padding
zero. -/
def ClusterFrame.toBytes (f : ClusterFrame) : Bytes :=
  Endian.big.bytes 2 f.magic.toNat ++ (Endian.big.bytes 2 f.version.toNat ++
    (Endian.big.bytes 2 f.opcode.toNat ++ (Endian.big.bytes 2 f.flags.toNat ++
    (Endian.big.bytes 4 f.keyLen.toNat ++ (Endian.big.bytes 4 f.valueLen.toNat ++
    (Endian.big.bytes 8 f.timestamp.toNat ++ (Endian.big.bytes 8 f.nodeId.toNat ++
    (Endian.big.bytes 8 f.expireAt.toNat ++ (Endian.big.bytes 4 f.clusterId.toNat ++
      Endian.big.bytes 4 0)))))))))

/-- The header at the start of `data`, converted to host order. -/
def clusterFrameAt (data : Bytes) : ClusterFrame where
  magic := UInt16.ofNat (Endian.big.field 0 2 data)
  version := UInt16.ofNat (Endian.big.field 2 2 data)
  opcode := UInt16.ofNat (Endian.big.field 4 2 data)
  flags := UInt16.ofNat (Endian.big.field 6 2 data)
  keyLen := UInt32.ofNat (Endian.big.field 8 4 data)
  valueLen := UInt32.ofNat (Endian.big.field 12 4 data)
  timestamp := UInt64.ofNat (Endian.big.field 16 8 data)
  nodeId := UInt64.ofNat (Endian.big.field 24 8 data)
  expireAt := UInt64.ofNat (Endian.big.field 32 8 data)
  clusterId := UInt32.ofNat (Endian.big.field 40 4 data)

@[simp] theorem length_toBytes (f : ClusterFrame) : f.toBytes.length = frameSize := by
  simp [ClusterFrame.toBytes, frameSize]

@[simp] theorem clusterFrameAt_toBytes (f : ClusterFrame) (rest : Bytes) :
    clusterFrameAt (f.toBytes ++ rest) = f := by
  simp only [clusterFrameAt, ClusterFrame.toBytes, List.append_assoc, Endian.field_uint16]
  simp [Endian.field_skip]

/-! ## Cluster names -/

/-- `dmmr_fnv1a_32`. -/
def dmmrFnv1a32 (str : Bytes) : UInt32 :=
  str.foldl (fun hash b => (hash ^^^ b.toUInt32) * 16777619) 2166136261

/-- The identifier a node puts into its frames, `0` without a cluster name. -/
def clusterId (clusterName : Bytes) : UInt32 :=
  if clusterName ≠ [] then dmmrFnv1a32 clusterName else 0

/-- `check_cluster_id`: whether it returns `0`. -/
def checkClusterId (clusterName : Bytes) (frame : ClusterFrame) : Bool :=
  if clusterName = [] then true else frame.clusterId == dmmrFnv1a32 clusterName

/-- `authenticate_cluster_frame`: whether it returns `0`. -/
def authenticateClusterFrame (clusterName : Bytes) (frame : ClusterFrame) : Bool :=
  if clusterName = [] then true
  else if frame.clusterId = 0 then false
  else checkClusterId clusterName frame

/-- A frame passes a receiver with a name when it carries the hash of that name,
unless this is zero. -/
theorem authenticateClusterFrame_iff {name : Bytes} (hne : name ≠ []) (frame : ClusterFrame) :
    authenticateClusterFrame name frame = true ↔
      frame.clusterId ≠ 0 ∧ frame.clusterId = dmmrFnv1a32 name := by
  by_cases hzero : frame.clusterId = 0
  · simp [authenticateClusterFrame, hne, hzero]
  · simp [authenticateClusterFrame, checkClusterId, hne, hzero]

/-- The frames of a node pass under its own name, unless that hashes to zero. -/
theorem authenticateClusterFrame_self {name : Bytes} (hname : name ≠ [] → dmmrFnv1a32 name ≠ 0)
    {frame : ClusterFrame} (hid : frame.clusterId = clusterId name) :
    authenticateClusterFrame name frame = true := by
  by_cases hnil : name = []
  · exact if_pos hnil
  · rw [authenticateClusterFrame_iff hnil, hid, clusterId, if_pos hnil]
    exact ⟨hname hnil, rfl⟩

/-! ## Sending -/

/-- The header `cluster_send_frame` builds. -/
def sentHeader (clusterName : Bytes) (opcode flags : UInt16) (keyLen valueLen : ℕ)
    (timestamp nodeId expireAt : UInt64) : ClusterFrame where
  magic := dmmrMagic
  version := clusterVersion
  opcode := opcode
  flags := flags
  keyLen := UInt32.ofNat keyLen
  valueLen := UInt32.ofNat valueLen
  timestamp := timestamp
  nodeId := nodeId
  expireAt := expireAt
  clusterId := clusterId clusterName

/-- `cluster_send_frame`: the bytes it writes, `none` if it rejects its
arguments. -/
def clusterSendFrame (clusterName : Bytes) (opcode flags : UInt16) (key value : Buf)
    (timestamp nodeId expireAt : UInt64) : Option Bytes :=
  if key.len > maxKeyLen ∨ value.len > maxValueLen ∨ (key.len > 0 ∧ key.ptr = none) ∨
      (value.len > 0 ∧ value.ptr = none) then none
  else some ((sentHeader clusterName opcode flags key.len value.len timestamp nodeId
    expireAt).toBytes ++ (key.bytes ++ value.bytes))

/-! ## Receiving -/

/-- A frame with its payload, as `cluster_recv_frame` hands them on: the
lengths are within their bounds, and the payload, `NULL` when both lengths are
zero, has as many bytes as the lengths announce. -/
structure Received where
  frame : ClusterFrame
  payload : Option Bytes
  keyLen_le : frame.keyLen.toNat ≤ maxKeyLen
  valueLen_le : frame.valueLen.toNat ≤ maxValueLen
  payload_none : payload = none ↔ frame.keyLen.toNat + frame.valueLen.toNat = 0
  payload_length : ∀ p ∈ payload, p.length = frame.keyLen.toNat + frame.valueLen.toNat

namespace Received

/-- `payload` with `key_len`. -/
def key (r : Received) : Buf where
  ptr := r.payload
  len := r.frame.keyLen.toNat
  fits := fun mem hmem => by rw [r.payload_length mem hmem]; exact Nat.le_add_right _ _

/-- `value_len > 0 ? payload + key_len : NULL` with `value_len`. -/
def value (r : Received) : Buf where
  ptr := if r.frame.valueLen.toNat > 0 then r.payload.map (List.drop r.frame.keyLen.toNat) else none
  len := r.frame.valueLen.toNat
  fits := by
    intro mem hmem
    split_ifs at hmem with hlen
    · obtain ⟨p, hp, rfl⟩ := Option.map_eq_some_iff.mp hmem
      rw [List.length_drop, r.payload_length p hp]
      omega
    · simp at hmem

/-- The `n` bytes at `payload + key_len + off`. -/
def valueBytes (r : Received) (off n : ℕ) : Bytes :=
  (((r.payload.getD []).drop r.frame.keyLen.toNat).drop off).take n

end Received

/-- `recv_full` on a stream that delivers the given bytes and then ends. -/
def recvFull (len : ℕ) (stream : Bytes) : Option (Bytes × Bytes) :=
  if stream.length < len then none else some (stream.take len, stream.drop len)

theorem length_of_recvFull {len : ℕ} {stream bytes rest : Bytes}
    (h : recvFull len stream = some (bytes, rest)) : bytes.length = len := by
  unfold recvFull at h
  split_ifs at h with hlen
  obtain ⟨rfl, -⟩ := Prod.mk.inj (Option.some.inj h)
  rw [List.length_take, Nat.min_eq_left (not_lt.mp hlen)]

theorem length_rest_of_recvFull {len : ℕ} {stream bytes rest : Bytes}
    (h : recvFull len stream = some (bytes, rest)) : rest.length + len = stream.length := by
  unfold recvFull at h
  split_ifs at h with hlen
  obtain ⟨-, rfl⟩ := Prod.mk.inj (Option.some.inj h)
  rw [List.length_drop]
  omega

theorem recvFull_append {len : ℕ} {bytes : Bytes} (hlen : bytes.length = len) (rest : Bytes) :
    recvFull len (bytes ++ rest) = some (bytes, rest) := by
  unfold recvFull
  rw [if_neg (by simp [hlen]), List.take_left' hlen, List.drop_left' hlen]

/-- The end of `cluster_recv_frame`: the lengths of the header are checked and
the payload they announce is read. -/
def recvPayload (allocOk : Bool) (frame : ClusterFrame) (stream : Bytes) :
    Option (Received × Bytes) :=
  if hlen : frame.keyLen.toNat > maxKeyLen ∨ frame.valueLen.toNat > maxValueLen then none
  else
    have hlen' := not_or.mp hlen
    if htotal : frame.keyLen.toNat + frame.valueLen.toNat = 0 then
      some (⟨frame, none, not_lt.mp hlen'.1, not_lt.mp hlen'.2, iff_of_true rfl htotal,
        by simp⟩, stream)
    else if !allocOk then none
    else
      match hrecv : recvFull (frame.keyLen.toNat + frame.valueLen.toNat) stream with
      | none => none
      | some (payload, stream) =>
          some (⟨frame, some payload, not_lt.mp hlen'.1, not_lt.mp hlen'.2,
            iff_of_false (by simp) htotal,
            fun p hp => Option.some.inj hp ▸ length_of_recvFull hrecv⟩, stream)

/-- A frame that announces no payload. -/
def Received.bare (frame : ClusterFrame) (hkey : frame.keyLen.toNat ≤ maxKeyLen)
    (hvalue : frame.valueLen.toNat ≤ maxValueLen)
    (htotal : frame.keyLen.toNat + frame.valueLen.toNat = 0) : Received :=
  ⟨frame, none, hkey, hvalue, iff_of_true rfl htotal, by simp⟩

/-- A frame with the payload it announces. -/
def Received.carrying (frame : ClusterFrame) (hkey : frame.keyLen.toNat ≤ maxKeyLen)
    (hvalue : frame.valueLen.toNat ≤ maxValueLen)
    (htotal : frame.keyLen.toNat + frame.valueLen.toNat ≠ 0) (payload : Bytes)
    (hpayload : payload.length = frame.keyLen.toNat + frame.valueLen.toNat) : Received :=
  ⟨frame, some payload, hkey, hvalue, iff_of_false (by simp) htotal,
    fun _ hp => Option.some.inj hp ▸ hpayload⟩

/-- `cluster_recv_frame`: the frame and the rest of the stream. -/
def clusterRecvFrame (allocOk : Bool) (stream : Bytes) : Option (Received × Bytes) := do
  let (start, stream) ← recvFull 4 stream
  if UInt16.ofNat (Endian.big.field 0 2 start) ≠ dmmrMagic ∨
      UInt16.ofNat (Endian.big.field 2 2 start) ≠ clusterVersion then none
  else
    let (header, stream) ← recvFull (frameSize - 4) stream
    recvPayload allocOk (clusterFrameAt (start ++ header)) stream

/-! ## The round trip -/

theorem toNat_keyLen {n : ℕ} (h : n ≤ maxKeyLen) : (UInt32.ofNat n).toNat = n := by
  rw [UInt32.toNat_ofNat', Nat.mod_eq_of_lt]
  exact h.trans_lt (by decide)

theorem toNat_valueLen {n : ℕ} (h : n ≤ maxValueLen) : (UInt32.ofNat n).toNat = n := by
  rw [UInt32.toNat_ofNat', Nat.mod_eq_of_lt]
  exact h.trans_lt (by decide)

/-- The frame the receiver sees when a frame has been sent. -/
def receivedOf (clusterName : Bytes) (opcode flags : UInt16) (key value : Bytes)
    (timestamp nodeId expireAt : UInt64) (hkey : key.length ≤ maxKeyLen)
    (hvalue : value.length ≤ maxValueLen) : Received where
  frame := sentHeader clusterName opcode flags key.length value.length timestamp nodeId expireAt
  payload := if key ++ value = [] then none else some (key ++ value)
  keyLen_le := by simpa [sentHeader, toNat_keyLen hkey] using hkey
  valueLen_le := by simpa [sentHeader, toNat_valueLen hvalue] using hvalue
  payload_none := by
    simp only [sentHeader, toNat_keyLen hkey, toNat_valueLen hvalue]
    rw [← List.length_append, List.length_eq_zero_iff]
    split_ifs with h <;> simp [h]
  payload_length := by
    intro p hp
    simp only [sentHeader, toNat_keyLen hkey, toNat_valueLen hvalue]
    split_ifs at hp with h
    · simp at hp
    · rw [← Option.some.inj hp, List.length_append]

theorem clusterSendFrame_of_le (clusterName : Bytes) (opcode flags : UInt16) {key value : Bytes}
    (hkey : key.length ≤ maxKeyLen) (hvalue : value.length ≤ maxValueLen)
    (timestamp nodeId expireAt : UInt64) :
    clusterSendFrame clusterName opcode flags (Buf.ofBytes key) (Buf.ofBytes value) timestamp
        nodeId expireAt =
      some ((sentHeader clusterName opcode flags key.length value.length timestamp nodeId
        expireAt).toBytes ++ (key ++ value)) := by
  have hptr : ∀ bs : Bytes, (Buf.ofBytes bs).len > 0 → (Buf.ofBytes bs).ptr ≠ none := by
    intro bs hpos
    have hne : bs ≠ [] := List.ne_nil_of_length_pos hpos
    simp [Buf.ofBytes, hne]
  unfold clusterSendFrame
  rw [if_neg]
  · simp
  · rintro (h | h | ⟨h, h'⟩ | ⟨h, h'⟩)
    · exact absurd hkey (not_le.mpr h)
    · exact absurd hvalue (not_le.mpr h)
    · exact hptr key h h'
    · exact hptr value h h'

/-- A header with the right magic and version is taken off the stream. -/
theorem clusterRecvFrame_toBytes {f : ClusterFrame} (hmagic : f.magic = dmmrMagic)
    (hversion : f.version = clusterVersion) (allocOk : Bool) (stream : Bytes) :
    clusterRecvFrame allocOk (f.toBytes ++ stream) = recvPayload allocOk f stream := by
  obtain ⟨tail, htail⟩ : ∃ tail, f.toBytes =
      (Endian.big.bytes 2 f.magic.toNat ++ Endian.big.bytes 2 f.version.toNat) ++ tail :=
    ⟨_, (List.append_assoc _ _ _).symm⟩
  have hlen : tail.length = frameSize - 4 := by
    have h := length_toBytes f
    rw [htail] at h
    simp only [List.length_append, Endian.length_bytes] at h
    omega
  have hread := Endian.field_uint16 .big [] f.version
  rw [List.append_nil, hversion] at hread
  have hframe := clusterFrameAt_toBytes f []
  rw [List.append_nil, htail] at hframe
  unfold clusterRecvFrame
  rw [htail, List.append_assoc, recvFull_append (by simp) (tail ++ stream)]
  simp only [Option.bind_eq_bind, Option.bind_some]
  rw [if_neg, recvFull_append hlen stream]
  · simp only [Option.bind_some, hframe]
  · simp [Endian.field_skip, hread, hmagic, hversion]

/-- **A frame is received as it was sent**, whatever follows it on the stream. -/
theorem clusterRecvFrame_send (clusterName : Bytes) (opcode flags : UInt16) {key value : Bytes}
    (hkey : key.length ≤ maxKeyLen) (hvalue : value.length ≤ maxValueLen)
    (timestamp nodeId expireAt : UInt64) (rest : Bytes) :
    clusterRecvFrame true ((sentHeader clusterName opcode flags key.length value.length timestamp
        nodeId expireAt).toBytes ++ (key ++ value) ++ rest) =
      some (receivedOf clusterName opcode flags key value timestamp nodeId expireAt hkey hvalue,
        rest) := by
  rw [List.append_assoc, clusterRecvFrame_toBytes rfl rfl]
  have hk : (sentHeader clusterName opcode flags key.length value.length timestamp nodeId
      expireAt).keyLen.toNat = key.length := toNat_keyLen hkey
  have hv : (sentHeader clusterName opcode flags key.length value.length timestamp nodeId
      expireAt).valueLen.toNat = value.length := toNat_valueLen hvalue
  have htotal : (key ++ value).length = key.length + value.length := List.length_append
  unfold recvPayload receivedOf
  rw [dif_neg (by omega)]
  by_cases hnil : key ++ value = []
  · rw [dif_pos (by rw [hk, hv, ← htotal, hnil]; rfl)]
    simp [hnil]
  · rw [dif_neg (by rw [hk, hv, ← htotal]; simpa using hnil), if_neg (by simp)]
    have hrecv : recvFull ((sentHeader clusterName opcode flags key.length value.length timestamp
        nodeId expireAt).keyLen.toNat + (sentHeader clusterName opcode flags key.length
        value.length timestamp nodeId expireAt).valueLen.toNat) (key ++ value ++ rest) =
        some (key ++ value, rest) := recvFull_append (by rw [hk, hv, htotal]) rest
    split
    · rename_i h
      rw [hrecv] at h
      exact absurd h (by simp)
    · rename_i payload stream h
      rw [hrecv] at h
      obtain ⟨rfl, rfl⟩ := Prod.mk.inj (Option.some.inj h)
      simp [hnil]

/-- What the receiver finds at `payload + key_len + off`. -/
theorem valueBytes_receivedOf (clusterName : Bytes) (opcode flags : UInt16) {key value : Bytes}
    (timestamp nodeId expireAt : UInt64) (hkey : key.length ≤ maxKeyLen)
    (hvalue : value.length ≤ maxValueLen) (off n : ℕ) :
    (receivedOf clusterName opcode flags key value timestamp nodeId expireAt hkey
      hvalue).valueBytes off n = (value.drop off).take n := by
  have hlen : (UInt32.ofNat key.length).toNat = key.length := toNat_keyLen hkey
  simp only [Received.valueBytes, receivedOf, sentHeader, hlen]
  split_ifs with h
  · obtain ⟨rfl, rfl⟩ := List.append_eq_nil_iff.mp h
    simp
  · rw [Option.getD_some, List.drop_left]

theorem key_receivedOf (clusterName : Bytes) (opcode flags : UInt16) {key value : Bytes}
    (timestamp nodeId expireAt : UInt64) (hkey : key.length ≤ maxKeyLen)
    (hvalue : value.length ≤ maxValueLen) :
    (receivedOf clusterName opcode flags key value timestamp nodeId expireAt hkey
      hvalue).key.bytes = key := by
  have hlen : (UInt32.ofNat key.length).toNat = key.length := toNat_keyLen hkey
  simp only [Buf.bytes, Received.key, receivedOf, sentHeader, hlen]
  split_ifs with h
  · obtain ⟨rfl, rfl⟩ := List.append_eq_nil_iff.mp h
    rfl
  · rw [Option.getD_some, List.take_left]

/-! ## Frames that carry a record -/

theorem flags_tombstone (tombstone : Bool) :
    ((if tombstone then flagTombstone else flagNone) &&& flagTombstone != 0) = tombstone := by
  cases tombstone <;> decide

/-- The `OP_SYNC` frame of a record, as it is received. -/
def recordFrame (clusterName : Bytes) (k : Key) (r : Record) : Received :=
  receivedOf clusterName Opcode.sync.code (if r.tombstone then flagTombstone else flagNone) k.1
    r.value r.timestamp r.nodeId r.expireAt k.2.2 r.length_value_le

theorem keyLen_recordFrame (clusterName : Bytes) (k : Key) (r : Record) :
    (recordFrame clusterName k r).frame.keyLen ≠ 0 := by
  intro hzero
  have hlen := toNat_keyLen k.2.2
  rw [show UInt32.ofNat k.1.length = 0 from hzero] at hlen
  exact k.2.1 (List.length_eq_zero_iff.mp hlen.symm)

theorem payload_recordFrame (clusterName : Bytes) (k : Key) (r : Record) :
    (recordFrame clusterName k r).payload ≠ none := by
  simp [recordFrame, receivedOf, k.2.1]

/-- **The receiver of a record is asked to store that record.** -/
theorem requested_recordFrame (clusterName : Bytes) (k : Key) (r : Record) :
    requested (recordFrame clusterName k r).key (recordFrame clusterName k r).frame.timestamp
        (recordFrame clusterName k r).frame.nodeId (recordFrame clusterName k r).frame.expireAt
        ((recordFrame clusterName k r).frame.flags &&& flagTombstone != 0)
        (recordFrame clusterName k r).value = some (k, r) := by
  have hflags : ((recordFrame clusterName k r).frame.flags &&& flagTombstone != 0) =
    r.tombstone := flags_tombstone r.tombstone
  have hk : (UInt32.ofNat k.1.length).toNat = k.1.length := toNat_keyLen k.2.2
  have hv : (UInt32.ofNat r.value.length).toNat = r.value.length :=
    toNat_valueLen r.length_value_le
  rw [hflags]
  apply requested_eq_some
  · exact payload_recordFrame clusterName k r
  · exact hk
  · exact key_receivedOf ..
  · exact hv
  · by_cases hnil : r.value = []
    · simp [Buf.bytes, Received.value, recordFrame, receivedOf, sentHeader, hnil]
    · have hpos : 0 < r.value.length := List.length_pos_iff.mpr hnil
      simp [Buf.bytes, Received.value, recordFrame, receivedOf, sentHeader, k.2.1, hk, hv, hpos]
  · by_cases hnil : r.value = []
    · exact Or.inl (by simp [Received.value, recordFrame, receivedOf, sentHeader, hnil])
    · have hpos : 0 < r.value.length := List.length_pos_iff.mpr hnil
      exact Or.inr (by
        simp [Received.value, recordFrame, receivedOf, sentHeader, k.2.1, hv, hpos])

/-! ## The frames of a stream -/

def decodeFrames : ℕ → Bytes → List Received
  | 0, _ => []
  | fuel + 1, stream =>
      match clusterRecvFrame true stream with
      | none => []
      | some (r, stream) => r :: decodeFrames fuel stream

/-- The frames a byte stream holds, up to the first malformed one. -/
def frames (stream : Bytes) : List Received := decodeFrames stream.length stream

theorem recvPayload_alloc {allocOk : Bool} {frame : ClusterFrame} {stream : Bytes}
    {result : Received × Bytes} (h : recvPayload allocOk frame stream = some result) :
    recvPayload true frame stream = some result := by
  cases allocOk with
  | true => exact h
  | false =>
      unfold recvPayload at h ⊢
      by_cases hlen : frame.keyLen.toNat > maxKeyLen ∨ frame.valueLen.toNat > maxValueLen
      · simp [hlen] at h
      · by_cases htotal : frame.keyLen.toNat + frame.valueLen.toNat = 0
        · rw [dif_neg hlen, dif_pos htotal] at h ⊢
          exact h
        · rw [dif_neg hlen, dif_neg htotal, if_pos (by rfl)] at h
          exact absurd h (by simp)

theorem length_recvPayload {allocOk : Bool} {frame : ClusterFrame} {stream rest : Bytes}
    {r : Received} (h : recvPayload allocOk frame stream = some (r, rest)) :
    rest.length ≤ stream.length := by
  unfold recvPayload at h
  split_ifs at h
  · rw [(Prod.mk.inj (Option.some.inj h)).2]
  · split at h
    · exact absurd h (by simp)
    · rename_i hrecv
      have hlen := length_rest_of_recvFull hrecv
      rw [(Prod.mk.inj (Option.some.inj h)).2] at hlen
      omega

/-- What a successful `cluster_recv_frame` went through. -/
theorem clusterRecvFrame_inv {allocOk : Bool} {stream rest : Bytes} {r : Received}
    (h : clusterRecvFrame allocOk stream = some (r, rest)) :
    clusterRecvFrame true stream = some (r, rest) ∧ rest.length < stream.length := by
  unfold clusterRecvFrame at h ⊢
  cases hstart : recvFull 4 stream with
  | none => simp [hstart] at h
  | some p =>
      obtain ⟨start, stream'⟩ := p
      simp only [hstart, Option.bind_eq_bind, Option.bind_some] at h ⊢
      split_ifs at h ⊢
      cases hheader : recvFull (frameSize - 4) stream' with
      | none => simp [hheader] at h
      | some p =>
          obtain ⟨header, stream''⟩ := p
          simp only [hheader, Option.bind_some] at h ⊢
          refine ⟨recvPayload_alloc h, ?_⟩
          have h₁ := length_rest_of_recvFull hstart
          have h₂ := length_recvPayload h
          have h₃ := length_rest_of_recvFull hheader
          omega

theorem recvFull_of_append {len : ℕ} {stream bytes rest : Bytes}
    (h : recvFull len stream = some (bytes, rest)) (more : Bytes) :
    recvFull len (stream ++ more) = some (bytes, rest ++ more) := by
  unfold recvFull at h ⊢
  split_ifs at h with hlen
  obtain ⟨rfl, rfl⟩ := Prod.mk.inj (Option.some.inj h)
  have hle : len ≤ stream.length := not_lt.mp hlen
  rw [if_neg (by rw [List.length_append]; omega), List.take_append_of_le_length hle,
    List.drop_append_of_le_length hle]

theorem recvPayload_of_append {allocOk : Bool} {frame : ClusterFrame} {stream rest : Bytes}
    {r : Received} (h : recvPayload allocOk frame stream = some (r, rest)) (more : Bytes) :
    recvPayload allocOk frame (stream ++ more) = some (r, rest ++ more) := by
  unfold recvPayload at h ⊢
  split_ifs at h ⊢
  · obtain ⟨rfl, rfl⟩ := Prod.mk.inj (Option.some.inj h)
    rfl
  · split at h
    · exact absurd h (by simp)
    · rename_i payload tail hrecv
      obtain ⟨rfl, rfl⟩ := Prod.mk.inj (Option.some.inj h)
      have hmore := recvFull_of_append hrecv more
      split
      · rename_i hnone
        rw [hmore] at hnone
        exact absurd hnone (by simp)
      · rename_i hsome
        rw [hmore] at hsome
        obtain ⟨rfl, rfl⟩ := Prod.mk.inj (Option.some.inj hsome)
        rfl

/-- What follows on the stream does not matter to a frame that is complete. -/
theorem clusterRecvFrame_of_append {allocOk : Bool} {stream rest : Bytes} {r : Received}
    (h : clusterRecvFrame allocOk stream = some (r, rest)) (more : Bytes) :
    clusterRecvFrame allocOk (stream ++ more) = some (r, rest ++ more) := by
  unfold clusterRecvFrame at h ⊢
  simp only [Option.bind_eq_bind, Option.bind_eq_some_iff] at h ⊢
  obtain ⟨⟨start, mid⟩, hstart, h⟩ := h
  refine ⟨(start, mid ++ more), recvFull_of_append hstart more, ?_⟩
  simp only at h ⊢
  split_ifs at h ⊢
  simp only [Option.bind_eq_some_iff] at h ⊢
  obtain ⟨⟨header, tail⟩, hheader, h⟩ := h
  exact ⟨(header, tail ++ more), recvFull_of_append hheader more, recvPayload_of_append h more⟩

/-- A frame read off the beginning of `bytes ++ rest`, where `bytes` is a frame,
is that frame. -/
theorem recv_of_isPrefix {allocOk : Bool} {stream bytes rest tail : Bytes} {f r : Received}
    (hframe : ∀ rest, clusterRecvFrame true (bytes ++ rest) = some (f, rest))
    (hstream : stream <+: bytes ++ rest)
    (h : clusterRecvFrame allocOk stream = some (r, tail)) : r = f ∧ tail <+: rest := by
  obtain ⟨more, hmore⟩ := hstream
  have hlong := clusterRecvFrame_of_append (clusterRecvFrame_inv h).1 more
  rw [hmore, hframe] at hlong
  obtain ⟨rfl, rfl⟩ := Prod.mk.inj (Option.some.inj hlong)
  exact ⟨rfl, List.prefix_append _ _⟩

/-- More fuel than bytes makes no difference. -/
theorem decodeFrames_eq_of_le :
    ∀ {fuel fuel' : ℕ} {stream : Bytes}, stream.length ≤ fuel → stream.length ≤ fuel' →
      decodeFrames fuel stream = decodeFrames fuel' stream := by
  intro fuel
  induction fuel with
  | zero =>
      intro fuel' stream h _
      obtain rfl : stream = [] := List.length_eq_zero_iff.mp (by omega)
      cases fuel' <;> rfl
  | succ fuel ih =>
      intro fuel' stream h h'
      cases fuel' with
      | zero =>
          obtain rfl : stream = [] := List.length_eq_zero_iff.mp (by omega)
          rfl
      | succ fuel' =>
          simp only [decodeFrames]
          cases hrecv : clusterRecvFrame true stream with
          | none => rfl
          | some p =>
              have hlt := (clusterRecvFrame_inv hrecv).2
              have htail : decodeFrames fuel p.2 = decodeFrames fuel' p.2 :=
                ih (by omega) (by omega)
              simp only [htail]

theorem frames_of_recv {stream rest : Bytes} {r : Received}
    (h : clusterRecvFrame true stream = some (r, rest)) : frames stream = r :: frames rest := by
  have hlt := (clusterRecvFrame_inv h).2
  obtain ⟨n, hn⟩ : ∃ n, stream.length = n + 1 := ⟨stream.length - 1, by omega⟩
  unfold frames
  rw [hn, decodeFrames, h]
  simp only
  rw [decodeFrames_eq_of_le (by omega) le_rfl]

theorem recv_of_frames {stream : Bytes} {r : Received} {rs : List Received}
    (h : frames stream = r :: rs) :
    ∃ rest, clusterRecvFrame true stream = some (r, rest) ∧ frames rest = rs := by
  cases hrecv : clusterRecvFrame true stream with
  | none =>
      unfold frames at h
      cases hlen : stream.length with
      | zero => simp [hlen, decodeFrames] at h
      | succ n => simp [hlen, decodeFrames, hrecv] at h
  | some p =>
      obtain ⟨r', rest⟩ := p
      rw [frames_of_recv hrecv] at h
      obtain ⟨rfl, rfl⟩ := List.cons.inj h
      exact ⟨rest, rfl, rfl⟩

end Dmmr.Wire
