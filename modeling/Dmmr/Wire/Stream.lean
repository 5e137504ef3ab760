import Dmmr.Lib.Segments
import Dmmr.Wire.Frame

/-!
# Cluster frames on a connection

In `Wire.Frame` a frame is taken off the front of a byte string.  A connection is
not a byte string: `recv` hands over the bytes in pieces of any size and may be
interrupted in between.  `Reader` is what `cluster_recv_frame` needs of its source,
namely `recv_full`, so that one definition covers both, and
`clusterRecvFrame_sim` carries a result from one source to another.

`clusterFrame_exact` is the contract of the codec in both directions: frames that
are written one after the other are received as they were sent, however the
connection cuts them, and nothing is received but such frames.  The receiver
ignores two fields, the cluster identifier, which is checked elsewhere, and the
padding at the end of the header.
-/

namespace Dmmr.Wire

open Words Store Segments

/-! ## Sources -/

/-- A source of bytes: `read n` takes the next `n` bytes, or fails. -/
structure Reader (σ : Type*) where
  read : ℕ → σ → Option (Bytes × σ)
  length_read : ∀ {n : ℕ} {s s' : σ} {bytes : Bytes}, read n s = some (bytes, s') →
    bytes.length = n

/-- `recv_full` on a byte string. -/
def Reader.bytes : Reader Bytes := ⟨recvFull, length_of_recvFull⟩

/-- `recv_full` on a connection. -/
def Reader.segments : Reader (List (ReadCall UInt8)) :=
  ⟨fun n calls => readExactly calls n, length_of_readExactly⟩

namespace Reader

variable {σ τ : Type*} (rd : Reader σ)

/-- The end of `cluster_recv_frame`. -/
def recvPayload (allocOk : Bool) (frame : ClusterFrame) (s : σ) : Option (Received × σ) :=
  if hlen : frame.keyLen.toNat > maxKeyLen ∨ frame.valueLen.toNat > maxValueLen then none
  else
    have hkey := not_lt.mp fun h => hlen (Or.inl h)
    have hvalue := not_lt.mp fun h => hlen (Or.inr h)
    if htotal : frame.keyLen.toNat + frame.valueLen.toNat = 0 then
      some (.bare frame hkey hvalue htotal, s)
    else if !allocOk then none
    else
      match hread : rd.read (frame.keyLen.toNat + frame.valueLen.toNat) s with
      | none => none
      | some (payload, s) =>
          some (.carrying frame hkey hvalue htotal payload (rd.length_read hread), s)

/-- `cluster_recv_frame`: the frame and what is left of the source. -/
def clusterRecvFrame (allocOk : Bool) (s : σ) : Option (Received × σ) := do
  let (start, s) ← rd.read 4 s
  if UInt16.ofNat (Endian.big.field 0 2 start) ≠ dmmrMagic ∨
      UInt16.ofNat (Endian.big.field 2 2 start) ≠ clusterVersion then none
  else
    let (header, s) ← rd.read (frameSize - 4) s
    rd.recvPayload allocOk (clusterFrameAt (start ++ header)) s

/-- Several calls of `cluster_recv_frame`. -/
def clusterRecvFrames (allocOk : Bool) : ℕ → σ → Option (List Received × σ)
  | 0, s => some ([], s)
  | n + 1, s => do
      let (r, s) ← rd.clusterRecvFrame allocOk s
      let (rs, s) ← clusterRecvFrames allocOk n s
      some (r :: rs, s)

end Reader

/-! ## What a received frame went through -/

theorem Received.ext {r r' : Received} (hframe : r.frame = r'.frame)
    (hpayload : r.payload = r'.payload) : r = r' := by
  obtain ⟨frame, payload, _, _, _, _⟩ := r
  obtain ⟨frame', payload', _, _, _, _⟩ := r'
  obtain rfl : frame = frame' := hframe
  obtain rfl : payload = payload' := hpayload
  rfl

namespace Reader

variable {σ τ : Type*} {rd : Reader σ}

/-- The payload is read as far as the lengths announce one. -/
theorem recvPayload_iff {allocOk : Bool} {frame : ClusterFrame} {s s' : σ} {r : Received} :
    rd.recvPayload allocOk frame s = some (r, s') ↔
      r.frame = frame ∧ ((r.payload = none ∧ s' = s) ∨ ∃ payload, r.payload = some payload ∧
        allocOk = true ∧
        rd.read (frame.keyLen.toNat + frame.valueLen.toNat) s = some (payload, s')) := by
  unfold recvPayload
  by_cases hlen : frame.keyLen.toNat > maxKeyLen ∨ frame.valueLen.toNat > maxValueLen
  · rw [dif_pos hlen]
    refine iff_of_false (by simp) ?_
    rintro ⟨rfl, -⟩
    rcases hlen with h | h
    · exact absurd r.keyLen_le (not_le.mpr h)
    · exact absurd r.valueLen_le (not_le.mpr h)
  rw [dif_neg hlen]
  by_cases htotal : frame.keyLen.toNat + frame.valueLen.toNat = 0
  · rw [dif_pos htotal]
    constructor
    · intro h
      obtain ⟨rfl, rfl⟩ := Prod.mk.inj (Option.some.inj h)
      exact ⟨rfl, Or.inl ⟨rfl, rfl⟩⟩
    · rintro ⟨rfl, ⟨hnone, rfl⟩ | ⟨payload, hsome, -⟩⟩
      · exact congrArg some (Prod.ext (Received.ext rfl hnone.symm) rfl)
      · exact absurd (r.payload_none.mpr htotal) (by simp [hsome])
  rw [dif_neg htotal]
  cases allocOk with
  | false =>
      refine iff_of_false (by simp) ?_
      rintro ⟨rfl, ⟨hnone, -⟩ | ⟨payload, -, hfalse, -⟩⟩
      · exact htotal (r.payload_none.mp hnone)
      · exact absurd hfalse (by simp)
  | true =>
      rw [if_neg (by simp)]
      split
      · rename_i hread
        refine iff_of_false (by simp) ?_
        rintro ⟨rfl, ⟨hnone, -⟩ | ⟨payload, -, -, hread'⟩⟩
        · exact htotal (r.payload_none.mp hnone)
        · rw [hread] at hread'
          exact absurd hread' (by simp)
      · rename_i payload s₁ hread
        constructor
        · intro h
          obtain ⟨rfl, rfl⟩ := Prod.mk.inj (Option.some.inj h)
          exact ⟨rfl, Or.inr ⟨payload, rfl, rfl, hread⟩⟩
        · rintro ⟨rfl, ⟨hnone, -⟩ | ⟨payload', hsome, -, hread'⟩⟩
          · exact absurd (r.payload_none.mp hnone) htotal
          · rw [hread] at hread'
            obtain ⟨rfl, rfl⟩ := Prod.mk.inj (Option.some.inj hread')
            exact congrArg some (Prod.ext (Received.ext rfl hsome.symm) rfl)

/-- A frame is received exactly when its parts can be read and the first four
bytes are right. -/
theorem clusterRecvFrame_iff {allocOk : Bool} {s s' : σ} {r : Received} :
    rd.clusterRecvFrame allocOk s = some (r, s') ↔
      ∃ start s₁ header s₂, rd.read 4 s = some (start, s₁) ∧
        UInt16.ofNat (Endian.big.field 0 2 start) = dmmrMagic ∧
        UInt16.ofNat (Endian.big.field 2 2 start) = clusterVersion ∧
        rd.read (frameSize - 4) s₁ = some (header, s₂) ∧
        r.frame = clusterFrameAt (start ++ header) ∧
        ((r.payload = none ∧ s' = s₂) ∨ ∃ payload, r.payload = some payload ∧ allocOk = true ∧
          rd.read (r.frame.keyLen.toNat + r.frame.valueLen.toNat) s₂ = some (payload, s')) := by
  unfold clusterRecvFrame
  simp only [Option.bind_eq_bind, Option.bind_eq_some_iff, Prod.exists]
  constructor
  · rintro ⟨start, s₁, hstart, h⟩
    split_ifs at h with hbad
    obtain ⟨hmagic, hversion⟩ := not_or.mp hbad
    simp only [Option.bind_eq_some_iff, Prod.exists] at h
    obtain ⟨header, s₂, hheader, h⟩ := h
    obtain ⟨hframe, h⟩ := recvPayload_iff.mp h
    rw [← hframe] at h
    exact ⟨start, s₁, header, s₂, hstart, not_not.mp hmagic, not_not.mp hversion, hheader, hframe,
      h⟩
  · rintro ⟨start, s₁, header, s₂, hstart, hmagic, hversion, hheader, hframe, h⟩
    refine ⟨start, s₁, hstart, ?_⟩
    rw [if_neg (by simp [hmagic, hversion])]
    simp only [Option.bind_eq_some_iff, Prod.exists]
    rw [hframe] at h
    exact ⟨header, s₂, hheader, recvPayload_iff.mpr ⟨hframe, h⟩⟩

/-- **A frame is received from any source that delivers the same bytes.** -/
theorem clusterRecvFrame_sim {rd' : Reader τ} {R : σ → τ → Prop}
    (hread : ∀ {n : ℕ} {s s' : σ} {t : τ} {bytes : Bytes}, R s t →
      rd.read n s = some (bytes, s') → ∃ t', rd'.read n t = some (bytes, t') ∧ R s' t')
    {allocOk : Bool} {s s' : σ} {t : τ} {r : Received} (hR : R s t)
    (h : rd.clusterRecvFrame allocOk s = some (r, s')) :
    ∃ t', rd'.clusterRecvFrame allocOk t = some (r, t') ∧ R s' t' := by
  obtain ⟨start, s₁, header, s₂, hstart, hmagic, hversion, hheader, hframe, h⟩ :=
    clusterRecvFrame_iff.mp h
  obtain ⟨t₁, hstart', hR₁⟩ := hread hR hstart
  obtain ⟨t₂, hheader', hR₂⟩ := hread hR₁ hheader
  rcases h with ⟨hnone, rfl⟩ | ⟨payload, hsome, halloc, hpayload⟩
  · exact ⟨t₂, clusterRecvFrame_iff.mpr ⟨start, t₁, header, t₂, hstart', hmagic, hversion, hheader',
      hframe, Or.inl ⟨hnone, rfl⟩⟩, hR₂⟩
  · obtain ⟨t', hpayload', hR'⟩ := hread hR₂ hpayload
    exact ⟨t', clusterRecvFrame_iff.mpr ⟨start, t₁, header, t₂, hstart', hmagic, hversion, hheader',
      hframe, Or.inr ⟨payload, hsome, halloc, hpayload'⟩⟩, hR'⟩

theorem recvPayload_bytes (allocOk : Bool) (frame : ClusterFrame) (stream : Bytes) :
    Reader.bytes.recvPayload allocOk frame stream = Wire.recvPayload allocOk frame stream := by
  unfold recvPayload Wire.recvPayload
  split_ifs
  · rfl
  · rfl
  · rfl
  · simp only
    split
    · rename_i hread
      split
      · rfl
      · rename_i hrecv
        exact absurd (hread.symm.trans hrecv) (by simp)
    · rename_i payload rest hread
      split
      · rename_i hrecv
        exact absurd (hread.symm.trans hrecv) (by simp)
      · rename_i hrecv
        obtain ⟨rfl, rfl⟩ := Prod.mk.inj (Option.some.inj (hread.symm.trans hrecv))
        rfl

/-- On a byte string this is `Wire.clusterRecvFrame`. -/
theorem clusterRecvFrame_bytes (allocOk : Bool) (stream : Bytes) :
    Reader.bytes.clusterRecvFrame allocOk stream = Wire.clusterRecvFrame allocOk stream := by
  unfold clusterRecvFrame Wire.clusterRecvFrame
  simp only [recvPayload_bytes]
  rfl

/-- A connection delivers what a byte string holds. -/
theorem read_segments {n : ℕ} {stream rest : Bytes} {calls : List (ReadCall UInt8)} {bytes : Bytes}
    (h : Delivers calls stream) (hread : Reader.bytes.read n stream = some (bytes, rest)) :
    ∃ calls', Reader.segments.read n calls = some (bytes, calls') ∧ Delivers calls' rest := by
  have hlen : bytes.length = n := Reader.bytes.length_read hread
  have hstream : stream = bytes ++ rest := by
    change recvFull n stream = some (bytes, rest) at hread
    unfold recvFull at hread
    split_ifs at hread
    obtain ⟨rfl, rfl⟩ := Prod.mk.inj (Option.some.inj hread)
    rw [List.take_append_drop]
  rw [hstream] at h
  exact readExactly_of_delivers h hlen

/-- What a connection brings is split at each read. -/
theorem pending_segments {n : ℕ} {calls calls' : List (ReadCall UInt8)} {bytes : Bytes}
    (h : Reader.segments.read n calls = some (bytes, calls')) :
    pending calls = bytes ++ pending calls' := pending_of_readExactly h

end Reader

/-! ## Frames that are sent -/

/-- The arguments of `cluster_send_frame`. -/
structure SendArgs where
  opcode : UInt16
  flags : UInt16
  key : Buf
  value : Buf
  timestamp : UInt64
  nodeId : UInt64
  expireAt : UInt64

/-- The bytes it writes, `none` if it rejects them. -/
def SendArgs.send (clusterName : Bytes) (m : SendArgs) : Option Bytes :=
  clusterSendFrame clusterName m.opcode m.flags m.key m.value m.timestamp m.nodeId m.expireAt

/-- The frame, its key and its value are those that were sent. -/
structure Carries (clusterName : Bytes) (m : SendArgs) (r : Received) : Prop where
  frame : r.frame = sentHeader clusterName m.opcode m.flags m.key.len m.value.len m.timestamp
    m.nodeId m.expireAt
  key : r.key.bytes = m.key.bytes
  value : r.value.bytes = m.value.bytes

theorem value_receivedOf (clusterName : Bytes) (opcode flags : UInt16) {key value : Bytes}
    (timestamp nodeId expireAt : UInt64) (hkey : key.length ≤ maxKeyLen)
    (hvalue : value.length ≤ maxValueLen) :
    (receivedOf clusterName opcode flags key value timestamp nodeId expireAt hkey
      hvalue).value.bytes = value := by
  have hk : (UInt32.ofNat key.length).toNat = key.length := toNat_keyLen hkey
  have hv : (UInt32.ofNat value.length).toNat = value.length := toNat_valueLen hvalue
  by_cases hnil : value = []
  · simp [Buf.bytes, Received.value, receivedOf, sentHeader, hnil]
  · have hpos : 0 < value.length := List.length_pos_iff.mpr hnil
    simp [Buf.bytes, Received.value, receivedOf, sentHeader, hk, hv, hpos, hnil]

/-- A frame that is accepted is received as it was sent, whatever follows it. -/
theorem clusterRecvFrame_of_send {clusterName : Bytes} {m : SendArgs} {bytes : Bytes}
    (h : m.send clusterName = some bytes) (rest : Bytes) :
    ∃ r, clusterRecvFrame true (bytes ++ rest) = some (r, rest) ∧ Carries clusterName m r := by
  unfold SendArgs.send clusterSendFrame at h
  split_ifs at h with hbad
  simp only [not_or, not_and, not_lt] at hbad
  obtain ⟨hkeyLen, hvalueLen, hkeyPtr, hvaluePtr⟩ := hbad
  have hkey : m.key.bytes.length = m.key.len :=
    Buf.length_bytes (m.key.len.eq_zero_or_pos.symm.imp_left hkeyPtr)
  have hvalue : m.value.bytes.length = m.value.len :=
    Buf.length_bytes (m.value.len.eq_zero_or_pos.symm.imp_left hvaluePtr)
  have hsent := clusterRecvFrame_send clusterName m.opcode m.flags (hkey.trans_le hkeyLen)
    (hvalue.trans_le hvalueLen) m.timestamp m.nodeId m.expireAt rest
  rw [← hkey, ← hvalue] at h
  rw [← Option.some.inj h]
  refine ⟨_, hsent, ?_, key_receivedOf .., value_receivedOf ..⟩
  show sentHeader clusterName m.opcode m.flags m.key.bytes.length m.value.bytes.length m.timestamp
    m.nodeId m.expireAt = _
  rw [hkey, hvalue]

/-- Frames written one after the other are received one after the other. -/
theorem clusterRecvFrames_of_sent {clusterName : Bytes} {sent : List (SendArgs × Bytes)}
    (hsent : ∀ m ∈ sent, m.1.send clusterName = some m.2) {rest : Bytes}
    {calls : List (ReadCall UInt8)}
    (hcalls : Delivers calls ((sent.map Prod.snd).flatten ++ rest)) :
    ∃ received calls', Reader.segments.clusterRecvFrames true sent.length calls =
        some (received, calls') ∧ Delivers calls' rest ∧
      List.Forall₂ (fun m r => Carries clusterName m.1 r) sent received := by
  induction sent generalizing calls with
  | nil => exact ⟨[], calls, rfl, hcalls, List.Forall₂.nil⟩
  | cons m sent ih =>
      obtain ⟨hm, hsent⟩ := List.forall_mem_cons.mp hsent
      rw [List.map_cons, List.flatten_cons, List.append_assoc] at hcalls
      obtain ⟨r, hrecv, hcarries⟩ := clusterRecvFrame_of_send hm
        ((sent.map Prod.snd).flatten ++ rest)
      rw [← Reader.clusterRecvFrame_bytes] at hrecv
      obtain ⟨calls₁, hfirst, hcalls₁⟩ := Reader.clusterRecvFrame_sim
        (R := fun stream calls => Delivers calls stream) Reader.read_segments hcalls hrecv
      obtain ⟨received, calls', hrest, hcalls', hall⟩ := ih hsent hcalls₁
      refine ⟨r :: received, calls', ?_, hcalls', List.Forall₂.cons hcarries hall⟩
      simp [Reader.clusterRecvFrames, hfirst, hrest]

/-! ## Frames that are received -/

/-- A word that is read from a record is written back as it was. -/
theorem bytes_field {off n : ℕ} {data : Bytes} (h : off + n ≤ data.length) :
    Endian.big.bytes n (Endian.big.field off n data) = (data.drop off).take n := by
  apply Endian.bytes_word
  rw [List.length_take, List.length_drop]
  omega

theorem field_lt {off n : ℕ} {data : Bytes} (h : off + n ≤ data.length) :
    Endian.big.field off n data < 256 ^ n := by
  have hlt := Endian.big.word_lt ((data.drop off).take n)
  rwa [List.length_take, List.length_drop, Nat.min_eq_left (by omega)] at hlt

theorem toNat_field16 {off : ℕ} {data : Bytes} (h : off + 2 ≤ data.length) :
    (UInt16.ofNat (Endian.big.field off 2 data)).toNat = Endian.big.field off 2 data :=
  UInt16.toNat_ofNat_of_lt' (field_lt h)

theorem toNat_field32 {off : ℕ} {data : Bytes} (h : off + 4 ≤ data.length) :
    (UInt32.ofNat (Endian.big.field off 4 data)).toNat = Endian.big.field off 4 data :=
  UInt32.toNat_ofNat_of_lt' (field_lt h)

theorem toNat_field64 {off : ℕ} {data : Bytes} (h : off + 8 ≤ data.length) :
    (UInt64.ofNat (Endian.big.field off 8 data)).toNat = Endian.big.field off 8 data :=
  UInt64.toNat_ofNat_of_lt' (field_lt h)

/-- Two neighbouring pieces of a record are one piece. -/
theorem piece_append (data : Bytes) (off m n : ℕ) :
    (data.drop off).take m ++ (data.drop (off + m)).take n = (data.drop off).take (m + n) := by
  rw [List.take_add, List.drop_drop]

/-- **A header is written back as it was read**, up to the cluster identifier. -/
theorem take_toBytes {header : Bytes} (hlen : header.length = frameSize) {f : ClusterFrame}
    (hf : { f with clusterId := 0 } = { clusterFrameAt header with clusterId := 0 }) :
    f.toBytes.take 40 = header.take 40 := by
  have hle : 48 ≤ header.length := hlen.ge
  simp only [clusterFrameAt, ClusterFrame.mk.injEq, and_true] at hf
  obtain ⟨hmagic, hversion, hopcode, hflags, hkeyLen, hvalueLen, htimestamp, hnodeId, hexpireAt⟩ :=
    hf
  unfold ClusterFrame.toBytes
  rw [hmagic, hversion, hopcode, hflags, hkeyLen, hvalueLen, htimestamp, hnodeId, hexpireAt]
  rw [toNat_field16 (by omega), toNat_field16 (by omega), toNat_field16 (by omega),
    toNat_field16 (by omega), toNat_field32 (by omega), toNat_field32 (by omega),
    toNat_field64 (by omega), toNat_field64 (by omega), toNat_field64 (by omega)]
  rw [bytes_field (by omega), bytes_field (by omega), bytes_field (by omega),
    bytes_field (by omega), bytes_field (by omega), bytes_field (by omega),
    bytes_field (by omega), bytes_field (by omega), bytes_field (by omega)]
  simp only [← List.append_assoc]
  rw [piece_append header 0 2 2, piece_append header 0 4 2, piece_append header 0 6 2,
    piece_append header 0 8 4, piece_append header 0 12 4, piece_append header 0 16 8,
    piece_append header 0 24 8, piece_append header 0 32 8, List.drop_zero, List.append_assoc,
    List.take_left' (by rw [List.length_take]; omega)]

/-- What a received frame was read from. -/
theorem pending_of_clusterRecvFrame {allocOk : Bool} {calls calls' : List (ReadCall UInt8)}
    {r : Received} (h : Reader.segments.clusterRecvFrame allocOk calls = some (r, calls')) :
    ∃ header, pending calls = header ++ (r.payload.getD [] ++ pending calls') ∧
      header.length = frameSize ∧ r.frame = clusterFrameAt header ∧
      r.frame.magic = dmmrMagic ∧ r.frame.version = clusterVersion := by
  obtain ⟨start, calls₁, header, calls₂, hstart, hmagic, hversion, hheader, hframe, h⟩ :=
    Reader.clusterRecvFrame_iff.mp h
  have hlen₁ : start.length = 4 := Reader.segments.length_read hstart
  have hlen₂ : header.length = frameSize - 4 := Reader.segments.length_read hheader
  have hfront : ∀ off, off + 2 ≤ 4 →
      Endian.big.field off 2 (start ++ header) = Endian.big.field off 2 start := by
    intro off hoff
    unfold Endian.field
    rw [List.drop_append_of_le_length (by omega),
      List.take_append_of_le_length (by rw [List.length_drop]; omega)]
  refine ⟨start ++ header, ?_, ?_, hframe, ?_, ?_⟩
  · rw [Reader.pending_segments hstart, Reader.pending_segments hheader, List.append_assoc]
    rcases h with ⟨hnone, rfl⟩ | ⟨payload, hsome, -, hpayload⟩
    · rw [hnone]
      rfl
    · rw [hsome, Reader.pending_segments hpayload]
      rfl
  · rw [List.length_append, hlen₁, hlen₂]
    rfl
  · rw [hframe, clusterFrameAt, hfront 0 (by omega)]
    exact hmagic
  · rw [hframe, clusterFrameAt, hfront 2 (by omega)]
    exact hversion

/-- The payload of a received frame is its key and its value. -/
theorem payload_eq (r : Received) : r.payload.getD [] = r.key.bytes ++ r.value.bytes := by
  cases hpayload : r.payload with
  | none => simp [Buf.bytes, Received.key, Received.value, hpayload]
  | some payload =>
      have hlen := r.payload_length payload hpayload
      by_cases hzero : r.frame.valueLen.toNat = 0
      · have htake : payload.take r.frame.keyLen.toNat = payload :=
          List.take_of_length_le (by omega)
        simp [Buf.bytes, Received.key, Received.value, hpayload, hzero, htake]
      · have htake : (payload.drop r.frame.keyLen.toNat).take r.frame.valueLen.toNat =
            payload.drop r.frame.keyLen.toNat :=
          List.take_of_length_le (by rw [List.length_drop]; omega)
        simp [Buf.bytes, Received.key, Received.value, hpayload, Nat.pos_of_ne_zero hzero, htake]

/-- A received frame can be sent again. -/
theorem clusterSendFrame_received (clusterName : Bytes) (r : Received) :
    clusterSendFrame clusterName r.frame.opcode r.frame.flags r.key r.value r.frame.timestamp
        r.frame.nodeId r.frame.expireAt =
      some ((sentHeader clusterName r.frame.opcode r.frame.flags r.frame.keyLen.toNat
        r.frame.valueLen.toNat r.frame.timestamp r.frame.nodeId r.frame.expireAt).toBytes ++
          r.payload.getD []) := by
  have hkeyPtr : r.key.len > 0 → r.key.ptr ≠ none := by
    intro hpos hnone
    have hzero := r.payload_none.mp hnone
    have : r.key.len = r.frame.keyLen.toNat := rfl
    omega
  have hvaluePtr : r.value.len > 0 → r.value.ptr ≠ none := by
    intro hpos hnone
    have hpos' : r.frame.valueLen.toNat > 0 := hpos
    have hnone' : r.payload = none := by
      simpa [Received.value, hpos'] using hnone
    have hzero := r.payload_none.mp hnone'
    omega
  unfold clusterSendFrame
  rw [if_neg, payload_eq]
  · rfl
  · rintro (h | h | ⟨h, h'⟩ | ⟨h, h'⟩)
    · exact absurd r.keyLen_le (not_le.mpr h)
    · exact absurd r.valueLen_le (not_le.mpr h)
    · exact hkeyPtr h h'
    · exact hvaluePtr h h'

/-! ## The codec -/

/-- **The codec is exact on connections.**  Accepted frames that are written one
after the other are received in order with their keys and values, however they are
cut, and nothing of what follows them is touched.  Conversely a frame is received
only if the next bytes are a header with the right magic number and version and
with lengths in range, followed by as many bytes as the lengths announce; and
sending what was received writes these bytes again, except for the eight bytes of
the cluster identifier and the padding. -/
theorem clusterFrame_exact (clusterName : Bytes) :
    (∀ (sent : List (SendArgs × Bytes)) (rest : Bytes) (calls : List (ReadCall UInt8)),
      (∀ m ∈ sent, m.1.send clusterName = some m.2) →
      Delivers calls ((sent.map Prod.snd).flatten ++ rest) →
      ∃ received calls', Reader.segments.clusterRecvFrames true sent.length calls =
          some (received, calls') ∧ Delivers calls' rest ∧
        List.Forall₂ (fun m r => Carries clusterName m.1 r) sent received) ∧
    ∀ (allocOk : Bool) (calls calls' : List (ReadCall UInt8)) (r : Received),
      Reader.segments.clusterRecvFrame allocOk calls = some (r, calls') →
      ∃ header, pending calls = header ++ (r.payload.getD [] ++ pending calls') ∧
        header.length = frameSize ∧ r.frame = clusterFrameAt header ∧
        r.frame.magic = dmmrMagic ∧ r.frame.version = clusterVersion ∧
        r.frame.keyLen.toNat ≤ maxKeyLen ∧ r.frame.valueLen.toNat ≤ maxValueLen ∧
        (r.payload.getD []).length = r.frame.keyLen.toNat + r.frame.valueLen.toNat ∧
        ∃ bytes, clusterSendFrame clusterName r.frame.opcode r.frame.flags r.key r.value
            r.frame.timestamp r.frame.nodeId r.frame.expireAt = some bytes ∧
          bytes.take 40 = header.take 40 ∧ bytes.drop frameSize = r.payload.getD [] := by
  refine ⟨fun sent rest calls hsent hcalls => clusterRecvFrames_of_sent hsent hcalls, ?_⟩
  intro allocOk calls calls' r h
  obtain ⟨header, hpending, hlen, hframe, hmagic, hversion⟩ := pending_of_clusterRecvFrame h
  have hpayload : (r.payload.getD []).length = r.frame.keyLen.toNat + r.frame.valueLen.toNat := by
    cases hp : r.payload with
    | none => exact (r.payload_none.mp hp).symm
    | some payload => exact r.payload_length payload hp
  refine ⟨header, hpending, hlen, hframe, hmagic, hversion, r.keyLen_le, r.valueLen_le, hpayload,
    _, clusterSendFrame_received clusterName r, ?_, ?_⟩
  · rw [List.take_append_of_le_length (by rw [length_toBytes]; decide)]
    apply take_toBytes hlen
    rw [← hframe]
    simp only [sentHeader, UInt32.ofNat_toNat, ← hmagic, ← hversion]
  · exact List.drop_left' (length_toBytes _)

/-- A frame that arrives in two pieces with an interruption between them. -/
theorem clusterFrame_exact_pieces :
    let m : SendArgs :=
      ⟨Opcode.sync.code, flagNone, Buf.ofBytes [107], Buf.ofBytes [118], 5, 1, 9⟩
    let bytes := (sentHeader [] Opcode.sync.code flagNone 1 1 5 1 9).toBytes ++ [107, 118]
    let calls : List (ReadCall UInt8) := [.got (bytes.take 10), .interrupted, .got (bytes.drop 10)]
    (∃ received calls', Reader.segments.clusterRecvFrames true 1 calls = some (received, calls') ∧
        Delivers calls' [] ∧ List.Forall₂ (fun m r => Carries [] m.1 r) [(m, bytes)] received) ∧
      ∃ r calls', Reader.segments.clusterRecvFrame true calls = some (r, calls') ∧
        ∃ header : Bytes, pending calls = header ++ (r.payload.getD [] ++ pending calls') ∧
          header.length = frameSize := by
  intro m bytes calls
  have hdelivers : Delivers calls (([(m, bytes)].map Prod.snd).flatten ++ []) :=
    ⟨by decide, bytes.drop 10, by decide, by decide, [], by decide, rfl⟩
  refine ⟨(clusterFrame_exact []).1 [(m, bytes)] [] calls (by simp [m, bytes, SendArgs.send]; rfl)
    hdelivers, ?_⟩
  have hsome : (Reader.segments.clusterRecvFrame true calls).isSome = true := by decide +kernel
  obtain ⟨⟨r, calls'⟩, hrecv⟩ := Option.isSome_iff_exists.mp hsome
  obtain ⟨header, hpending, hlen, -⟩ := (clusterFrame_exact []).2 true calls calls' r hrecv
  exact ⟨r, calls', hrecv, header, hpending, hlen⟩

end Dmmr.Wire
