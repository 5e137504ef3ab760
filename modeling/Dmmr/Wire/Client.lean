import Dmmr.Lib.Segments
import Dmmr.Wire.Frame

/-!
# Client requests on the wire

A client sends requests in one of two formats.  A modern request is a 24-byte
header in network byte order followed by the key and the value; a legacy request
is an opcode and a length, two bytes each, followed by that many bytes.
`read_frame` tells them apart by the first four bytes, and hands on a
`ModernRequest` or a `LegacyRequest`, which carry what it has checked.

`ClientMessage` is what a client may send.  `readFrame_modern` and
`readFrame_legacy` say what becomes of it, however the connection cuts the bytes;
`readFrame_unread` is the one case in which bytes of a message stay behind.
-/

namespace Dmmr.Wire

open Words Store Segments

/-- `DMMR_VERSION`. -/
def dmmrVersion : UInt16 := 1

/-- `struct dmmr_frame`. -/
structure DmmrFrame where
  magic : UInt16
  version : UInt16
  opcode : UInt16
  flags : UInt16
  keyLen : UInt32
  valueLen : UInt32
  timestamp : UInt64
  deriving DecidableEq, Repr

/-- `sizeof(struct dmmr_frame)`. -/
def dmmrFrameSize : ℕ := 24

/-- The header as it is sent, every field in network byte order. -/
def DmmrFrame.toBytes (f : DmmrFrame) : Bytes :=
  Endian.big.bytes 2 f.magic.toNat ++ (Endian.big.bytes 2 f.version.toNat ++
    (Endian.big.bytes 2 f.opcode.toNat ++ (Endian.big.bytes 2 f.flags.toNat ++
    (Endian.big.bytes 4 f.keyLen.toNat ++ (Endian.big.bytes 4 f.valueLen.toNat ++
      Endian.big.bytes 8 f.timestamp.toNat)))))

/-- The header at the start of `data`, converted to host order. -/
def dmmrFrameAt (data : Bytes) : DmmrFrame where
  magic := UInt16.ofNat (Endian.big.field 0 2 data)
  version := UInt16.ofNat (Endian.big.field 2 2 data)
  opcode := UInt16.ofNat (Endian.big.field 4 2 data)
  flags := UInt16.ofNat (Endian.big.field 6 2 data)
  keyLen := UInt32.ofNat (Endian.big.field 8 4 data)
  valueLen := UInt32.ofNat (Endian.big.field 12 4 data)
  timestamp := UInt64.ofNat (Endian.big.field 16 8 data)

theorem length_dmmrFrame (f : DmmrFrame) : f.toBytes.length = dmmrFrameSize := by
  simp [DmmrFrame.toBytes, dmmrFrameSize]

theorem dmmrFrameAt_toBytes (f : DmmrFrame) : dmmrFrameAt f.toBytes = f := by
  have htimestamp := Endian.field_uint64 .big [] f.timestamp
  rw [List.append_nil] at htimestamp
  simp only [dmmrFrameAt, DmmrFrame.toBytes, Endian.field_uint16]
  simp [Endian.field_skip, htimestamp]

/-! ## Reading a request -/

/-- A modern request as `read_frame` hands it on: the lengths are within their
bounds, and the payload, `NULL` when both lengths are zero, has as many bytes as
the lengths announce. -/
structure ModernRequest where
  frame : DmmrFrame
  payload : Option Bytes
  keyLen_le : frame.keyLen.toNat ≤ maxKeyLen
  valueLen_le : frame.valueLen.toNat ≤ maxValueLen
  payload_none : payload = none ↔ frame.keyLen.toNat + frame.valueLen.toNat = 0
  payload_length : ∀ p ∈ payload, p.length = frame.keyLen.toNat + frame.valueLen.toNat

/-- A legacy request as `read_frame` hands it on: a payload that is not `NULL`
has the announced length. -/
structure LegacyRequest where
  opcode : UInt16
  keyLen : UInt16
  payload : Option Bytes
  payload_length : ∀ p ∈ payload, p.length = keyLen.toNat

inductive ClientRequest
  | modern (r : ModernRequest)
  | legacy (r : LegacyRequest)

/-- The modern branch of `read_frame`, from the converted header on. -/
def readModern (allocOk : Bool) (frame : DmmrFrame) (calls : List (ReadCall UInt8)) :
    Option (ClientRequest × List (ReadCall UInt8)) :=
  if frame.magic ≠ dmmrMagic ∨ frame.version ≠ dmmrVersion then none
  else if hlen : frame.keyLen.toNat > maxKeyLen ∨ frame.valueLen.toNat > maxValueLen then none
  else
    have hlen' := not_or.mp hlen
    if htotal : frame.keyLen.toNat + frame.valueLen.toNat = 0 then
      some (.modern ⟨frame, none, not_lt.mp hlen'.1, not_lt.mp hlen'.2, iff_of_true rfl htotal,
        by simp⟩, calls)
    else if !allocOk then none
    else
      match hread : readExactly calls (frame.keyLen.toNat + frame.valueLen.toNat) with
      | none => none
      | some (payload, calls) =>
          some (.modern ⟨frame, some payload, not_lt.mp hlen'.1, not_lt.mp hlen'.2,
            iff_of_false (by simp) htotal,
            fun p hp => Option.some.inj hp ▸ length_of_readExactly hread⟩, calls)

/-- The legacy branch of `read_frame`: only a GET has its payload read. -/
def readLegacy (allocOk : Bool) (opcode keyLen : UInt16) (calls : List (ReadCall UInt8)) :
    Option (ClientRequest × List (ReadCall UInt8)) :=
  if opcode ≠ Opcode.get.code ∨ keyLen = 0 then
    some (.legacy ⟨opcode, keyLen, none, by simp⟩, calls)
  else if !allocOk then none
  else
    match hread : readExactly calls keyLen.toNat with
    | none => none
    | some (payload, calls) =>
        some (.legacy ⟨opcode, keyLen, some payload,
          fun p hp => Option.some.inj hp ▸ length_of_readExactly hread⟩, calls)

/-- `read_frame`: the request and the calls that are left, `none` for a negative
result. -/
def readFrame (allocOk : Bool) (calls : List (ReadCall UInt8)) :
    Option (ClientRequest × List (ReadCall UInt8)) := do
  let (start, calls) ← readExactly calls 4
  let magic := UInt16.ofNat (Endian.big.field 0 2 start)
  let version := UInt16.ofNat (Endian.big.field 2 2 start)
  if magic = dmmrMagic ∧ version = dmmrVersion then
    let (header, calls) ← readExactly calls (dmmrFrameSize - 4)
    readModern allocOk (dmmrFrameAt (start ++ header)) calls
  else readLegacy allocOk magic version calls

theorem readModern_modern {allocOk : Bool} {frame : DmmrFrame}
    {calls calls' : List (ReadCall UInt8)} {request : ClientRequest}
    (h : readModern allocOk frame calls = some (request, calls')) : ∃ r, request = .modern r := by
  unfold readModern at h
  split_ifs at h
  · exact ⟨_, (Prod.mk.inj (Option.some.inj h)).1.symm⟩
  · split at h
    · exact absurd h (by simp)
    · exact ⟨_, (Prod.mk.inj (Option.some.inj h)).1.symm⟩

namespace ModernRequest

/-- `payload` with `key_len`. -/
def key (r : ModernRequest) : Buf where
  ptr := r.payload
  len := r.frame.keyLen.toNat
  fits := fun mem hmem => by rw [r.payload_length mem hmem]; exact Nat.le_add_right _ _

/-- `value_len > 0 ? payload + key_len : NULL` with `value_len`. -/
def value (r : ModernRequest) : Buf where
  ptr := if r.frame.valueLen.toNat > 0 then r.payload.map (List.drop r.frame.keyLen.toNat) else none
  len := r.frame.valueLen.toNat
  fits := by
    intro mem hmem
    split_ifs at hmem with hlen
    · obtain ⟨p, hp, rfl⟩ := Option.map_eq_some_iff.mp hmem
      rw [List.length_drop, r.payload_length p hp]
      omega
    · simp at hmem

end ModernRequest

/-- `payload` with `key_len`. -/
def LegacyRequest.key (r : LegacyRequest) : Buf where
  ptr := r.payload
  len := r.keyLen.toNat
  fits := fun mem hmem => (r.payload_length mem hmem).ge

/-! ## What a client sends -/

/-- A request as a client puts it on the wire.  A legacy request must not look
like the start of a modern one. -/
inductive ClientMessage
  | modern (opcode flags : UInt16) (timestamp : UInt64) (key value : Bytes)
      (hkey : key.length ≤ maxKeyLen) (hvalue : value.length ≤ maxValueLen)
  | legacy (opcode : UInt16) (payload : Bytes) (hlen : payload.length < 2 ^ 16)
      (hlegacy : ¬ (opcode = dmmrMagic ∧ UInt16.ofNat payload.length = dmmrVersion))

/-- The header of a modern request. -/
def modernHeader (opcode flags : UInt16) (timestamp : UInt64) (keyLen valueLen : ℕ) :
    DmmrFrame where
  magic := dmmrMagic
  version := dmmrVersion
  opcode := opcode
  flags := flags
  keyLen := UInt32.ofNat keyLen
  valueLen := UInt32.ofNat valueLen
  timestamp := timestamp

/-- The bytes of a request. -/
def ClientMessage.toBytes : ClientMessage → Bytes
  | modern opcode flags timestamp key value _ _ =>
      (modernHeader opcode flags timestamp key.length value.length).toBytes ++ (key ++ value)
  | legacy opcode payload _ _ =>
      Endian.big.bytes 2 opcode.toNat ++ Endian.big.bytes 2 payload.length ++ payload

/-- The payload pointer for given bytes: `NULL` when there are none. -/
def payloadPtr (payload : Bytes) : Option Bytes := if payload = [] then none else some payload

theorem eq_of_mem_payloadPtr {payload p : Bytes} (h : p ∈ payloadPtr payload) : p = payload := by
  unfold payloadPtr at h
  split_ifs at h
  · simp at h
  · exact (Option.some.inj h).symm

@[simp] theorem getD_payloadPtr (payload : Bytes) : (payloadPtr payload).getD [] = payload := by
  cases payload <;> rfl

theorem payloadPtr_eq_none_iff (payload : Bytes) : payloadPtr payload = none ↔ payload = [] := by
  unfold payloadPtr
  split_ifs with h <;> simp [h]

theorem toNat_legacyLen {payload : Bytes} (hlen : payload.length < 2 ^ 16) :
    (UInt16.ofNat payload.length).toNat = payload.length := by
  rw [UInt16.toNat_ofNat', Nat.mod_eq_of_lt hlen]

theorem legacyLen_ne_zero {payload : Bytes} (hlen : payload.length < 2 ^ 16)
    (hne : payload ≠ []) : UInt16.ofNat payload.length ≠ 0 := by
  intro hzero
  have hnat := toNat_legacyLen hlen
  rw [hzero] at hnat
  exact hne (List.length_eq_zero_iff.mp hnat.symm)

/-- The request a modern message stands for. -/
def modernRequest (opcode flags : UInt16) (timestamp : UInt64) {key value : Bytes}
    (hkey : key.length ≤ maxKeyLen) (hvalue : value.length ≤ maxValueLen) : ModernRequest where
  frame := modernHeader opcode flags timestamp key.length value.length
  payload := payloadPtr (key ++ value)
  keyLen_le := by simpa [modernHeader, toNat_keyLen hkey] using hkey
  valueLen_le := by simpa [modernHeader, toNat_valueLen hvalue] using hvalue
  payload_none := by
    simp only [modernHeader, toNat_keyLen hkey, toNat_valueLen hvalue]
    rw [← List.length_append, List.length_eq_zero_iff, payloadPtr_eq_none_iff]
  payload_length := by
    intro p hp
    simp only [modernHeader, toNat_keyLen hkey, toNat_valueLen hvalue]
    rw [eq_of_mem_payloadPtr hp, List.length_append]

theorem keyLen_modernRequest_ne_zero (opcode flags : UInt16) (timestamp : UInt64)
    {key value : Bytes} (hkey : key.length ≤ maxKeyLen) (hvalue : value.length ≤ maxValueLen)
    (hne : key ≠ []) : (modernRequest opcode flags timestamp hkey hvalue).frame.keyLen ≠ 0 := by
  intro hzero
  have hlen : key.length = 0 := by
    rw [← toNat_keyLen hkey]
    exact congrArg UInt32.toNat hzero
  exact hne (List.length_eq_zero_iff.mp hlen)

/-- The request a legacy message stands for. -/
def legacyRequest (opcode : UInt16) {payload : Bytes} (hlen : payload.length < 2 ^ 16) :
    LegacyRequest where
  opcode := opcode
  keyLen := UInt16.ofNat payload.length
  payload := payloadPtr payload
  payload_length := by
    intro p hp
    rw [eq_of_mem_payloadPtr hp, toNat_legacyLen hlen]

/-- The request a message stands for. -/
def ClientMessage.request : ClientMessage → ClientRequest
  | modern opcode flags timestamp _ _ hkey hvalue =>
      .modern (modernRequest opcode flags timestamp hkey hvalue)
  | legacy opcode _ hlen _ => .legacy (legacyRequest opcode hlen)

theorem key_legacyRequest (opcode : UInt16) {payload : Bytes} (hlen : payload.length < 2 ^ 16) :
    (legacyRequest opcode hlen).key = Buf.ofBytes payload := by
  simp only [LegacyRequest.key, legacyRequest, Buf.ofBytes, toNat_legacyLen hlen]
  rfl

/-! ## Messages are read as they were sent -/

theorem readModern_eq {frame : DmmrFrame} (hmagic : frame.magic = dmmrMagic)
    (hversion : frame.version = dmmrVersion) (hkey : frame.keyLen.toNat ≤ maxKeyLen)
    (hvalue : frame.valueLen.toNat ≤ maxValueLen) {payload rest : Bytes}
    (hlen : payload.length = frame.keyLen.toNat + frame.valueLen.toNat)
    {calls : List (ReadCall UInt8)} (h : Delivers calls (payload ++ rest)) :
    ∃ (calls' : List (ReadCall UInt8)) (r : ModernRequest),
      readModern true frame calls = some (.modern r, calls') ∧ Delivers calls' rest ∧
        r.frame = frame ∧ r.payload = payloadPtr payload := by
  unfold readModern
  rw [if_neg (by simp [hmagic, hversion]), dif_neg (by omega)]
  by_cases htotal : frame.keyLen.toNat + frame.valueLen.toNat = 0
  · obtain rfl : payload = [] := List.length_eq_zero_iff.mp (hlen.trans htotal)
    rw [dif_pos htotal]
    exact ⟨calls, _, rfl, h, rfl, rfl⟩
  · have hne : payload ≠ [] := by
      rintro rfl
      exact htotal hlen.symm
    obtain ⟨calls', hread, hcalls'⟩ := readExactly_of_delivers h hlen
    rw [dif_neg htotal, if_neg (by simp)]
    split
    · rename_i hnone
      rw [hread] at hnone
      exact absurd hnone (by simp)
    · rename_i payload' calls'' hsome
      rw [hread] at hsome
      obtain ⟨rfl, rfl⟩ := Prod.mk.inj (Option.some.inj hsome)
      exact ⟨_, _, rfl, hcalls', rfl, (if_neg hne).symm⟩

/-- The start of a legacy message selects the legacy branch. -/
theorem readFrame_start {opcode keyLen : UInt16}
    (hlegacy : ¬ (opcode = dmmrMagic ∧ keyLen = dmmrVersion)) (allocOk : Bool) {stream : Bytes}
    {calls : List (ReadCall UInt8)}
    (h : Delivers calls (Endian.big.bytes 2 opcode.toNat ++ Endian.big.bytes 2 keyLen.toNat ++
      stream)) :
    ∃ calls', readFrame allocOk calls = readLegacy allocOk opcode keyLen calls' ∧
      Delivers calls' stream := by
  have hstart : (Endian.big.bytes 2 opcode.toNat ++ Endian.big.bytes 2 keyLen.toNat).length = 4 :=
    by simp
  obtain ⟨calls', hread, hcalls'⟩ := readExactly_of_delivers h hstart
  refine ⟨calls', ?_, hcalls'⟩
  have hkeyLen := Endian.field_uint16 .big [] keyLen
  rw [List.append_nil] at hkeyLen
  unfold readFrame
  simp only [hread, Option.bind_eq_bind, Option.bind_some, Endian.field_uint16]
  rw [Endian.field_skip _ (by decide), hkeyLen, if_neg hlegacy]

/-- A modern header is read as a whole. -/
theorem readFrame_header {frame : DmmrFrame} (hmagic : frame.magic = dmmrMagic)
    (hversion : frame.version = dmmrVersion) (allocOk : Bool) {stream : Bytes}
    {calls : List (ReadCall UInt8)} (h : Delivers calls (frame.toBytes ++ stream)) :
    ∃ calls', readFrame allocOk calls = readModern allocOk frame calls' ∧
      Delivers calls' stream := by
  obtain ⟨tail, htail⟩ : ∃ tail, frame.toBytes =
      (Endian.big.bytes 2 frame.magic.toNat ++ Endian.big.bytes 2 frame.version.toNat) ++ tail :=
    ⟨_, (List.append_assoc _ _ _).symm⟩
  have hstart : (Endian.big.bytes 2 frame.magic.toNat ++
      Endian.big.bytes 2 frame.version.toNat).length = 4 := by simp
  have hlen : tail.length = dmmrFrameSize - 4 := by
    have hframe := length_dmmrFrame frame
    rw [htail, List.length_append, hstart] at hframe
    omega
  have hfields := dmmrFrameAt_toBytes frame
  rw [htail] at h hfields
  rw [List.append_assoc] at h
  obtain ⟨calls₁, hread₁, hcalls₁⟩ := readExactly_of_delivers h hstart
  obtain ⟨calls₂, hread₂, hcalls₂⟩ := readExactly_of_delivers hcalls₁ hlen
  refine ⟨calls₂, ?_, hcalls₂⟩
  have hread := Endian.field_uint16 .big [] frame.version
  rw [List.append_nil] at hread
  unfold readFrame
  simp only [hread₁, hread₂, Option.bind_eq_bind, Option.bind_some, Endian.field_uint16, hfields]
  rw [Endian.field_skip _ (by decide), hread, if_pos ⟨hmagic, hversion⟩]

theorem ModernRequest.ext {r r' : ModernRequest} (hframe : r.frame = r'.frame)
    (hpayload : r.payload = r'.payload) : r = r' := by
  cases r
  cases r'
  cases hframe
  cases hpayload
  rfl

/-- **A modern message is read as it was sent.** -/
theorem readFrame_modern {opcode flags : UInt16} {timestamp : UInt64} {key value : Bytes}
    {hkey : key.length ≤ maxKeyLen} {hvalue : value.length ≤ maxValueLen} {rest : Bytes}
    {calls : List (ReadCall UInt8)}
    (h : Delivers calls
      ((ClientMessage.modern opcode flags timestamp key value hkey hvalue).toBytes ++ rest)) :
    ∃ calls', readFrame true calls =
        some ((ClientMessage.modern opcode flags timestamp key value hkey hvalue).request, calls') ∧
      Delivers calls' rest := by
  have hk : (modernHeader opcode flags timestamp key.length value.length).keyLen.toNat =
    key.length := toNat_keyLen hkey
  have hv : (modernHeader opcode flags timestamp key.length value.length).valueLen.toNat =
    value.length := toNat_valueLen hvalue
  rw [ClientMessage.toBytes, List.append_assoc] at h
  obtain ⟨calls₁, hstart, hcalls₁⟩ := readFrame_header rfl rfl true h
  obtain ⟨calls₂, r, hread, hcalls₂, hframe, hpayload⟩ := readModern_eq rfl rfl
    (hk.trans_le hkey) (hv.trans_le hvalue) (by rw [hk, hv, List.length_append]) hcalls₁
  refine ⟨calls₂, ?_, hcalls₂⟩
  rw [hstart, hread]
  have hr : ClientRequest.modern r =
      (ClientMessage.modern opcode flags timestamp key value hkey hvalue).request :=
    congrArg ClientRequest.modern (ModernRequest.ext hframe hpayload)
  rw [hr]

/-- **A legacy GET is read as it was sent**, and so is a legacy message without a
payload. -/
theorem readFrame_legacy {opcode : UInt16} {payload : Bytes} {hlen : payload.length < 2 ^ 16}
    {hlegacy : ¬ (opcode = dmmrMagic ∧ UInt16.ofNat payload.length = dmmrVersion)} {rest : Bytes}
    (hread : opcode = Opcode.get.code ∨ payload = []) {calls : List (ReadCall UInt8)}
    (h : Delivers calls ((ClientMessage.legacy opcode payload hlen hlegacy).toBytes ++ rest)) :
    ∃ calls', readFrame true calls =
        some ((ClientMessage.legacy opcode payload hlen hlegacy).request, calls') ∧
      Delivers calls' rest := by
  have hlen' := toNat_legacyLen hlen
  rw [ClientMessage.toBytes, ← hlen', List.append_assoc _ payload] at h
  obtain ⟨calls₁, hstart, hcalls₁⟩ := readFrame_start hlegacy true h
  rw [hstart]
  unfold readLegacy
  by_cases hnil : payload = []
  · subst hnil
    have hzero : UInt16.ofNat ([] : Bytes).length = 0 := rfl
    rw [if_pos (Or.inr hzero)]
    exact ⟨calls₁, rfl, hcalls₁⟩
  · have hget : opcode = Opcode.get.code := hread.resolve_right hnil
    have hne := legacyLen_ne_zero hlen hnil
    obtain ⟨calls₂, hread₂, hcalls₂⟩ := readExactly_of_delivers hcalls₁ hlen'.symm
    rw [if_neg (by simp [hget, hne]), if_neg (by simp)]
    split
    · rename_i hnone
      rw [hread₂] at hnone
      exact absurd hnone (by simp)
    · rename_i payload' calls' hsome
      rw [hread₂] at hsome
      obtain ⟨rfl, rfl⟩ := Prod.mk.inj (Option.some.inj hsome)
      refine ⟨_, ?_, hcalls₂⟩
      simp [ClientMessage.request, legacyRequest, payloadPtr, hnil]

/-- **The payload of any other legacy message stays on the connection.** -/
theorem readFrame_unread {opcode : UInt16} {payload : Bytes} {hlen : payload.length < 2 ^ 16}
    {hlegacy : ¬ (opcode = dmmrMagic ∧ UInt16.ofNat payload.length = dmmrVersion)} {rest : Bytes}
    (hopcode : opcode ≠ Opcode.get.code) {calls : List (ReadCall UInt8)}
    (h : Delivers calls ((ClientMessage.legacy opcode payload hlen hlegacy).toBytes ++ rest)) :
    ∃ calls', readFrame true calls =
        some (.legacy ⟨opcode, UInt16.ofNat payload.length, none, by simp⟩, calls') ∧
      Delivers calls' (payload ++ rest) := by
  rw [ClientMessage.toBytes, ← toNat_legacyLen hlen, List.append_assoc _ payload] at h
  obtain ⟨calls₁, hstart, hcalls₁⟩ := readFrame_start hlegacy true h
  refine ⟨calls₁, ?_, hcalls₁⟩
  rw [hstart, readLegacy, if_pos (Or.inl hopcode)]

/-- At the end of the stream there is no request. -/
theorem readFrame_end (allocOk : Bool) {calls : List (ReadCall UInt8)} (h : Delivers calls []) :
    readFrame allocOk calls = none := by
  simp [readFrame, readExactly_of_delivers_nil h]

end Dmmr.Wire
