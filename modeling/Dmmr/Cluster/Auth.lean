import Dmmr.Wire.Frame

/-!
# The authentication exchange

Before it sends data, a node proves to its peer's satisfaction, or so the
protocol intends, that it knows the shared secret:

* the sender transmits `AUTH_REQUEST` with a fresh nonce;
* the server answers `AUTH_RESPONSE` with a nonce of its own, an expiry and a
  MAC of both nonces and the expiry under the secret;
* the sender checks the MAC and transmits `AUTH_OK`, which carries nothing.

The MAC is a parameter of the model.  Nonces travel in network order, but the
server's enters the MAC as it lies in the memory of each side, so the byte order
of the hosts matters.
-/

namespace Dmmr.Cluster

open Words Store Wire

/-- A MAC with 32-byte tags, as `hmac_sha256`: the tag of a key and data. -/
structure Mac where
  tag : Bytes → Bytes → Bytes
  length_tag : ∀ key data, (tag key data).length = 32

/-- A MAC that is the same for everything, for runs in which it plays no part. -/
def Mac.constant : Mac := ⟨fun _ _ => List.replicate 32 0, by simp⟩

/-- What a node is configured with. -/
structure NodeConfig where
  host : Endian
  myNodeId : UInt64
  clusterName : Bytes
  clusterSecret : Bytes
  advertiseAddress : Bytes
  advertisePort : UInt16

/-- `AUTH_TTL_MICROS`. -/
def authTtlMicros : UInt64 := 10 * 60 * 1000000

variable (mac : Mac)

/-- `compute_auth_hmac`: the nonces are given as they lie in memory. -/
def computeAuthHmac (nonceA nonceB : Bytes) (expireAt : UInt64) (secret : Bytes) : Bytes :=
  mac.tag secret (nonceA ++ (nonceB ++ Endian.big.bytes 8 expireAt.toNat))

/-- A frame without a key, as all of the exchange are. -/
def controlFrame (cfg : NodeConfig) (opcode : Opcode) (value : Bytes) : Bytes :=
  (sentHeader cfg.clusterName opcode.code flagNone 0 value.length 0 cfg.myNodeId 0).toBytes ++ value

theorem clusterSendFrame_control (cfg : NodeConfig) (opcode : Opcode) {value : Bytes}
    (hvalue : value.length ≤ maxValueLen) :
    clusterSendFrame cfg.clusterName opcode.code flagNone Buf.null (Buf.ofBytes value) 0
      cfg.myNodeId 0 = some (controlFrame cfg opcode value) := by
  have hkey : ([] : Bytes).length ≤ maxKeyLen := Nat.zero_le _
  have h := clusterSendFrame_of_le cfg.clusterName opcode.code flagNone hkey hvalue 0 cfg.myNodeId 0
  rw [Buf.ofBytes_nil, List.nil_append] at h
  exact h

/-- Most of them carry no value. -/
theorem length_nil_le : ([] : Bytes).length ≤ maxValueLen := Nat.zero_le _

/-- Such a frame as it is received. -/
def controlReceived (cfg : NodeConfig) (opcode : Opcode) {value : Bytes}
    (hvalue : value.length ≤ maxValueLen) : Received :=
  receivedOf cfg.clusterName opcode.code flagNone [] value 0 cfg.myNodeId 0 (Nat.zero_le _) hvalue

@[simp] theorem opcode_controlReceived (cfg : NodeConfig) (opcode : Opcode) {value : Bytes}
    (hvalue : value.length ≤ maxValueLen) :
    (controlReceived cfg opcode hvalue).frame.opcode = opcode.code := rfl

theorem valueBytes_controlReceived (cfg : NodeConfig) (opcode : Opcode) {value : Bytes}
    (hvalue : value.length ≤ maxValueLen) (off n : ℕ) :
    (controlReceived cfg opcode hvalue).valueBytes off n = (value.drop off).take n :=
  valueBytes_receivedOf ..

theorem payload_controlReceived (cfg : NodeConfig) (opcode : Opcode) {value : Bytes}
    (hvalue : value.length ≤ maxValueLen) (hne : value ≠ []) :
    (controlReceived cfg opcode hvalue).payload = some value := by
  simp [controlReceived, receivedOf, hne]

theorem clusterRecvFrame_control (cfg : NodeConfig) (opcode : Opcode) {value : Bytes}
    (hvalue : value.length ≤ maxValueLen) (rest : Bytes) :
    clusterRecvFrame true (controlFrame cfg opcode value ++ rest) =
      some (controlReceived cfg opcode hvalue, rest) := by
  have hkey : ([] : Bytes).length ≤ maxKeyLen := Nat.zero_le _
  have h := clusterRecvFrame_send cfg.clusterName opcode.code flagNone hkey hvalue 0 cfg.myNodeId 0
    rest
  rw [List.nil_append] at h
  exact h

theorem opcode_controlFrame (cfg : NodeConfig) (opcode : Opcode) (value : Bytes) :
    (clusterFrameAt (controlFrame cfg opcode value)).opcode = opcode.code := by
  rw [controlFrame, clusterFrameAt_toBytes]
  rfl

theorem opcode_eq_of_controlFrame {cfg cfg' : NodeConfig} {opcode opcode' : Opcode}
    {value value' : Bytes} (h : controlFrame cfg opcode value = controlFrame cfg' opcode' value') :
    opcode = opcode' := by
  have hcode := congrArg (fun bytes => (clusterFrameAt bytes).opcode) h
  simp only [opcode_controlFrame] at hcode
  exact Opcode.code_injective hcode

/-! ## The server's side -/

/-- The value of the `AUTH_RESPONSE` to a request that carries `nonceA`. -/
def authResponse (cfg : NodeConfig) (nonceA : Bytes) (nonceB expireAt : UInt64) : Bytes :=
  Endian.big.bytes 8 nonceB.toNat ++ (Endian.big.bytes 8 expireAt.toNat ++
    computeAuthHmac mac nonceA (cfg.host.bytes 8 nonceB.toNat) expireAt cfg.clusterSecret)

theorem length_authResponse (cfg : NodeConfig) (nonceA : Bytes) (nonceB expireAt : UInt64) :
    (authResponse mac cfg nonceA nonceB expireAt).length = 48 := by
  simp [authResponse, computeAuthHmac, mac.length_tag]

/-- The nonce in an `AUTH_REQUEST`, as it lies in the frame. -/
def requestNonce (r : Received) : Bytes := r.valueBytes 0 8

/-! ## The sender's side -/

/-- The sender's check of the answer to its nonce: the expiry the answer
carries, if the answer is an `AUTH_RESPONSE` with a matching MAC. -/
def checkAuthResponse (cfg : NodeConfig) (nonceA : UInt64) (r : Received) : Option UInt64 :=
  if r.frame.opcode ≠ Opcode.authResponse.code ∨ r.frame.valueLen.toNat < 48 then none
  else
    let nonceB := Endian.big.word (r.valueBytes 0 8)
    let expireAt := UInt64.ofNat (Endian.big.word (r.valueBytes 8 8))
    let expected := computeAuthHmac mac (Endian.big.bytes 8 nonceA.toNat) (cfg.host.bytes 8 nonceB)
      expireAt cfg.clusterSecret
    if r.valueBytes 16 32 = expected then some expireAt else none

/-- What happens around one exchange: the nonce drawn, whether the two frames
can be sent, and what is received in between. -/
structure ExchangeEnv where
  nonceA : UInt64
  requestSendOk : Bool
  response : Option Received
  okSendOk : Bool

/-- The sender's part of the exchange: the expiry if it succeeds, and the
frames transmitted. -/
def authExchange (cfg : NodeConfig) (env : ExchangeEnv) : Option UInt64 × List Bytes :=
  let request := controlFrame cfg .authRequest (Endian.big.bytes 8 env.nonceA.toNat)
  if !env.requestSendOk then (none, [])
  else
    match env.response.bind (checkAuthResponse mac cfg env.nonceA) with
    | none => (none, [request])
    | some expireAt =>
        if !env.okSendOk then (none, [request])
        else (some expireAt, [request, controlFrame cfg .authOk []])

/-- `cluster_handshake_client`: whether it returns `0`, what it writes through
`out_expire_at`, and the frames transmitted.  Without a secret it succeeds and
writes nothing. -/
def clusterHandshakeClient (cfg : NodeConfig) (env : ExchangeEnv) :
    Bool × Option UInt64 × List Bytes :=
  if cfg.clusterSecret = [] then (true, none, [])
  else
    match authExchange mac cfg env with
    | (none, sent) => (false, none, sent)
    | (some expireAt, sent) => (true, some expireAt, sent)

/-- Without a secret the exchange is skipped; with one it fails after at most the
request, or an answer has been accepted and `AUTH_OK` sent. -/
theorem clusterHandshakeClient_cases (cfg : NodeConfig) (env : ExchangeEnv) :
    (cfg.clusterSecret = [] ∧ clusterHandshakeClient mac cfg env = (true, none, [])) ∨
      (∃ sent, sent <+: [controlFrame cfg .authRequest (Endian.big.bytes 8 env.nonceA.toNat)] ∧
        clusterHandshakeClient mac cfg env = (false, none, sent)) ∨
      cfg.clusterSecret ≠ [] ∧ ∃ response expireAt, env.response = some response ∧
        checkAuthResponse mac cfg env.nonceA response = some expireAt ∧
        clusterHandshakeClient mac cfg env = (true, some expireAt,
          [controlFrame cfg .authRequest (Endian.big.bytes 8 env.nonceA.toNat),
            controlFrame cfg .authOk []]) := by
  unfold clusterHandshakeClient
  by_cases hsecret : cfg.clusterSecret = []
  · exact Or.inl ⟨hsecret, if_pos hsecret⟩
  · rw [if_neg hsecret]
    unfold authExchange
    cases env.requestSendOk with
    | false => exact Or.inr (Or.inl ⟨[], List.nil_prefix, rfl⟩)
    | true =>
        simp only [Bool.not_true, Bool.false_eq_true, if_false]
        cases hcheck : env.response.bind (checkAuthResponse mac cfg env.nonceA) with
        | none => exact Or.inr (Or.inl ⟨_, List.prefix_refl _, rfl⟩)
        | some expireAt =>
            obtain ⟨response, hresponse, hcheck⟩ := Option.bind_eq_some_iff.mp hcheck
            cases env.okSendOk with
            | false => exact Or.inr (Or.inl ⟨_, List.prefix_refl _, rfl⟩)
            | true =>
                exact Or.inr (Or.inr ⟨hsecret, response, expireAt, hresponse, hcheck, rfl⟩)

/-- An answer to a sender's own request is accepted exactly when the two sides
arrive at the same MAC. -/
theorem checkAuthResponse_answer {server sender : NodeConfig} {nonceA nonceB expireAt : UInt64}
    {r : Received} (hop : r.frame.opcode = Opcode.authResponse.code)
    (hlen : 48 ≤ r.frame.valueLen.toNat)
    (hvalue : ∀ off n, r.valueBytes off n = ((authResponse mac server
      (Endian.big.bytes 8 nonceA.toNat) nonceB expireAt).drop off).take n) :
    checkAuthResponse mac sender nonceA r =
      if computeAuthHmac mac (Endian.big.bytes 8 nonceA.toNat) (server.host.bytes 8 nonceB.toNat)
          expireAt server.clusterSecret =
        computeAuthHmac mac (Endian.big.bytes 8 nonceA.toNat) (sender.host.bytes 8 nonceB.toNat)
          expireAt sender.clusterSecret then some expireAt else none := by
  have hnonceB : r.valueBytes 0 8 = Endian.big.bytes 8 nonceB.toNat := by
    rw [hvalue, List.drop_zero, authResponse, List.take_left' (Endian.length_bytes ..)]
  have hexpire : r.valueBytes 8 8 = Endian.big.bytes 8 expireAt.toNat := by
    rw [hvalue, authResponse, List.drop_left' (Endian.length_bytes ..),
      List.take_left' (Endian.length_bytes ..)]
  have htag : r.valueBytes 16 32 = computeAuthHmac mac (Endian.big.bytes 8 nonceA.toNat)
      (server.host.bytes 8 nonceB.toNat) expireAt server.clusterSecret := by
    have hlength : ∀ a b e k, (computeAuthHmac mac a b e k).length = 32 := fun _ _ _ _ =>
      mac.length_tag _ _
    rw [hvalue, authResponse, ← List.append_assoc, List.drop_left' (by simp),
      List.take_of_length_le (hlength ..).le]
  unfold checkAuthResponse
  rw [if_neg (by simp only [hop, ne_eq, not_true_eq_false, false_or]; omega), hnonceB, hexpire,
    Endian.word_bytes _ (UInt64.toNat_lt _), Endian.word_bytes _ (UInt64.toNat_lt _),
    UInt64.ofNat_toNat, htag]

/-- It is accepted under the same secret by a sender with the same byte order. -/
theorem checkAuthResponse_of_answer {server sender : NodeConfig}
    (hsecret : sender.clusterSecret = server.clusterSecret) (hhost : sender.host = server.host)
    {nonceA nonceB expireAt : UInt64} {r : Received}
    (hop : r.frame.opcode = Opcode.authResponse.code) (hlen : 48 ≤ r.frame.valueLen.toNat)
    (hvalue : ∀ off n, r.valueBytes off n = ((authResponse mac server
      (Endian.big.bytes 8 nonceA.toNat) nonceB expireAt).drop off).take n) :
    checkAuthResponse mac sender nonceA r = some expireAt := by
  rw [checkAuthResponse_answer mac hop hlen hvalue, if_pos (by rw [hsecret, hhost])]

theorem opcode_of_checkAuthResponse {mac : Mac} {cfg : NodeConfig} {nonceA expireAt : UInt64}
    {r : Received} (h : checkAuthResponse mac cfg nonceA r = some expireAt) :
    r.frame.opcode = Opcode.authResponse.code := by
  unfold checkAuthResponse at h
  split_ifs at h with hguard
  exact not_not.mp (not_or.mp hguard).1

end Dmmr.Cluster
