import Dmmr.Cluster.Agreement
import Dmmr.Cluster.Knowledge

/-!
# The handshake on a fresh connection

The sender's half of the exchange (`clusterHandshakeClient`) run against the
server's loop (`connIteration`) over a stream that loses nothing.  The two halves
take turns: the sender's request is all the server has when it answers, and the
sender has the answer when it decides whether to go on.

Both sides put the same three words under the MAC, but not in the same form.  The
sender's nonce goes in as it travels, and so does the expiry; the server's nonce
goes in as it lies in memory, which the sender recovers with `ntohll`.  So the two
inputs agree on hosts with one byte order, and on others only for a nonce that
reads the same both ways.
-/

namespace Dmmr.Cluster

open Words Store Wire Node

/-! ## The bytes under the MAC -/

/-- What `compute_auth_hmac` lays out: 24 bytes when the nonces have 8 each. -/
def macInput (nonceA nonceB : Bytes) (expireAt : UInt64) : Bytes :=
  nonceA ++ (nonceB ++ Endian.big.bytes 8 expireAt.toNat)

/-- The server's input for a request it received. -/
def serverInput (server : NodeConfig) (env : ConnEnv) (request : Received) : Bytes :=
  macInput (requestNonce request) (server.host.bytes 8 env.nonceB.toNat)
    (env.requestClock + authTtlMicros)

/-- The sender's input for an answer to its nonce. -/
def clientInput (client : NodeConfig) (nonceA : UInt64) (answer : Received) : Bytes :=
  macInput (Endian.big.bytes 8 nonceA.toNat)
    (client.host.bytes 8 (Endian.big.word (answer.valueBytes 0 8)))
    (UInt64.ofNat (Endian.big.word (answer.valueBytes 8 8)))

theorem macInput_inj {nonceA nonceB nonceB' : Bytes} (hlen : nonceB.length = nonceB'.length)
    {expireAt : UInt64} :
    macInput nonceA nonceB expireAt = macInput nonceA nonceB' expireAt ↔ nonceB = nonceB' := by
  constructor
  · intro h
    exact (List.append_inj (List.append_cancel_left h) hlen).1
  · rintro rfl
    rfl

/-- Two hosts write a word the same way if they have the same byte order or the
word reads the same both ways. -/
theorem bytes_eq_iff (e e' : Endian) (n x : ℕ) :
    e.bytes n x = e'.bytes n x ↔ e = e' ∨ Endian.little.bytes n x = Endian.big.bytes n x := by
  cases e <;> cases e' <;> simp [eq_comm]

/-! ## The two halves together -/

section Halves

variable (mac : Mac) (client server : NodeConfig) (nonceA : UInt64) (env : ConnEnv)
  (shared : Server)

/-- A connection just accepted. -/
def fresh : ConnState := ⟨false, 0, [], shared, []⟩

/-- The request a sender transmits. -/
def requestBytes : Bytes := controlFrame client .authRequest (Endian.big.bytes 8 nonceA.toNat)

/-- What a connection sends when `request` is all it has, as it is received. -/
def answerTo (s : ConnState) (request : Bytes) : Option Received :=
  (clusterRecvFrame true
    (connIteration mac server env { s with stream := request, sent := [] }).2.sent.flatten).map
      Prod.fst

/-- The sender's half. -/
def clientSide : Bool × Option UInt64 × List Bytes :=
  clusterHandshakeClient mac client
    ⟨nonceA, true, answerTo mac server env (fresh shared) (requestBytes client nonceA), true⟩

/-- The server's half, on all the sender has transmitted. -/
def serverSide : Bool × ConnState :=
  connIteration mac server env
    { fresh shared with stream := (clientSide mac client server nonceA env shared).2.2.flatten }

/-- The handshake succeeds on both sides, with one expiry and one MAC input. -/
structure HandshakeAgrees : Prop where
  returnsZero : (clientSide mac client server nonceA env shared).1 = true
  goesOn : (serverSide mac client server nonceA env shared).1 = true
  authenticated : (serverSide mac client server nonceA env shared).2.authenticated = true
  expireAt : (clientSide mac client server nonceA env shared).2.1 =
    some (serverSide mac client server nonceA env shared).2.authExpireAt
  inputs : ∃ request answer,
    clusterRecvFrame true (requestBytes client nonceA) = some (request, []) ∧
    answerTo mac server env (fresh shared) (requestBytes client nonceA) = some answer ∧
    clientInput client nonceA answer = serverInput server env request

end Halves

/-! ## What each half receives -/

theorem length_nonce_le (nonce : UInt64) :
    (Endian.big.bytes 8 nonce.toNat).length ≤ maxValueLen :=
  (Endian.length_bytes ..).trans_le (by decide)

/-- The request as the server receives it. -/
def requestReceived (client : NodeConfig) (nonceA : UInt64) : Received :=
  controlReceived client .authRequest (length_nonce_le nonceA)

theorem clusterRecvFrame_requestBytes (client : NodeConfig) (nonceA : UInt64) (rest : Bytes) :
    clusterRecvFrame true (requestBytes client nonceA ++ rest) =
      some (requestReceived client nonceA, rest) :=
  clusterRecvFrame_control client .authRequest (length_nonce_le nonceA) rest

theorem requestNonce_requestReceived (client : NodeConfig) (nonceA : UInt64) :
    requestNonce (requestReceived client nonceA) = Endian.big.bytes 8 nonceA.toNat := by
  rw [requestNonce, requestReceived, valueBytes_controlReceived, List.drop_zero,
    List.take_of_length_le (Endian.length_bytes ..).le]

theorem le_valueLen_requestReceived (client : NodeConfig) (nonceA : UInt64) :
    8 ≤ (requestReceived client nonceA).frame.valueLen.toNat :=
  ((toNat_valueLen (length_nonce_le nonceA)).trans (Endian.length_bytes ..)).ge

section Answer

variable (mac : Mac) (client server : NodeConfig) (nonceA : UInt64) (env : ConnEnv)

theorem length_response_le :
    (authResponse mac server (Endian.big.bytes 8 nonceA.toNat) env.nonceB
      (env.requestClock + authTtlMicros)).length ≤ maxValueLen :=
  (length_authResponse ..).trans_le (by decide)

/-- The answer as the sender receives it. -/
def responseReceived : Received :=
  controlReceived server .authResponse (length_response_le mac server nonceA env)

theorem clusterRecvFrame_responseFrame (rest : Bytes) :
    clusterRecvFrame true (responseFrame mac server env (requestReceived client nonceA) ++ rest) =
      some (responseReceived mac server nonceA env, rest) := by
  rw [responseFrame, requestNonce_requestReceived]
  exact clusterRecvFrame_control server .authResponse (length_response_le mac server nonceA env)
    rest

/-- The sender accepts the answer exactly when the two MACs are one. -/
theorem checkAuthResponse_responseReceived :
    checkAuthResponse mac client nonceA (responseReceived mac server nonceA env) =
      if mac.tag server.clusterSecret (serverInput server env (requestReceived client nonceA)) =
        mac.tag client.clusterSecret (macInput (Endian.big.bytes 8 nonceA.toNat)
          (client.host.bytes 8 env.nonceB.toNat) (env.requestClock + authTtlMicros))
      then some (env.requestClock + authTtlMicros) else none := by
  have hlen : 48 ≤ (responseReceived mac server nonceA env).frame.valueLen.toNat :=
    ((toNat_valueLen (length_response_le mac server nonceA env)).trans
      (length_authResponse ..)).ge
  rw [checkAuthResponse_answer mac rfl hlen fun off n => valueBytes_controlReceived ..,
    serverInput, requestNonce_requestReceived]
  rfl

theorem clientInput_responseReceived :
    clientInput client nonceA (responseReceived mac server nonceA env) =
      macInput (Endian.big.bytes 8 nonceA.toNat) (client.host.bytes 8 env.nonceB.toNat)
        (env.requestClock + authTtlMicros) := by
  have hnonce : (responseReceived mac server nonceA env).valueBytes 0 8 =
      Endian.big.bytes 8 env.nonceB.toNat := by
    rw [responseReceived, valueBytes_controlReceived, List.drop_zero, authResponse,
      List.take_left' (Endian.length_bytes ..)]
  have hexpire : (responseReceived mac server nonceA env).valueBytes 8 8 =
      Endian.big.bytes 8 (env.requestClock + authTtlMicros).toNat := by
    rw [responseReceived, valueBytes_controlReceived, authResponse,
      List.drop_left' (Endian.length_bytes ..), List.take_left' (Endian.length_bytes ..)]
  rw [clientInput, hnonce, hexpire, Endian.word_bytes _ (UInt64.toNat_lt _),
    Endian.word_bytes _ (UInt64.toNat_lt _), UInt64.ofNat_toNat]

variable {server env} (hsecret : server.clusterSecret ≠ []) (henv : env.Healthy)
include hsecret henv

/-- A connection that is not authenticated answers the request. -/
theorem answerTo_requestBytes {s : ConnState} (hauth : s.authenticated = false) :
    answerTo mac server env s (requestBytes client nonceA) =
      some (responseReceived mac server nonceA env) := by
  have hrecv := clusterRecvFrame_requestBytes client nonceA []
  rw [List.append_nil] at hrecv
  have hanswer := clusterRecvFrame_responseFrame mac client server nonceA env []
  rw [List.append_nil] at hanswer
  have hstep := connIteration_of_request mac hsecret henv
    (s := { s with stream := requestBytes client nonceA, sent := [] }) hauth hrecv rfl
    (le_valueLen_requestReceived client nonceA) rfl
  rw [answerTo, hstep, List.nil_append, List.flatten_singleton, hanswer]
  rfl

/-- With an `AUTH_OK` after the request the connection is authenticated, and what
it has sent is the same answer. -/
theorem connIteration_requestOk {s : ConnState} (hauth : s.authenticated = false) :
    connIteration mac server env { s with
        stream := [requestBytes client nonceA, controlFrame client .authOk []].flatten } =
      (true, { s with
        stream := [], authenticated := true, authExpireAt := env.requestClock + authTtlMicros
        sent := s.sent ++ [responseFrame mac server env (requestReceived client nonceA)] }) := by
  have hrecv := clusterRecvFrame_requestBytes client nonceA (controlFrame client .authOk [])
  have hrecv' := clusterRecvFrame_control client .authOk length_nil_le []
  rw [List.append_nil] at hrecv'
  rw [List.flatten_cons, List.flatten_singleton]
  exact connIteration_of_exchange mac hsecret henv
    (s := { s with stream := requestBytes client nonceA ++ controlFrame client .authOk [] })
    hauth hrecv rfl (le_valueLen_requestReceived client nonceA) hrecv' rfl

end Answer

/-! ## When the two halves agree -/

section Agree

variable (mac : Mac) {client server : NodeConfig} (hne : client.clusterSecret ≠ [])
  (hsecret : server.clusterSecret = client.clusterSecret) (nonceA : UInt64) {env : ConnEnv}
  (henv : env.Healthy) (shared : Server)
include hne hsecret henv

/-- What the sender ends with. -/
theorem clientSide_eq :
    clientSide mac client server nonceA env shared =
      if mac.tag server.clusterSecret (serverInput server env (requestReceived client nonceA)) =
        mac.tag client.clusterSecret (macInput (Endian.big.bytes 8 nonceA.toNat)
          (client.host.bytes 8 env.nonceB.toNat) (env.requestClock + authTtlMicros))
      then (true, some (env.requestClock + authTtlMicros),
        [requestBytes client nonceA, controlFrame client .authOk []])
      else (false, none, [requestBytes client nonceA]) := by
  have hanswer := answerTo_requestBytes mac client nonceA (hsecret.symm ▸ hne) henv
    (s := fresh shared) rfl
  rw [clientSide, hanswer, clusterHandshakeClient, if_neg hne, authExchange]
  simp only [Bool.not_true, Bool.false_eq_true, if_false, Option.bind_some,
    checkAuthResponse_responseReceived mac client server nonceA env]
  split_ifs <;> rfl

/-- If both put the server's nonce under the MAC in one form, the handshake
succeeds. -/
theorem handshakeAgrees_of_bytes
    (hbytes : client.host.bytes 8 env.nonceB.toNat = server.host.bytes 8 env.nonceB.toNat) :
    HandshakeAgrees mac client server nonceA env shared := by
  have hne' : server.clusterSecret ≠ [] := hsecret.symm ▸ hne
  have hclient : clientSide mac client server nonceA env shared =
      (true, some (env.requestClock + authTtlMicros),
        [requestBytes client nonceA, controlFrame client .authOk []]) := by
    rw [clientSide_eq mac hne hsecret nonceA henv shared, if_pos]
    rw [serverInput, requestNonce_requestReceived, hbytes, hsecret]
  have hserver := connIteration_requestOk mac client nonceA hne' henv (s := fresh shared) rfl
  constructor
  · rw [hclient]
  · rw [serverSide, hclient, hserver]
  · rw [serverSide, hclient, hserver]
  · rw [serverSide, hclient, hserver]
  · have hrecv := clusterRecvFrame_requestBytes client nonceA []
    rw [List.append_nil] at hrecv
    refine ⟨_, _, hrecv, answerTo_requestBytes mac client nonceA hne' henv rfl, ?_⟩
    rw [clientInput_responseReceived, serverInput, requestNonce_requestReceived, hbytes]

/-- The bytes the two sides put under the MAC determine the form of the nonce. -/
theorem bytes_of_handshakeAgrees (h : HandshakeAgrees mac client server nonceA env shared) :
    client.host.bytes 8 env.nonceB.toNat = server.host.bytes 8 env.nonceB.toNat := by
  obtain ⟨request, answer, hrequest, hanswer, hinputs⟩ := h.inputs
  have hrecv := clusterRecvFrame_requestBytes client nonceA []
  rw [List.append_nil, hrequest] at hrecv
  obtain rfl : request = requestReceived client nonceA := congrArg Prod.fst (Option.some.inj hrecv)
  rw [answerTo_requestBytes mac client nonceA (hsecret.symm ▸ hne) henv rfl] at hanswer
  obtain rfl := Option.some.inj hanswer
  rw [clientInput_responseReceived, serverInput, requestNonce_requestReceived] at hinputs
  exact (macInput_inj (by simp)).mp hinputs

/-- **The handshake agrees exactly on hosts with one byte order**, or when the
server's nonce reads the same in both. -/
theorem handshakeAgrees_iff :
    HandshakeAgrees mac client server nonceA env shared ↔
      client.host = server.host ∨
        Endian.little.bytes 8 env.nonceB.toNat = Endian.big.bytes 8 env.nonceB.toNat := by
  rw [← bytes_eq_iff]
  constructor
  · exact bytes_of_handshakeAgrees mac hne hsecret nonceA henv shared
  · exact handshakeAgrees_of_bytes mac hne hsecret nonceA henv shared

end Agree

theorem ConnEnv.healthy_ok : ConnEnv.ok.Healthy := ⟨rfl, rfl, rfl, fun _ => rfl⟩

theorem handshakeAgrees_iff_same :
    HandshakeAgrees Mac.constant plainNode plainNode 5 .ok ⟨OrderedMap.empty, []⟩ :=
  (handshakeAgrees_iff Mac.constant (by decide) rfl 5 ConnEnv.healthy_ok _).mpr (Or.inl rfl)

/-- Between a little-endian sender and a big-endian server the handshake fails for
the nonce 1: the sender rejects the answer and transmits no `AUTH_OK`. -/
theorem handshakeAgrees_fails :
    ¬ HandshakeAgrees (padMac [115]).toMac plainNode { plainNode with host := .big } 5
        { ConnEnv.ok with nonceB := 1 } ⟨OrderedMap.empty, []⟩ ∧
      clientSide (padMac [115]).toMac plainNode { plainNode with host := .big } 5
        { ConnEnv.ok with nonceB := 1 } ⟨OrderedMap.empty, []⟩ =
        (false, none, [requestBytes plainNode 5]) := by
  have henv : { ConnEnv.ok with nonceB := 1 }.Healthy := ⟨rfl, rfl, rfl, fun _ => rfl⟩
  have hne : plainNode.clusterSecret ≠ [] := by decide
  have hsecret : { plainNode with host := .big }.clusterSecret = plainNode.clusterSecret := rfl
  have hclient := clientSide_eq (padMac [115]).toMac hne hsecret 5 henv ⟨OrderedMap.empty, []⟩
  rw [if_neg] at hclient
  · refine ⟨fun h => ?_, hclient⟩
    have hzero := h.returnsZero
    rw [hclient] at hzero
    exact Bool.false_ne_true hzero
  · rw [serverInput, requestNonce_requestReceived]
    decide

end Dmmr.Cluster
