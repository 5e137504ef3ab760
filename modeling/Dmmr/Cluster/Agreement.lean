import Dmmr.Cluster.Connection

/-!
# Whom a sender session has authenticated

Any number of sender and server sessions run the authentication exchange over a
network in the hands of an adversary, who sees every frame and delivers whatever
frames it likes, but cannot forge a MAC: a frame with a valid tag carries one
that some server session has issued.

An accepted answer has then been produced by a server session for the nonce of
the sender session that accepted it (`authInv_authRun`).  Nothing in the exchange says
on which node: a node's own server session will do, since the adversary can bring
a sender's request back to the node it came from.  Without such a reflection the
answer comes from another node (`agreement_of_unreflected`).
-/

namespace Dmmr.Cluster

open Words Store Wire

/-- A MAC without collisions on the 24 bytes it is used for. -/
structure IdealMac (secret : Bytes) extends Mac where
  collision_free : ∀ data data' : Bytes, data.length = 24 → data'.length = 24 →
    tag secret data = tag secret data' → data = data'

/-- Nodes that share a secret. -/
structure AuthCluster (ι : Type*) where
  node : ι → NodeConfig
  secret : Bytes
  secret_ne : secret ≠ []
  secret_eq : ∀ i, (node i).clusterSecret = secret

variable {ι : Type*} (c : AuthCluster ι) (mac : IdealMac c.secret)

/-! ## Sessions -/

/-- An answer given by a server session on `node`. -/
structure Issue (ι : Type*) where
  node : ι
  nonceA : Bytes
  nonceB : UInt64
  expireAt : UInt64

/-- The tag of an answer. -/
def Issue.tag (i : Issue ι) : Bytes :=
  computeAuthHmac mac.toMac i.nonceA ((c.node i.node).host.bytes 8 i.nonceB.toNat) i.expireAt
    c.secret

/-- The value of the `AUTH_RESPONSE` frame. -/
def Issue.value (i : Issue ι) : Bytes :=
  authResponse mac.toMac (c.node i.node) i.nonceA i.nonceB i.expireAt

/-- A sender session on `node` that has sent an `AUTH_REQUEST` with `nonce`, and
the answer it has accepted. -/
structure SenderSession (ι : Type*) where
  node : ι
  nonce : UInt64
  accepted : Option Received

structure AuthState (ι : Type*) where
  issued : List (Issue ι)
  sessions : List (SenderSession ι)

inductive AuthEvent (ι : Type*)
  /-- A sender session draws a nonce and sends its request. -/
  | request (i : ι) (nonce : UInt64)
  /-- A frame reaches a server session that has not authenticated its client. -/
  | serve (i : ι) (frame : Received) (nonceB clock : UInt64)
  /-- A frame reaches a sender session that waits for an answer. -/
  | respond (session : ℕ) (frame : Received)

/-- A server session answers an `AUTH_REQUEST` as `serverHandshake` does. -/
def AuthState.serve (s : AuthState ι) (i : ι) (frame : Received) (nonceB clock : UInt64) :
    AuthState ι :=
  if frame.frame.opcode ≠ Opcode.authRequest.code ∨ frame.frame.valueLen.toNat < 8 then s
  else { s with issued := s.issued ++ [⟨i, requestNonce frame, nonceB, clock + authTtlMicros⟩] }

/-- A sender session accepts an answer as `authExchange` does. -/
def SenderSession.respond (session : SenderSession ι) (frame : Received) : SenderSession ι :=
  if session.accepted.isNone ∧
      (checkAuthResponse mac.toMac (c.node session.node) session.nonce frame).isSome then
    { session with accepted := some frame }
  else session

def authStep (s : AuthState ι) : AuthEvent ι → AuthState ι
  | .request i nonce => { s with sessions := s.sessions ++ [⟨i, nonce, none⟩] }
  | .serve i frame nonceB clock => s.serve i frame nonceB clock
  | .respond n frame => { s with sessions := s.sessions.modify n (·.respond c mac frame) }

/-- Nothing has been sent. -/
def AuthState.init : AuthState ι := ⟨[], []⟩

def authRun (events : List (AuthEvent ι)) : AuthState ι := events.foldl (authStep c mac) .init

/-- Every step of the run from `s` satisfies `P`, a condition on the state before
the step and on the event. -/
def Along (P : AuthState ι → AuthEvent ι → Prop) : AuthState ι → List (AuthEvent ι) → Prop
  | _, [] => True
  | s, e :: events => P s e ∧ Along P (authStep c mac s e) events

/-- The adversary does not forge: if the frame a sender session gets has a tag
under the secret, some server session has issued that tag. -/
def Unforged (s : AuthState ι) : AuthEvent ι → Prop
  | .respond _ frame => ∀ data, frame.valueBytes 16 32 = mac.tag c.secret data →
      ∃ i ∈ s.issued, i.tag c mac = frame.valueBytes 16 32
  | _ => True

/-- No request is reflected: a server session gets no nonce drawn by a sender
session on its own node, and a sender session draws no nonce that a server
session on its own node has already answered. -/
def Unreflected (s : AuthState ι) : AuthEvent ι → Prop
  | .request i nonce => ∀ issue ∈ s.issued, issue.node = i →
      issue.nonceA ≠ Endian.big.bytes 8 nonce.toNat
  | .serve i frame _ _ => ∀ session ∈ s.sessions, session.node = i →
      requestNonce frame ≠ Endian.big.bytes 8 session.nonce.toNat
  | .respond _ _ => True

/-- The answer `i` was given for the nonce of `session`, and `frame` carries
it: its tag and its expiry and, between hosts of the same byte order, its whole
value. -/
def ProducedFor (i : Issue ι) (session : SenderSession ι) (frame : Received) : Prop :=
  i.nonceA = Endian.big.bytes 8 session.nonce.toNat ∧ i.tag c mac = frame.valueBytes 16 32 ∧
    Endian.big.bytes 8 i.expireAt.toNat = frame.valueBytes 8 8 ∧
    ((c.node i.node).host = (c.node session.node).host → i.value c mac = frame.valueBytes 0 48)

/-- Every accepted answer was given, for the nonce of the session that accepted
it, by a server session on another node. -/
def Agreement (s : AuthState ι) : Prop :=
  ∀ session ∈ s.sessions, ∀ frame, session.accepted = some frame →
    ∃ i ∈ s.issued, ProducedFor c mac i session frame ∧ i.node ≠ session.node

/-! ## The sessions are those of the code -/

/-- A server connection that is not authenticated answers an `AUTH_REQUEST` with
the frame of the issue recorded for it. -/
theorem sent_serverHandshake (i : ι) {env : ConnEnv} {r : Received} {s : ConnState}
    (hlen : ¬ r.frame.valueLen.toNat < 8) (hsend : env.sendOk 0 = true) :
    (serverHandshake mac.toMac (c.node i) env r s).2.sent = s.sent ++ [controlFrame (c.node i)
      .authResponse ((⟨i, requestNonce r, env.nonceB, env.requestClock + authTtlMicros⟩ :
        Issue ι).value c mac)] := by
  unfold serverHandshake
  rw [if_neg hlen]
  simp only [hsend, Bool.not_true, Bool.false_eq_true, if_false]
  cases clusterRecvFrame env.okAllocOk s.stream with
  | none => rfl
  | some p =>
      simp only
      split_ifs <;> rfl

/-- A sender exchange succeeds exactly when its session accepts the answer and
`AUTH_OK` can be sent. -/
theorem authExchange_isSome_iff (i : ι) (env : ExchangeEnv) :
    (authExchange mac.toMac (c.node i) env).1.isSome ↔
      env.requestSendOk = true ∧ env.okSendOk = true ∧ ∃ frame, env.response = some frame ∧
        ((⟨i, env.nonceA, none⟩ : SenderSession ι).respond c mac frame).accepted = some frame := by
  unfold authExchange SenderSession.respond
  cases env.requestSendOk <;> cases env.okSendOk <;> cases hresponse : env.response with
  | none => simp
  | some frame =>
      cases hcheck : checkAuthResponse mac.toMac (c.node i) env.nonceA frame <;> simp [hcheck]

/-! ## Where an accepted answer comes from -/

theorem length_valueBytes {r : Received} {off n : ℕ} (h : off + n ≤ r.frame.valueLen.toNat) :
    (r.valueBytes off n).length = n := by
  unfold Received.valueBytes
  cases hp : r.payload with
  | none =>
      have := r.payload_none.mp hp
      simp
      omega
  | some p =>
      have := r.payload_length p hp
      simp only [Option.getD_some, List.length_take, List.length_drop]
      omega

theorem valueBytes_append (r : Received) (off n m : ℕ) :
    r.valueBytes off n ++ r.valueBytes (off + n) m = r.valueBytes off (n + m) := by
  unfold Received.valueBytes
  rw [← List.drop_drop, List.take_add]

variable {c mac}

theorem Issue.value_eq (i : Issue ι) : i.value c mac = Endian.big.bytes 8 i.nonceB.toNat ++
    (Endian.big.bytes 8 i.expireAt.toNat ++ i.tag c mac) := by
  simp only [Issue.value, authResponse, Issue.tag, c.secret_eq]

/-- What an accepted answer satisfies. -/
theorem check_inv {cfg : NodeConfig} {nonce : UInt64} {r : Received}
    (h : (checkAuthResponse mac.toMac cfg nonce r).isSome) :
    48 ≤ r.frame.valueLen.toNat ∧ r.valueBytes 16 32 =
      computeAuthHmac mac.toMac (Endian.big.bytes 8 nonce.toNat)
        (cfg.host.bytes 8 (Endian.big.word (r.valueBytes 0 8)))
        (UInt64.ofNat (Endian.big.word (r.valueBytes 8 8))) cfg.clusterSecret := by
  unfold checkAuthResponse at h
  split_ifs at h with hshape
  · simp at h
  · dsimp only at h
    split_ifs at h with hmac
    · exact ⟨not_lt.mp (not_or.mp hshape).2, hmac⟩
    · simp at h

/-- An answer with the tag of an issue was produced for the nonce it is checked
against. -/
theorem producedFor_of_tag {i : Issue ι} (hnonce : i.nonceA.length = 8)
    {session : SenderSession ι} {r : Received}
    (hcheck : (checkAuthResponse mac.toMac (c.node session.node) session.nonce r).isSome)
    (htag : i.tag c mac = r.valueBytes 16 32) : ProducedFor c mac i session r := by
  obtain ⟨hlen, hmac⟩ := check_inv hcheck
  have hlen8 : (r.valueBytes 8 8).length = 8 := length_valueBytes (by omega)
  have hlen0 : (r.valueBytes 0 8).length = 8 := length_valueBytes (by omega)
  -- the two tags are of the same 24 bytes
  have hdata : i.nonceA ++ ((c.node i.node).host.bytes 8 i.nonceB.toNat ++
        Endian.big.bytes 8 i.expireAt.toNat) =
      Endian.big.bytes 8 session.nonce.toNat ++ ((c.node session.node).host.bytes 8
        (Endian.big.word (r.valueBytes 0 8)) ++ Endian.big.bytes 8
        (UInt64.ofNat (Endian.big.word (r.valueBytes 8 8))).toNat) := by
    apply mac.collision_free
    · simp [hnonce]
    · simp
    · have h := htag.trans hmac
      rwa [c.secret_eq] at h
  obtain ⟨hA, hrest⟩ := List.append_inj hdata (by simp [hnonce])
  obtain ⟨hB, hexp⟩ := List.append_inj hrest (by simp)
  have hword : Endian.big.word (r.valueBytes 8 8) < 2 ^ 64 := by
    have := Endian.big.word_lt (r.valueBytes 8 8)
    rw [hlen8] at this
    exact this
  have hexp' : Endian.big.bytes 8 i.expireAt.toNat = r.valueBytes 8 8 := by
    rw [hexp, UInt64.toNat_ofNat', Nat.mod_eq_of_lt hword, Endian.bytes_word _ hlen8]
  refine ⟨hA, htag, hexp', fun hhost => ?_⟩
  have hB' : Endian.big.bytes 8 i.nonceB.toNat = r.valueBytes 0 8 := by
    have hlt := Endian.big.word_lt (r.valueBytes 0 8)
    rw [hlen0] at hlt
    rw [hhost] at hB
    rw [Endian.bytes_inj _ (by simpa using i.nonceB.toNat_lt) hlt hB, Endian.bytes_word _ hlen0]
  calc i.value c mac
      = r.valueBytes 0 8 ++ (r.valueBytes 8 8 ++ r.valueBytes 16 32) := by
        rw [i.value_eq, hB', hexp', htag]
    _ = r.valueBytes 0 8 ++ r.valueBytes 8 40 := by rw [valueBytes_append r 8 8 32]
    _ = r.valueBytes 0 48 := valueBytes_append r 0 8 40

/-! ## Runs -/

theorem foldl_of_along {P : AuthState ι → AuthEvent ι → Prop} {I : AuthState ι → Prop}
    (hstep : ∀ s e, P s e → I s → I (authStep c mac s e)) (events : List (AuthEvent ι)) :
    ∀ {s}, Along c mac P s events → I s → I (events.foldl (authStep c mac) s) := by
  induction events with
  | nil => exact fun _ hI => hI
  | cons e events ih => exact fun hP hI => ih hP.2 (hstep _ e hP.1 hI)

theorem mem_modify {α : Type*} {l : List α} {n : ℕ} {f : α → α} {a : α} (h : a ∈ l.modify n f) :
    a ∈ l ∨ ∃ b ∈ l, a = f b := by
  obtain ⟨k, hk, rfl⟩ := List.mem_iff_getElem.mp h
  rw [List.length_modify] at hk
  rw [List.getElem_modify]
  split_ifs
  · exact .inr ⟨_, List.getElem_mem hk, rfl⟩
  · exact .inl (List.getElem_mem hk)

/-- Every accepted answer was given, by some server session, for the nonce of the
session that accepted it. -/
structure AuthInv (c : AuthCluster ι) (mac : IdealMac c.secret) (s : AuthState ι) : Prop where
  length_nonceA : ∀ i ∈ s.issued, i.nonceA.length = 8
  produced : ∀ session ∈ s.sessions, ∀ frame, session.accepted = some frame →
    ∃ i ∈ s.issued, ProducedFor c mac i session frame

theorem authInv_serve {s : AuthState ι} (hinv : AuthInv c mac s) (i : ι) (frame : Received)
    (nonceB clock : UInt64) : AuthInv c mac (s.serve i frame nonceB clock) := by
  unfold AuthState.serve
  split_ifs with hshape
  · exact hinv
  · obtain ⟨-, hlen⟩ := not_or.mp hshape
    refine ⟨?_, fun session hmem r hr => ?_⟩
    · simp only [List.mem_append, List.mem_singleton]
      rintro issue (hmem | rfl)
      · exact hinv.length_nonceA issue hmem
      · exact length_valueBytes (by omega)
    · obtain ⟨issue, hissue, hfor⟩ := hinv.produced session hmem r hr
      exact ⟨issue, List.mem_append_left _ hissue, hfor⟩

theorem authInv_respond {s : AuthState ι} (hinv : AuthInv c mac s) (n : ℕ) {frame : Received}
    (hunforged : Unforged c mac s (.respond n frame)) :
    AuthInv c mac (authStep c mac s (.respond n frame)) := by
  refine ⟨hinv.length_nonceA, fun session hmem r hr => ?_⟩
  rcases mem_modify hmem with hmem | ⟨session, hmem', rfl⟩
  · exact hinv.produced session hmem r hr
  · unfold SenderSession.respond at hr ⊢
    split_ifs at hr ⊢ with haccepts
    · -- the session accepts the frame: its tag is valid, so it has been issued
      obtain rfl : frame = r := Option.some.inj hr
      obtain ⟨-, hmac⟩ := check_inv haccepts.2
      rw [c.secret_eq] at hmac
      obtain ⟨issue, hissue, htag⟩ := hunforged _ hmac
      exact ⟨issue, hissue,
        producedFor_of_tag (hinv.length_nonceA issue hissue) haccepts.2 htag⟩
    · exact hinv.produced session hmem' r hr

theorem authInv_authStep {s : AuthState ι} {e : AuthEvent ι} (hunforged : Unforged c mac s e)
    (hinv : AuthInv c mac s) : AuthInv c mac (authStep c mac s e) := by
  cases e with
  | request i nonce =>
      refine ⟨hinv.length_nonceA, fun session hmem r hr => ?_⟩
      rcases List.mem_append.mp hmem with hmem | hmem
      · exact hinv.produced session hmem r hr
      · rw [List.mem_singleton.mp hmem] at hr
        simp at hr
  | serve i frame nonceB clock => exact authInv_serve hinv i frame nonceB clock
  | respond n frame => exact authInv_respond hinv n hunforged

/-- **An accepted answer is an answer to the request.**  Whatever the adversary
does short of forging a MAC, a sender session accepts only what a server session
has produced for its nonce. -/
theorem authInv_authRun {events : List (AuthEvent ι)}
    (hunforged : Along c mac (Unforged c mac) .init events) :
    AuthInv c mac (authRun c mac events) :=
  foldl_of_along (fun _ _ => authInv_authStep) events hunforged ⟨by simp [AuthState.init],
    by simp [AuthState.init]⟩

/-- No server session has answered a sender session on its own node. -/
def NoReflection (s : AuthState ι) : Prop :=
  ∀ i ∈ s.issued, ∀ session ∈ s.sessions, session.node = i.node →
    i.nonceA ≠ Endian.big.bytes 8 session.nonce.toNat

theorem noReflection_authStep {s : AuthState ι} {e : AuthEvent ι} (hunreflected : Unreflected s e)
    (hno : NoReflection s) : NoReflection (authStep c mac s e) := by
  cases e with
  | request i nonce =>
      intro issue hissue session hmem hnode
      rcases List.mem_append.mp hmem with hmem | hmem
      · exact hno issue hissue session hmem hnode
      · rw [List.mem_singleton.mp hmem] at hnode ⊢
        exact hunreflected issue hissue hnode.symm
  | serve i frame nonceB clock =>
      intro issue hissue session hmem hnode
      simp only [authStep, AuthState.serve] at hissue hmem
      split_ifs at hissue hmem
      · exact hno issue hissue session hmem hnode
      · rcases List.mem_append.mp hissue with hissue | hissue
        · exact hno issue hissue session hmem hnode
        · rw [List.mem_singleton.mp hissue] at hnode ⊢
          exact hunreflected session hmem hnode
  | respond n frame =>
      intro issue hissue session hmem hnode
      rcases mem_modify hmem with hmem | ⟨session, hmem', rfl⟩
      · exact hno issue hissue session hmem hnode
      · -- accepting an answer changes neither the node nor the nonce of a session
        unfold SenderSession.respond at hnode ⊢
        split_ifs at hnode ⊢
        · exact hno issue hissue session hmem' hnode
        · exact hno issue hissue session hmem' hnode

/-- **Agreement without reflection.**  In every run in which no MAC is forged and
no request is reflected to a server session on the node it comes from, every
answer a sender session has accepted was produced for its nonce by a server
session on another node. -/
theorem agreement_of_unreflected (c : AuthCluster ι) (mac : IdealMac c.secret)
    (events : List (AuthEvent ι)) (hunforged : Along c mac (Unforged c mac) .init events)
    (hunreflected : Along c mac Unreflected .init events) :
    Agreement c mac (authRun c mac events) := by
  have hno : NoReflection (authRun c mac events) :=
    foldl_of_along (fun _ _ => noReflection_authStep) events hunreflected
      (by simp [NoReflection, AuthState.init])
  intro session hmem frame haccepted
  obtain ⟨i, hi, hfor⟩ := (authInv_authRun hunforged).produced session hmem frame haccepted
  exact ⟨i, hi, hfor, fun hnode => hno i hi session hmem hnode.symm hfor.1⟩

/-! ## An undisturbed exchange -/

variable (c mac)

/-- The `AUTH_REQUEST` of a sender session on `i`. -/
def requestFrame (i : ι) (nonce : UInt64) : Received :=
  receivedOf (c.node i).clusterName Opcode.authRequest.code flagNone []
    (Endian.big.bytes 8 nonce.toNat) 0 (c.node i).myNodeId 0 (by decide) (by simp [maxValueLen])

theorem Issue.length_tag (i : Issue ι) : (i.tag c mac).length = 32 := mac.length_tag _ _

theorem Issue.length_value (i : Issue ι) : (i.value c mac).length = 48 := by
  simp [i.value_eq, i.length_tag]

/-- The `AUTH_RESPONSE` of a server session. -/
def answerFrame (i : Issue ι) : Received :=
  receivedOf (c.node i.node).clusterName Opcode.authResponse.code flagNone [] (i.value c mac) 0
    (c.node i.node).myNodeId 0 (by decide) (by simp [i.length_value, maxValueLen])

/-- A sender session on `i` and a server session on `j`, with every frame
delivered. -/
def exchange (i j : ι) (nonceA nonceB clock : UInt64) : List (AuthEvent ι) :=
  [.request i nonceA, .serve j (requestFrame c i nonceA) nonceB clock,
    .respond 0 (answerFrame c mac
      ⟨j, Endian.big.bytes 8 nonceA.toNat, nonceB, clock + authTtlMicros⟩)]

theorem requestNonce_requestFrame (i : ι) (nonce : UInt64) :
    requestNonce (requestFrame c i nonce) = Endian.big.bytes 8 nonce.toNat :=
  (valueBytes_receivedOf _ _ _ _ _ _ _ _ 0 8).trans (List.take_of_length_le (by simp))

theorem tag_answerFrame (i : Issue ι) : (answerFrame c mac i).valueBytes 16 32 = i.tag c mac := by
  have hvalue : (answerFrame c mac i).valueBytes 16 32 = ((i.value c mac).drop 16).take 32 :=
    valueBytes_receivedOf ..
  rw [hvalue, i.value_eq, ← List.append_assoc, List.drop_left' (by simp),
    List.take_of_length_le (i.length_tag c mac).le]

/-- The answer to a request is accepted if both hosts have the same byte order. -/
theorem isSome_check_answerFrame {i : ι} {issue : Issue ι} {nonceA : UInt64}
    (hhost : (c.node issue.node).host = (c.node i).host)
    (hnonce : issue.nonceA = Endian.big.bytes 8 nonceA.toNat) :
    (checkAuthResponse mac.toMac (c.node i) nonceA (answerFrame c mac issue)).isSome := by
  have hsecret : (c.node i).clusterSecret = (c.node issue.node).clusterSecret := by
    rw [c.secret_eq, c.secret_eq]
  have hlen : (answerFrame c mac issue).frame.valueLen.toNat = 48 := by
    simp [answerFrame, receivedOf, sentHeader, Issue.length_value]
  have hvalue : ∀ off n, (answerFrame c mac issue).valueBytes off n =
      ((issue.value c mac).drop off).take n := fun off n => valueBytes_receivedOf ..
  rw [Issue.value, hnonce] at hvalue
  rw [checkAuthResponse_of_answer mac.toMac hsecret hhost.symm rfl hlen.ge hvalue]
  rfl

theorem serve_requestFrame (s : AuthState ι) (i j : ι) (nonceA nonceB clock : UInt64) :
    s.serve j (requestFrame c i nonceA) nonceB clock =
      { s with issued := s.issued ++
          [⟨j, Endian.big.bytes 8 nonceA.toNat, nonceB, clock + authTtlMicros⟩] } := by
  unfold AuthState.serve
  rw [if_neg (by simp [requestFrame, receivedOf, sentHeader]), requestNonce_requestFrame]

/-- An undisturbed exchange succeeds. -/
theorem authRun_exchange {i j : ι} (hhost : (c.node j).host = (c.node i).host)
    (nonceA nonceB clock : UInt64) :
    authRun c mac (exchange c mac i j nonceA nonceB clock) =
      ⟨[⟨j, Endian.big.bytes 8 nonceA.toNat, nonceB, clock + authTtlMicros⟩],
        [⟨i, nonceA, some (answerFrame c mac
          ⟨j, Endian.big.bytes 8 nonceA.toNat, nonceB, clock + authTtlMicros⟩)⟩]⟩ := by
  have hcheck : (checkAuthResponse mac.toMac (c.node i) nonceA (answerFrame c mac
      ⟨j, Endian.big.bytes 8 nonceA.toNat, nonceB, clock + authTtlMicros⟩)).isSome :=
    isSome_check_answerFrame c mac hhost rfl
  simp only [authRun, exchange, List.foldl_cons, List.foldl_nil, authStep, serve_requestFrame,
    AuthState.init, List.nil_append, List.modify_zero_cons, SenderSession.respond, hcheck,
    Option.isNone_none, and_self, if_true]

/-- Nobody forges in an undisturbed exchange. -/
theorem unforged_exchange (i j : ι) (nonceA nonceB clock : UInt64) :
    Along c mac (Unforged c mac) .init (exchange c mac i j nonceA nonceB clock) := by
  refine ⟨trivial, trivial, fun _ _ => ?_, trivial⟩
  simp only [authStep, serve_requestFrame]
  exact ⟨_, List.mem_append_right _ (List.mem_singleton_self _),
    (tag_answerFrame c mac _).symm⟩

/-- An undisturbed exchange between two nodes reflects nothing. -/
theorem unreflected_exchange {i j : ι} (hne : i ≠ j) (nonceA nonceB clock : UInt64) :
    Along c mac Unreflected .init (exchange c mac i j nonceA nonceB clock) := by
  refine ⟨by simp [Unreflected, AuthState.init], fun session hmem hnode => ?_, trivial, trivial⟩
  simp only [authStep, AuthState.init, List.nil_append, List.mem_singleton] at hmem
  rw [hmem] at hnode
  exact absurd hnode hne

/-! ## Two nodes -/

/-- The data itself, padded: a MAC without collisions on 24 bytes. -/
def padMac (secret : Bytes) : IdealMac secret where
  tag _ data := (data ++ List.replicate 32 0).take 32
  length_tag _ data := by simp
  collision_free data data' hlen hlen' h := by
    have h24 := congrArg (List.take 24) h
    rwa [List.take_take, List.take_take, show min 24 32 = 24 from rfl,
      List.take_left' hlen, List.take_left' hlen'] at h24

/-- Two nodes that share a secret. -/
def nodePair : AuthCluster Bool where
  node i := ⟨.little, if i then 2 else 1, [], [115], [49], 7000⟩
  secret := [115]
  secret_ne := by decide
  secret_eq _ := rfl

/-- An exchange between the two nodes. -/
theorem agreement_of_unreflected_pair :
    Agreement nodePair (padMac _) (authRun nodePair (padMac _)
      (exchange nodePair (padMac _) false true 7 9 100)) :=
  agreement_of_unreflected nodePair (padMac _) _ (unforged_exchange _ _ _ _ _ _ _)
    (unreflected_exchange _ _ (by decide) _ _ _)

/-- The first node's request is brought to a server session on the first node
itself, and its answer back to the sender session. -/
theorem agreement_fails :
    Along nodePair (padMac _) (Unforged nodePair (padMac _)) .init
        (exchange nodePair (padMac _) false false 7 9 100) ∧
      ¬ Agreement nodePair (padMac _) (authRun nodePair (padMac _)
        (exchange nodePair (padMac _) false false 7 9 100)) := by
  refine ⟨unforged_exchange _ _ _ _ _ _ _, fun hagree => ?_⟩
  rw [authRun_exchange _ _ rfl] at hagree
  obtain ⟨i, hi, -, hne⟩ := hagree _ (List.mem_singleton_self _) _ rfl
  rw [List.mem_singleton.mp hi] at hne
  exact hne rfl

end Dmmr.Cluster
