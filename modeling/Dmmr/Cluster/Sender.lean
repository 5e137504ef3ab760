import Dmmr.Cluster.Knowledge

/-!
# The sender thread of a peer: `peer_sender_thread`

One thread per peer connects, authenticates and then transmits the messages of
the peer's outbox, oldest first.  `senderStep` is one pass through its loop, as
far as the wait for a message; what the calls return and which messages
`broadcast_sync` has queued meanwhile is in `SenderEnv`.

Without a cluster secret the thread should go straight to the outbox.  It does
not: `cluster_handshake_client` then succeeds without setting an expiry, the
expiry stays zero, and the second authentication block takes the session for an
expired one.  `actsUnauthenticated_iff` says how far this goes: the thread
behaves as documented only in those runs in which it never transmits anything.
-/

namespace Dmmr.Cluster

open Words Store Wire

/-! ## State -/

/-- `struct outbox_msg`. -/
structure OutboxMsg where
  opcode : UInt16
  flags : UInt16
  key : Bytes
  value : Bytes
  timestamp : UInt64
  nodeId : UInt64
  expireAt : UInt64
  enqueuedAt : Int
  deriving DecidableEq, Repr

/-- `OUTBOX_MAX_MSG`. -/
def outboxMaxMsg : ℕ := 256

/-- `OUTBOX_MSG_TTL`, in seconds. -/
def outboxMsgTtl : Int := 120

/-- `PEER_RETRY_BASE`, in seconds. -/
def peerRetryBase : ℕ := 1

/-- `PEER_RETRY_MAX`, in seconds. -/
def peerRetryMax : ℕ := 30

/-- Where the thread stands: at the top of its loop, waiting for a message, or
ended. -/
inductive SenderPc
  | top
  | waiting
  | ended
  deriving DecidableEq, Repr

/-- The fields of `struct peer_conn` the thread works on, with `fd >= 0` as
`connected` and the outbox as a list, whose length is `outbox_count`. -/
structure SenderState where
  pc : SenderPc
  connected : Bool
  authenticated : Bool
  authExpireAt : UInt64
  outbox : List OutboxMsg
  lastActivity : Int
  nextRetry : Int
  retryBackoff : ℕ
  staleCount : ℕ

/-- A peer as `add_peer_internal` creates it. -/
def SenderState.init (now : Int) : SenderState :=
  ⟨.top, false, false, 0, [], now, 0, peerRetryBase, 0⟩

/-- What happens during one pass: the flags read at the top, the readings of
the two clocks, whether the connection is made, the two possible authentication
exchanges, the messages queued meanwhile, the flags after the wait, and whether
the message can be sent. -/
structure SenderEnv where
  active : Bool
  running : Bool
  gateClock : UInt64
  now : Int
  connectOk : Bool
  handshake : ExchangeEnv
  authClock : UInt64
  exchange : ExchangeEnv
  arrivals : List OutboxMsg
  waitActive : Bool
  waitRunning : Bool
  sendTime : Int
  sendOk : Bool
  doneTime : Int

/-! ## One pass -/

variable (mac : Mac) (cfg : NodeConfig)

/-- The outbox end of `broadcast_sync`: a full outbox drops the message. -/
def enqueueOutbox (outbox : List OutboxMsg) (msg : OutboxMsg) : List OutboxMsg :=
  if outbox.length < outboxMaxMsg then outbox ++ [msg] else outbox

/-- The bytes of a message on the wire. -/
def OutboxMsg.frame (m : OutboxMsg) : Option Bytes :=
  clusterSendFrame cfg.clusterName m.opcode m.flags (Buf.ofBytes m.key) (Buf.ofBytes m.value)
    m.timestamp m.nodeId m.expireAt

/-- The next value of `retry_backoff`. -/
def doubled (backoff : ℕ) : ℕ := if backoff * 2 < peerRetryMax then backoff * 2 else peerRetryMax

/-- The connection is closed and its authentication forgotten. -/
def SenderState.disconnect (s : SenderState) : SenderState :=
  { s with connected := false, authenticated := false, authExpireAt := 0 }

/-- The outbox part: the frames transmitted and the state at the top of the
loop, or still waiting. -/
def senderOutbox (env : SenderEnv) (s : SenderState) : SenderState × List Bytes :=
  if !env.waitActive || !env.waitRunning then ({ s with pc := .ended, connected := false }, [])
  else
    match s.outbox with
    | [] => ({ s with pc := .waiting }, [])
    | msg :: rest =>
        if env.sendTime - msg.enqueuedAt > outboxMsgTtl then
          ({ s with pc := .top, outbox := rest }, [])
        else
          match if env.sendOk then msg.frame cfg else none with
          | some bytes =>
              ({ s with pc := .top, outbox := rest, lastActivity := env.doneTime }, [bytes])
          | none =>
              ({ s.disconnect with
                  pc := .top
                  nextRetry := env.doneTime + s.retryBackoff
                  retryBackoff := doubled s.retryBackoff
                  staleCount := s.staleCount + 1 }, [])

/-- The second authentication block, then the outbox. -/
def senderAuth (env : SenderEnv) (s : SenderState) : SenderState × List Bytes :=
  if !s.authenticated || env.authClock ≥ s.authExpireAt then
    match authExchange mac cfg env.exchange with
    | (some expireAt, sent) =>
        ({ s with
            pc := .top
            authenticated := true
            authExpireAt := expireAt
            lastActivity := env.doneTime
            retryBackoff := peerRetryBase }, sent)
    | (none, sent) =>
        ({ s.disconnect with
            pc := .top
            retryBackoff := doubled s.retryBackoff
            nextRetry := env.doneTime + doubled s.retryBackoff
            staleCount := s.staleCount + 1 }, sent)
  else senderOutbox cfg env s

/-- A connection has been made: the first authentication, then the rest. -/
def senderHandshake (env : SenderEnv) (s : SenderState) : SenderState × List Bytes :=
  let s := { s with
    connected := true, retryBackoff := peerRetryBase, lastActivity := env.now
    authenticated := false, authExpireAt := 0 }
  match clusterHandshakeClient mac cfg env.handshake with
  | (false, _, sent) => ({ s.disconnect with pc := .top }, sent)
  | (true, expireAt, sent) =>
      -- `expire_at` is zero unless the handshake has set it
      let (s, sent') := senderAuth mac cfg env
        { s with
          authenticated := true, authExpireAt := expireAt.getD 0, lastActivity := env.doneTime }
      (s, sent ++ sent')

/-- The connection part at the top of the loop. -/
def senderConnect (env : SenderEnv) (s : SenderState) : SenderState × List Bytes :=
  if (!s.connected || !s.authenticated || env.gateClock ≥ s.authExpireAt) && !s.connected then
    if env.now < s.nextRetry then (s, [])
    else if !env.connectOk then
      ({ s with
          retryBackoff := doubled s.retryBackoff
          nextRetry := env.now + doubled s.retryBackoff }, [])
    else senderHandshake mac cfg env s
  else senderAuth mac cfg env s

/-- One pass through the loop of `peer_sender_thread`, with the frames it
transmits. -/
def senderStep (s : SenderState) (env : SenderEnv) : SenderState × List Bytes :=
  let s := { s with outbox := env.arrivals.foldl enqueueOutbox s.outbox }
  match s.pc with
  | .ended => (s, [])
  | .waiting => senderOutbox cfg env s
  | .top =>
      if !env.active || !env.running then ({ s with pc := .ended, connected := false }, [])
      else senderConnect mac cfg env s

/-- A run of the thread: its state and everything transmitted. -/
def senderRun : List SenderEnv → SenderState → SenderState × List Bytes
  | [], s => (s, [])
  | env :: envs, s =>
      let (s, sent) := senderStep mac cfg s env
      let (s, sent') := senderRun envs s
      (s, sent ++ sent')

/-- The first frame transmitted in a run, with the pass that transmits it. -/
def nextTransmission : List SenderEnv → SenderState → Option (SenderEnv × Bytes)
  | [], _ => none
  | env :: envs, s =>
      match senderStep mac cfg s env with
      | (_, bytes :: _) => some (env, bytes)
      | (s, []) => nextTransmission envs s

/-! ## What is documented for a node without a secret -/

/-- A pass from `s` makes a connection. -/
def connects (env : SenderEnv) (s : SenderState) : Bool :=
  s.pc == .top && env.active && env.running && !s.connected && !(env.now < s.nextRetry) &&
    env.connectOk

/-- The first message of an outbox that is not too old. -/
def firstFresh (now : Int) (outbox : List OutboxMsg) : Option OutboxMsg :=
  outbox.find? fun m => !(now - m.enqueuedAt > outboxMsgTtl)

/-- The thread behaves as if there were no authentication: it never transmits
an `AUTH_REQUEST`, and the first frame it transmits after a connection is made
is the first message of the outbox that is not too old by then. -/
def ActsUnauthenticated (now : Int) (envs : List SenderEnv) : Prop :=
  (∀ bytes ∈ (senderRun mac cfg envs (.init now)).2,
    (clusterFrameAt bytes).opcode ≠ Opcode.authRequest.code) ∧
  ∀ before env after, envs = before ++ env :: after →
    let s := (senderRun mac cfg before (.init now)).1
    connects env s = true → ∀ env' bytes,
      nextTransmission mac cfg (env :: after) s = some (env', bytes) →
      ∀ m, firstFresh env'.sendTime (env.arrivals.foldl enqueueOutbox s.outbox) = some m →
        m.frame cfg = some bytes

/-- Whenever a connection is made, the link fails before an `AUTH_REQUEST` can
be sent. -/
def LinkAlwaysFails (now : Int) (envs : List SenderEnv) : Prop :=
  ∀ before env after, envs = before ++ env :: after →
    connects env (senderRun mac cfg before (.init now)).1 = true →
      env.exchange.requestSendOk = false

/-! ## What the thread does without a secret -/

variable {mac cfg}

theorem senderRun_append (envs envs' : List SenderEnv) (s : SenderState) :
    senderRun mac cfg (envs ++ envs') s =
      ((senderRun mac cfg envs' (senderRun mac cfg envs s).1).1,
        (senderRun mac cfg envs s).2 ++
          (senderRun mac cfg envs' (senderRun mac cfg envs s).1).2) := by
  induction envs generalizing s with
  | nil => rfl
  | cons env envs ih => simp [senderRun, ih, List.append_assoc]

section NoSecret

variable (hsecret : cfg.clusterSecret = [])
include hsecret

/-- The pass that makes a connection goes on to the second authentication block
with an expiry of zero, and so starts an exchange. -/
theorem senderStep_of_connects (mac : Mac) {env : SenderEnv} {s : SenderState}
    (hconnects : connects env s = true) :
    (senderStep mac cfg s env).2 = (authExchange mac cfg env.exchange).2 ∧
      ((senderStep mac cfg s env).1.pc = .top ∧ ((authExchange mac cfg env.exchange).1 = none →
        (senderStep mac cfg s env).1.connected = false)) := by
  simp only [connects, Bool.and_eq_true, beq_iff_eq, Bool.not_eq_true', decide_eq_false_iff_not]
    at hconnects
  obtain ⟨⟨⟨⟨⟨hpc, hactive⟩, hrunning⟩, hconnected⟩, hretry⟩, hconnect⟩ := hconnects
  have hexpired : ∀ clock : UInt64, (false || decide (clock ≥ 0)) = true := by
    intro clock
    rw [Bool.false_or, decide_eq_true_eq]
    exact UInt64.zero_le
  simp only [senderStep, hpc, hactive, hrunning, senderConnect, hconnected, hretry, hconnect,
    senderHandshake, clusterHandshakeClient, hsecret, senderAuth, Bool.not_true, Bool.not_false,
    Bool.or_false, Bool.true_or, Bool.and_true, Bool.false_eq_true, if_true, if_false,
    Option.getD_none, hexpired, List.nil_append]
  cases hexchange : authExchange mac cfg env.exchange with
  | mk result sent =>
      cases result with
      | none => exact ⟨rfl, rfl, fun _ => rfl⟩
      | some expireAt => exact ⟨rfl, rfl, by simp⟩

/-- As long as no request can be sent, a thread that is not connected transmits
nothing and does not get connected. -/
theorem senderStep_idle (mac : Mac) {env : SenderEnv} {s : SenderState}
    (hidle : s.connected = false) (hpc : s.pc ≠ .waiting)
    (hfails : connects env s = true → env.exchange.requestSendOk = false) :
    (senderStep mac cfg s env).2 = [] ∧ (senderStep mac cfg s env).1.connected = false ∧
      (senderStep mac cfg s env).1.pc ≠ .waiting := by
  by_cases hconnects : connects env s = true
  · obtain ⟨hsent, htop, hclosed⟩ := senderStep_of_connects hsecret mac hconnects
    have hexchange : authExchange mac cfg env.exchange = (none, []) := by
      simp [authExchange, hfails hconnects]
    rw [hexchange] at hsent hclosed
    exact ⟨hsent, hclosed rfl, by rw [htop]; decide⟩
  · cases hcase : s.pc with
    | waiting => exact absurd hcase hpc
    | ended => exact ⟨by simp [senderStep, hcase], by simp [senderStep, hcase, hidle],
        by simp [senderStep, hcase]⟩
    | top =>
        simp only [connects, hcase, hidle, beq_self_eq_true, Bool.not_false, Bool.true_and,
          Bool.and_true] at hconnects
        simp only [senderStep, hcase, senderConnect, hidle, Bool.not_false, Bool.true_or,
          Bool.and_true, if_true]
        split_ifs with hflags hretry hconnect
        · exact ⟨rfl, rfl, by simp⟩
        · exact ⟨rfl, rfl, by simp⟩
        · exact ⟨rfl, rfl, by simp⟩
        · -- all that is left is a connection
          simp_all

theorem senderRun_idle (envs : List SenderEnv) {s : SenderState} (hidle : s.connected = false)
    (hpc : s.pc ≠ .waiting)
    (hfails : ∀ before env after, envs = before ++ env :: after →
      connects env (senderRun mac cfg before s).1 = true → env.exchange.requestSendOk = false) :
    (senderRun mac cfg envs s).2 = [] := by
  induction envs generalizing s with
  | nil => rfl
  | cons env envs ih =>
      obtain ⟨hsent, hidle', hpc'⟩ := senderStep_idle hsecret mac hidle hpc
        fun h => hfails [] env envs rfl h
      have htail := ih hidle' hpc' fun before env' after heq h =>
        hfails (env :: before) env' after (by rw [heq]; rfl) h
      simp only [senderRun, hsent, htail, List.append_nil]

end NoSecret

theorem mem_of_nextTransmission {envs : List SenderEnv} {s : SenderState} {env : SenderEnv}
    {bytes : Bytes} (h : nextTransmission mac cfg envs s = some (env, bytes)) :
    bytes ∈ (senderRun mac cfg envs s).2 := by
  induction envs generalizing s with
  | nil => simp [nextTransmission] at h
  | cons env' envs ih =>
      unfold nextTransmission at h
      simp only [senderRun]
      cases hstep : senderStep mac cfg s env' with
      | mk s' sent =>
          cases sent with
          | nil =>
              rw [hstep] at h
              exact List.mem_append_right _ (ih h)
          | cons first rest =>
              rw [hstep] at h
              obtain ⟨-, rfl⟩ := Prod.mk.inj (Option.some.inj h)
              simp

/-- A run in which a request can be sent after a connection transmits one. -/
theorem authRequest_mem_senderRun (hsecret : cfg.clusterSecret = [])
    (before after : List SenderEnv) {env : SenderEnv} {s : SenderState}
    (hconnects : connects env (senderRun mac cfg before s).1 = true)
    (hsend : env.exchange.requestSendOk = true) :
    controlFrame cfg .authRequest (Endian.big.bytes 8 env.exchange.nonceA.toNat) ∈
      (senderRun mac cfg (before ++ env :: after) s).2 := by
  have hsent := (senderStep_of_connects hsecret mac hconnects).1
  have hrequest : controlFrame cfg .authRequest (Endian.big.bytes 8 env.exchange.nonceA.toNat) ∈
      (authExchange mac cfg env.exchange).2 := by
    unfold authExchange
    rw [hsend]
    simp only [Bool.not_true, Bool.false_eq_true, if_false]
    split
    · simp
    · split_ifs <;> simp
  rw [senderRun_append]
  refine List.mem_append_right _ ?_
  simp only [senderRun, hsent]
  exact List.mem_append_left _ hrequest

/-- **Without a secret the sender works only if nothing is ever sent.**  In
every run of the thread on a node without a secret, it acts as if there were no
authentication if and only if every connection fails before the `AUTH_REQUEST`
can be sent. -/
theorem actsUnauthenticated_iff (mac : Mac) (cfg : NodeConfig) (now : Int)
    (envs : List SenderEnv) :
    ActsUnauthenticated mac (cfg.withSecret []) now envs ↔
      LinkAlwaysFails mac (cfg.withSecret []) now envs := by
  have hsecret : (cfg.withSecret []).clusterSecret = [] := rfl
  constructor
  · rintro ⟨hnone, -⟩ before env after rfl hconnects
    cases hsend : env.exchange.requestSendOk with
    | false => rfl
    | true =>
        exact absurd (opcode_controlFrame _ _ _)
          (hnone _ (authRequest_mem_senderRun hsecret before after hconnects hsend))
  · intro hfails
    have hquiet := senderRun_idle hsecret envs (s := .init now) rfl (by simp [SenderState.init])
      hfails
    refine ⟨by simp [hquiet], ?_⟩
    intro before env after heq s _ env' bytes hnext
    have hmem := mem_of_nextTransmission hnext
    rw [heq, senderRun_append, List.append_eq_nil_iff] at hquiet
    rw [hquiet.2] at hmem
    simp at hmem

/-- The first pass connects, with a fresh message in the outbox, and transmits
an `AUTH_REQUEST` instead, whatever the MAC. -/
theorem actsUnauthenticated_fails :
    ¬ ∃ mac : Mac, ActsUnauthenticated mac (plainNode.withSecret []) 0
      [{ active := true, running := true, gateClock := 0, now := 0, connectOk := true
         handshake := ⟨0, true, none, true⟩, authClock := 1, exchange := ⟨7, true, none, true⟩
         arrivals := [⟨Opcode.sync.code, flagNone, [107], [118], 5, 1, 9, 0⟩]
         waitActive := true, waitRunning := true, sendTime := 0, sendOk := true
         doneTime := 0 }] := by
  rintro ⟨mac, hnone, -⟩
  exact absurd (opcode_controlFrame _ _ _)
    (hnone _ (authRequest_mem_senderRun rfl [] [] rfl rfl))

end Dmmr.Cluster
