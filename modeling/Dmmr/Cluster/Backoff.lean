import Dmmr.Cluster.Outbox

/-!
# Retries of the sender thread

After each failed attempt to get a session with its peer, `peer_sender_thread` is to wait
longer before the next one: `PEER_RETRY_BASE` seconds, doubled for every failure since the
last session, and at most `PEER_RETRY_MAX`.

`Attempts` counts the failures of a run and says when the next attempt may be made.  The
thread keeps to it as long as it fails to connect.  It does not if a connection is made and
the handshake fails: `retry_backoff` has been reset by then and `next_retry` is not set.
`backsOff_of_orderly` says what else must not happen.  An exchange must not fail on a
connection made after other failures, since the backoff was reset; and a connection must
be refused within the second in which the clock was read, since `next_retry` counts from
there.
-/

namespace Dmmr.Cluster

open Words Store Wire

/-! ## What is due -/

/-- How long to wait after so many failures, in seconds. -/
def peerRetryDelay (failures : ℕ) : ℕ := min peerRetryMax (peerRetryBase * 2 ^ failures)

/-- The failed attempts since the last session, and the time before which no connection
should be tried. -/
structure Attempts where
  failures : ℕ
  due : Option Int
  deriving DecidableEq, Repr

/-- An attempt fails at the given time. -/
def Attempts.fail (a : Attempts) (time : Int) : Attempts :=
  ⟨a.failures + 1, some (time + peerRetryDelay (a.failures + 1))⟩

variable (mac : Mac) (cfg : NodeConfig)

/-- What a section of the thread means for the attempts.  `doneTime` is the time at its
end, whether the thread reads the clock or not. -/
def Attempts.observe (a : Attempts) (s : PeerConn) (env : SenderEnv) : Attempts :=
  match s.pc with
  | .connecting _ => if !env.connectOk then a.fail env.doneTime else { a with due := none }
  | .handshake =>
      if (clusterHandshakeClient mac cfg env.handshake).1 then a else a.fail env.doneTime
  | .auth =>
      if !s.authenticated || env.authClock ≥ s.authExpireAt then
        match (authExchange mac cfg env.exchange).1 with
        | some _ => ⟨0, none⟩
        | none => a.fail env.doneTime
      else ⟨0, none⟩
  | _ => a

/-- The thread and its attempts after one event. -/
def attemptStep (x : PeerConn × Attempts) (e : OutboxEvent) : PeerConn × Attempts :=
  match e with
  | .broadcast msg => (x.1.broadcast msg, x.2)
  | .thread env => (threadStep mac cfg env x.1, x.2.observe mac cfg x.1 env)

/-- The thread and its attempts after a run. -/
def attemptRun (start : Int) (events : List OutboxEvent) : PeerConn × Attempts :=
  events.foldl (attemptStep mac cfg) (.init start, ⟨0, none⟩)

/-- No connection is tried before it is due, at any point of a run. -/
def BacksOff (start : Int) (events : List OutboxEvent) : Prop :=
  ∀ before after, events = before ++ after →
    ∀ now due, (attemptRun mac cfg start before).1.pc = .connecting now →
      (attemptRun mac cfg start before).2.due = some due → due ≤ now

/-! ## When it is kept -/

/-- The peer answers a request with the right code, and both frames can be sent. -/
def ExchangeEnv.Answered (env : ExchangeEnv) : Prop :=
  env.requestSendOk = true ∧ env.okSendOk = true ∧ ∃ r, env.response = some r ∧
    r.frame.opcode = Opcode.authResponse.code ∧ 48 ≤ r.frame.valueLen.toNat ∧
    r.valueBytes 16 32 = computeAuthHmac mac (Endian.big.bytes 8 env.nonceA.toNat)
      (cfg.host.bytes 8 (Endian.big.word (r.valueBytes 0 8)))
      (UInt64.ofNat (Endian.big.word (r.valueBytes 8 8))) cfg.clusterSecret

/-- What must not happen in a section does not. -/
structure Orderly (x : PeerConn × Attempts) (env : SenderEnv) : Prop where
  connect : ∀ now, x.1.pc = .connecting now → env.connectOk = false → env.doneTime ≤ now
  handshake : x.1.pc = .handshake → cfg.clusterSecret = [] ∨ env.handshake.Answered mac cfg
  exchange : x.1.pc = .auth → env.exchange.Answered mac cfg ∨ x.2.failures = 0 ∨
    (x.1.authenticated = true ∧ env.authClock < x.1.authExpireAt)

/-- The same of every section of a run. -/
def OrderlyRun : PeerConn × Attempts → List OutboxEvent → Prop
  | _, [] => True
  | x, .broadcast msg :: events => OrderlyRun (attemptStep mac cfg x (.broadcast msg)) events
  | x, .thread env :: events =>
      Orderly mac cfg x env ∧ OrderlyRun (attemptStep mac cfg x (.thread env)) events

variable {mac cfg}

theorem authExchange_of_answered {env : ExchangeEnv} (h : env.Answered mac cfg) :
    ∃ expireAt, (authExchange mac cfg env).1 = some expireAt := by
  obtain ⟨hrequest, hok, r, hr, hop, hlen, hmac⟩ := h
  have hcheck : checkAuthResponse mac cfg env.nonceA r =
      some (UInt64.ofNat (Endian.big.word (r.valueBytes 8 8))) := by
    unfold checkAuthResponse
    rw [if_neg (by simp [hop, hlen])]
    simp only [if_pos hmac]
  exact ⟨UInt64.ofNat (Endian.big.word (r.valueBytes 8 8)), by
    simp [authExchange, hrequest, hok, hr, hcheck]⟩

theorem clusterHandshakeClient_of_answered {env : ExchangeEnv}
    (h : cfg.clusterSecret = [] ∨ env.Answered mac cfg) :
    (clusterHandshakeClient mac cfg env).1 = true := by
  unfold clusterHandshakeClient
  split_ifs with hsecret
  · rfl
  · obtain ⟨expireAt, hexpireAt⟩ := authExchange_of_answered (h.resolve_left hsecret)
    split
    next heq => simp [heq] at hexpireAt
    next => rfl

/-! ## Delays -/

/-- Doubling keeps up with the failures. -/
theorem peerRetryDelay_succ_le {n backoff : ℕ} (h : peerRetryDelay n ≤ backoff) :
    peerRetryDelay (n + 1) ≤ doubled backoff := by
  simp only [peerRetryDelay, peerRetryBase, Nat.one_mul, pow_succ] at *
  unfold doubled
  by_cases hlt : backoff * 2 < peerRetryMax
  · rw [if_pos hlt]
    omega
  · rw [if_neg hlt]
    exact Nat.min_le_left ..

theorem two_le_doubled {backoff : ℕ} (h : 1 ≤ backoff) : 2 ≤ doubled backoff := by
  have hmax : peerRetryMax = 30 := rfl
  unfold doubled
  split_ifs <;> omega

/-! ## The invariant -/

/-- The thread works on the outbox. -/
@[simp] def ThreadPc.inSession : ThreadPc → Bool
  | outbox | send _ | sent _ | failed _ => true
  | _ => false

/-- `retry_backoff` and `next_retry` are no smaller than the failures call for. -/
structure KeepsUp (x : PeerConn × Attempts) : Prop where
  pos : 1 ≤ x.1.retryBackoff
  delay : x.1.connected = false → x.1.pc ≠ .ended → peerRetryDelay x.2.failures ≤ x.1.retryBackoff
  due : ∀ d, x.2.due = some d → x.1.connected = false ∧ d ≤ x.1.nextRetry
  retry : ∀ now, x.1.pc = .retry now → x.1.connected = false
  connecting : ∀ now, x.1.pc = .connecting now → x.1.connected = false ∧ x.1.nextRetry ≤ now
  connected : x.1.pc = .handshake ∨ x.1.pc = .auth → x.1.connected = true
  session : x.1.pc.inSession = true → x.1.connected = true ∧ x.2.failures = 0

theorem keepsUp_init (start : Int) : KeepsUp (.init start, ⟨0, none⟩) where
  pos := le_rfl
  delay _ _ := by
    show peerRetryDelay 0 ≤ peerRetryBase
    decide
  due := nofun
  retry := nofun
  connecting := nofun
  connected := by simp [PeerConn.init]
  session := nofun

theorem KeepsUp.broadcast {x : PeerConn × Attempts} (h : KeepsUp x) (msg : OutboxMsg) :
    KeepsUp (x.1.broadcast msg, x.2) := by
  unfold PeerConn.broadcast
  split_ifs
  · exact ⟨h.pos, h.delay, h.due, h.retry, h.connecting, h.connected, h.session⟩
  · exact h

section Step

variable {x : PeerConn × Attempts} {env : SenderEnv}

/-- A section that leaves the connection and the times alone. -/
theorem KeepsUp.goOn (h : KeepsUp x) {s : PeerConn} {a : Attempts}
    (hconnected : s.connected = x.1.connected) (hbackoff : s.retryBackoff = x.1.retryBackoff)
    (hnext : s.nextRetry = x.1.nextRetry) (hended : x.1.pc ≠ .ended)
    (hattempts : a = x.2 ∨ a = ⟨0, none⟩)
    (hretry : ∀ now, s.pc = .retry now → x.1.connected = false)
    (hconnecting : ∀ now, s.pc = .connecting now →
      x.1.connected = false ∧ x.1.nextRetry ≤ now)
    (hpc : s.pc = .handshake ∨ s.pc = .auth → x.1.connected = true)
    (hsession : s.pc.inSession = true → x.1.connected = true ∧ a.failures = 0) :
    KeepsUp (s, a) where
  pos := hbackoff ▸ h.pos
  delay hs _ := by
    rw [hconnected] at hs
    rw [hbackoff]
    rcases hattempts with rfl | rfl
    · exact h.delay hs hended
    · exact h.pos
  due d hd := by
    rw [hconnected, hnext]
    rcases hattempts with rfl | rfl
    · exact h.due d hd
    · exact absurd hd (by simp)
  retry now hs := hconnected ▸ hretry now hs
  connecting now hs := by
    rw [hconnected, hnext]
    exact hconnecting now hs
  connected hs := hconnected ▸ hpc hs
  session hs := by
    rw [hconnected]
    exact hsession hs

/-- The same when the thread goes back to the top or ends. -/
theorem KeepsUp.goOn_top (h : KeepsUp x) {s : PeerConn} (hconnected : s.connected = x.1.connected)
    (hbackoff : s.retryBackoff = x.1.retryBackoff) (hnext : s.nextRetry = x.1.nextRetry)
    (hended : x.1.pc ≠ .ended) (hpc : s.pc = .top ∨ s.pc = .closing) : KeepsUp (s, x.2) := by
  apply h.goOn hconnected hbackoff hnext hended (Or.inl rfl) <;>
    rcases hpc with hpc | hpc <;> simp [hpc]

/-- The same when it stays in the session. -/
theorem KeepsUp.goOn_session (h : KeepsUp x) {s : PeerConn}
    (hconnected : s.connected = x.1.connected) (hbackoff : s.retryBackoff = x.1.retryBackoff)
    (hnext : s.nextRetry = x.1.nextRetry) (hended : x.1.pc ≠ .ended)
    (hsession : x.1.connected = true ∧ x.2.failures = 0) (hpc : s.pc.inSession = true) :
    KeepsUp (s, x.2) := by
  apply h.goOn hconnected hbackoff hnext hended (Or.inl rfl)
  · intro now hs
    simp [hs] at hpc
  · intro now hs
    simp [hs] at hpc
  · exact fun _ => hsession.1
  · exact fun _ => hsession

/-- An attempt fails, and the thread sets its times accordingly. -/
theorem keepsUp_fail {s : PeerConn} {a : Attempts} {time : Int} (hpc : s.pc = .top)
    (hconnected : s.connected = false) (hpos : 1 ≤ s.retryBackoff)
    (hdelay : peerRetryDelay (a.failures + 1) ≤ s.retryBackoff)
    (hnext : time + peerRetryDelay (a.failures + 1) ≤ s.nextRetry) : KeepsUp (s, a.fail time) where
  pos := hpos
  delay _ _ := hdelay
  due := by
    rintro d ⟨⟩
    exact ⟨hconnected, hnext⟩
  retry := by simp [hpc]
  connecting := by simp [hpc]
  connected := by simp [hpc]
  session := by simp [hpc]

theorem KeepsUp.step_connecting (h : KeepsUp x) (mac : Mac) (cfg : NodeConfig) {now : Int}
    (hpc : x.1.pc = .connecting now) (horderly : env.connectOk = false → env.doneTime ≤ now) :
    KeepsUp (attemptStep mac cfg x (.thread env)) := by
  have hconnected := (h.connecting now hpc).1
  have hdelay := h.delay hconnected (by simp [hpc])
  simp only [attemptStep, threadStep, Attempts.observe, hpc]
  cases hok : env.connectOk with
  | false =>
      simp only [Bool.not_false, if_true]
      have hle := peerRetryDelay_succ_le hdelay
      refine keepsUp_fail rfl hconnected ?_ hle ?_
      · exact (Nat.le_succ 1).trans (two_le_doubled h.pos)
      · have := horderly hok
        simp only
        omega
  | true =>
      simp only [Bool.not_true, Bool.false_eq_true, if_false]
      exact ⟨le_rfl, by simp, by simp, by simp, by simp, fun _ => rfl, by simp⟩

theorem KeepsUp.step_auth (h : KeepsUp x) (mac : Mac) (cfg : NodeConfig) (hpc : x.1.pc = .auth)
    (horderly : env.exchange.Answered mac cfg ∨ x.2.failures = 0 ∨
      (x.1.authenticated = true ∧ env.authClock < x.1.authExpireAt)) :
    KeepsUp (attemptStep mac cfg x (.thread env)) := by
  have hconnected := h.connected (Or.inr hpc)
  simp only [attemptStep, threadStep, Attempts.observe, hpc]
  by_cases hvalid : (!x.1.authenticated || env.authClock ≥ x.1.authExpireAt) = true
  · simp only [if_pos hvalid]
    cases hexchange : (authExchange mac cfg env.exchange).1 with
    | some expireAt =>
        simp only
        exact ⟨le_rfl, by simp [hconnected], by simp, by simp, by simp, fun _ => hconnected,
          by simp⟩
    | none =>
        simp only
        -- the exchange was neither answered nor superfluous
        have hfirst : x.2.failures = 0 := by
          rcases horderly with hanswered | hzero | ⟨hauth, hclock⟩
          · obtain ⟨expireAt, hsome⟩ := authExchange_of_answered hanswered
            rw [hexchange] at hsome
            exact absurd hsome (by simp)
          · exact hzero
          · simp [hauth, UInt64.not_le.mpr hclock] at hvalid
        have htwo := two_le_doubled h.pos
        have hdelay : peerRetryDelay (x.2.failures + 1) ≤ doubled x.1.retryBackoff := by
          rw [hfirst]
          exact htwo
        refine keepsUp_fail rfl rfl ((Nat.le_succ 1).trans htwo) hdelay ?_
        simp only
        omega
  · simp only [if_neg hvalid]
    exact h.goOn rfl rfl rfl (by simp [hpc]) (Or.inr rfl) (by simp) (by simp) (by simp)
      fun _ => ⟨hconnected, rfl⟩

theorem KeepsUp.step_outbox (h : KeepsUp x) (mac : Mac) (cfg : NodeConfig)
    (hpc : x.1.pc = .outbox) : KeepsUp (attemptStep mac cfg x (.thread env)) := by
  have hended : x.1.pc ≠ .ended := by simp [hpc]
  have hsession := h.session (by rw [hpc]; rfl)
  simp only [attemptStep, threadStep, Attempts.observe, hpc, outboxSection]
  split_ifs
  · exact h
  · exact h.goOn_top rfl rfl rfl hended (by simp)
  · split
    · exact h.goOn_top rfl rfl rfl hended (by simp)
    · split_ifs
      · exact h.goOn_top rfl rfl rfl hended (by simp)
      · exact h.goOn_session rfl rfl rfl hended hsession rfl

/-- **One section keeps up**, if it is orderly. -/
theorem KeepsUp.step (h : KeepsUp x) (mac : Mac) (cfg : NodeConfig)
    (horderly : Orderly mac cfg x env) : KeepsUp (attemptStep mac cfg x (.thread env)) := by
  cases hpc : x.1.pc with
  | top =>
      have hended : x.1.pc ≠ .ended := by simp [hpc]
      simp only [attemptStep, threadStep, Attempts.observe, hpc]
      split_ifs with hflags hgate
      · exact h.goOn_top rfl rfl rfl hended (by simp)
      · refine h.goOn rfl rfl rfl hended (Or.inl rfl) (fun _ _ => ?_) (by simp) (by simp) (by simp)
        simpa using (Bool.and_eq_true_iff.mp hgate).2
      · refine h.goOn rfl rfl rfl hended (Or.inl rfl) (by simp) (by simp) (fun _ => ?_) (by simp)
        by_contra hno
        simp [Bool.not_eq_true _ ▸ hno] at hgate
  | retry now =>
      have hended : x.1.pc ≠ .ended := by simp [hpc]
      simp only [attemptStep, threadStep, Attempts.observe, hpc]
      split_ifs with hearly
      · exact h.goOn_top rfl rfl rfl hended (by simp)
      · refine h.goOn rfl rfl rfl hended (Or.inl rfl) (by simp) ?_ (by simp) (by simp)
        rintro _ ⟨⟩
        exact ⟨h.retry now hpc, not_lt.mp hearly⟩
  | connecting now => exact h.step_connecting mac cfg hpc (horderly.connect now hpc)
  | handshake =>
      have hok := clusterHandshakeClient_of_answered (horderly.handshake hpc)
      have hconnected := h.connected (Or.inl hpc)
      simp only [attemptStep, threadStep, Attempts.observe, hpc, hok, if_true]
      split
      next heq => simp [heq] at hok
      next =>
        exact h.goOn rfl rfl rfl (by simp [hpc]) (Or.inl rfl) (by simp) (by simp)
          (fun _ => hconnected) (by simp)
  | auth => exact h.step_auth mac cfg hpc (horderly.exchange hpc)
  | outbox => exact h.step_outbox mac cfg hpc
  | send m =>
      have hended : x.1.pc ≠ .ended := by simp [hpc]
      have hsession := h.session (by rw [hpc]; rfl)
      simp only [attemptStep, threadStep, Attempts.observe, hpc]
      split_ifs
      · exact h.goOn_session rfl rfl rfl hended hsession rfl
      · exact h.goOn_session rfl rfl rfl hended hsession rfl
  | sent m =>
      simp only [attemptStep, threadStep, Attempts.observe, hpc]
      exact h.goOn_top rfl rfl rfl (by simp [hpc]) (by simp)
  | failed m =>
      -- the session is lost, which is no failed attempt
      obtain ⟨hconnected, hzero⟩ := h.session (by rw [hpc]; rfl)
      have htwo := two_le_doubled h.pos
      have hone := (Nat.le_succ 1).trans htwo
      simp only [attemptStep, threadStep, Attempts.observe, hpc, PeerConn.disconnect]
      refine ⟨hone, fun _ _ => ?_, fun d hd => ?_, by simp, by simp, by simp, by simp⟩
      · rw [hzero]
        exact hone
      · exact absurd (hconnected.symm.trans (h.due d hd).1) (by simp)
  | closing =>
      simp only [attemptStep, threadStep, Attempts.observe, hpc]
      exact ⟨h.pos, fun _ hended => absurd rfl hended, fun d hd => ⟨rfl, (h.due d hd).2⟩, by simp,
        by simp, by simp, by simp⟩
  | ended =>
      simp only [attemptStep, threadStep, Attempts.observe, hpc]
      exact h

end Step

theorem KeepsUp.run {x : PeerConn × Attempts} (h : KeepsUp x) (mac : Mac) (cfg : NodeConfig)
    {before after : List OutboxEvent} (horderly : OrderlyRun mac cfg x (before ++ after)) :
    KeepsUp (before.foldl (attemptStep mac cfg) x) := by
  induction before generalizing x with
  | nil => exact h
  | cons e before ih =>
      cases e with
      | broadcast msg => exact ih (h.broadcast msg) horderly
      | thread env => exact ih (h.step mac cfg horderly.1) horderly.2

/-- **Retries are delayed as they should be** in every run in which the handshake succeeds
whenever a connection is made, no exchange fails after another failure, and refused
connections take no time. -/
theorem backsOff_of_orderly (mac : Mac) (cfg : NodeConfig) (start : Int)
    (events : List OutboxEvent) (h : OrderlyRun mac cfg (.init start, ⟨0, none⟩) events) :
    BacksOff mac cfg start events := by
  rintro before after rfl now due hpc hdue
  have hkeeps : KeepsUp (attemptRun mac cfg start before) := (keepsUp_init start).run mac cfg h
  exact (hkeeps.due due hdue).2.trans (hkeeps.connecting now hpc).2

/-- What happens to a peer whose endpoint refuses connections, or accepts them and then
closes them without an answer; the clock says `now`. -/
def failingEnv (connectOk : Bool) (now : Int) : SenderEnv where
  active := true
  running := true
  gateClock := 0
  now := now
  connectOk := connectOk
  handshake := ⟨5, true, none, true⟩
  authClock := 0
  exchange := ⟨7, true, none, true⟩
  arrivals := []
  waitActive := true
  waitRunning := true
  sendTime := now
  sendOk := false
  doneTime := now

/-- One attempt: the top of the loop, the test of `next_retry` and the connection. -/
def attempt (connectOk : Bool) (now : Int) (sections : ℕ) : List OutboxEvent :=
  List.replicate sections (.thread (failingEnv connectOk now))

/-- A refused connection is tried again when it is due. -/
theorem backsOff_of_orderly_refused :
    OrderlyRun Mac.constant plainNode (.init 0, ⟨0, none⟩)
        (attempt false 0 3 ++ attempt false 2 3) ∧
      BacksOff Mac.constant plainNode 0 (attempt false 0 3 ++ attempt false 2 3) := by
  have horderly : OrderlyRun Mac.constant plainNode (.init 0, ⟨0, none⟩)
      (attempt false 0 3 ++ attempt false 2 3) := by
    refine ⟨?_, ?_, ?_, ?_, ?_, ?_, trivial⟩
    · exact ⟨nofun, nofun, nofun⟩
    · exact ⟨nofun, nofun, nofun⟩
    · refine ⟨?_, nofun, nofun⟩
      rintro _ ⟨⟩ -
      decide
    · exact ⟨nofun, nofun, nofun⟩
    · exact ⟨nofun, nofun, nofun⟩
    · refine ⟨?_, nofun, nofun⟩
      rintro _ ⟨⟩ -
      decide
  exact ⟨horderly, backsOff_of_orderly _ _ _ _ horderly⟩

/-- **They are not after a handshake that fails**: the endpoint accepts the connection and
closes it, and is connected to again one second later. -/
theorem backsOff_fails :
    ¬ BacksOff Mac.constant plainNode 0 (attempt true 0 4 ++ attempt true 1 2) := by
  intro h
  have hearly := h (attempt true 0 4 ++ attempt true 1 2) [] (List.append_nil _).symm 1 2
    (by decide +kernel) (by decide +kernel)
  exact absurd hearly (by decide)

end Dmmr.Cluster
