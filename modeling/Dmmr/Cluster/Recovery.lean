import Dmmr.Cluster.Sender

/-!
# The backlog after an outage

While its peer cannot be reached, `peer_sender_thread` keeps the messages in the outbox and
tries again after `retry_backoff` seconds, which are `PEER_RETRY_MAX` at most.  So half a
minute after the last failure at the latest it connects, whatever has happened before.  From
then on each pass transmits a message (`backlog_drains`).

A connection that was left from before is one with a session, and the peer renews no session on
a connection that is open.  A session that has ended costs the thread its connection, and the
half minute begins with that failure.  So the thread is taken when it has no connection, or one
whose session lasts.

The messages of the backlog are transmitted in their order.  Those that have become too old by
then are dropped.
-/

namespace Dmmr.Cluster

open Words Store Wire

variable (mac : Mac) (cfg : NodeConfig)

/-! ## When everything works -/

/-- Everything works in a pass, which comes after the time `due`, and before `last` by the one
clock and `lastMicros` by the other: the peer can be reached and authenticates itself, and the
session it grants on a new connection outlasts `lastMicros`. -/
structure SenderEnv.Works (due last : Int) (lastMicros : UInt64) (env : SenderEnv) : Prop where
  active : env.active = true
  running : env.running = true
  waitActive : env.waitActive = true
  waitRunning : env.waitRunning = true
  connectOk : env.connectOk = true
  sendOk : env.sendOk = true
  handshake : ∃ expireAt, (authExchange mac cfg env.handshake).1 = some expireAt ∧
    lastMicros < expireAt
  due_le : due ≤ env.now
  sendTime_le : env.sendTime ≤ last
  authClock_le : env.authClock ≤ lastMicros

/-- The message is not too old at the given time. -/
def OutboxMsg.freshAt (time : Int) (m : OutboxMsg) : Bool :=
  decide (time - m.enqueuedAt ≤ outboxMsgTtl)

/-- The session outlasts the given time. -/
def SenderState.Lasting (lastMicros : UInt64) (s : SenderState) : Prop :=
  s.authenticated = true ∧ lastMicros < s.authExpireAt

/-! ## Outboxes -/

variable {mac cfg}

/-- What `broadcast_sync` accepts comes to the end. -/
theorem foldl_enqueueOutbox (arrivals outbox : List OutboxMsg) :
    ∃ added, arrivals.foldl enqueueOutbox outbox = outbox ++ added ∧ added ⊆ arrivals := by
  induction arrivals generalizing outbox with
  | nil => exact ⟨[], (List.append_nil _).symm, List.Subset.refl _⟩
  | cons m arrivals ih =>
      obtain ⟨added, hadded, hsub⟩ := ih (enqueueOutbox outbox m)
      rw [List.foldl_cons, hadded]
      unfold enqueueOutbox
      split_ifs
      · refine ⟨m :: added, by simp, ?_⟩
        exact List.cons_subset_cons m hsub
      · exact ⟨added, rfl, List.subset_cons_of_subset m hsub⟩

theorem outbox_senderOutbox (env : SenderEnv) (s : SenderState) :
    (senderOutbox cfg env s).1.outbox ⊆ s.outbox := by
  unfold senderOutbox
  cases (!env.waitActive || !env.waitRunning) with
  | true => exact List.Subset.refl _
  | false =>
      simp only [Bool.false_eq_true, if_false]
      cases hcons : s.outbox with
      | nil => exact List.Subset.refl _
      | cons m rest =>
          have htail : rest ⊆ m :: rest := List.subset_cons_self m rest
          dsimp only
          by_cases hold : env.sendTime - m.enqueuedAt > outboxMsgTtl
          · rw [if_pos hold]
            exact htail
          · rw [if_neg hold]
            split
            · exact htail
            · show s.outbox ⊆ m :: rest
              rw [hcons]
              exact List.Subset.refl _

theorem outbox_senderAuth (env : SenderEnv) (s : SenderState) :
    (senderAuth mac cfg env s).1.outbox ⊆ s.outbox := by
  unfold senderAuth
  split_ifs
  · split
    · exact List.Subset.refl _
    · exact List.Subset.refl _
  · exact outbox_senderOutbox env s

/-- Nothing but arrivals gets into the outbox of the thread. -/
theorem outbox_senderStep (s : SenderState) (env : SenderEnv) :
    (senderStep mac cfg s env).1.outbox ⊆ s.outbox ++ env.arrivals := by
  obtain ⟨added, hadded, hsub⟩ := foldl_enqueueOutbox env.arrivals s.outbox
  have hall : env.arrivals.foldl enqueueOutbox s.outbox ⊆ s.outbox ++ env.arrivals := by
    rw [hadded]
    exact List.append_subset.mpr ⟨List.subset_append_left _ _,
      List.subset_append_of_subset_right _ hsub⟩
  refine List.Subset.trans ?_ hall
  unfold senderStep
  dsimp only
  split
  · exact List.Subset.refl _
  · exact outbox_senderOutbox env _
  · split_ifs
    · exact List.Subset.refl _
    · unfold senderConnect senderHandshake
      split_ifs
      · exact List.Subset.refl _
      · exact List.Subset.refl _
      · dsimp only
        split
        · exact List.Subset.refl _
        · exact outbox_senderAuth env _
      · exact outbox_senderAuth env _

/-! ## One pass -/

section Pass

variable {due last : Int} {lastMicros : UInt64} {env : SenderEnv} {s : SenderState}
  {m : OutboxMsg} {rest : List OutboxMsg} {bytes : Bytes}

/-- The first message is transmitted, or it is too old. -/
theorem SenderEnv.Works.outbox (h : env.Works mac cfg due last lastMicros)
    (hcons : s.outbox = m :: rest) (hframe : m.frame cfg = some bytes) :
    ∃ time, (senderOutbox cfg env s).1 =
        { s with pc := .top, outbox := rest, lastActivity := time } ∧
      (m.freshAt last = true → (senderOutbox cfg env s).2 = [bytes]) := by
  unfold senderOutbox
  simp only [h.waitActive, h.waitRunning, Bool.not_true, Bool.or_self, Bool.false_eq_true,
    if_false, hcons, h.sendOk, if_true, hframe]
  split_ifs with hold
  · refine ⟨s.lastActivity, rfl, fun hfresh => ?_⟩
    have := of_decide_eq_true hfresh
    have := h.sendTime_le
    omega
  · exact ⟨env.doneTime, rfl, fun _ => rfl⟩

/-- With a session that lasts the thread goes on to its outbox. -/
theorem SenderEnv.Works.auth (h : env.Works mac cfg due last lastMicros)
    (hs : s.Lasting lastMicros) : senderAuth mac cfg env s = senderOutbox cfg env s := by
  have hopen : env.authClock < s.authExpireAt := h.authClock_le.trans_lt hs.2
  refine if_neg ?_
  rw [hs.1, Bool.not_true, Bool.false_or, decide_eq_true_eq]
  exact not_le.mpr hopen

/-- The thread has not ended, may connect, and if it has a connection the session lasts. -/
structure SenderState.Ready (due : Int) (lastMicros : UInt64) (s : SenderState) : Prop where
  pc : s.pc ≠ .ended
  nextRetry : s.nextRetry ≤ due
  session : s.connected = true → s.Lasting lastMicros

/-- What a pass does: the first message leaves the outbox, and it is the last thing the pass
transmits unless it is too old. -/
structure Passes (due : Int) (lastMicros : UInt64) (fresh : Bool) (bytes : Bytes)
    (rest : List OutboxMsg) (s' : SenderState) (sent : List Bytes) : Prop where
  ready : s'.Ready due lastMicros
  outbox : s'.outbox = rest
  sent : fresh = true → [bytes] <:+ sent

theorem SenderEnv.Works.outbox_passes (h : env.Works mac cfg due last lastMicros)
    (hs : s.Ready due lastMicros) (hcons : s.outbox = m :: rest)
    (hframe : m.frame cfg = some bytes) :
    Passes due lastMicros (m.freshAt last) bytes rest (senderOutbox cfg env s).1
      (senderOutbox cfg env s).2 := by
  obtain ⟨time, hstate, hsent⟩ := h.outbox hcons hframe
  rw [hstate]
  refine ⟨⟨by simp, hs.nextRetry, hs.session⟩, rfl, fun hfresh => ?_⟩
  exact (hsent hfresh).symm ▸ List.suffix_refl _

/-- A thread without a connection makes one, and its session lasts. -/
theorem SenderEnv.Works.handshake_passes (hsecret : cfg.clusterSecret ≠ [])
    (h : env.Works mac cfg due last lastMicros) (hs : s.Ready due lastMicros)
    (hcons : s.outbox = m :: rest) (hframe : m.frame cfg = some bytes) :
    Passes due lastMicros (m.freshAt last) bytes rest (senderHandshake mac cfg env s).1
      (senderHandshake mac cfg env s).2 := by
  obtain ⟨expireAt, hgranted, hlate⟩ := h.handshake
  obtain ⟨sent, hclient⟩ : ∃ sent,
      clusterHandshakeClient mac cfg env.handshake = (true, some expireAt, sent) := by
    unfold clusterHandshakeClient
    rw [if_neg hsecret]
    generalize authExchange mac cfg env.handshake = result at hgranted ⊢
    obtain ⟨granted, sent⟩ := result
    obtain rfl : granted = some expireAt := hgranted
    exact ⟨sent, rfl⟩
  unfold senderHandshake
  rw [hclient]
  dsimp only [Option.getD_some]
  set s₁ : SenderState := { s with
    connected := true, retryBackoff := peerRetryBase, lastActivity := env.doneTime
    authenticated := true, authExpireAt := expireAt }
  have hlasting : s₁.Lasting lastMicros := ⟨rfl, hlate⟩
  have hready : s₁.Ready due lastMicros := ⟨hs.pc, hs.nextRetry, fun _ => hlasting⟩
  rw [h.auth hlasting]
  obtain ⟨hready', houtbox, hsent⟩ := h.outbox_passes hready hcons hframe
  exact ⟨hready', houtbox, fun hfresh => (hsent hfresh).trans (List.suffix_append _ _)⟩

/-- A pass in which everything works. -/
theorem SenderEnv.Works.passes (hsecret : cfg.clusterSecret ≠ [])
    (h : env.Works mac cfg due last lastMicros) (hs : s.Ready due lastMicros)
    (hcons : env.arrivals.foldl enqueueOutbox s.outbox = m :: rest)
    (hframe : m.frame cfg = some bytes) :
    Passes due lastMicros (m.freshAt last) bytes rest (senderStep mac cfg s env).1
      (senderStep mac cfg s env).2 := by
  have hs' : ({ s with outbox := m :: rest } : SenderState).Ready due lastMicros :=
    ⟨hs.pc, hs.nextRetry, hs.session⟩
  unfold senderStep
  rw [hcons]
  dsimp only
  split
  · rename_i hended
    exact absurd hended hs.pc
  · exact h.outbox_passes hs' rfl hframe
  · simp only [h.active, h.running, Bool.not_true, Bool.or_self, Bool.false_eq_true, if_false]
    unfold senderConnect
    split_ifs with hconnect hretry hfail
    · have := h.due_le
      have := hs.nextRetry
      dsimp only at hretry
      omega
    · simp [h.connectOk] at hfail
    · exact h.handshake_passes hsecret hs' rfl hframe
    · have hconnected : s.connected = true := by
        by_contra hnot
        simp [hnot] at hconnect
      rw [h.auth (hs'.session hconnected)]
      exact h.outbox_passes hs' rfl hframe

end Pass

/-! ## How long the thread waits -/

/-- The next attempt is at most `PEER_RETRY_MAX` seconds away. -/
structure SenderState.Soon (time : Int) (s : SenderState) : Prop where
  retryBackoff : s.retryBackoff ≤ peerRetryMax
  nextRetry : s.nextRetry ≤ time + peerRetryMax

theorem doubled_le (backoff : ℕ) : doubled backoff ≤ peerRetryMax := by
  unfold doubled
  split_ifs with h
  · exact h.le
  · exact le_rfl

theorem peerRetryBase_le : peerRetryBase ≤ peerRetryMax := by decide

section Soon

variable {time : Int} {env : SenderEnv} {s : SenderState}

/-- The thread has failed, or has had a success. -/
theorem SenderState.Soon.senderOutbox (h : s.Soon time) (hdone : env.doneTime ≤ time) :
    (senderOutbox cfg env s).1.Soon time := by
  have hretry : env.doneTime + (s.retryBackoff : Int) ≤ time + peerRetryMax := by
    have := h.retryBackoff
    omega
  unfold Cluster.senderOutbox
  split_ifs
  · exact ⟨h.retryBackoff, h.nextRetry⟩
  all_goals
    split
    · exact ⟨h.retryBackoff, h.nextRetry⟩
    · split_ifs
      · exact ⟨h.retryBackoff, h.nextRetry⟩
      · split
        · exact ⟨h.retryBackoff, h.nextRetry⟩
        · exact ⟨doubled_le _, hretry⟩

theorem SenderState.Soon.senderAuth (h : s.Soon time) (hdone : env.doneTime ≤ time) :
    (senderAuth mac cfg env s).1.Soon time := by
  unfold Cluster.senderAuth
  split_ifs
  · split
    · exact ⟨peerRetryBase_le, h.nextRetry⟩
    · refine ⟨doubled_le _, ?_⟩
      have := doubled_le s.retryBackoff
      dsimp only
      omega
  · exact h.senderOutbox hdone

theorem SenderState.Soon.senderStep (h : s.Soon time) (hnow : env.now ≤ time)
    (hdone : env.doneTime ≤ time) : (senderStep mac cfg s env).1.Soon time := by
  have hs : ({ s with outbox := env.arrivals.foldl enqueueOutbox s.outbox } :
      SenderState).Soon time := ⟨h.retryBackoff, h.nextRetry⟩
  unfold Cluster.senderStep
  dsimp only
  split
  · exact hs
  · exact hs.senderOutbox hdone
  · split_ifs
    · exact ⟨h.retryBackoff, h.nextRetry⟩
    · unfold senderConnect senderHandshake
      split_ifs
      · exact hs
      · refine ⟨doubled_le _, ?_⟩
        have := doubled_le s.retryBackoff
        dsimp only
        omega
      · dsimp only
        split
        · exact ⟨peerRetryBase_le, h.nextRetry⟩
        · exact SenderState.Soon.senderAuth ⟨peerRetryBase_le, h.nextRetry⟩ hdone
      · exact hs.senderAuth hdone

theorem SenderState.Soon.senderRun (h : s.Soon time) {envs : List SenderEnv}
    (htimes : ∀ env ∈ envs, env.now ≤ time ∧ env.doneTime ≤ time) :
    (senderRun mac cfg envs s).1.Soon time := by
  induction envs generalizing s with
  | nil => exact h
  | cons env envs ih =>
      obtain ⟨⟨hnow, hdone⟩, htimes⟩ := List.forall_mem_cons.mp htimes
      exact ih (h.senderStep hnow hdone) htimes

end Soon

/-! ## Runs -/

theorem outbox_senderRun (mac : Mac) (cfg : NodeConfig) (envs : List SenderEnv) (s : SenderState) :
    (senderRun mac cfg envs s).1.outbox ⊆ s.outbox ++ envs.flatMap SenderEnv.arrivals := by
  induction envs generalizing s with
  | nil =>
      rw [List.flatMap_nil, List.append_nil]
      exact List.Subset.refl _
  | cons env envs ih =>
      refine List.Subset.trans (ih _) ?_
      rw [List.flatMap_cons, ← List.append_assoc, List.append_subset]
      exact ⟨List.subset_append_of_subset_left _ (outbox_senderStep s env),
        List.subset_append_right _ _⟩

/-- What a pass transmits comes before what the rest of the run does. -/
theorem frames_sublist_cons {last : Int} {m : OutboxMsg} {backlog : List OutboxMsg} {bytes : Bytes}
    {sent sent' : List Bytes} (hbytes : m.frame cfg = some bytes)
    (hsent : m.freshAt last = true → [bytes] <:+ sent)
    (hlist : ((backlog.filter (OutboxMsg.freshAt last)).filterMap (OutboxMsg.frame cfg)).Sublist
      sent') :
    (((m :: backlog).filter (OutboxMsg.freshAt last)).filterMap (OutboxMsg.frame cfg)).Sublist
      (sent ++ sent') := by
  cases hfresh : m.freshAt last with
  | false =>
      rw [List.filter_cons_of_neg (by simp [hfresh])]
      exact hlist.trans (List.sublist_append_right _ _)
  | true =>
      rw [List.filter_cons_of_pos hfresh, List.filterMap_cons_some hbytes]
      exact (hsent hfresh).sublist.append hlist

/-- A run in which everything works: one pass for each message of the backlog. -/
theorem senderRun_drains (hsecret : cfg.clusterSecret ≠ []) {due last : Int} {lastMicros : UInt64}
    {envs : List SenderEnv} (hworks : ∀ env ∈ envs, env.Works mac cfg due last lastMicros)
    {s : SenderState} (hready : s.Ready due lastMicros) {backlog added : List OutboxMsg}
    (houtbox : s.outbox = backlog ++ added)
    (hframes : ∀ m ∈ backlog, (m.frame cfg).isSome) (hlen : backlog.length ≤ envs.length) :
    ((backlog.filter (OutboxMsg.freshAt last)).filterMap (OutboxMsg.frame cfg)).Sublist
        (senderRun mac cfg envs s).2 ∧
      (senderRun mac cfg envs s).1.outbox ⊆ added ++ envs.flatMap SenderEnv.arrivals := by
  induction envs generalizing s backlog added with
  | nil =>
      obtain rfl : backlog = [] := List.length_eq_zero_iff.mp (Nat.le_zero.mp hlen)
      refine ⟨List.nil_sublist _, ?_⟩
      have hall := outbox_senderRun mac cfg [] s
      rwa [houtbox] at hall
  | cons env envs ih =>
      cases backlog with
      | nil =>
          refine ⟨List.nil_sublist _, ?_⟩
          have hall := outbox_senderRun mac cfg (env :: envs) s
          rwa [houtbox] at hall
      | cons m backlog =>
          obtain ⟨hwork, hworks⟩ := List.forall_mem_cons.mp hworks
          obtain ⟨hframe, hframes'⟩ := List.forall_mem_cons.mp hframes
          obtain ⟨bytes, hbytes⟩ := Option.isSome_iff_exists.mp hframe
          obtain ⟨arrived, harrived, hsub⟩ := foldl_enqueueOutbox env.arrivals s.outbox
          have hcons : env.arrivals.foldl enqueueOutbox s.outbox =
              m :: (backlog ++ (added ++ arrived)) := by
            rw [harrived, houtbox]
            simp
          have hbound : added ++ arrived ++ envs.flatMap SenderEnv.arrivals ⊆
              added ++ (env :: envs).flatMap SenderEnv.arrivals := by
            rw [List.flatMap_cons, ← List.append_assoc, List.append_subset, List.append_subset]
            exact ⟨⟨List.subset_append_of_subset_left _ (List.subset_append_left _ _),
              List.subset_append_of_subset_left _ (List.subset_append_of_subset_right _ hsub)⟩,
              List.subset_append_right _ _⟩
          obtain ⟨hready', hrest, hsent⟩ := hwork.passes hsecret hready hcons hbytes
          obtain ⟨hlist, hleft⟩ := ih hworks hready' hrest hframes' (Nat.le_of_succ_le_succ hlen)
          exact ⟨frames_sublist_cons hbytes hsent hlist, List.Subset.trans hleft hbound⟩

/-- **The backlog is transmitted after an outage.**  Whatever has happened to the thread until
`time`, if it has no connection then, or one whose session lasts, and from `PEER_RETRY_MAX`
seconds later on everything works, then in as many passes as there are messages in the outbox
all of them are transmitted in their order, except those that have become too old, and what is
in the outbox then has arrived since. -/
theorem backlog_drains (mac : Mac) (cfg : NodeConfig) (hsecret : cfg.clusterSecret ≠ [])
    (start : Int) {time : Int} (htime : 0 ≤ time) (before after : List SenderEnv)
    (hbefore : ∀ env ∈ before, env.now ≤ time ∧ env.doneTime ≤ time) (last : Int)
    (lastMicros : UInt64)
    (hafter : ∀ env ∈ after, env.Works mac cfg (time + peerRetryMax) last lastMicros)
    {s : SenderState} (hs : (senderRun mac cfg before (.init start)).1 = s)
    (hpc : s.pc ≠ .ended) (hsession : s.connected = true → s.Lasting lastMicros)
    (hframes : ∀ m ∈ s.outbox, (m.frame cfg).isSome) (hlen : s.outbox.length ≤ after.length) :
    ((s.outbox.filter (OutboxMsg.freshAt last)).filterMap (OutboxMsg.frame cfg)).Sublist
        (senderRun mac cfg after s).2 ∧
      ∀ m ∈ (senderRun mac cfg after s).1.outbox, ∃ env ∈ after, m ∈ env.arrivals := by
  have hinit : (SenderState.init start).Soon time :=
    ⟨peerRetryBase_le, htime.trans (by simp [peerRetryMax])⟩
  have hsoon : s.Soon time := hs ▸ hinit.senderRun hbefore
  have hready : s.Ready (time + peerRetryMax) lastMicros := ⟨hpc, hsoon.nextRetry, hsession⟩
  obtain ⟨hlist, hleft⟩ := senderRun_drains hsecret hafter hready (List.append_nil _).symm
    hframes hlen
  refine ⟨hlist, fun m hm => ?_⟩
  exact List.mem_flatMap.mp (hleft hm)

/-- The value of an `AUTH_RESPONSE` that grants a session until `9`. -/
def grant : Bytes := List.replicate 15 0 ++ [9] ++ List.replicate 32 0

theorem length_grant : grant.length ≤ maxValueLen := by decide

/-- A pass at the given time, in which the peer can be reached or not. -/
def outageEnv (reachable : Bool) (now : Int) (arrivals : List OutboxMsg) : SenderEnv where
  active := true
  running := true
  gateClock := 1
  now := now
  connectOk := reachable
  handshake := ⟨5, true, some (controlReceived plainNode .authResponse length_grant), true⟩
  authClock := 1
  exchange := ⟨7, true, none, true⟩
  arrivals := arrivals
  waitActive := true
  waitRunning := true
  sendTime := now
  sendOk := reachable
  doneTime := now

/-- A message queued at time `0`. -/
def heldMessage : OutboxMsg := ⟨Opcode.sync.code, flagNone, [107], [118], 1, 1, 0, 0⟩

theorem works_outageEnv {now : Int} (hdue : 30 ≤ now) (hlast : now ≤ 31) :
    (outageEnv true now []).Works Mac.constant plainNode (0 + peerRetryMax) 31 1 where
  active := rfl
  running := rfl
  waitActive := rfl
  waitRunning := rfl
  connectOk := rfl
  sendOk := rfl
  handshake := ⟨9, rfl, by decide⟩
  due_le := hdue
  sendTime_le := hlast
  authClock_le := le_refl _

/-- The peer refuses a connection, and half a minute later it accepts one. -/
theorem backlog_drains_refused :
    let s := (senderRun Mac.constant plainNode [outageEnv false 0 [heldMessage]] (.init 0)).1
    s.connected = false ∧ s.outbox = [heldMessage] ∧
      [(heldMessage.frame plainNode).getD []].Sublist (senderRun Mac.constant plainNode
        [outageEnv true 30 []] s).2 := by
  refine ⟨by decide, by decide, ?_⟩
  refine (backlog_drains Mac.constant plainNode (by decide) 0 le_rfl
    [outageEnv false 0 [heldMessage]] [outageEnv true 30 []] ?_ 31 1 ?_ rfl (by decide)
    (fun hconnected => absurd hconnected (by decide)) (by decide) (by decide)).1
  · simp [outageEnv]
  · intro env henv
    rw [List.mem_singleton.mp henv]
    exact works_outageEnv (by decide) (by decide)

end Dmmr.Cluster
