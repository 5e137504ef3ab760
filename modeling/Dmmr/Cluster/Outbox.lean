import Dmmr.Cluster.Handshake
import Dmmr.Cluster.Sender
import Dmmr.Lib.Fifo

/-!
# The outbox between its lock sections

`senderStep` takes a whole pass of `peer_sender_thread` at once.  Here the thread
is cut where it gives the outbox lock away, so that `broadcast_sync` can append
between any two of its sections: it looks at the head of the outbox under the lock,
transmits without it, and takes the message out under the lock again.

`PeerConn` carries the history of the outbox beside the fields of
`struct peer_conn`: the messages accepted, those removed with the reason, and those
transmitted.  The history is written and never read by a step.  A message is known
by its `id`, which stands for its address, so that two messages with the same
content are not mistaken for each other.
-/

namespace Dmmr.Cluster

open Words Store Wire

/-! ## State -/

/-- A message that was accepted into the outbox. -/
structure Queued where
  id : ℕ
  msg : OutboxMsg
  deriving DecidableEq, Repr

/-- Why a message was taken out: it was transmitted, or found too old. -/
inductive Removal
  | sent
  | expired (time : Int)
  deriving DecidableEq, Repr

/-- It was transmitted. -/
def Removal.isSent : Removal → Bool
  | sent => true
  | expired _ => false

/-- Where the thread stands between two sections.  `now` is the local variable of
the connection part, `msg` that of the outbox part. -/
inductive ThreadPc
  | top
  | retry (now : Int)
  | connecting (now : Int)
  | handshake
  | auth
  | outbox
  | send (msg : Queued)
  | sent (msg : Queued)
  | failed (msg : Queued)
  | closing
  | ended
  deriving DecidableEq, Repr

/-- The message the thread has a pointer to. -/
def ThreadPc.held : ThreadPc → Option Queued
  | send msg => some msg
  | sent msg => some msg
  | failed msg => some msg
  | _ => none

/-- The message that has been transmitted and not yet taken out. -/
def ThreadPc.delivered : ThreadPc → List Queued
  | sent msg => [msg]
  | _ => []

/-- The fields of `struct peer_conn`, and the history of its outbox. -/
structure PeerConn where
  pc : ThreadPc
  connected : Bool
  authenticated : Bool
  authExpireAt : UInt64
  outbox : List Queued
  outboxCount : Int
  lastActivity : Int
  nextRetry : Int
  retryBackoff : ℕ
  staleCount : ℕ
  accepted : List Queued
  removed : List (Queued × Removal)
  transmitted : List Queued

/-- A peer as `add_peer_internal` creates it. -/
def PeerConn.init (now : Int) : PeerConn :=
  ⟨.top, false, false, 0, [], 0, now, 0, peerRetryBase, 0, [], [], []⟩

namespace PeerConn

/-- The connection is closed and its authentication forgotten. -/
def disconnect (s : PeerConn) : PeerConn :=
  { s with connected := false, authenticated := false, authExpireAt := 0 }

/-- `TAILQ_REMOVE` and `outbox_count--`. -/
def remove (s : PeerConn) (m : Queued) (why : Removal) : PeerConn :=
  { s with
    outbox := s.outbox.eraseP (·.id == m.id), outboxCount := s.outboxCount - 1
    removed := s.removed ++ [(m, why)] }

/-- The outbox end of `broadcast_sync`: a full outbox drops the message. -/
def broadcast (s : PeerConn) (msg : OutboxMsg) : PeerConn :=
  if s.outboxCount < outboxMaxMsg then
    let m : Queued := ⟨s.accepted.length, msg⟩
    { s with
      outbox := s.outbox ++ [m], outboxCount := s.outboxCount + 1, accepted := s.accepted ++ [m] }
  else s

end PeerConn

/-! ## The sections of the thread -/

variable (mac : Mac) (cfg : NodeConfig)

/-- The message goes out. -/
def transmits (env : SenderEnv) (m : Queued) : Bool := env.sendOk && (m.msg.frame cfg).isSome

/-- The section that looks at the outbox.  With nothing in it the thread waits,
and gives the lock away while it does. -/
def outboxSection (env : SenderEnv) (s : PeerConn) : PeerConn :=
  if s.outboxCount = 0 ∧ env.waitActive ∧ env.waitRunning then s
  else if !env.waitActive || !env.waitRunning then { s with pc := .closing }
  else
    match s.outbox.head? with
    | none => { s with pc := .top }
    | some m =>
        if env.sendTime - m.msg.enqueuedAt > outboxMsgTtl then
          { s.remove m (.expired env.sendTime) with pc := .top }
        else { s with pc := .send m }

/-- The thread from one section to the next: what it does without the lock, and
then the section.  Of `env` each part reads what it needs. -/
def threadStep (env : SenderEnv) (s : PeerConn) : PeerConn :=
  match s.pc with
  | .top =>
      if !env.active || !env.running then { s with pc := .closing }
      -- inside the first test only a connection that is closed counts
      else if (!s.connected || !s.authenticated || env.gateClock ≥ s.authExpireAt) &&
          !s.connected then { s with pc := .retry env.now }
      else { s with pc := .auth }
  | .retry now =>
      if now < s.nextRetry then { s with pc := .top } else { s with pc := .connecting now }
  | .connecting now =>
      if !env.connectOk then
        { s with
          pc := .top, retryBackoff := doubled s.retryBackoff
          nextRetry := now + doubled s.retryBackoff }
      else
        { s with
          pc := .handshake, connected := true, retryBackoff := peerRetryBase, lastActivity := now
          authenticated := false, authExpireAt := 0 }
  | .handshake =>
      match clusterHandshakeClient mac cfg env.handshake with
      | (false, _, _) => { s.disconnect with pc := .top }
      | (true, expireAt, _) =>
          { s with
            pc := .auth, authenticated := true, authExpireAt := expireAt.getD 0
            lastActivity := env.doneTime }
  | .auth =>
      if !s.authenticated || env.authClock ≥ s.authExpireAt then
        match (authExchange mac cfg env.exchange).1 with
        | some expireAt =>
            { s with
              pc := .top, authenticated := true, authExpireAt := expireAt
              lastActivity := env.doneTime, retryBackoff := peerRetryBase }
        | none =>
            { s.disconnect with
              pc := .top, retryBackoff := doubled s.retryBackoff
              nextRetry := env.doneTime + doubled s.retryBackoff, staleCount := s.staleCount + 1 }
      else { s with pc := .outbox }
  | .outbox => outboxSection env s
  | .send m =>
      -- the lock is taken once more, for `fd`, and the message goes out without it
      if transmits cfg env m then
        { s with pc := .sent m, transmitted := s.transmitted ++ [m] }
      else { s with pc := .failed m }
  | .sent m => { s.remove m .sent with pc := .top, lastActivity := env.doneTime }
  | .failed _ =>
      { s.disconnect with
        pc := .top, nextRetry := env.doneTime + s.retryBackoff
        retryBackoff := doubled s.retryBackoff, staleCount := s.staleCount + 1 }
  | .closing => { s with pc := .ended, connected := false }
  | .ended => s

/-- What can happen next to a peer. -/
inductive OutboxEvent where
  | broadcast (msg : OutboxMsg)
  | thread (env : SenderEnv)

def PeerConn.step (s : PeerConn) : OutboxEvent → PeerConn
  | .broadcast msg => s.broadcast msg
  | .thread env => threadStep mac cfg env s

def PeerConn.run (s : PeerConn) (events : List OutboxEvent) : PeerConn :=
  events.foldl (PeerConn.step mac cfg) s

/-! ## What a section does to the outbox -/

/-- The outbox and its history are the same. -/
structure SameOutbox (s s' : PeerConn) : Prop where
  outbox : s'.outbox = s.outbox
  outboxCount : s'.outboxCount = s.outboxCount
  accepted : s'.accepted = s.accepted
  removed : s'.removed = s.removed
  transmitted : s'.transmitted = s.transmitted

variable {mac cfg}

/-- A step of the thread leaves the outbox alone, takes a look at its head, finds
the head too old, transmits the head or fails to, or takes it out. -/
theorem threadStep_cases (mac : Mac) (cfg : NodeConfig) (env : SenderEnv) (s : PeerConn) :
    (SameOutbox s (threadStep mac cfg env s) ∧ s.pc.delivered = [] ∧
        (threadStep mac cfg env s).pc.held = none) ∨
      (∃ m, s.outbox.head? = some m ∧ s.pc.delivered = [] ∧
        (threadStep mac cfg env s = { s with pc := .send m } ∨
          outboxMsgTtl < env.sendTime - m.msg.enqueuedAt ∧
            threadStep mac cfg env s = { s.remove m (.expired env.sendTime) with pc := .top })) ∨
      (∃ m, s.pc = .send m ∧
        (threadStep mac cfg env s =
            { s with pc := .sent m, transmitted := s.transmitted ++ [m] } ∨
          threadStep mac cfg env s = { s with pc := .failed m })) ∨
      ∃ m, s.pc = .sent m ∧ threadStep mac cfg env s =
        { s.remove m .sent with pc := .top, lastActivity := env.doneTime } := by
  unfold threadStep
  cases hpc : s.pc with
  | top =>
      refine Or.inl ?_
      simp only
      split_ifs <;> exact ⟨⟨rfl, rfl, rfl, rfl, rfl⟩, rfl, rfl⟩
  | retry now =>
      refine Or.inl ?_
      simp only
      split_ifs <;> exact ⟨⟨rfl, rfl, rfl, rfl, rfl⟩, rfl, rfl⟩
  | connecting now =>
      refine Or.inl ?_
      simp only
      split_ifs <;> exact ⟨⟨rfl, rfl, rfl, rfl, rfl⟩, rfl, rfl⟩
  | handshake =>
      refine Or.inl ?_
      simp only
      split <;> exact ⟨⟨rfl, rfl, rfl, rfl, rfl⟩, rfl, rfl⟩
  | auth =>
      refine Or.inl ?_
      simp only
      split_ifs
      · split <;> exact ⟨⟨rfl, rfl, rfl, rfl, rfl⟩, rfl, rfl⟩
      · exact ⟨⟨rfl, rfl, rfl, rfl, rfl⟩, rfl, rfl⟩
  | outbox =>
      unfold outboxSection
      cases hhead : s.outbox.head? with
      | none =>
          refine Or.inl ?_
          simp only
          split_ifs
          · exact ⟨⟨rfl, rfl, rfl, rfl, rfl⟩, rfl, by rw [hpc]; rfl⟩
          · exact ⟨⟨rfl, rfl, rfl, rfl, rfl⟩, rfl, rfl⟩
          · exact ⟨⟨rfl, rfl, rfl, rfl, rfl⟩, rfl, rfl⟩
      | some m =>
          simp only
          split_ifs with hwait hflags hold
          · exact Or.inl ⟨⟨rfl, rfl, rfl, rfl, rfl⟩, rfl, by rw [hpc]; rfl⟩
          · exact Or.inl ⟨⟨rfl, rfl, rfl, rfl, rfl⟩, rfl, rfl⟩
          · exact Or.inr (Or.inl ⟨m, rfl, rfl, Or.inr ⟨hold, rfl⟩⟩)
          · exact Or.inr (Or.inl ⟨m, rfl, rfl, Or.inl rfl⟩)
  | send m =>
      refine Or.inr (Or.inr (Or.inl ⟨m, rfl, ?_⟩))
      simp only
      split_ifs
      · exact Or.inl rfl
      · exact Or.inr rfl
  | sent m => exact Or.inr (Or.inr (Or.inr ⟨m, rfl, rfl⟩))
  | failed m => exact Or.inl ⟨⟨rfl, rfl, rfl, rfl, rfl⟩, rfl, rfl⟩
  | closing => exact Or.inl ⟨⟨rfl, rfl, rfl, rfl, rfl⟩, rfl, rfl⟩
  | ended => exact Or.inl ⟨⟨rfl, rfl, rfl, rfl, rfl⟩, rfl, by rw [hpc]; rfl⟩

/-! ## The invariant -/

/-- What holds between any two sections. -/
structure Delivers (s : PeerConn) : Prop where
  count : s.outboxCount = s.outbox.length
  bound : s.outbox.length ≤ outboxMaxMsg
  conserves : Fifo.Conserves s.accepted s.removed s.outbox
  ids : s.accepted.map Queued.id = List.range s.accepted.length
  transmitted : s.transmitted = Fifo.leaving Removal.isSent s.removed ++ s.pc.delivered
  expired : ∀ m t, (m, .expired t) ∈ s.removed → outboxMsgTtl < t - m.msg.enqueuedAt
  head : ∀ m, s.pc.held = some m → s.outbox.head? = some m

section Invariant

variable {s : PeerConn}

theorem Delivers.nodup (h : Delivers s) : s.accepted.Nodup := by
  apply List.Nodup.of_map Queued.id
  rw [h.ids]
  exact List.nodup_range

theorem delivers_init (now : Int) : Delivers (.init now) where
  count := rfl
  bound := Nat.zero_le _
  conserves := Fifo.conserves_nil
  ids := rfl
  transmitted := rfl
  expired := by simp [PeerConn.init]
  head := by simp [PeerConn.init, ThreadPc.held]

/-- A new message goes to the tail, so the head stays what it is. -/
theorem head?_broadcast {m : Queued} (hhead : s.outbox.head? = some m) (msg : OutboxMsg) :
    (s.broadcast msg).outbox.head? = some m := by
  unfold PeerConn.broadcast
  split_ifs
  · rw [List.head?_append, hhead]
    rfl
  · exact hhead

theorem pc_broadcast (s : PeerConn) (msg : OutboxMsg) : (s.broadcast msg).pc = s.pc := by
  unfold PeerConn.broadcast
  split_ifs <;> rfl

theorem delivers_broadcast (h : Delivers s) (msg : OutboxMsg) : Delivers (s.broadcast msg) := by
  have hhead : ∀ m, (s.broadcast msg).pc.held = some m →
      (s.broadcast msg).outbox.head? = some m := by
    intro m hheld
    rw [pc_broadcast] at hheld
    exact head?_broadcast (h.head m hheld) msg
  revert hhead
  unfold PeerConn.broadcast
  split_ifs with hroom
  · intro hhead
    have hlt : s.outbox.length < outboxMaxMsg := by
      rw [h.count] at hroom
      exact_mod_cast hroom
    refine ⟨?_, ?_, h.conserves.push _, ?_, h.transmitted, h.expired, hhead⟩
    · simp only [List.length_append, List.length_singleton, h.count]
      push_cast
      rfl
    · rw [List.length_append, List.length_singleton]
      omega
    · rw [List.map_append, h.ids, List.length_append, List.length_singleton, List.range_succ]
      rfl
  · exact fun _ => h

theorem eraseP_head {m : Queued} {rest : List Queued} (hqueue : s.outbox = m :: rest) :
    s.outbox.eraseP (·.id == m.id) = rest := by
  rw [hqueue, List.eraseP_cons_of_pos (by simp)]

/-- Taking out the head, after it was transmitted or because it is too old. -/
theorem delivers_remove (h : Delivers s) {m : Queued} (hhead : s.outbox.head? = some m)
    (why : Removal) (hsent : s.pc.delivered = if why.isSent then [m] else [])
    (hexpired : ∀ t, why = .expired t → outboxMsgTtl < t - m.msg.enqueuedAt) (time : Int) :
    Delivers { s.remove m why with pc := .top, lastActivity := time } := by
  obtain ⟨rest, hrest⟩ := List.head?_eq_some_iff.mp hhead
  have herase := eraseP_head hrest
  have hlength : s.outbox.length = rest.length + 1 := by
    rw [hrest, List.length_cons]
  refine ⟨?_, ?_, ?_, h.ids, ?_, ?_, by simp [ThreadPc.held]⟩
  · simp only [PeerConn.remove, herase, h.count, hlength]
    omega
  · simp only [PeerConn.remove, herase]
    exact (Nat.le_of_lt (by omega)).trans h.bound
  · simp only [PeerConn.remove, herase]
    exact (hrest ▸ h.conserves).pop why
  · simp only [PeerConn.remove, ThreadPc.delivered, List.append_nil, Fifo.leaving_append]
    rw [h.transmitted, hsent]
    cases why <;> rfl
  · intro m' t hmem
    rcases List.mem_append.mp hmem with hold | hnew
    · exact h.expired m' t hold
    · obtain ⟨rfl, rfl⟩ := Prod.mk.inj (List.mem_singleton.mp hnew)
      exact hexpired t rfl

/-- The thread takes hold of the head, or goes on holding it. -/
theorem delivers_hold (h : Delivers s) {m : Queued} (hhead : s.outbox.head? = some m)
    {pc : ThreadPc} (hheld : pc.held = some m) {transmitted : List Queued}
    (htransmitted : transmitted = Fifo.leaving Removal.isSent s.removed ++ pc.delivered) :
    Delivers { s with pc := pc, transmitted := transmitted } := by
  refine ⟨h.count, h.bound, h.conserves, h.ids, htransmitted, h.expired, ?_⟩
  intro m' hheld'
  rw [← Option.some.inj (hheld.symm.trans hheld')]
  exact hhead

theorem delivers_threadStep (h : Delivers s) (mac : Mac) (cfg : NodeConfig) (env : SenderEnv) :
    Delivers (threadStep mac cfg env s) := by
  rcases threadStep_cases mac cfg env s with
    ⟨hsame, hnone, hheld⟩ | ⟨m, hhead, hnone, heq | ⟨hold, heq⟩⟩ | ⟨m, hpc, heq | heq⟩ |
      ⟨m, hpc, heq⟩
  · have hdelivered : (threadStep mac cfg env s).pc.delivered = [] := by
      cases hpc : (threadStep mac cfg env s).pc with
      | sent m => simp [hpc, ThreadPc.held] at hheld
      | _ => rfl
    refine ⟨?_, ?_, ?_, ?_, ?_, ?_, by simp [hheld]⟩
    · rw [hsame.outboxCount, hsame.outbox, h.count]
    · rw [hsame.outbox]
      exact h.bound
    · rw [hsame.accepted, hsame.removed, hsame.outbox]
      exact h.conserves
    · rw [hsame.accepted]
      exact h.ids
    · rw [hsame.transmitted, hsame.removed, hdelivered, h.transmitted, hnone]
    · rw [hsame.removed]
      exact h.expired
  · rw [heq]
    refine delivers_hold h hhead rfl ?_
    rw [h.transmitted, hnone]
    rfl
  · rw [heq]
    refine delivers_remove h hhead (.expired env.sendTime) hnone ?_ s.lastActivity
    rintro t ⟨⟩
    exact hold
  · have hhead := h.head m (by rw [hpc]; rfl)
    rw [heq]
    refine delivers_hold h hhead rfl ?_
    rw [h.transmitted, hpc]
    simp [ThreadPc.delivered]
  · have hhead := h.head m (by rw [hpc]; rfl)
    rw [heq]
    refine delivers_hold h hhead rfl ?_
    rw [h.transmitted, hpc]
    rfl
  · have hhead := h.head m (by rw [hpc]; rfl)
    rw [heq]
    exact delivers_remove h hhead .sent (by rw [hpc]; rfl) (by simp) env.doneTime

theorem delivers_run (h : Delivers s) (mac : Mac) (cfg : NodeConfig) (events : List OutboxEvent) :
    Delivers (s.run mac cfg events) := by
  induction events generalizing s with
  | nil => exact h
  | cons e events ih =>
      cases e with
      | broadcast msg => exact ih (delivers_broadcast h msg)
      | thread env => exact ih (delivers_threadStep h mac cfg env)

end Invariant

/-! ## What becomes of a message -/

section Fate

variable {s : PeerConn} {m : Queued}

/-- Successful transmissions come in the order of the outbox. -/
theorem Delivers.sublist_transmitted (h : Delivers s) : s.transmitted.Sublist s.accepted := by
  rw [h.transmitted]
  apply h.conserves.sublist_leaving
  cases hpc : s.pc with
  | sent m =>
      have hhead := h.head m (by rw [hpc]; rfl)
      exact List.singleton_sublist.mpr (List.mem_of_head? hhead)
  | _ => exact List.nil_sublist _

theorem Delivers.count_transmitted_sent (h : Delivers s) (hsent : (m, .sent) ∈ s.removed) :
    s.transmitted.count m = 1 := by
  apply List.count_eq_one_of_mem (h.nodup.sublist h.sublist_transmitted)
  rw [h.transmitted]
  exact List.mem_append_left _ (Fifo.mem_leaving hsent rfl)

theorem Delivers.count_transmitted_expired (h : Delivers s) {t : Int}
    (hexpired : (m, .expired t) ∈ s.removed) : s.transmitted.count m = 0 := by
  apply List.count_eq_zero_of_not_mem
  rw [h.transmitted, List.mem_append]
  rintro (hleft | hflight)
  · obtain ⟨⟨m', why⟩, hmem, rfl⟩ := List.mem_map.mp hleft
    obtain ⟨hmem, hwhy⟩ := List.mem_filter.mp hmem
    rw [h.conserves.reason_unique h.nodup hmem hexpired] at hwhy
    exact Bool.false_ne_true hwhy
  · -- what has just been transmitted is still at the head
    have hqueued : m ∈ s.outbox := by
      cases hpc : s.pc with
      | sent m' =>
          rw [hpc] at hflight
          rw [List.mem_singleton.mp hflight]
          exact List.mem_of_head? (h.head m' (by rw [hpc]; rfl))
      | _ => simp [hpc, ThreadPc.delivered] at hflight
    exact h.conserves.not_mem_queue h.nodup hexpired hqueued

/-- A message that was accepted is still queued, or it was taken out after one
transmission, or because it was too old. -/
theorem Delivers.fate (h : Delivers s) (hm : m ∈ s.accepted) :
    (m ∈ s.outbox ∧ ∀ why, (m, why) ∉ s.removed) ∨
      (m ∉ s.outbox ∧ (m, .sent) ∈ s.removed ∧ s.transmitted.count m = 1) ∨
      (m ∉ s.outbox ∧ s.transmitted.count m = 0 ∧
        ∃ t, (m, .expired t) ∈ s.removed ∧ outboxMsgTtl < t - m.msg.enqueuedAt) := by
  rcases h.conserves.fate hm with hqueued | ⟨why, hwhy⟩
  · refine Or.inl ⟨hqueued, fun why hwhy => ?_⟩
    exact h.conserves.not_mem_queue h.nodup hwhy hqueued
  · have hgone := h.conserves.not_mem_queue h.nodup hwhy
    cases why with
    | sent => exact Or.inr (Or.inl ⟨hgone, hwhy, h.count_transmitted_sent hwhy⟩)
    | expired t =>
        exact Or.inr (Or.inr ⟨hgone, h.count_transmitted_expired hwhy, t, hwhy,
          h.expired m t hwhy⟩)

/-- Broadcasts leave the thread where it is, and a message at the head. -/
theorem pc_broadcasts (mac : Mac) (cfg : NodeConfig) (s : PeerConn) (msgs : List OutboxMsg) :
    (s.run mac cfg (msgs.map .broadcast)).pc = s.pc := by
  induction msgs generalizing s with
  | nil => rfl
  | cons msg msgs ih => exact (ih (s.broadcast msg)).trans (pc_broadcast s msg)

theorem head?_broadcasts (mac : Mac) (cfg : NodeConfig) (hhead : s.outbox.head? = some m)
    (msgs : List OutboxMsg) :
    (s.run mac cfg (msgs.map .broadcast)).outbox.head? = some m := by
  induction msgs generalizing s with
  | nil => exact hhead
  | cons msg msgs ih => exact ih (head?_broadcast hhead msg)

/-- A transmission that fails leaves the message at the head, and so does dealing
with the failure. -/
theorem Delivers.head?_of_failed (h : Delivers s) (mac : Mac) {cfg : NodeConfig}
    {env : SenderEnv} (hpc : s.pc = .send m) (hfails : transmits cfg env m = false)
    (msgs : List OutboxMsg) (env' : SenderEnv) :
    (s.run mac cfg (.thread env :: (msgs.map .broadcast ++ [.thread env']))).outbox.head? =
      some m := by
  have hstep : threadStep mac cfg env s = { s with pc := .failed m } := by
    simp [threadStep, hpc, hfails]
  have hhead : s.outbox.head? = some m := h.head m (by rw [hpc]; rfl)
  have hpc' := pc_broadcasts mac cfg { s with pc := .failed m } msgs
  rw [PeerConn.run, List.foldl_cons, List.foldl_append, PeerConn.step, hstep]
  change (threadStep mac cfg env' (PeerConn.run mac cfg { s with pc := .failed m }
    (msgs.map .broadcast))).outbox.head? = some m
  simp only [threadStep, hpc', PeerConn.disconnect]
  exact head?_broadcasts mac cfg (s := { s with pc := .failed m }) hhead msgs

end Fate

/-- **What the outbox delivers.**  After any interleaving of broadcasts and sections
of the thread: `outbox_count` is the number of messages queued and within its bound;
each message accepted is still queued, or was taken out after exactly one
transmission, or because it was too old; transmissions come in the order in which
messages were accepted; and a transmission that fails leaves the message at the
head, whatever is broadcast before the thread goes on. -/
theorem outbox_delivers (mac : Mac) (cfg : NodeConfig) (now : Int) (events : List OutboxEvent)
    {s : PeerConn} (hs : s = (PeerConn.init now).run mac cfg events) :
    (s.outboxCount = s.outbox.length ∧ s.outboxCount ≤ outboxMaxMsg) ∧
    (s.accepted.Nodup ∧ ∀ m ∈ s.accepted,
      (m ∈ s.outbox ∧ ∀ why, (m, why) ∉ s.removed) ∨
        (m ∉ s.outbox ∧ (m, .sent) ∈ s.removed ∧ s.transmitted.count m = 1) ∨
        (m ∉ s.outbox ∧ s.transmitted.count m = 0 ∧
          ∃ t, (m, .expired t) ∈ s.removed ∧ outboxMsgTtl < t - m.msg.enqueuedAt)) ∧
    s.transmitted.Sublist s.accepted ∧
    ∀ m env, s.pc = .send m → transmits cfg env m = false →
      ∀ (msgs : List OutboxMsg) (env' : SenderEnv),
      (s.run mac cfg (.thread env :: (msgs.map .broadcast ++ [.thread env']))).outbox.head? =
        some m := by
  have h : Delivers s := hs ▸ delivers_run (delivers_init now) mac cfg events
  refine ⟨⟨h.count, ?_⟩, ⟨h.nodup, fun m hm => h.fate hm⟩, h.sublist_transmitted, ?_⟩
  · rw [h.count]
    exact_mod_cast h.bound
  · intro m env hpc hfails msgs env'
    exact h.head?_of_failed mac hpc hfails msgs env'

/-- An environment in which a peer that is new gets as far as its first
transmission. -/
def outboxEnv (sendOk : Bool) : SenderEnv where
  active := true
  running := true
  gateClock := 0
  now := 0
  connectOk := true
  handshake := ⟨5, true, some (responseReceived Mac.constant plainNode 5 .ok), true⟩
  authClock := 0
  exchange := ⟨7, true, none, true⟩
  arrivals := []
  waitActive := true
  waitRunning := true
  sendTime := 0
  sendOk := sendOk
  doneTime := 0

/-- A peer with one message, which it is about to transmit. -/
def samplePeer : PeerConn :=
  (PeerConn.init 0).run Mac.constant plainNode
    (.broadcast ⟨Opcode.sync.code, flagNone, [107], [118], 5, 1, 9, 0⟩ ::
      List.replicate 6 (.thread (outboxEnv true)))

theorem outbox_delivers_failed :
    ∃ m ∈ samplePeer.accepted, samplePeer.pc = .send m ∧
      (samplePeer.run Mac.constant plainNode (.thread (outboxEnv false) ::
        ([m.msg].map .broadcast ++ [.thread (outboxEnv false)]))).outbox.head? = some m := by
  have hpc : samplePeer.pc = .send ⟨0, Opcode.sync.code, flagNone, [107], [118], 5, 1, 9, 0⟩ := by
    decide +kernel
  refine ⟨_, by decide +kernel, hpc, ?_⟩
  exact (outbox_delivers Mac.constant plainNode 0 _ rfl).2.2.2 _ _ hpc rfl _ _

/-! ## The sections of one pass

A pass as `senderStep` has it is a run of sections in which every broadcast comes
first. -/

/-- Where a pass would say that the thread stands. -/
def ThreadPc.toSenderPc : ThreadPc → SenderPc
  | outbox => .waiting
  | ended => .ended
  | _ => .top

/-- The peer without the history of its outbox. -/
def PeerConn.toSender (s : PeerConn) : SenderState :=
  ⟨s.pc.toSenderPc, s.connected, s.authenticated, s.authExpireAt, s.outbox.map Queued.msg,
    s.lastActivity, s.nextRetry, s.retryBackoff, s.staleCount⟩

section Sections

variable {s : PeerConn} {env : SenderEnv}

theorem toSender_broadcasts (mac : Mac) (cfg : NodeConfig) (h : Delivers s)
    (msgs : List OutboxMsg) :
    (s.run mac cfg (msgs.map .broadcast)).toSender =
      { s.toSender with outbox := msgs.foldl enqueueOutbox s.toSender.outbox } := by
  induction msgs generalizing s with
  | nil => rfl
  | cons msg msgs ih =>
      have hstep : (s.broadcast msg).toSender =
          { s.toSender with outbox := enqueueOutbox s.toSender.outbox msg } := by
        have hroom : s.outboxCount < outboxMaxMsg ↔ s.toSender.outbox.length < outboxMaxMsg := by
          rw [h.count, PeerConn.toSender, List.length_map]
          exact Int.ofNat_lt
        unfold PeerConn.broadcast enqueueOutbox
        by_cases hlt : s.outboxCount < outboxMaxMsg
        · rw [if_pos hlt, if_pos (hroom.mp hlt)]
          simp [PeerConn.toSender]
        · rw [if_neg hlt, if_neg (mt hroom.mpr hlt)]
      have hrest := ih (delivers_broadcast h msg)
      rw [hstep] at hrest
      exact hrest

theorem run_replicate (mac : Mac) (cfg : NodeConfig) (env : SenderEnv) (n : ℕ) (s : PeerConn) :
    s.run mac cfg (List.replicate n (.thread env)) = (threadStep mac cfg env)^[n] s := by
  induction n generalizing s with
  | zero => rfl
  | succ n ih => exact ih (threadStep mac cfg env s)

/-- A step first, then the sections that reach the goal. -/
theorem exists_sections_of_step {f : PeerConn → PeerConn} {t : SenderState} {s' : PeerConn}
    (hstep : f s = s') (h : ∃ n, (f^[n] s').toSender = t) : ∃ n, (f^[n] s).toSender = t := by
  obtain ⟨n, hn⟩ := h
  exact ⟨n + 1, by rw [Function.iterate_succ_apply, hstep]; exact hn⟩

theorem sections_outbox (mac : Mac) (cfg : NodeConfig) (env : SenderEnv) (h : Delivers s)
    (hpc : s.pc = .outbox) :
    ∃ n, ((threadStep mac cfg env)^[n] s).toSender = (senderOutbox cfg env s.toSender).1 := by
  unfold senderOutbox
  by_cases hflags : (!env.waitActive || !env.waitRunning) = true
  · have hwait : ¬ (s.outboxCount = 0 ∧ env.waitActive ∧ env.waitRunning) := by
      rintro ⟨-, hactive, hrunning⟩
      simp [hactive, hrunning] at hflags
    have hstep : threadStep mac cfg env s = { s with pc := .closing } := by
      simp only [threadStep, hpc, outboxSection, if_neg hwait, hflags, if_true]
    refine exists_sections_of_step hstep ⟨1, ?_⟩
    rw [if_pos hflags]
    rfl
  · rw [if_neg hflags]
    cases hqueue : s.outbox with
    | nil =>
        refine ⟨0, ?_⟩
        simp [PeerConn.toSender, hqueue, hpc, ThreadPc.toSenderPc]
    | cons m rest =>
        have hwait : ¬ (s.outboxCount = 0 ∧ env.waitActive ∧ env.waitRunning) := by
          rw [h.count, hqueue, List.length_cons]
          omega
        have herase := eraseP_head hqueue
        have hmsgs : s.toSender.outbox = m.msg :: rest.map Queued.msg := by
          rw [PeerConn.toSender, hqueue, List.map_cons]
        simp only [hmsgs]
        by_cases hold : env.sendTime - m.msg.enqueuedAt > outboxMsgTtl
        · have hstep : threadStep mac cfg env s =
              { s.remove m (.expired env.sendTime) with pc := .top } := by
            simp only [threadStep, hpc, outboxSection, if_neg hwait, if_neg hflags, hqueue,
              List.head?_cons, if_pos hold]
          refine exists_sections_of_step hstep ⟨0, ?_⟩
          rw [if_pos hold]
          simp [PeerConn.toSender, PeerConn.remove, herase, ThreadPc.toSenderPc]
        · have hstep : threadStep mac cfg env s = { s with pc := .send m } := by
            simp only [threadStep, hpc, outboxSection, if_neg hwait, if_neg hflags, hqueue,
              List.head?_cons, if_neg hold]
          refine exists_sections_of_step hstep ⟨2, ?_⟩
          rw [if_neg hold]
          change (threadStep mac cfg env (threadStep mac cfg env
            { s with pc := .send m })).toSender = _
          cases hsend : env.sendOk with
          | false =>
              simp [threadStep, transmits, hsend, PeerConn.toSender, PeerConn.disconnect,
                SenderState.disconnect, hqueue, ThreadPc.toSenderPc]
          | true =>
              cases hframe : m.msg.frame cfg with
              | none =>
                  simp [threadStep, transmits, hsend, hframe, PeerConn.toSender,
                    PeerConn.disconnect, SenderState.disconnect, hqueue, ThreadPc.toSenderPc]
              | some bytes =>
                  simp [threadStep, transmits, hsend, hframe, PeerConn.toSender, PeerConn.remove,
                    herase, ThreadPc.toSenderPc]

theorem sections_auth (mac : Mac) (cfg : NodeConfig) (env : SenderEnv) (h : Delivers s)
    (hpc : s.pc = .auth) :
    ∃ n, ((threadStep mac cfg env)^[n] s).toSender = (senderAuth mac cfg env s.toSender).1 := by
  unfold senderAuth
  by_cases hexpired : (!s.authenticated || env.authClock ≥ s.authExpireAt) = true
  · refine exists_sections_of_step rfl ⟨0, ?_⟩
    have hexpired' : (!s.toSender.authenticated || env.authClock ≥ s.toSender.authExpireAt) =
        true := hexpired
    simp only [threadStep, hpc, if_pos hexpired, if_pos hexpired', Function.iterate_zero, id_eq]
    cases authExchange mac cfg env.exchange with
    | mk result sent => cases result <;> rfl
  · have hstep : threadStep mac cfg env s = { s with pc := .outbox } := by
      simp only [threadStep, hpc, if_neg hexpired]
    have hexpired' : ¬ (!s.toSender.authenticated || env.authClock ≥ s.toSender.authExpireAt) =
        true := hexpired
    have hdelivers : Delivers { s with pc := .outbox } := hstep ▸ delivers_threadStep h mac cfg env
    obtain ⟨n, hn⟩ := sections_outbox mac cfg env hdelivers rfl
    refine exists_sections_of_step hstep ⟨n, ?_⟩
    rw [if_neg hexpired', hn]
    -- the outbox part does not depend on where the pass comes from
    unfold senderOutbox
    split_ifs <;> rfl

/-- A connection is made and the handshake runs, then the rest. -/
theorem sections_connecting (mac : Mac) (cfg : NodeConfig) (env : SenderEnv) (h : Delivers s)
    (hpc : s.pc = .connecting env.now) (hconnect : env.connectOk = true) :
    ∃ n, ((threadStep mac cfg env)^[n] s).toSender =
      (senderHandshake mac cfg env s.toSender).1 := by
  have hfirst : threadStep mac cfg env s =
      { s with
        pc := .handshake, connected := true, retryBackoff := peerRetryBase
        lastActivity := env.now, authenticated := false, authExpireAt := 0 } := by
    simp [threadStep, hpc, hconnect]
  have hdelivers := delivers_threadStep h mac cfg env
  rw [hfirst] at hdelivers
  refine exists_sections_of_step hfirst ?_
  unfold senderHandshake
  cases hhandshake : clusterHandshakeClient mac cfg env.handshake with
  | mk ok result =>
      obtain ⟨expireAt, sent⟩ := result
      cases ok with
      | false =>
          refine ⟨1, ?_⟩
          simp [threadStep, hhandshake, PeerConn.disconnect, PeerConn.toSender,
            SenderState.disconnect, ThreadPc.toSenderPc]
      | true =>
          have hdelivers' := delivers_threadStep hdelivers mac cfg env
          have hsecond : threadStep mac cfg env
              { s with
                pc := .handshake, connected := true, retryBackoff := peerRetryBase
                lastActivity := env.now, authenticated := false, authExpireAt := 0 } =
              { s with
                pc := .auth, connected := true, retryBackoff := peerRetryBase
                authenticated := true, authExpireAt := expireAt.getD 0
                lastActivity := env.doneTime } := by
            simp [threadStep, hhandshake]
          rw [hsecond] at hdelivers'
          obtain ⟨n, hn⟩ := sections_auth mac cfg env hdelivers' rfl
          refine exists_sections_of_step hsecond ⟨n, hn.trans ?_⟩
          simp [PeerConn.toSender, hpc, ThreadPc.toSenderPc]

theorem sections_top (mac : Mac) (cfg : NodeConfig) (env : SenderEnv) (h : Delivers s)
    (hpc : s.pc = .top) (hactive : env.active = true) (hrunning : env.running = true) :
    ∃ n, ((threadStep mac cfg env)^[n] s).toSender = (senderConnect mac cfg env s.toSender).1 := by
  have hdelivers := delivers_threadStep h mac cfg env
  unfold senderConnect
  cases hconnected : s.connected with
  | true =>
      have hstep : threadStep mac cfg env s = { s with pc := .auth } := by
        simp [threadStep, hpc, hactive, hrunning, hconnected]
      rw [hstep] at hdelivers
      obtain ⟨n, hn⟩ := sections_auth mac cfg env hdelivers rfl
      refine exists_sections_of_step hstep ⟨n, hn.trans ?_⟩
      simp [PeerConn.toSender, hconnected, hpc, ThreadPc.toSenderPc]
  | false =>
      have hstep : threadStep mac cfg env s = { s with pc := .retry env.now } := by
        simp [threadStep, hpc, hactive, hrunning, hconnected]
      rw [hstep] at hdelivers
      refine exists_sections_of_step hstep ?_
      by_cases hretry : env.now < s.nextRetry
      · refine ⟨1, ?_⟩
        simp [threadStep, hretry, PeerConn.toSender, hconnected, hpc, ThreadPc.toSenderPc]
      · have hstep' : threadStep mac cfg env { s with pc := .retry env.now } =
            { s with pc := .connecting env.now } := by
          simp [threadStep, hretry]
        have hdelivers' := delivers_threadStep hdelivers mac cfg env
        rw [hstep'] at hdelivers'
        refine exists_sections_of_step hstep' ?_
        cases hconnect : env.connectOk with
        | false =>
            refine ⟨1, ?_⟩
            simp [threadStep, hretry, hconnect, PeerConn.toSender, hconnected, hpc,
              ThreadPc.toSenderPc]
        | true =>
            obtain ⟨n, hn⟩ := sections_connecting mac cfg env hdelivers' rfl hconnect
            refine ⟨n, hn.trans ?_⟩
            simp [PeerConn.toSender, hretry, hconnected, hpc, ThreadPc.toSenderPc]

/-- **A pass is made of sections.**  What `senderStep` does to a peer at the top of
the loop or waiting is what the broadcasts of the pass and then some sections do. -/
theorem exists_sections (mac : Mac) (cfg : NodeConfig) (env : SenderEnv) (h : Delivers s)
    (hpc : s.pc = .top ∨ s.pc = .outbox ∨ s.pc = .ended) :
    ∃ n, (s.run mac cfg (env.arrivals.map .broadcast ++
      List.replicate n (.thread env))).toSender = (senderStep mac cfg s.toSender env).1 := by
  have hrun : ∀ n, s.run mac cfg (env.arrivals.map .broadcast ++ List.replicate n (.thread env)) =
      (threadStep mac cfg env)^[n] (s.run mac cfg (env.arrivals.map .broadcast)) := by
    intro n
    rw [← run_replicate]
    exact List.foldl_append
  simp only [hrun]
  have hdelivers := delivers_run h mac cfg (env.arrivals.map .broadcast)
  have hsender := toSender_broadcasts mac cfg h env.arrivals
  have hsame := pc_broadcasts mac cfg s env.arrivals
  generalize s.run mac cfg (env.arrivals.map .broadcast) = s₁ at hdelivers hsender hsame
  unfold senderStep
  simp only
  rw [← hsender]
  rcases hpc with hpc | hpc | hpc
  · rw [hpc] at hsame
    have htop : s.toSender.pc = .top := by rw [PeerConn.toSender, hpc]; rfl
    rw [htop]
    simp only
    split_ifs with hflags
    · have hstep : threadStep mac cfg env s₁ = { s₁ with pc := .closing } := by
        simp only [threadStep, hsame, if_pos hflags]
      refine exists_sections_of_step hstep ⟨1, ?_⟩
      change { s₁.toSender with pc := .ended, connected := false } = _
      rw [hsender]
    · simp only [Bool.or_eq_true, Bool.not_eq_true', not_or, Bool.not_eq_false] at hflags
      exact sections_top mac cfg env hdelivers hsame hflags.1 hflags.2
  · rw [hpc] at hsame
    have hwaiting : s.toSender.pc = .waiting := by rw [PeerConn.toSender, hpc]; rfl
    rw [hwaiting]
    exact sections_outbox mac cfg env hdelivers hsame
  · have hended : s.toSender.pc = .ended := by rw [PeerConn.toSender, hpc]; rfl
    rw [hended]
    exact ⟨0, rfl⟩

end Sections

end Dmmr.Cluster
