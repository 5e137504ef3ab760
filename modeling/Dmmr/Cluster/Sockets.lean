import Dmmr.Cluster.Sender
import Dmmr.Lib.Handles
import Mathlib.Data.Finset.Option

/-!
# The connection of a peer and the two threads that close it

`peer->fd` is written by the sender thread of the peer, which opens a connection, closes it
when it has failed, and closes it when the thread ends; it does so under `outbox_mutex`.
The reaper closes the connection of a peer that it removes, too, and it does not take that
lock: it clears `active`, wakes the sender, and then tests, closes and clears `peer->fd`
while the sender, which has been told to end, does the same.

Here every access to `peer->fd` is a step of its own, since the lock does not keep the two
threads apart.  No connection is lost (`sockets_closed`): when the sender has ended all its
sockets have been closed.  As long as the reaper has closed none they are closed once and
used only while they are open; the reaper can close one, and this one may be closed twice.
-/

namespace Dmmr.Cluster

open Words Handles

/-! ## State -/

/-- Where the sender goes on when the connection is closed. -/
inductive SenderNext
  | top
  | ended
  deriving DecidableEq, Repr

/-- Where the sender stands, with the descriptors in its local variables. -/
inductive SenderPlace
  | top
  | connecting
  /-- The connection is made, and not yet in `peer->fd`. -/
  | storing (newFd : ℕ)
  /-- About to read `peer->fd` again. -/
  | reading (newFd : ℕ)
  /-- In `cluster_handshake_client`. -/
  | greeting (newFd : ℕ) (fd : Option ℕ)
  /-- In the second authentication block. -/
  | authenticating (fd : ℕ)
  | waiting
  /-- A message is to be sent. -/
  | fetching
  | sending (fd : Option ℕ)
  /-- The three accesses of `if (peer->fd >= 0) { close(peer->fd); peer->fd = -1; }`. -/
  | testing (next : SenderNext)
  | closing (next : SenderNext)
  | clearing (next : SenderNext)
  | ended
  deriving DecidableEq, Repr

/-- Where the reaper stands with this peer. -/
inductive EvictPlace
  | idle
  | testing
  | closing
  | clearing
  /-- The peer is out of the table, and the reaper joins the sender. -/
  | removed
  | joined
  deriving DecidableEq, Repr

/-- A peer and its two threads.  A socket goes by its number in the order in which the
sender has opened them, since a descriptor may be given out again.  `ops` is what has been
done to the sockets, and `reaped` which of them the reaper has closed. -/
structure SocketState where
  running : Bool
  active : Bool
  fd : Option ℕ
  opened : ℕ
  place : SenderPlace
  reaper : EvictPlace
  ops : List (Op ℕ)
  reaped : List ℕ
  deriving DecidableEq, Repr

/-- A peer as `add_peer_internal` leaves it. -/
def SocketState.init : SocketState := ⟨true, true, none, 0, .top, .idle, [], []⟩

/-- What the sender finds when it goes on: whether it is too early for a new connection,
whether the call it is in succeeds, whether the session has to be authenticated, and the
message at the head of the outbox, with whether it is too old. -/
structure SenderChoice where
  later : Bool
  ok : Bool
  authenticate : Bool
  message : Option Bool
  deriving DecidableEq, Repr

/-! ## Steps -/

namespace SocketState

def goto (s : SocketState) (place : SenderPlace) : SocketState := { s with place := place }

/-- A call on a descriptor; with `-1` it fails and touches nothing. -/
def use (s : SocketState) (fd : Option ℕ) : SocketState :=
  { s with ops := s.ops ++ (fd.map Op.use).toList }

/-- `close(peer->fd)`. -/
def close (s : SocketState) : SocketState :=
  { s with ops := s.ops ++ (s.fd.map Op.release).toList }

/-- Behind the loop, or back at its top. -/
def resume (s : SocketState) : SenderNext → SocketState
  | .top => s.goto .top
  | .ended => s.goto .ended

/-- The connection is there: it is authenticated, or the outbox is served. -/
def serve (s : SocketState) (c : SenderChoice) (fd : ℕ) : SocketState :=
  s.goto (if c.authenticate then .authenticating fd else .waiting)

/-- The next access of `peer_sender_thread` to the connection.  Without a secret the
handshake does not touch the socket. -/
def senderStep (secret : Bool) (s : SocketState) (c : SenderChoice) : SocketState :=
  match s.place with
  | .top =>
      if !s.active || !s.running then s.goto (.testing .ended)
      else
        match s.fd with
        | none => if c.later then s else s.goto .connecting
        | some fd => s.serve c fd
  | .connecting =>
      if c.ok then
        { s with
          opened := s.opened + 1, place := .storing s.opened
          ops := s.ops ++ [.acquire s.opened] }
      else s.goto .top
  | .storing newFd => { s with fd := some newFd, place := .reading newFd }
  | .reading newFd => s.goto (.greeting newFd s.fd)
  | .greeting newFd fd =>
      let s := if secret then s.use fd else s
      if c.ok then s.serve c newFd else s.goto (.testing .top)
  | .authenticating fd => (s.use (some fd)).goto (if c.ok then .top else .testing .top)
  | .waiting =>
      if !s.active || !s.running then s.goto (.testing .ended)
      else
        match c.message with
        | none => s
        | some true => s.goto .top
        | some false => s.goto .fetching
  | .fetching => s.goto (.sending s.fd)
  | .sending fd => (s.use fd).goto (if c.ok then .top else .testing .top)
  | .testing next => if s.fd.isSome then s.goto (.closing next) else s.resume next
  | .closing next => s.close.goto (.clearing next)
  | .clearing next => { s with fd := none }.resume next
  | .ended => s

/-- The next step of the reaper, which has found the peer idle. -/
def reaperStep (s : SocketState) : SocketState :=
  match s.reaper with
  | .idle => { s with active := false, reaper := .testing }
  | .testing => { s with reaper := if s.fd.isSome then .closing else .removed }
  | .closing => { s.close with reaper := .clearing, reaped := s.reaped ++ s.fd.toList }
  | .clearing => { s with fd := none, reaper := .removed }
  | .removed => if s.place = .ended then { s with reaper := .joined } else s
  | .joined => s

end SocketState

/-- What can happen next: `deactivate` is the step of `close_peer_connections`, which leaves
the connection to the sender. -/
inductive SocketEvent
  | sender (c : SenderChoice)
  | reaper
  | deactivate
  | stop
  deriving DecidableEq, Repr

namespace SocketState

def step (secret : Bool) (s : SocketState) : SocketEvent → SocketState
  | .sender c => s.senderStep secret c
  | .reaper => s.reaperStep
  | .deactivate => { s with active := false }
  | .stop => { s with running := false }

def run (secret : Bool) (events : List SocketEvent) : SocketState :=
  events.foldl (step secret) init

/-! ## The sender thread, pass by pass

A pass through the loop, as `Cluster.senderStep` has it, is a sequence of these steps. -/

/-- The place between two passes, and whether there is a connection. -/
structure Matches (d : SocketState) (s : SenderState) : Prop where
  place : d.place =
    match s.pc with
    | .top => .top
    | .waiting => .waiting
    | .ended => .ended
  fd : d.fd.isSome = s.connected

/-- Some steps of the sender lead to where a pass leads. -/
def Reaches (secret : Bool) (d : SocketState) (s : SenderState) : Prop :=
  ∃ cs : List SenderChoice, (cs.foldl (senderStep secret) d).Matches s

section Passes

variable {secret : Bool} {d : SocketState} {s : SenderState}

theorem Matches.reaches (h : d.Matches s) : d.Reaches secret s := ⟨[], h⟩

theorem reaches_of_step (c : SenderChoice) (h : (d.senderStep secret c).Reaches secret s) :
    d.Reaches secret s := by
  obtain ⟨cs, hcs⟩ := h
  exact ⟨c :: cs, hcs⟩

/-- The connection is closed, and the thread goes on. -/
theorem reaches_of_testing {next : SenderNext} (hplace : d.place = .testing next)
    (hpc : s.pc = match next with
      | .top => .top
      | .ended => .ended)
    (hconnected : s.connected = false) : d.Reaches secret s := by
  let c : SenderChoice := ⟨false, true, false, none⟩
  obtain ⟨running, active, fd, opened, place, reaper, ops, reaped⟩ := d
  obtain rfl : place = .testing next := hplace
  cases fd with
  | none =>
      apply reaches_of_step c
      cases next <;> exact Matches.reaches ⟨by rw [hpc]; rfl, hconnected.symm⟩
  | some k =>
      iterate 3 apply reaches_of_step c
      cases next <;> exact Matches.reaches ⟨by rw [hpc]; rfl, hconnected.symm⟩

/-- A thread that is to end, at the top of its loop or waiting. -/
theorem reaches_of_stop (hplace : d.place = .top ∨ d.place = .waiting)
    (hstop : (!d.active || !d.running) = true) (hpc : s.pc = .ended)
    (hconnected : s.connected = false) : d.Reaches secret s := by
  apply reaches_of_step ⟨false, true, false, none⟩
  have hstep : d.senderStep secret ⟨false, true, false, none⟩ = d.goto (.testing .ended) := by
    rcases hplace with hplace | hplace <;> simp [senderStep, hplace, hstop]
  rw [hstep]
  exact reaches_of_testing rfl hpc hconnected

/-- A thread at the top of its loop that is to go on. -/
theorem senderStep_top (hplace : d.place = .top) (hgo : ¬(!d.active || !d.running) = true)
    (authenticate : Bool) : d.senderStep secret ⟨false, true, authenticate, none⟩ =
      d.goto
        (d.fd.elim .connecting fun k => if authenticate then .authenticating k else .waiting) := by
  simp only [senderStep, hplace, hgo, Bool.false_eq_true, if_false]
  cases d.fd <;> rfl

/-- A thread that finds a message. -/
theorem senderStep_waiting (hplace : d.place = .waiting) (hgo : ¬(!d.active || !d.running) = true)
    (old : Bool) : d.senderStep secret ⟨false, true, false, some old⟩ =
      d.goto (if old then .top else .fetching) := by
  simp only [senderStep, hplace, hgo, Bool.false_eq_true, if_false]
  cases old <;> rfl

variable (mac : Mac) (cfg : NodeConfig) (env : SenderEnv)

/-- The wait for a message and its transmission. -/
theorem reaches_senderOutbox (hplace : d.place = .waiting) (hfd : d.fd.isSome = s.connected)
    (hactive : env.waitActive = d.active) (hrunning : env.waitRunning = d.running) :
    d.Reaches secret (senderOutbox cfg env s).1 := by
  unfold senderOutbox
  rw [hactive, hrunning]
  by_cases hstop : (!d.active || !d.running) = true
  · rw [if_pos hstop]
    exact reaches_of_stop (Or.inr hplace) hstop rfl rfl
  rw [if_neg hstop]
  cases s.outbox with
  | nil => exact Matches.reaches ⟨hplace, hfd⟩
  | cons msg rest =>
      dsimp only
      by_cases hold : env.sendTime - msg.enqueuedAt > outboxMsgTtl
      · rw [if_pos hold]
        apply reaches_of_step ⟨false, true, false, some true⟩
        rw [senderStep_waiting hplace hstop]
        exact Matches.reaches ⟨rfl, hfd⟩
      · rw [if_neg hold]
        apply reaches_of_step ⟨false, true, false, some false⟩
        rw [senderStep_waiting hplace hstop]
        apply reaches_of_step ⟨false, true, false, none⟩
        cases (if env.sendOk then msg.frame cfg else none) with
        | some bytes =>
            apply reaches_of_step ⟨false, true, false, none⟩
            exact Matches.reaches ⟨rfl, hfd⟩
        | none =>
            apply reaches_of_step ⟨false, false, false, none⟩
            exact reaches_of_testing rfl rfl rfl

/-- What is done on a connection that is there. -/
theorem reaches_senderAuth {k : ℕ} (hfd : d.fd = some k) (hconnected : s.connected = true)
    (hactive : env.waitActive = d.active) (hrunning : env.waitRunning = d.running) :
    ∃ authenticate : Bool, (d.goto (if authenticate then .authenticating k else .waiting)).Reaches
      secret (senderAuth mac cfg env s).1 := by
  have hsome : d.fd.isSome = s.connected := by rw [hfd, hconnected]; rfl
  unfold senderAuth
  by_cases hexpired : (!s.authenticated || decide (env.authClock ≥ s.authExpireAt)) = true
  · rw [if_pos hexpired]
    refine ⟨true, ?_⟩
    rcases authExchange mac cfg env.exchange with ⟨_ | expireAt, sent⟩
    · apply reaches_of_step ⟨false, false, false, none⟩
      exact reaches_of_testing rfl rfl rfl
    · apply reaches_of_step ⟨false, true, false, none⟩
      exact Matches.reaches ⟨rfl, hsome⟩
  · rw [if_neg hexpired]
    exact ⟨false, reaches_senderOutbox cfg env rfl hsome hactive hrunning⟩

/-- A new connection. -/
theorem reaches_senderHandshake (hplace : d.place = .connecting)
    (hactive : env.waitActive = d.active) (hrunning : env.waitRunning = d.running) :
    d.Reaches secret (senderHandshake mac cfg env s).1 := by
  obtain ⟨running, active, fd, opened, place, reaper, ops, reaped⟩ := d
  obtain rfl : place = .connecting := hplace
  iterate 3 apply reaches_of_step ⟨false, true, false, none⟩
  unfold senderHandshake
  rcases clusterHandshakeClient mac cfg env.handshake with ⟨_ | _, expireAt, sent⟩
  · apply reaches_of_step ⟨false, false, false, none⟩
    cases secret <;> exact reaches_of_testing rfl rfl rfl
  · -- the state after the handshake, with the connection that has just been made
    let greeted : SocketState :=
      ⟨running, active, some opened, opened + 1, .greeting opened (some opened), reaper,
        ops ++ [.acquire opened], reaped⟩
    let called : SocketState := if secret then greeted.use (some opened) else greeted
    have hfd : called.fd = some opened := by cases secret <;> rfl
    have hflags : called.active = active ∧ called.running = running := by
      cases secret <;> exact ⟨rfl, rfl⟩
    refine (reaches_senderAuth mac cfg env hfd ?_ (hactive.trans hflags.1.symm)
      (hrunning.trans hflags.2.symm)).elim fun authenticate hreaches =>
        reaches_of_step ⟨false, true, authenticate, none⟩ hreaches
    rfl

/-- The connection part at the top of the loop. -/
theorem reaches_senderConnect (hplace : d.place = .top) (hpc : s.pc = .top)
    (hfd : d.fd.isSome = s.connected) (hgo : ¬(!d.active || !d.running) = true)
    (hactive : env.waitActive = d.active) (hrunning : env.waitRunning = d.running) :
    d.Reaches secret (senderConnect mac cfg env s).1 := by
  unfold senderConnect
  cases hk : d.fd with
  | none =>
      have hconnected : s.connected = false := by rw [← hfd, hk]; rfl
      simp only [hconnected, Bool.not_false, Bool.true_or, Bool.and_true, if_true]
      by_cases hearly : env.now < s.nextRetry
      · rw [if_pos hearly]
        exact Matches.reaches ⟨by rw [hplace, hpc], hfd⟩
      rw [if_neg hearly]
      apply reaches_of_step ⟨false, true, false, none⟩
      rw [senderStep_top hplace hgo, hk]
      cases env.connectOk with
      | false =>
          apply reaches_of_step ⟨false, false, false, none⟩
          exact Matches.reaches ⟨by simp [hpc]; rfl, hfd.trans hconnected⟩
      | true => exact reaches_senderHandshake mac cfg env rfl hactive hrunning
  | some k =>
      have hconnected : s.connected = true := by rw [← hfd, hk]; rfl
      simp only [hconnected, Bool.not_true, Bool.and_false, Bool.false_eq_true, if_false]
      obtain ⟨authenticate, hreaches⟩ :=
        reaches_senderAuth mac cfg env hk hconnected hactive hrunning
      apply reaches_of_step ⟨false, true, authenticate, none⟩
      rw [senderStep_top hplace hgo, hk]
      exact hreaches

/-- Every pass through the loop is made of such steps. -/
theorem reaches_senderStep (h : d.Matches s) (hactive : env.active = d.active)
    (hrunning : env.running = d.running) (hwaitActive : env.waitActive = d.active)
    (hwaitRunning : env.waitRunning = d.running) :
    d.Reaches secret (Cluster.senderStep mac cfg s env).1 := by
  have hplace := h.place
  unfold Cluster.senderStep
  cases hpc : s.pc with
  | ended => exact Matches.reaches ⟨by simpa [hpc] using hplace, h.fd⟩
  | waiting =>
      rw [hpc] at hplace
      exact reaches_senderOutbox cfg env hplace h.fd hwaitActive hwaitRunning
  | top =>
      rw [hpc] at hplace
      simp only [hactive, hrunning]
      by_cases hstop : (!d.active || !d.running) = true
      · rw [if_pos hstop]
        exact reaches_of_stop (Or.inl hplace) hstop rfl rfl
      · rw [if_neg hstop]
        exact reaches_senderConnect mac cfg env hplace rfl h.fd hstop hwaitActive hwaitRunning

end Passes

/-! ## While the reaper has closed nothing -/

/-- The sockets that are open. -/
def held (s : SocketState) : Finset ℕ :=
  match s.place with
  | .storing newFd => {newFd}
  | .clearing _ => ∅
  | _ => s.fd.toFinset

/-- What the local variables of the sender have to do with `peer->fd`. -/
def LocalsAgree (s : SocketState) : Prop :=
  match s.place with
  | .connecting => s.fd = none
  | .storing _ => s.fd = none
  | .reading newFd => s.fd = some newFd
  | .greeting newFd fd => s.fd = some newFd ∧ fd = some newFd
  | .authenticating fd => s.fd = some fd
  | .sending fd => fd = s.fd
  | .closing _ => s.fd.isSome
  | .clearing _ => s.fd.isSome
  | .ended => s.fd = none
  | _ => True

/-- The sender is about to have a new connection. -/
def Opening (s : SocketState) : Prop :=
  match s.place with
  | .connecting => True
  | .storing _ => True
  | _ => False

/-- The reaper has closed nothing, and the sockets are in order. -/
structure Lawful (s : SocketState) : Prop where
  reaped : s.reaped = []
  inOrder : Handles.run s.ops ∅ = some s.held
  acquired : acquired s.ops = List.range s.opened
  agree : s.LocalsAgree
  seen : s.reaper = .closing ∨ s.reaper = .clearing → ¬s.Opening
  cleared : s.reaper = .clearing → s.fd = none
  inactive : s.reaper ≠ .idle → s.active = false

variable {s : SocketState} {secret : Bool}

theorem Lawful.init : SocketState.init.Lawful where
  reaped := rfl
  inOrder := rfl
  acquired := rfl
  agree := trivial
  seen := by simp [SocketState.init]
  cleared := by simp [SocketState.init]
  inactive := by simp [SocketState.init]

namespace Lawful

/-- The sender goes on to a place where nothing else is open. -/
theorem goto (h : s.Lawful) {place : SenderPlace} (hheld : (s.goto place).held = s.held)
    (hagree : (s.goto place).LocalsAgree) (hopening : ¬(s.goto place).Opening) :
    (s.goto place).Lawful where
  reaped := h.reaped
  inOrder := h.inOrder.trans (congrArg some hheld.symm)
  acquired := h.acquired
  agree := hagree
  seen _ := hopening
  cleared := h.cleared
  inactive := h.inactive

/-- A call on a socket that is open, or on none. -/
theorem use (h : s.Lawful) (fd : Option ℕ) (hfd : ∀ k, fd = some k → k ∈ s.held) :
    (s.use fd).Lawful := by
  have hrun : Handles.run (fd.map Op.use).toList s.held = some s.held := by
    cases fd with
    | none => rfl
    | some k => exact run_use (hfd k rfl)
  have hacquired : Handles.acquired (fd.map Op.use).toList = [] := by cases fd <;> rfl
  exact {
    reaped := h.reaped
    inOrder := run_trans h.inOrder hrun
    acquired := by
      rw [SocketState.use, acquired_append, hacquired, List.append_nil]
      exact h.acquired
    agree := h.agree
    seen := h.seen
    cleared := h.cleared
    inactive := h.inactive }

/-- The connection is there. -/
theorem serve (h : s.Lawful) (c : SenderChoice) {fd : ℕ} (hfd : s.fd = some fd)
    (hheld : s.held = s.fd.toFinset) : (s.serve c fd).Lawful := by
  unfold SocketState.serve
  cases c.authenticate with
  | true => exact h.goto hheld.symm hfd id
  | false => exact h.goto hheld.symm trivial id

/-- The sender goes back to the top, or on to close the connection. -/
theorem resume (h : s.Lawful) (next : SenderNext) (hfd : s.fd = none) (hheld : s.held = ∅) :
    (s.resume next).Lawful := by
  have hnone : s.fd.toFinset = s.held := by rw [hfd, hheld]; rfl
  cases next with
  | top => exact h.goto hnone trivial id
  | ended => exact h.goto hnone hfd id

end Lawful

/-- A peer that is active has not been found by the reaper. -/
theorem Lawful.idle_of_active (h : s.Lawful) (hactive : s.active = true) : s.reaper = .idle := by
  by_contra hreaper
  exact absurd (h.inactive hreaper) (by simp [hactive])

/-- A new socket. -/
theorem Lawful.connect (h : s.Lawful) (hplace : s.place = .connecting) :
    SocketState.Lawful { s with
      opened := s.opened + 1, place := .storing s.opened
      ops := s.ops ++ [.acquire s.opened] } := by
  have hfd : s.fd = none := by simpa [LocalsAgree, hplace] using h.agree
  have hheld : s.held = ∅ := by simp [held, hplace, hfd]
  exact {
    reaped := h.reaped
    inOrder := run_trans h.inOrder (by rw [hheld]; rfl)
    acquired := by
      rw [acquired_append, h.acquired, List.range_succ]
      rfl
    agree := hfd
    seen := fun hreaper => absurd (h.seen hreaper) (by simp [Opening, hplace])
    cleared := h.cleared
    inactive := h.inactive }

/-- The new socket is stored. -/
theorem Lawful.store (h : s.Lawful) {newFd : ℕ} (hplace : s.place = .storing newFd) :
    { s with fd := some newFd, place := .reading newFd }.Lawful where
  reaped := h.reaped
  inOrder := by
    have hheld : s.held = {newFd} := by simp [held, hplace]
    exact h.inOrder.trans (congrArg some hheld)
  acquired := h.acquired
  agree := rfl
  seen _ := id
  cleared hreaper := absurd (h.seen (Or.inr hreaper)) (by simp [Opening, hplace])
  inactive := h.inactive

/-- The socket is closed. -/
theorem Lawful.close (h : s.Lawful) {next : SenderNext} (hplace : s.place = .closing next) :
    (s.close.goto (.clearing next)).Lawful := by
  have hfd : s.fd.isSome := by simpa [LocalsAgree, hplace] using h.agree
  obtain ⟨k, hk⟩ := Option.isSome_iff_exists.mp hfd
  have hheld : s.held = {k} := by simp [held, hplace, hk]
  have hops : s.close.ops = s.ops ++ [.release k] := by simp [SocketState.close, hk]
  exact {
    reaped := h.reaped
    inOrder := by
      show Handles.run s.close.ops ∅ = some ∅
      rw [hops]
      apply run_trans h.inOrder
      rw [hheld, run_release (Finset.mem_singleton_self k), Finset.erase_singleton]
      rfl
    acquired := by
      show Handles.acquired s.close.ops = _
      rw [hops, acquired_append, h.acquired]
      exact List.append_nil _
    agree := hfd
    seen := fun _ => id
    cleared := h.cleared
    inactive := h.inactive }

/-- `peer->fd` is cleared. -/
theorem Lawful.clear (h : s.Lawful) {next : SenderNext} (hplace : s.place = .clearing next) :
    ({ s with fd := none }.resume next).Lawful := by
  have hheld : s.held = ∅ := by simp [held, hplace]
  have hinOrder : Handles.run s.ops ∅ = some ∅ := h.inOrder.trans (congrArg some hheld)
  cases next <;> exact {
    reaped := h.reaped
    inOrder := hinOrder
    acquired := h.acquired
    agree := by trivial
    seen := fun _ => id
    cleared := fun _ => rfl
    inactive := h.inactive }

theorem Lawful.senderStep (h : s.Lawful) (c : SenderChoice) : (s.senderStep secret c).Lawful := by
  obtain ⟨running, active, fd, opened, place, reaper, ops, reaped⟩ := s
  have hagree := h.agree
  cases place with
  | top =>
      dsimp only [SocketState.senderStep]
      by_cases hstop : (!active || !running) = true
      · rw [if_pos hstop]
        exact h.goto rfl trivial id
      rw [if_neg hstop]
      cases fd with
      | none =>
          dsimp only
          cases c.later with
          | true => exact h
          | false =>
              have hreaper : reaper = .idle := h.idle_of_active (by simp_all)
              exact { h with agree := rfl, seen := by simp [hreaper, SocketState.goto] }
      | some fd => exact h.serve c rfl rfl
  | connecting =>
      dsimp only [SocketState.senderStep]
      split_ifs
      · exact h.connect rfl
      · exact h.goto rfl trivial id
  | storing newFd => exact h.store rfl
  | reading newFd => exact h.goto rfl ⟨hagree, hagree⟩ id
  | greeting newFd localFd =>
      obtain ⟨hfd, rfl⟩ := hagree
      have huse := h.use (some newFd) (by rintro k ⟨⟩; simpa [held] using hfd)
      dsimp only [SocketState.senderStep]
      cases secret <;> cases c.ok
      · exact h.goto rfl trivial id
      · exact h.serve c hfd rfl
      · exact huse.goto rfl trivial id
      · exact huse.serve c hfd rfl
  | authenticating localFd =>
      have hfd : fd = some localFd := hagree
      have huse := h.use (some localFd) (by rintro k ⟨⟩; simpa [held] using hfd)
      dsimp only [SocketState.senderStep]
      cases c.ok <;> exact huse.goto rfl trivial id
  | waiting =>
      dsimp only [SocketState.senderStep]
      split_ifs
      · exact h.goto rfl trivial id
      match c.message with
      | none => exact h
      | some true => exact h.goto rfl trivial id
      | some false => exact h.goto rfl trivial id
  | fetching => exact h.goto rfl rfl id
  | sending localFd =>
      have hlocal : localFd = fd := hagree
      have huse := h.use localFd (by rintro k rfl; simp [held, ← hlocal])
      dsimp only [SocketState.senderStep]
      cases c.ok <;> exact huse.goto rfl trivial id
  | testing next =>
      dsimp only [SocketState.senderStep]
      split_ifs with hfd
      · exact h.goto rfl hfd id
      · have hnone : fd = none := by simpa using hfd
        exact h.resume next hnone (by simp [held, hnone])
  | closing next => exact h.close rfl
  | clearing next => exact h.clear rfl
  | ended => exact h

/-- The reaper goes on without closing anything. -/
theorem Lawful.reaperStep (h : s.Lawful) (hfd : s.reaper = .closing → s.fd = none) :
    s.reaperStep.Lawful := by
  obtain ⟨running, active, fd, opened, place, reaper, ops, reaped⟩ := s
  have hseen := h.seen
  have hinactive := h.inactive
  cases reaper with
  | idle => exact { h with seen := nofun, cleared := nofun, inactive := fun _ => rfl }
  | testing =>
      dsimp only [SocketState.reaperStep]
      cases fd with
      | none =>
          exact { h with seen := nofun, cleared := nofun, inactive := fun _ => hinactive nofun }
      | some k =>
          -- a sender that is about to store a socket has none in `peer->fd`
          have hopening :
              ¬Opening ⟨running, active, some k, opened, place, .testing, ops, reaped⟩ := by
            intro hopening
            have hagree := h.agree
            cases place <;> simp_all [Opening, LocalsAgree]
          exact { h with
            seen := fun _ => hopening, cleared := nofun, inactive := fun _ => hinactive nofun }
  | closing =>
      obtain rfl : fd = none := hfd rfl
      have hclear : SocketState.Lawful
          ⟨running, active, none, opened, place, .clearing, ops, reaped⟩ :=
        { h with
          seen := fun _ => hseen (Or.inl rfl), cleared := fun _ => rfl
          inactive := fun _ => hinactive nofun }
      simpa [SocketState.reaperStep, SocketState.close] using hclear
  | clearing =>
      obtain rfl : fd = none := h.cleared rfl
      exact { h with seen := nofun, cleared := nofun, inactive := fun _ => hinactive nofun }
  | removed =>
      dsimp only [SocketState.reaperStep]
      split_ifs
      · exact { h with seen := nofun, cleared := nofun, inactive := fun _ => hinactive nofun }
      · exact h
  | joined => exact h

/-! ## When the reaper has closed a socket -/

/-- The reaper has closed the socket `k`. -/
structure Raced (k : ℕ) (s : SocketState) : Prop where
  reaped : s.reaped = [k]
  closed : ∀ j < s.opened, 1 ≤ (released s.ops).count j
  bound : ∀ j, (released s.ops).count j ≤ 1 + s.reaped.count j
  fd : s.fd = none ∨ s.fd = some k
  once : s.fd = some k → (∀ next, s.place ≠ .clearing next) → (released s.ops).count k ≤ 1
  inactive : s.active = false
  notOpening : ¬s.Opening
  past : s.reaper = .clearing ∨ s.reaper = .removed ∨ s.reaper = .joined
  ended : s.place = .ended → s.fd = none


namespace Raced

variable {k : ℕ}

theorem goto (h : s.Raced k) {place : SenderPlace} (hplace : ∀ next, s.place ≠ .clearing next)
    (hopening : ¬(s.goto place).Opening) (hended : place = .ended → s.fd = none) :
    (s.goto place).Raced k where
  reaped := h.reaped
  closed := h.closed
  bound := h.bound
  fd := h.fd
  once hfd _ := h.once hfd hplace
  inactive := h.inactive
  notOpening := hopening
  past := h.past
  ended := hended

theorem use (h : s.Raced k) (fd : Option ℕ) : (s.use fd).Raced k := by
  have hreleased : released (s.use fd).ops = released s.ops := by
    rw [SocketState.use, released_append]
    cases fd <;> exact List.append_nil _
  exact {
    reaped := h.reaped
    closed := hreleased.symm ▸ h.closed
    bound := hreleased.symm ▸ h.bound
    fd := h.fd
    once := hreleased.symm ▸ h.once
    inactive := h.inactive
    notOpening := h.notOpening
    past := h.past
    ended := h.ended }

/-- The sender closes what the reaper has closed, or nothing. -/
theorem close (h : s.Raced k) {next : SenderNext} (hplace : s.place = .closing next) :
    (s.close.goto (.clearing next)).Raced k := by
  have hmono : ∀ j, (released s.ops).count j ≤ (released s.close.ops).count j := by
    intro j
    rw [SocketState.close, released_append, List.count_append]
    exact Nat.le_add_right _ _
  have hbound : ∀ j, (released s.close.ops).count j ≤ 1 + s.reaped.count j := by
    intro j
    rw [SocketState.close, released_append, List.count_append]
    rcases h.fd with hnone | hsome
    · simpa [hnone, released] using h.bound j
    · have honce := h.once hsome (by simp [hplace])
      by_cases hj : j = k
      · subst hj
        simpa [hsome, released, h.reaped] using honce
      · simpa [hsome, released, hj, Ne.symm hj] using h.bound j
  exact {
    reaped := h.reaped
    closed := fun j hj => (h.closed j hj).trans (hmono j)
    bound := hbound
    fd := h.fd
    once := fun _ hne => absurd rfl (hne next)
    inactive := h.inactive
    notOpening := id
    past := h.past
    ended := by simp [SocketState.goto] }

theorem clear (h : s.Raced k) (next : SenderNext) :
    ({ s with fd := none }.resume next).Raced k := by
  cases next <;> exact {
    reaped := h.reaped
    closed := h.closed
    bound := h.bound
    fd := Or.inl rfl
    once := nofun
    inactive := h.inactive
    notOpening := id
    past := h.past
    ended := fun _ => rfl }

theorem serve (h : s.Raced k) (hplace : ∀ next, s.place ≠ .clearing next) (c : SenderChoice)
    (fd : ℕ) : (s.serve c fd).Raced k := by
  unfold SocketState.serve
  cases c.authenticate <;> exact h.goto hplace id nofun

theorem senderStep (h : s.Raced k) (c : SenderChoice) : (s.senderStep secret c).Raced k := by
  have hinactive := h.inactive
  have hnotOpening := h.notOpening
  obtain ⟨running, active, fd, opened, place, reaper, ops, reaped⟩ := s
  cases place with
  | top =>
      dsimp only [SocketState.senderStep]
      rw [if_pos (by simp_all)]
      exact h.goto nofun id nofun
  | connecting => exact absurd trivial hnotOpening
  | storing newFd => exact absurd trivial hnotOpening
  | reading newFd => exact h.goto nofun id nofun
  | greeting newFd localFd =>
      dsimp only [SocketState.senderStep]
      cases secret <;> cases c.ok
      · exact h.goto nofun id nofun
      · exact h.serve nofun c newFd
      · exact (h.use localFd).goto nofun id nofun
      · exact (h.use localFd).serve nofun c newFd
  | authenticating localFd =>
      dsimp only [SocketState.senderStep]
      cases c.ok <;> exact (h.use (some localFd)).goto nofun id nofun
  | waiting =>
      dsimp only [SocketState.senderStep]
      rw [if_pos (by simp_all)]
      exact h.goto nofun id nofun
  | fetching => exact h.goto nofun id nofun
  | sending localFd =>
      dsimp only [SocketState.senderStep]
      cases c.ok <;> exact (h.use localFd).goto nofun id nofun
  | testing next =>
      dsimp only [SocketState.senderStep]
      cases fd with
      | some fd => exact h.goto nofun id nofun
      | none => cases next <;> exact h.goto nofun id fun _ => rfl
  | closing next => exact h.close rfl
  | clearing next => exact h.clear next
  | ended => exact h

end Raced

/-- Every socket that is not open has been closed once. -/
theorem Lawful.count_released (h : s.Lawful) (j : ℕ) :
    (released s.ops).count j + (if j ∈ s.held then 1 else 0) = if j < s.opened then 1 else 0 := by
  have hcount := Handles.count_released h.inOrder j
  rw [h.acquired, List.count_range] at hcount
  simpa using hcount

/-- What is open is in `peer->fd`, unless it is about to be stored. -/
theorem held_subset (hopening : ¬s.Opening) : s.held ⊆ s.fd.toFinset := by
  obtain ⟨running, active, fd, opened, place, reaper, ops, reaped⟩ := s
  cases place <;> first | exact Finset.Subset.refl _ | exact Finset.empty_subset _ | skip
  exact absurd trivial hopening

theorem mem_held {k : ℕ} (hk : s.fd = some k) (hopening : ¬s.Opening)
    (hplace : ∀ next, s.place ≠ .clearing next) : k ∈ s.held := by
  obtain ⟨running, active, fd, opened, place, reaper, ops, reaped⟩ := s
  cases place with
  | storing newFd => exact absurd trivial hopening
  | clearing next => exact absurd rfl (hplace next)
  | _ => simpa [held] using hk

/-- The reaper closes the socket in `peer->fd`, whether or not the sender has just closed
it. -/
theorem Lawful.raced (h : s.Lawful) (hreaper : s.reaper = .closing) {k : ℕ} (hk : s.fd = some k) :
    s.reaperStep.Raced k := by
  have hopening := h.seen (Or.inl hreaper)
  have hheld : ∀ j ∈ s.held, j = k := by
    intro j hj
    have hmem := held_subset hopening hj
    rw [hk] at hmem
    simpa [eq_comm] using hmem
  have hstep : s.reaperStep =
      { s with ops := s.ops ++ [.release k], reaper := .clearing, reaped := [k] } := by
    simp [SocketState.reaperStep, hreaper, SocketState.close, hk, h.reaped]
  have hcount : ∀ j, (released (s.ops ++ [.release k])).count j =
      (released s.ops).count j + [k].count j := by
    intro j
    rw [released_append, List.count_append]
    rfl
  rw [hstep]
  refine ⟨rfl, ?_, ?_, Or.inr hk, ?_, h.inactive (by simp [hreaper]), hopening, Or.inl rfl, ?_⟩
  · intro j hj
    have hj : j < s.opened := hj
    have hreleased := h.count_released j
    show 1 ≤ (released (s.ops ++ [.release k])).count j
    rw [if_pos hj] at hreleased
    rw [hcount]
    split_ifs at hreleased with hmem
    · rw [hheld j hmem, List.count_singleton_self]
      exact Nat.le_add_left 1 _
    · omega
  · intro j
    have hreleased := h.count_released j
    show (released (s.ops ++ [.release k])).count j ≤ 1 + [k].count j
    rw [hcount]
    split_ifs at hreleased <;> omega
  · intro _ hplace
    -- the sender has not closed it: it is still open
    have hmem := mem_held hk hopening hplace
    have hreleased := h.count_released k
    show (released (s.ops ++ [.release k])).count k ≤ 1
    rw [hcount, List.count_singleton_self]
    rw [if_pos hmem] at hreleased
    split_ifs at hreleased
    omega
  · intro hended
    have hagree := h.agree
    have hended : s.place = .ended := hended
    simp only [LocalsAgree, hended] at hagree
    exact hagree

/-- Once it has closed a socket the reaper closes no other. -/
theorem Raced.reaperStep {k : ℕ} (h : s.Raced k) : s.reaperStep.Raced k := by
  obtain ⟨running, active, fd, opened, place, reaper, ops, reaped⟩ := s
  rcases h.past with hreaper | hreaper | hreaper <;> obtain rfl : reaper = _ := hreaper
  · exact { h with
      fd := Or.inl rfl, once := nofun, past := Or.inr (Or.inl rfl), ended := fun _ => rfl }
  · dsimp only [SocketState.reaperStep]
    split_ifs
    · exact { h with past := Or.inr (Or.inr rfl) }
    · exact h
  · exact h

/-! ## Runs -/

/-- What holds at every moment. -/
def Inv (s : SocketState) : Prop := s.Lawful ∨ ∃ k, s.Raced k

theorem Inv.step (h : s.Inv) (event : SocketEvent) : (s.step secret event).Inv := by
  rcases h with h | ⟨k, h⟩
  · cases event with
    | sender c => exact Or.inl (h.senderStep c)
    | reaper =>
        by_cases hreaper : s.reaper = .closing
        · cases hfd : s.fd with
          | none => exact Or.inl (h.reaperStep fun _ => hfd)
          | some k => exact Or.inr ⟨k, h.raced hreaper hfd⟩
        · exact Or.inl (h.reaperStep fun hclosing => absurd hclosing hreaper)
    | deactivate => exact Or.inl { h with inactive := fun _ => rfl }
    | stop => exact Or.inl { h with }
  · refine Or.inr ⟨k, ?_⟩
    cases event with
    | sender c => exact h.senderStep c
    | reaper => exact h.reaperStep
    | deactivate => exact { h with inactive := rfl }
    | stop => exact { h with }

theorem inv_run (secret : Bool) (events : List SocketEvent) : (run secret events).Inv := by
  have hrun : ∀ s : SocketState, s.Inv → (events.foldl (SocketState.step secret) s).Inv := by
    induction events with
    | nil => exact fun s hs => hs
    | cons event events ih => exact fun s hs => ih _ (hs.step event)
  exact hrun init (Or.inl Lawful.init)

namespace Inv

/-- When the sender has ended every socket has been closed. -/
theorem mem_released (h : s.Inv) (hended : s.place = .ended) {k : ℕ} (hk : k < s.opened) :
    k ∈ released s.ops := by
  apply List.count_pos_iff.mp
  rcases h with h | ⟨_, h⟩
  · have hfd : s.fd = none := by simpa [LocalsAgree, hended] using h.agree
    have hheld : s.held = ∅ := by simp [held, hended, hfd]
    have hreleased := h.count_released k
    rw [if_pos hk, hheld, if_neg (Finset.notMem_empty k)] at hreleased
    omega
  · exact h.closed k hk

/-- A socket is closed once, and once more if the reaper has closed it. -/
theorem count_released_le (h : s.Inv) (k : ℕ) :
    (released s.ops).count k ≤ 1 + s.reaped.count k := by
  rcases h with h | ⟨_, h⟩
  · have hreleased := h.count_released k
    split_ifs at hreleased <;> omega
  · exact h.bound k

theorem length_reaped_le (h : s.Inv) : s.reaped.length ≤ 1 := by
  rcases h with h | ⟨_, h⟩
  · exact h.reaped ▸ Nat.zero_le 1
  · exact h.reaped ▸ le_rfl

theorem inOrder (h : s.Inv) (hreaped : s.reaped = []) :
    Handles.run s.ops ∅ = some s.held := by
  rcases h with h | ⟨k, h⟩
  · exact h.inOrder
  · exact absurd (h.reaped.symm.trans hreaped) (List.cons_ne_nil k [])

end Inv

end SocketState

/-- **No connection is lost.**  However the accesses of the sender and the reaper to the
connection interleave: once the sender has ended, every socket it has opened has been closed.
A socket is closed once, or once more if the reaper has closed it, which it does with at most
one.  If it has closed none, no socket is used or closed unless it is open. -/
theorem sockets_closed (secret : Bool) (events : List SocketEvent) :
    let s := SocketState.run secret events
    (s.place = .ended → ∀ k < s.opened, k ∈ released s.ops) ∧
      (∀ k, (released s.ops).count k ≤ 1 + s.reaped.count k) ∧ s.reaped.length ≤ 1 ∧
      (s.reaped = [] → Handles.run s.ops ∅ = some s.held) :=
  have h := SocketState.inv_run secret events
  ⟨fun hended _ hk => h.mem_released hended hk, h.count_released_le, h.length_reaped_le,
    h.inOrder⟩

/-- The sender is waiting for a message when the reaper finds its peer idle, and both close
the connection. -/
example :
    let go : SocketEvent := .sender ⟨false, true, false, none⟩
    let s := SocketState.run false
      (List.replicate 6 go ++ [.reaper, .reaper, go, go, .reaper, go])
    s.reaped = [0] ∧ released s.ops = [0, 0] := by
  decide

end Dmmr.Cluster
