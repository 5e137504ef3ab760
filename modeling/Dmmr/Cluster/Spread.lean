import Dmmr.Cluster.Reaper

/-!
# What a call of `broadcast_sync` does

The loop of `broadcast_sync` goes through the table from the head by `TAILQ_NEXT`, with
`peers_mutex` locked.  Meanwhile the sender threads take messages out of the outboxes, and
the reaper goes on with what it does without the lock.  The log of this module has for each
call the peers that were in the table when it was locked, and for each turn of the loop what
became of the message.

Each peer gets its turn once and in the order of the table, and an outbox has accepted what
the calls have put into it and nothing else.  Since the calls come one after the other, all
peers get the messages in the same order.
-/

namespace Dmmr.Cluster

open Words Store Wire Node

/-! ## The log -/

/-- What becomes of the message for a peer. -/
inductive Offer
  /-- The peer is the node itself. -/
  | own
  /-- There is no memory for the message. -/
  | noMemory
  /-- The outbox is full. -/
  | full
  | accepted
  deriving DecidableEq, Repr

/-- A turn of the loop in `broadcast_sync`. -/
structure Turn where
  peer : ℕ
  time : Int
  offer : Offer
  deriving DecidableEq, Repr

/-- A call of `broadcast_sync` that has locked the table; `peers` is the table then. -/
structure SyncCall where
  cmd : ControlCmd
  peers : List ℕ
  turns : List Turn

/-- The messages that a call has put into the outbox of a peer. -/
def SyncCall.messagesTo (id : ℕ) (call : SyncCall) : List OutboxMsg :=
  call.turns.filterMap fun turn =>
    if turn.peer = id ∧ turn.offer = .accepted then some (TableState.syncMsg call.cmd turn.time)
    else none

/-- The table with its threads, and the calls of `broadcast_sync` so far. -/
structure SyncLog where
  state : TableState
  finished : List SyncCall
  current : Option SyncCall

def SyncLog.init : SyncLog := ⟨.init, [], none⟩

/-- What `broadcast_sync` finds at a peer. -/
def PeerNode.offer (cfg : NodeConfig) (n : PeerNode) (allocOk : Bool) : Offer :=
  if n.peer.nodeId ≠ 0 ∧ n.peer.nodeId = cfg.myNodeId then .own
  else if !allocOk then .noMemory
  else if n.conn.outboxCount < outboxMaxMsg then .accepted
  else .full

variable (mac : Mac) (cfg : NodeConfig)

namespace SyncLog

/-- The calls before, all of them. -/
def calls (s : SyncLog) : List SyncCall := s.finished ++ s.current.toList

theorem calls_none (state : TableState) (finished : List SyncCall) :
    calls ⟨state, finished, none⟩ = finished :=
  List.append_nil finished

/-- A step of the table, and what it adds to the log. -/
def step (s : SyncLog) (event : TableEvent) : SyncLog :=
  let state := s.state.step mac cfg event
  match event with
  | .broadcastBegin w cmd =>
      match s.state.broadcasts w, state.broadcasts w with
      | .idle, .visiting .. => { s with state := state, current := some ⟨cmd, s.state.table, []⟩ }
      | _, _ => { s with state := state }
  | .broadcast w allocOk time =>
      match s.state.broadcasts w with
      | .idle => { s with state := state }
      | .visiting _ none => ⟨state, s.calls, none⟩
      | .visiting _ (some peer) =>
          let turn : Turn := ⟨peer, time, (s.state.nodes peer).offer cfg allocOk⟩
          { s with
            state := state
            current := s.current.map fun call => { call with turns := call.turns ++ [turn] } }
  | _ => { s with state := state }

def run (events : List TableEvent) : SyncLog := events.foldl (SyncLog.step mac cfg) .init

end SyncLog

/-! ## The way through the table -/

/-- `TAILQ_NEXT` of a peer in the middle. -/
theorem tailqNext_append {done rest : List ℕ} {peer : ℕ} (hdone : peer ∉ done) :
    tailqNext peer (done ++ peer :: rest) = rest.head? := by
  induction done with
  | nil => exact if_pos rfl
  | cons a done ih =>
      obtain ⟨hne, hrest⟩ := not_or.mp (mt List.mem_cons.mpr hdone)
      rw [List.cons_append, tailqNext, if_neg (Ne.symm hne)]
      exact ih hrest

/-- What an outbox has accepted. -/
def TableState.messages (s : TableState) (id : ℕ) : List OutboxMsg :=
  (s.nodes id).conn.accepted.map Queued.msg

variable {mac cfg}

/-! ## The other threads -/

section Aside

variable {s s' : TableState}

/-- A step of a thread other than those in `broadcast_sync`. -/
structure Aside (s s' : TableState) : Prop where
  broadcasts : s'.broadcasts = s.broadcasts
  table : ∀ w, s.mutex = some (.broadcast w) → s'.table = s.table
  created : s.created ≤ s'.created
  messages : ∀ id, id < s.created → s'.messages id = s.messages id
  fresh : ∀ id, s.created ≤ id → s.messages id = [] → s'.messages id = []

/-- A peer changes, and its history does not. -/
theorem Aside.setNode (h : Aside s s') {id : ℕ} {n : PeerNode}
    (hsame : n.conn.accepted = (s'.nodes id).conn.accepted) : Aside s (s'.setNode id n) := by
  have hmessages : (s'.setNode id n).messages = s'.messages := by
    funext j
    unfold TableState.messages TableState.setNode
    by_cases hj : j = id
    · subst hj
      simp only [Function.update_self, hsame]
    · simp only [Function.update_of_ne hj]
  exact ⟨h.broadcasts, h.table, h.created, hmessages ▸ h.messages, hmessages ▸ h.fresh⟩

theorem Aside.refl (s : TableState) : Aside s s :=
  ⟨rfl, fun _ _ => rfl, le_refl _, fun _ _ => rfl, fun _ _ h => h⟩

theorem aside_of_reaper (s : TableState) (mutex : Option TableHolder) (pc : ReaperPc) :
    Aside s { s with mutex := mutex, reaper := pc } :=
  ⟨rfl, fun _ _ => rfl, le_refl _, fun _ _ => rfl, fun _ _ h => h⟩

theorem aside_reaperStep (h : s.Inv) (cfg : NodeConfig) (now : Int) (hello : HelloEnv) :
    Aside s (s.reaperStep cfg now hello) := by
  have hmutex : ∀ w, s.reaper.holds = true → s.mutex ≠ some (.broadcast w) := by
    intro w hholds
    rw [h.reaper_holds.mp hholds]
    simp
  unfold TableState.reaperStep
  split
  next =>
    split_ifs
    · exact aside_of_reaper s _ _
    · exact .refl s
  next => exact aside_of_reaper s _ _
  next now peer _ =>
    dsimp only
    split
    all_goals exact aside_of_reaper s s.mutex _
  next now peer next _ =>
    split_ifs
    · exact .refl s
    · exact (aside_of_reaper s s.mutex _).setNode rfl
  next => exact (aside_of_reaper s s.mutex _).setNode rfl
  next => exact (aside_of_reaper s s.mutex _).setNode rfl
  next now peer next hpc =>
    -- the table changes, and no call of `broadcast_sync` has locked it
    refine ⟨rfl, fun w hw => absurd hw (hmutex w ?_), le_refl _, fun _ _ => rfl, fun _ _ h => h⟩
    rw [hpc]
    rfl
  next =>
    split_ifs
    · exact aside_of_reaper s s.mutex _
    · exact .refl s
  next now peer next _ =>
    have hstep : Aside s { s with
        reaper := .relocking now next
        discarded := s.discarded ++ (s.nodes peer).conn.outbox } :=
      ⟨rfl, fun _ _ => rfl, le_refl _, fun _ _ => rfl, fun _ _ h => h⟩
    exact hstep.setNode rfl
  next =>
    split_ifs
    · exact aside_of_reaper s _ _
    · exact .refl s

theorem aside_addPeerInternal (s : TableState) (cfg : NodeConfig) (allocOk : Bool) (now : Int)
    (addr : Bytes) (port : Int) (nodeId : UInt64) (isSeed : Bool) :
    Aside s (s.addPeerInternal cfg allocOk now addr port nodeId isSeed) := by
  unfold TableState.addPeerInternal
  split
  · exact .refl s
  dsimp only
  split
  · exact .refl s
  split
  · exact .refl s
  next hlocked =>
    have hmutex : s.mutex = none := not_not.mp hlocked
    split
    next id _ => exact (Aside.refl s).setNode rfl
    next =>
      split
      · -- the new peer comes in where no message has been
        refine ⟨rfl, fun w hw => absurd hw (by simp [hmutex]), Nat.le_succ _, ?_, ?_⟩
        · intro id hid
          simp only [TableState.messages, TableState.setNode, Function.update_of_ne hid.ne]
        · intro id _ hnil
          by_cases heq : id = s.created
          · subst heq
            simp [TableState.messages, TableState.setNode, PeerConn.init]
          · simpa only [TableState.messages, TableState.setNode, Function.update_of_ne heq]
              using hnil
      · exact .refl s

/-- The sender thread takes messages out and puts none in. -/
theorem accepted_threadStep (mac : Mac) (cfg : NodeConfig) (env : SenderEnv) (c : PeerConn) :
    (threadStep mac cfg env c).accepted = c.accepted := by
  rcases threadStep_cases mac cfg env c with
    ⟨hsame, -, -⟩ | ⟨m, -, -, heq | ⟨-, heq⟩⟩ | ⟨m, -, heq | heq⟩ | ⟨m, -, heq⟩
  · exact hsame.accepted
  all_goals simp only [heq, PeerConn.remove]

theorem aside_senderStep (s : TableState) (mac : Mac) (cfg : NodeConfig) (id : ℕ)
    (env : SenderEnv) : Aside s (s.senderStep mac cfg id env) := by
  apply (Aside.refl s).setNode
  apply accepted_threadStep

end Aside

/-! ## The invariant -/

/-- Each peer of the table has had its turn. -/
structure SyncCall.Complete (call : SyncCall) : Prop where
  turns : call.turns.map Turn.peer = call.peers
  nodup : call.peers.Nodup

namespace SyncLog

/-- A call is on its way through the table: after `call.turns` come the peers of `rest`. -/
structure OnItsWay (s : TableState) (call : SyncCall) (w : ℕ) (rest : List ℕ) : Prop where
  pc : s.broadcasts w = .visiting call.cmd rest.head?
  peers : s.table = call.peers
  split : call.peers = call.turns.map Turn.peer ++ rest

structure Inv (s : SyncLog) : Prop where
  table : s.state.Inv
  finished : ∀ call ∈ s.finished, call.Complete
  current : ∀ call, s.current = some call → ∃ w rest, OnItsWay s.state call w rest
  free : s.current = none → ∀ w, s.state.broadcasts w = .idle
  created : ∀ call ∈ s.calls, ∀ turn ∈ call.turns, turn.peer < s.state.created
  messages : ∀ id, s.state.messages id = s.calls.flatMap (SyncCall.messagesTo id)

theorem inv_init : SyncLog.init.Inv where
  table := TableState.inv_init
  finished := by simp [SyncLog.init]
  current := by simp [SyncLog.init]
  free _ _ := rfl
  created := by simp [SyncLog.init, calls]
  messages _ := rfl

variable {s : SyncLog}

/-- No message has been put where there is no peer. -/
theorem Inv.messages_eq_nil (h : s.Inv) {id : ℕ} (hid : s.state.created ≤ id) :
    s.state.messages id = [] := by
  rw [h.messages id, List.flatMap_eq_nil_iff]
  intro call hcall
  unfold SyncCall.messagesTo
  rw [List.filterMap_eq_nil_iff]
  intro turn hturn
  rw [if_neg]
  intro hmem
  have hlt := h.created call hcall turn hturn
  omega

/-- The step of another thread. -/
theorem Inv.aside (h : s.Inv) {state : TableState} (hinv : state.Inv)
    (hstep : Aside s.state state) : Inv { s with state := state } where
  table := hinv
  finished := h.finished
  current := by
    intro call hcall
    obtain ⟨w, rest, hway⟩ := h.current call hcall
    have hmutex := (h.table.broadcast_holds w).mp (by rw [hway.pc]; simp)
    refine ⟨w, rest, ?_, (hstep.table w hmutex).trans hway.peers, hway.split⟩
    rw [hstep.broadcasts]
    exact hway.pc
  free := by
    intro hnone w
    rw [hstep.broadcasts]
    exact h.free hnone w
  created := fun call hcall turn hturn => (h.created call hcall turn hturn).trans_le hstep.created
  messages := by
    intro id
    by_cases hid : id < s.state.created
    · exact (hstep.messages id hid).trans (h.messages id)
    · have hnil := h.messages_eq_nil (not_lt.mp hid)
      calc
        state.messages id = [] := hstep.fresh id (not_lt.mp hid) hnil
        _ = s.state.messages id := hnil.symm
        _ = _ := h.messages id

/-- Whoever is in the loop of `broadcast_sync` is the current call. -/
theorem Inv.current_of_visiting (h : s.Inv) {w : ℕ} {cmd : ControlCmd} {peer : Option ℕ}
    (hpc : s.state.broadcasts w = .visiting cmd peer) :
    ∃ call rest, s.current = some call ∧ OnItsWay s.state call w rest ∧ call.cmd = cmd ∧
      rest.head? = peer := by
  cases hcurrent : s.current with
  | none =>
      rw [h.free hcurrent w] at hpc
      exact absurd hpc (by simp)
  | some call =>
      obtain ⟨w', rest, hway⟩ := h.current call hcurrent
      have hmutex := (h.table.broadcast_holds w).mp (by rw [hpc]; simp)
      have hmutex' := (h.table.broadcast_holds w').mp (by rw [hway.pc]; simp)
      rw [hmutex] at hmutex'
      obtain rfl := TableHolder.broadcast.inj (Option.some.inj hmutex')
      obtain ⟨hcmd, hhead⟩ := BroadcastPc.visiting.inj (hway.pc.symm.trans hpc)
      exact ⟨call, rest, rfl, hway, hcmd, hhead⟩

/-- A call locks the table. -/
theorem Inv.begin (h : s.Inv) (w : ℕ) (cmd : ControlCmd) (hmutex : s.state.mutex = none) :
    Inv
      { s with
        state := { s.state with
          mutex := some (.broadcast w)
          broadcasts := Function.update s.state.broadcasts w
            (.visiting cmd s.state.table.head?) }
        current := some ⟨cmd, s.state.table, []⟩ } := by
  have hnone : s.current = none := by
    cases hcurrent : s.current with
    | none => rfl
    | some call =>
        obtain ⟨w', rest, hway⟩ := h.current call hcurrent
        have hmutex' := (h.table.broadcast_holds w').mp (by rw [hway.pc]; simp)
        exact absurd (hmutex.symm.trans hmutex') (by simp)
  have hcalls : ∀ id, (s.finished ++ [(⟨cmd, s.state.table, []⟩ : SyncCall)]).flatMap
      (SyncCall.messagesTo id) = s.calls.flatMap (SyncCall.messagesTo id) := by
    intro id
    simp [calls, hnone, SyncCall.messagesTo]
  refine ⟨h.table.broadcastLock hmutex w cmd, h.finished, ?_, by simp, ?_, ?_⟩
  · intro call hcall
    obtain rfl := Option.some.inj hcall
    exact ⟨w, s.state.table, ⟨Function.update_self .., rfl, rfl⟩⟩
  · intro call hcall turn hturn
    rcases List.mem_append.mp hcall with hmem | hmem
    · exact h.created call (List.mem_append_left _ hmem) turn hturn
    · obtain rfl := List.mem_singleton.mp hmem
      exact absurd hturn List.not_mem_nil
  · exact fun id => (h.messages id).trans (hcalls id).symm

/-- A call unlocks the table at its end. -/
theorem Inv.finish (h : s.Inv) {w : ℕ} {cmd : ControlCmd}
    (hpc : s.state.broadcasts w = .visiting cmd none) :
    Inv
      ⟨{ s.state with
          mutex := none
          broadcasts := Function.update s.state.broadcasts w .idle }, s.calls, none⟩ := by
  obtain ⟨call, rest, hcurrent, hway, -, hhead⟩ := h.current_of_visiting hpc
  have hmutex := (h.table.broadcast_holds w).mp (by rw [hpc]; simp)
  have hunlock := h.table.broadcastUnlock hmutex
  obtain rfl := List.head?_eq_none_iff.mp hhead
  have hcomplete : call.Complete := by
    refine ⟨?_, hway.peers ▸ h.table.nodup⟩
    rw [hway.split, List.append_nil]
  refine ⟨hunlock, ?_, by simp, ?_, ?_, ?_⟩
  · intro call' hcall'
    rcases List.mem_append.mp hcall' with hmem | hmem
    · exact h.finished call' hmem
    · rw [hcurrent] at hmem
      exact List.mem_singleton.mp hmem ▸ hcomplete
  · exact fun _ => hunlock.broadcasts_idle (by simp)
  · intro call' hcall'
    rw [calls_none] at hcall'
    exact h.created call' hcall'
  · intro id
    rw [calls_none]
    exact h.messages id

/-- What a turn does beside. -/
theorem broadcastStep_frame (s : TableState) (cfg : NodeConfig) {w : ℕ} {cmd : ControlCmd}
    {peer : ℕ} (hpc : s.broadcasts w = .visiting cmd (some peer)) (allocOk : Bool) (time : Int) :
    (s.broadcastStep cfg w allocOk time).broadcasts w = .visiting cmd (tailqNext peer s.table) ∧
      (s.broadcastStep cfg w allocOk time).table = s.table ∧
      (s.broadcastStep cfg w allocOk time).created = s.created := by
  unfold TableState.broadcastStep
  simp only [hpc]
  split_ifs
  all_goals exact ⟨Function.update_self .., rfl, rfl⟩

/-- What a turn does to the outboxes. -/
theorem messages_turn (s : TableState) (cfg : NodeConfig) {w : ℕ} {cmd : ControlCmd} {peer : ℕ}
    (hpc : s.broadcasts w = .visiting cmd (some peer)) (allocOk : Bool) (time : Int) (id : ℕ) :
    (s.broadcastStep cfg w allocOk time).messages id =
      s.messages id ++
        SyncCall.messagesTo id
          ⟨cmd, s.table, [⟨peer, time, (s.nodes peer).offer cfg allocOk⟩]⟩ := by
  unfold TableState.broadcastStep PeerNode.offer SyncCall.messagesTo
  simp only [hpc]
  split_ifs with hown halloc hroom
  · simp [TableState.messages]
  · simp [TableState.messages]
  · by_cases hid : id = peer
    · subst hid
      simp [TableState.messages, TableState.setNode, PeerConn.broadcast, hroom]
    · simp [TableState.messages, TableState.setNode, hid, Ne.symm hid]
  · by_cases hid : id = peer
    · subst hid
      simp [TableState.messages, TableState.setNode, PeerConn.broadcast, hroom]
    · simp [TableState.messages, TableState.setNode, hid, Ne.symm hid]

/-- The current call goes on to the next peer. -/
theorem Inv.turn (h : s.Inv) (cfg : NodeConfig) {w : ℕ} {cmd : ControlCmd} {peer : ℕ}
    (hpc : s.state.broadcasts w = .visiting cmd (some peer)) (allocOk : Bool) (time : Int) :
    Inv
      { s with
        state := s.state.broadcastStep cfg w allocOk time
        current := s.current.map fun call =>
          { call with
            turns := call.turns ++ [⟨peer, time, (s.state.nodes peer).offer cfg allocOk⟩] } } := by
  obtain ⟨call, rest, hcurrent, hway, rfl, hhead⟩ := h.current_of_visiting hpc
  obtain ⟨rest, rfl⟩ := List.head?_eq_some_iff.mp hhead
  have hstep := broadcastStep_frame s.state cfg hpc allocOk time
  have hnodup := h.table.nodup
  rw [hway.peers, hway.split] at hnodup
  have hdone : peer ∉ call.turns.map Turn.peer := fun hmem =>
    (List.disjoint_of_nodup_append hnodup) hmem List.mem_cons_self
  have hmem : peer ∈ s.state.table := h.table.broadcast_mem w _ peer hpc
  refine ⟨h.table.broadcastStep cfg w allocOk time, h.finished, ?_, ?_, ?_, ?_⟩
  · intro call' hcall'
    rw [hcurrent] at hcall'
    obtain rfl := Option.some.inj hcall'
    refine ⟨w, rest, ?_, hstep.2.1.trans hway.peers, ?_⟩
    · rw [hstep.1, hway.peers, hway.split, tailqNext_append hdone]
    · rw [hway.split]
      simp
  · simp [hcurrent]
  · intro call' hcall' turn hturn
    rw [hstep.2.2]
    rcases List.mem_append.mp hcall' with hfinished | hlast
    · exact h.created call' (List.mem_append_left _ hfinished) turn hturn
    · rw [hcurrent] at hlast
      obtain rfl := List.mem_singleton.mp hlast
      rcases List.mem_append.mp hturn with hturn | hturn
      · refine h.created call (List.mem_append_right _ ?_) turn hturn
        rw [hcurrent]
        exact List.mem_singleton_self call
      · obtain rfl := List.mem_singleton.mp hturn
        exact h.table.table_lt peer hmem
  · intro id
    rw [messages_turn s.state cfg hpc, h.messages id]
    simp [calls, hcurrent, SyncCall.messagesTo]

/-! ## Whole runs -/

/-- `broadcast_sync` returns at once or waits for the lock, or locks the table. -/
theorem broadcastBegin_cases (s : TableState) (w : ℕ) (cmd : ControlCmd) :
    s.broadcastBegin w cmd = s ∨
      (s.mutex = none ∧ s.broadcasts w = .idle ∧ s.broadcastBegin w cmd =
        { s with
          mutex := some (.broadcast w)
          broadcasts := Function.update s.broadcasts w (.visiting cmd s.table.head?) }) := by
  unfold TableState.broadcastBegin
  split
  · exact Or.inl rfl
  · split
    next hidle =>
      split
      next hmutex => exact Or.inr ⟨hmutex, hidle, rfl⟩
      next => exact Or.inl rfl
    next => exact Or.inl rfl

theorem Inv.step (h : s.Inv) (mac : Mac) (cfg : NodeConfig) (event : TableEvent) :
    (s.step mac cfg event).Inv := by
  have hinv := h.table.step mac cfg event
  cases event with
  | reaper now hello => exact h.aside hinv (aside_reaperStep h.table cfg now hello)
  | addPeer call =>
      cases call with
      | peer => exact h.aside hinv (aside_addPeerInternal s.state cfg ..)
      | peerWithNode => exact h.aside hinv (aside_addPeerInternal s.state cfg ..)
  | sender id env => exact h.aside hinv (aside_senderStep s.state mac cfg id env)
  | broadcast w allocOk time =>
      cases hpc : s.state.broadcasts w with
      | idle =>
          simp only [SyncLog.step, TableState.step, TableState.broadcastStep, hpc]
          exact h
      | visiting cmd peer =>
          cases peer with
          | none =>
              simp only [SyncLog.step, TableState.step, TableState.broadcastStep, hpc]
              exact h.finish hpc
          | some peer =>
              simp only [SyncLog.step, TableState.step, hpc]
              exact h.turn cfg hpc allocOk time
  | broadcastBegin w cmd =>
      rcases broadcastBegin_cases s.state w cmd with hsame | ⟨hmutex, hidle, hlock⟩
      · have hstep : s.step mac cfg (.broadcastBegin w cmd) = s := by
          simp only [SyncLog.step, TableState.step, hsame]
          split
          next hidle hvisiting => exact absurd (hidle.symm.trans hvisiting) (by simp)
          next => rfl
        rw [hstep]
        exact h
      · simp only [SyncLog.step, TableState.step, hlock, hidle, Function.update_self]
        exact h.begin w cmd hmutex

theorem inv_run (mac : Mac) (cfg : NodeConfig) (events : List TableEvent) :
    (SyncLog.run mac cfg events).Inv := by
  unfold SyncLog.run
  have hrun : ∀ start : SyncLog, start.Inv → (events.foldl (SyncLog.step mac cfg) start).Inv := by
    induction events with
    | nil => exact fun _ hinv => hinv
    | cons event events ih => exact fun start hinv => ih _ (hinv.step mac cfg event)
  exact hrun .init inv_init

theorem state_step (mac : Mac) (cfg : NodeConfig) (s : SyncLog) (event : TableEvent) :
    (s.step mac cfg event).state = s.state.step mac cfg event := by
  cases event with
  | broadcastBegin w cmd =>
      simp only [SyncLog.step]
      split <;> rfl
  | broadcast w allocOk time =>
      simp only [SyncLog.step]
      split <;> rfl
  | _ => rfl

/-- The log is read by nobody. -/
theorem state_run (mac : Mac) (cfg : NodeConfig) (events : List TableEvent) :
    (SyncLog.run mac cfg events).state = TableState.run mac cfg events := by
  unfold SyncLog.run TableState.run
  have hrun : ∀ start : SyncLog, (events.foldl (SyncLog.step mac cfg) start).state =
      events.foldl (TableState.step mac cfg) start.state := by
    induction events with
    | nil => exact fun _ => rfl
    | cons event events ih =>
        intro start
        rw [List.foldl_cons, List.foldl_cons, ih, state_step]
  exact hrun .init

end SyncLog

/-- **A broadcast reaches every peer.**  Whatever the other threads do, a call of
`broadcast_sync` that has ended has offered its message once to each peer of the table, in
the order of the table; and the messages that an outbox has accepted are those the calls
have put into it, in the order of the calls. -/
theorem broadcast_reaches_all (mac : Mac) (cfg : NodeConfig) (events : List TableEvent) :
    let s := SyncLog.run mac cfg events
    s.state = TableState.run mac cfg events ∧ (∀ call ∈ s.finished, call.Complete) ∧
      ∀ id, s.state.messages id = s.calls.flatMap (SyncCall.messagesTo id) :=
  have h := SyncLog.inv_run mac cfg events
  ⟨SyncLog.state_run mac cfg events, h.finished, h.messages⟩

/-- Two peers get the message of one call. -/
example :
    let cmd : ControlCmd := ⟨5, 1, 9, 0, [107], [118]⟩
    let s := SyncLog.run Mac.constant plainNode
      ([.addPeer (.peer true 0 [97] 1), .addPeer (.peer true 0 [98] 2), .broadcastBegin 0 cmd] ++
        List.replicate 3 (.broadcast 0 true 4))
    s.finished.length = 1 ∧ s.state.messages 0 = [TableState.syncMsg cmd 4] ∧
      s.state.messages 1 = [TableState.syncMsg cmd 4] := by
  decide +kernel

end Dmmr.Cluster
