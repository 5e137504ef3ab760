import Dmmr.Cluster.Mesh

/-!
# One connection after the other

`cluster_listener` accepts a connection when `handle_cluster_connection` has returned from the
last one.  The connection of a HELLO ends with the answer.  The sender thread that a node has
for each of its peers connects as well, and keeps its connection until sending fails or the
session has run out.  All the while the listener of the peer takes no other connection, and
whoever greets the peer waits three seconds for nothing.

The module adds the connection in service to the nodes.  Their tables are then tables of a run
without listeners (`sites_run`), and a node answers nobody but the caller whose connection is in
service (`one_at_a_time`).

So a round of `discover_once` need not reach anybody: while a seed serves the connection of a
sender thread, no round with this seed gets all its answers (`answered_le_of_sender`).  What
remains is that rounds do their work if every HELLO is answered, whatever has failed in rounds
before or between them: when all nodes with seeds have had such a round after each other as many
times as there are nodes, a node with seeds and a node that is connected with it through seeds
know each other (`mesh_of_rounds`).
-/

namespace Dmmr.Cluster

open Words Store Wire

variable {ι : Type*}

namespace Deployment

variable {d : Deployment ι} {a b : ι}

/-! ## What a node does -/

/-- What a node does in a step, other than having its HELLO read, and apart from its table. -/
inductive Moves (d : Deployment ι) (a : ι) (t t' : Site ι) : Prop
  | stays (hround : t.SameRound t') (hagenda : t'.agenda = t.agenda) (hstage : t'.stage = t.stage)
  | begins (hidle : t.begun = t.ended) (hseeds : d.seeds a ≠ [])
      (heq : t' = t.begin (d.cfg a) (d.seeds a))
  | rests (hagenda : t.agenda = []) (heq : t' = t.rest)
  | tasks (allocOk : Bool) (now : Int) (snapshotOk : Bool)
      (heq : t' = t.task (d.cfg a) allocOk now snapshotOk)
  | calls (b : ι) (hround : t.SameRound t') (hagenda : t'.agenda = t.agenda)
      (hstage : t'.stage = .greeting b)
  | hears (b : ι) (hround : t.SameRound t') (hagenda : t'.agenda = t.agenda)
      (hpeer : t.stage.peer = some b) (hstage : t.stage ≠ .greeting b)
      (hpeer' : t'.stage.peer = some b) (hstage' : t'.stage ≠ .entered b)
  | returns (b : ι) (items : List Endpoint) (hstage : t.stage = .adding b [] 0 items)
      (heq : t' = t.finish 0 items)
  | fails (hanswered : t'.answered = t.answered) (hfailed : t'.failed = true)
      (hstage : t'.stage = .ready)

/-- The node makes such a step. -/
def MovesIn (d : Deployment ι) (a : ι) (s s' : ι → Site ι) : Prop := d.Moves a (s a) (s' a)

theorem movesIn_of_idle {s s' : ι → Site ι} (h : Idle a s s') : d.MovesIn a s s' := by
  obtain ⟨peers, hpeers⟩ := h
  rw [MovesIn, hpeers]
  exact .stays ⟨rfl, rfl, rfl⟩ rfl rfl

theorem Moves.finish_fail (t : Site ι) {rc : Int} (hrc : rc ≠ 0) (items : List Endpoint) :
    d.Moves a t (t.finish rc items) :=
  .fails (Site.answered_finish ..) (by simp [Site.failed_finish, hrc]) (Site.stage_finish ..)

/-- Nobody is entered in such a step. -/
theorem Moves.entered {t t' : Site ι} (h : d.Moves a t t') (hstage' : t'.stage = .entered b) :
    t.stage = .entered b := by
  cases h with
  | stays _ _ hstage => rw [← hstage, hstage']
  | begins _ _ heq | rests _ heq =>
      rw [heq] at hstage'
      exact hstage'
  | tasks _ _ _ heq => rwa [heq, Site.stage_task] at hstage'
  | calls _ _ _ hstage => simp [hstage] at hstage'
  | hears c _ _ _ _ hpeer' hne =>
      rw [hstage'] at hpeer'
      obtain rfl : b = c := Option.some.inj hpeer'
      exact absurd hstage' hne
  | returns _ _ _ heq => simp [heq, Site.stage_finish] at hstage'
  | fails _ _ hstage => simp [hstage] at hstage'

/-- The node has got all its answers in no round after the given one: a round that has begun
since then has failed, or has a HELLO to `b` that has not been read. -/
structure Waits (d : Deployment ι) (b : ι) (round : ℕ) (t : Site ι) : Prop where
  answered : t.answered ≤ round
  pending : round < t.begun → t.failed = false →
    ∃ task ∈ t.agenda, ∃ e, task.target = some e ∧ d.At b e.addr e.port
  stage : round < t.begun → t.stage.peer = some b → t.stage = .greeting b

section Waits

variable {round : ℕ} {t t' : Site ι}

/-- The node does not get on in its round. -/
theorem Waits.keep (h : d.Waits b round t) (hround : t.SameRound t')
    (hagenda : t'.agenda = t.agenda)
    (hstage : round < t.begun → t'.stage.peer = some b → t'.stage = .greeting b) :
    d.Waits b round t' := by
  refine ⟨hround.answered ▸ h.answered, fun hlt hfailed => ?_, fun hlt => ?_⟩
  · rw [hagenda]
    exact h.pending (hround.begun ▸ hlt) (hround.failed ▸ hfailed)
  · exact hstage (hround.begun ▸ hlt)

theorem Waits.task (h : d.Waits b round t) (cfg : NodeConfig) (allocOk : Bool) (now : Int)
    (snapshotOk : Bool) : d.Waits b round (t.task cfg allocOk now snapshotOk) := by
  have hround := t.sameRound_task cfg allocOk now snapshotOk
  refine ⟨hround.answered ▸ h.answered, fun hlt hfailed => ?_, fun hlt => ?_⟩
  · obtain ⟨task, hmem, e, he, hat⟩ := h.pending (hround.begun ▸ hlt) (hround.failed ▸ hfailed)
    refine ⟨task, ?_, e, he, hat⟩
    -- what is done is not a greeting
    have htail : ∀ {first rest}, t.agenda = first :: rest → first.target = none → task ∈ rest := by
      intro first rest hagenda hfirst
      rw [hagenda] at hmem
      rcases List.mem_cons.mp hmem with rfl | hmem
      · exact absurd (hfirst.symm.trans he) (by simp)
      · exact hmem
    unfold Site.task
    split
    next hagenda => exact htail hagenda rfl
    next hagenda => exact htail hagenda rfl
    next hagenda => exact List.mem_append_right _ (htail hagenda rfl)
    next => exact hmem
  · rw [Site.stage_task]
    exact h.stage (hround.begun ▸ hlt)

/-- A call has ended, and it was not for `b`. -/
theorem Waits.finish (h : d.Waits b round t) (hok : d.SiteOk a t) {c : ι} {items : List Endpoint}
    (hstage : t.stage = .adding c [] 0 items) : d.Waits b round (t.finish 0 items) := by
  refine ⟨(Site.answered_finish t 0 items).symm ▸ h.answered, fun hlt hfailed => ?_, ?_⟩
  · rw [Site.begun_finish] at hlt
    have hcb : c ≠ b := by
      rintro rfl
      have hgreeting := h.stage hlt (by rw [hstage]; rfl)
      simp [hstage] at hgreeting
    rw [Site.failed_finish] at hfailed
    obtain ⟨task, hmem, e, he, hat⟩ := h.pending hlt (by simpa using hfailed)
    obtain ⟨e', he', hat'⟩ := hok.head c (by rw [hstage]; rfl)
    obtain ⟨first, hfirst, htarget⟩ := Option.bind_eq_some_iff.mp he'
    have hagenda : t.agenda = first :: t.agenda.tail := List.eq_cons_of_mem_head? hfirst
    obtain ⟨new, hnew⟩ := t.agenda_finish hagenda 0 items
    rw [hagenda] at hmem
    rcases List.mem_cons.mp hmem with rfl | hmem
    · obtain rfl : e = e' := Option.some.inj (he.symm.trans htarget)
      exact absurd (hat'.unique hat) hcb
    · exact ⟨task, hnew ▸ List.mem_append_right new hmem, e, he, hat⟩
  · intro _ hpeer
    simp [Site.stage_finish, HelloStage.peer] at hpeer

theorem Waits.moves (h : d.Waits b round t) (hok : d.SiteOk a t) (hseed : d.Seed a b)
    (hmoves : d.Moves a t t') : d.Waits b round t' := by
  cases hmoves with
  | stays hround hagenda hstage =>
      refine h.keep hround hagenda fun hlt hpeer => ?_
      rw [hstage] at hpeer ⊢
      exact h.stage hlt hpeer
  | begins hidle hseeds heq =>
      obtain ⟨e, he, hat⟩ := hseed
      have hready : t.stage = .ready := hok.ready (by simp [hok.idle hidle])
      rw [heq]
      refine ⟨h.answered, fun _ _ => ⟨.greetSeed e, ?_, e, rfl, hat⟩, fun _ hpeer => ?_⟩
      · exact (mem_discoverOnce_of_seed hseeds he).2
      · simp [Site.begin, hready, HelloStage.peer] at hpeer
  | rests hagenda heq =>
      rw [heq]
      refine ⟨?_, h.pending, h.stage⟩
      cases hfailed : t.failed with
      | true => simpa [Site.rest, hfailed] using h.answered
      | false =>
          -- nothing would be left to do
          have hle : t.begun ≤ round := by
            by_contra hlt
            obtain ⟨task, hmem, -⟩ := h.pending (not_le.mp hlt) hfailed
            simp [hagenda] at hmem
          simpa [Site.rest, hfailed] using hle
  | tasks allocOk now snapshotOk heq =>
      rw [heq]
      exact h.task (d.cfg a) allocOk now snapshotOk
  | calls c hround hagenda hstage =>
      refine h.keep hround hagenda fun _ hpeer => ?_
      rw [hstage] at hpeer ⊢
      obtain rfl : c = b := Option.some.inj hpeer
      rfl
  | hears c hround hagenda hpeer hstage hpeer' _ =>
      refine h.keep hround hagenda fun hlt hb => ?_
      obtain rfl : c = b := Option.some.inj (hpeer'.symm.trans hb)
      exact absurd (h.stage hlt hpeer) hstage
  | returns c items hstage heq =>
      rw [heq]
      exact h.finish hok hstage
  | fails hanswered hfailed hstage =>
      refine ⟨hanswered ▸ h.answered, fun _ hnot => ?_, fun _ hpeer => ?_⟩
      · simp [hfailed] at hnot
      · simp [hstage, HelloStage.peer] at hpeer

end Waits

section Steps

variable [DecidableEq ι]

/-- A step of the node, other than the reading of its HELLO. -/
theorem moves_step (s : ι → Site ι) {event : DiscoveryEvent ι}
    (hnot : ∀ allocOk now, event ≠ .enter event.node allocOk now) :
    d.MovesIn event.node s (d.step s event) := by
  have hself : ∀ a, d.MovesIn a s s := fun a => .stays ⟨rfl, rfl, rfl⟩ rfl rfl
  have hupdate : ∀ {a t}, d.Moves a (s a) t → d.MovesIn a s (Function.update s a t) :=
    fun h => by rwa [MovesIn, Function.update_self]
  have hfail : ∀ {a}, d.MovesIn a s (Function.update s a ((s a).finish (-1) [])) :=
    hupdate (.finish_fail _ (by decide) [])
  cases event with
  | begin a =>
      simp only [Deployment.step]
      split_ifs with hbegin
      · exact hupdate (.begins hbegin.1 hbegin.2 rfl)
      · exact hself a
  | rest a =>
      simp only [Deployment.step]
      split_ifs with hrest
      · exact hupdate (.rests hrest.2 rfl)
      · exact hself a
  | task a allocOk now snapshotOk => exact hupdate (.tasks allocOk now snapshotOk rfl)
  | connect a peer =>
      simp only [Deployment.step]
      split
      next =>
        cases peer with
        | none => exact hfail
        | some b =>
            simp only
            split_ifs
            · exact hupdate (.calls b ⟨rfl, rfl, rfl⟩ rfl rfl)
            · exact hself a
      next => exact hself a
  | enter a allocOk now => exact absurd rfl (hnot allocOk now)
  | reply a allocOk sendOk =>
      simp only [Deployment.step]
      split
      next b hstage =>
        split
        next => exact hfail
        next =>
          cases sendOk with
          | false => exact hfail
          | true =>
              exact hupdate (.hears b ⟨rfl, rfl, rfl⟩ rfl (congrArg HelloStage.peer hstage)
                (by simp [DiscoveryEvent.node, hstage]) rfl (by simp))
      next => exact hself a
  | receive a allocOk =>
      simp only [Deployment.step]
      split
      next b bytes hstage =>
        unfold Site.receive
        split
        next => exact hfail
        next =>
          split_ifs
          · exact hfail
          · exact hupdate (.hears b ⟨rfl, rfl, rfl⟩ rfl (congrArg HelloStage.peer hstage)
              (by simp [DiscoveryEvent.node, hstage]) rfl (by simp))
      next => exact hself a
  | add a allocOk now =>
      simp only [Deployment.step]
      split
      next b e todo rc items hstage =>
        exact hupdate (.hears b ⟨rfl, rfl, rfl⟩ rfl (congrArg HelloStage.peer hstage)
          (by simp [DiscoveryEvent.node, hstage]) rfl (by simp))
      next b rc items hstage =>
        by_cases hrc : rc = 0
        · subst hrc
          exact hupdate (.returns b items hstage rfl)
        · exact hupdate (.finish_fail _ hrc items)
      next => exact hself a
  | reap a addr port => exact hupdate (.stays ⟨rfl, rfl, rfl⟩ rfl rfl)
  | healthcheck a b allocOk now =>
      simp only [Deployment.step]
      split_ifs
      · exact movesIn_of_idle (idle_getD_welcome s a b allocOk now a)
      · exact hself a
  | giveUp a =>
      simp only [Deployment.step]
      split
      next =>
        exact hupdate (.fails (Site.answered_finish ..) (by simp [Site.failed_finish])
          (Site.stage_finish ..))
      next => exact hfail
      next => exact hfail
      next => exact hself a
  | giveUpCheck a b =>
      simp only [Deployment.step]
      split_ifs
      · exact hupdate (.stays ⟨rfl, rfl, rfl⟩ rfl rfl)
      · exact hself a
  | late a b allocOk now =>
      simp only [Deployment.step]
      split_ifs
      · obtain ⟨peers, hpeers⟩ := idle_getD_welcome (d := d) s a b allocOk now a
        rw [MovesIn, DiscoveryEvent.node, Function.update_self, hpeers]
        exact .stays ⟨rfl, rfl, rfl⟩ rfl rfl
      · exact hself a

theorem entered_step {s : ι → Site ι} {event : DiscoveryEvent ι}
    (hnot : ∀ allocOk now, event ≠ .enter event.node allocOk now)
    (hstage : (d.step s event a).stage = .entered b) : (s a).stage = .entered b := by
  by_cases ha : a = event.node
  · subst ha
    exact (moves_step s hnot).entered hstage
  · obtain ⟨peers, hpeers⟩ := idle_step (d := d) s ha
    rwa [hpeers] at hstage

/-- Who has an answer, or none, does not wait for it. -/
theorem stage_reply {s : ι → Site ι} (hstage : (s a).stage = .entered b) (allocOk sendOk : Bool) :
    (d.step s (.reply a allocOk sendOk) a).stage ≠ .entered b := by
  simp only [Deployment.step, hstage]
  cases sendPeerList (d.cfg b) allocOk (s b).peers with
  | none => simp [Site.stage_finish]
  | some bytes => cases sendOk <;> simp [Site.stage_finish]

end Steps

end Deployment

/-! ## Connections in service -/

/-- What `handle_cluster_connection` is busy with. -/
inductive Conn (ι : Type*)
  /-- A call of `send_hello`, after the caller has been entered. -/
  | hello (caller : ι)
  /-- The connection of a `peer_sender_thread`. -/
  | sender (owner : ι)
  deriving DecidableEq

/-- The nodes, and the connection that the listener of each of them serves. -/
structure Network (ι : Type*) where
  sites : ι → Site ι
  serving : ι → Option (Conn ι)

def Network.init : Network ι := ⟨fun _ => .init, fun _ => none⟩

/-- The caller in service waits for its answer. -/
def Network.Owes (net : Network ι) (b : ι) : Prop :=
  ∃ a, net.serving b = some (.hello a) ∧ (net.sites a).stage = .entered b

inductive NetworkEvent (ι : Type*)
  | discovery (event : DiscoveryEvent ι)
  /-- The listener of `b` accepts the connection of the sender thread that `a` has for `b`. -/
  | acceptSender (b a : ι)
  /-- `handle_cluster_connection` returns at `b`. -/
  | close (b : ι)

/-- No entry of a table is lost. -/
def NetworkEvent.Healthy : NetworkEvent ι → Prop
  | discovery event => event.Healthy
  | _ => True

namespace Deployment

variable [DecidableEq ι] [Fintype ι] (d : Deployment ι)

instance (net : Network ι) (b : ι) : Decidable (net.Owes b) :=
  inferInstanceAs (Decidable (∃ _, _))

/-- The listener of the seed is there for `request_snapshot`. -/
def snapshotServed (net : Network ι) (a : ι) : Bool :=
  match (net.sites a).agenda with
  | .requestSnapshot seed :: _ => decide (∃ b, d.At b seed.addr seed.port ∧ net.serving b = none)
  | _ => false

/-- What becomes of an event: a HELLO is read when the listener is free. -/
def permit (net : Network ι) : DiscoveryEvent ι → Option (DiscoveryEvent ι)
  | .enter a allocOk now =>
      match (net.sites a).stage with
      | .greeting b => if net.serving b = none then some (.enter a allocOk now) else none
      | _ => none
  | .healthcheck a b allocOk now =>
      if net.serving b = none then some (.healthcheck a b allocOk now) else none
  | .late a b allocOk now => if net.serving b = none then some (.late a b allocOk now) else none
  | .task a allocOk now snapshotOk =>
      some (.task a allocOk now (snapshotOk && d.snapshotServed net a))
  | event => some event

/-- The connections in service after the event.  A caller that is turned away is gone at once,
and one that has its answer as well. -/
def serve (net : Network ι) : DiscoveryEvent ι → ι → Option (Conn ι)
  | .enter a allocOk now =>
      match (net.sites a).stage with
      | .greeting b =>
          if (d.welcome net.sites a b allocOk now).isSome then
            Function.update net.serving b (some (.hello a))
          else net.serving
      | _ => net.serving
  | .reply a _ _ =>
      match (net.sites a).stage with
      | .entered b => Function.update net.serving b none
      | _ => net.serving
  | _ => net.serving

def netStep (net : Network ι) : NetworkEvent ι → Network ι
  | .discovery event =>
      match d.permit net event with
      | none => net
      | some event' => ⟨d.step net.sites event', d.serve net event'⟩
  | .acceptSender b a =>
      if net.serving b = none ∧ (net.sites a).peers.any fun p => d.At b p.addr p.port then
        { net with serving := Function.update net.serving b (some (.sender a)) }
      else net
  | .close b =>
      -- a caller that is owed an answer gets one, or the call fails in `reply`
      if net.Owes b then net else { net with serving := Function.update net.serving b none }

def netRun (net : Network ι) (events : List (NetworkEvent ι)) : Network ι :=
  events.foldl d.netStep net

variable {d} {net : Network ι} {a b : ι}

/-! ## The nodes run as without listeners -/

omit [DecidableEq ι] in
/-- An event takes place as it is, and a HELLO that is read finds the listener free; or it is a
task, of which the outcome may be another. -/
theorem permit_cases {event event' : DiscoveryEvent ι} (h : d.permit net event = some event') :
    (event' = event ∧ ∀ a allocOk now, event = .enter a allocOk now →
        ∃ b, (net.sites a).stage = .greeting b ∧ net.serving b = none) ∨
      ∃ a allocOk now snapshotOk snapshotOk', event = .task a allocOk now snapshotOk ∧
        event' = .task a allocOk now snapshotOk' := by
  cases event with
  | enter a allocOk now =>
      simp only [permit] at h
      split at h
      next b hstage =>
        split_ifs at h with hfree
        refine Or.inl ⟨(Option.some.inj h).symm, fun a' _ _ heq => ?_⟩
        obtain rfl : a = a' := (DiscoveryEvent.enter.inj heq).1
        exact ⟨b, hstage, hfree⟩
      next => simp at h
  | healthcheck | late =>
      simp only [permit] at h
      split_ifs at h
      exact Or.inl ⟨(Option.some.inj h).symm, by simp⟩
  | task => exact Or.inr ⟨_, _, _, _, _, rfl, (Option.some.inj h).symm⟩
  | _ => exact Or.inl ⟨(Option.some.inj h).symm, by simp⟩

omit [DecidableEq ι] in
theorem permit_healthy {event event' : DiscoveryEvent ι} (h : d.permit net event = some event')
    (hhealthy : event.Healthy) : event'.Healthy := by
  rcases permit_cases h with ⟨rfl, -⟩ | ⟨a, allocOk, now, snapshotOk, snapshotOk', rfl, rfl⟩
  · exact hhealthy
  · exact hhealthy

omit [DecidableEq ι] in
theorem permit_enter {event : DiscoveryEvent ι} {allocOk : Bool} {now : Int}
    (h : d.permit net event = some (.enter a allocOk now)) :
    ∃ b, (net.sites a).stage = .greeting b ∧ net.serving b = none := by
  rcases permit_cases h with ⟨heq, hfree⟩ | ⟨_, _, _, _, _, -, heq⟩
  · exact hfree a allocOk now heq.symm
  · simp at heq

theorem sites_netStep (net : Network ι) (event : NetworkEvent ι) :
    ∃ events, (d.netStep net event).sites = d.run net.sites events ∧
      (event.Healthy → ∀ event' ∈ events, event'.Healthy) := by
  cases event with
  | discovery event =>
      simp only [netStep]
      cases hpermit : d.permit net event with
      | none => exact ⟨[], rfl, by simp⟩
      | some event' =>
          refine ⟨[event'], rfl, fun hhealthy => ?_⟩
          simpa using permit_healthy hpermit hhealthy
  | acceptSender b a | close b =>
      simp only [netStep]
      split_ifs
      · exact ⟨[], rfl, by simp⟩
      · exact ⟨[], rfl, by simp⟩

/-- The nodes of a run with listeners are those of a run without. -/
theorem sites_run (net : Network ι) (events : List (NetworkEvent ι)) :
    ∃ events', (d.netRun net events).sites = d.run net.sites events' ∧
      ((∀ event ∈ events, event.Healthy) → ∀ event ∈ events', event.Healthy) := by
  induction events generalizing net with
  | nil => exact ⟨[], rfl, fun _ => by simp⟩
  | cons event events ih =>
      obtain ⟨first, hfirst, hhealthy⟩ := sites_netStep (d := d) net event
      obtain ⟨rest, hrest, hhealthy'⟩ := ih (d.netStep net event)
      refine ⟨first ++ rest, ?_, fun hall => ?_⟩
      · calc (d.netRun net (event :: events)).sites
            = d.run (d.netStep net event).sites rest := hrest
          _ = d.run (d.run net.sites first) rest := by rw [hfirst]
          _ = d.run net.sites (first ++ rest) := (List.foldl_append).symm
      · obtain ⟨hevent, hevents⟩ := List.forall_mem_cons.mp hall
        exact List.forall_mem_append.mpr ⟨hhealthy hevent, hhealthy' hevents⟩

theorem Ok.netRun (h : d.Ok net.sites) (events : List (NetworkEvent ι)) :
    d.Ok (d.netRun net events).sites := by
  obtain ⟨events', heq, -⟩ := sites_run (d := d) net events
  rw [heq]
  exact h.run events'

/-! ## One answer at a time -/

/-- Whoever waits for an answer is the caller in service. -/
def Serves (net : Network ι) : Prop :=
  ∀ a b, (net.sites a).stage = .entered b → net.serving b = some (.hello a)

omit [Fintype ι] in
/-- A HELLO is read. -/
theorem Serves.enter (h : Serves net) {allocOk : Bool} {now : Int}
    (hstage : (net.sites a).stage = .greeting b) (hfree : net.serving b = none) :
    Serves ⟨d.step net.sites (.enter a allocOk now), d.serve net (.enter a allocOk now)⟩ := by
  intro i c hi
  simp only [Deployment.step, Deployment.serve, hstage] at hi ⊢
  cases hwelcome : d.welcome net.sites a b allocOk now with
  | none =>
      simp only [hwelcome, Option.isSome_none, Bool.false_eq_true, if_false] at hi ⊢
      by_cases hia : i = a
      · simp [hia, Site.stage_finish] at hi
      · rw [Function.update_of_ne hia] at hi
        exact h i c hi
  | some s' =>
      simp only [hwelcome, Option.isSome_some, if_true] at hi ⊢
      by_cases hia : i = a
      · subst hia
        rw [Function.update_self] at hi
        obtain rfl : b = c := by simpa using hi
        exact Function.update_self ..
      · obtain ⟨peers, hpeers⟩ := idle_welcome hwelcome i
        rw [Function.update_of_ne hia, hpeers] at hi
        have hserving := h i c hi
        -- the listener was free, so nobody else waits for an answer of `b`
        have hcb : c ≠ b := by
          rintro rfl
          simp [hfree] at hserving
        rw [Function.update_of_ne hcb]
        exact hserving

omit [Fintype ι] in
/-- Everything else that the nodes do. -/
theorem Serves.step (h : Serves net) {event : DiscoveryEvent ι}
    (hnot : ∀ allocOk now, event ≠ .enter event.node allocOk now) :
    Serves ⟨d.step net.sites event, d.serve net event⟩ := by
  intro i c hi
  have hserving := h i c (entered_step hnot hi)
  cases event with
  | enter a allocOk now => exact absurd rfl (hnot allocOk now)
  | reply a allocOk sendOk =>
      cases hstage : (net.sites a).stage with
      | entered b =>
          have hcb : c ≠ b := by
            rintro rfl
            have hcaller : some (Conn.hello i) = some (.hello a) :=
              hserving.symm.trans (h a c hstage)
            obtain rfl : i = a := by simpa using hcaller
            exact stage_reply hstage allocOk sendOk hi
          simp only [Deployment.serve, hstage]
          exact (Function.update_of_ne hcb _ _).trans hserving
      | _ => simpa only [Deployment.serve, hstage] using hserving
  | _ => exact hserving

omit [Fintype ι] in
/-- Another connection is served, or none, where nobody waits for an answer. -/
theorem Serves.update (h : Serves net) (hnobody : ∀ i, (net.sites i).stage ≠ .entered b)
    (conn : Option (Conn ι)) :
    Serves { net with serving := Function.update net.serving b conn } := by
  intro i c hi
  have hcb : c ≠ b := fun heq => hnobody i (heq ▸ hi)
  exact (Function.update_of_ne hcb _ _).trans (h i c hi)

theorem Serves.netStep (h : Serves net) (event : NetworkEvent ι) :
    Serves (d.netStep net event) := by
  cases event with
  | discovery event =>
      simp only [Deployment.netStep]
      cases hpermit : d.permit net event with
      | none => exact h
      | some event' =>
          by_cases henter : ∃ a allocOk now, event' = .enter a allocOk now
          · obtain ⟨a, allocOk, now, rfl⟩ := henter
            obtain ⟨b, hstage, hfree⟩ := permit_enter hpermit
            exact h.enter hstage hfree
          · exact h.step fun allocOk now heq => henter ⟨_, allocOk, now, heq⟩
  | acceptSender b a =>
      simp only [Deployment.netStep]
      split_ifs with hfree
      · refine h.update (fun i hi => ?_) _
        simpa [hfree.1] using h i b hi
      · exact h
  | close b =>
      simp only [Deployment.netStep]
      split_ifs with howes
      · exact h
      · exact h.update (fun i hi => howes ⟨i, h i b hi, hi⟩) none

theorem Serves.netRun (h : Serves net) (events : List (NetworkEvent ι)) :
    Serves (d.netRun net events) := by
  induction events generalizing net with
  | nil => exact h
  | cons event events ih => exact ih (h.netStep event)

theorem serves_netRun (d : Deployment ι) (events : List (NetworkEvent ι)) :
    Serves (d.netRun .init events) := by
  have hinit : Serves (Network.init : Network ι) := by simp [Serves, Network.init, Site.init]
  exact hinit.netRun events

/-- A node answers one caller at a time, and nobody while it serves the connection of a sender
thread. -/
theorem one_at_a_time (d : Deployment ι) (events : List (NetworkEvent ι)) {a b : ι}
    (ha : ((d.netRun .init events).sites a).stage = .entered b) :
    (∀ a', ((d.netRun .init events).sites a').stage = .entered b → a' = a) ∧
      ∀ c, (d.netRun .init events).serving b ≠ some (.sender c) := by
  have hserving := d.serves_netRun events a b ha
  refine ⟨fun a' ha' => ?_, fun c hc => ?_⟩
  · have hcaller := d.serves_netRun events a' b ha'
    simpa using hcaller.symm.trans hserving
  · simpa using hc.symm.trans hserving

/-! ## While a sender thread is connected -/

/-- The listener of `b` serves the connection of a sender thread, and `a` waits for `b`. -/
structure Blocked (d : Deployment ι) (a b c : ι) (round : ℕ) (net : Network ι) : Prop where
  ok : d.Ok net.sites
  serves : Serves net
  serving : net.serving b = some (.sender c)
  waits : d.Waits b round (net.sites a)

section Blocked

variable {c : ι} {round : ℕ}

omit [Fintype ι] in
/-- A HELLO is read, by another node. -/
theorem Blocked.enter (h : d.Blocked a b c round net) (hseed : d.Seed a b) {i j : ι}
    {allocOk : Bool} {now : Int} (hstage : (net.sites i).stage = .greeting j)
    (hfree : net.serving j = none) :
    d.serve net (.enter i allocOk now) b = some (.sender c) ∧
      d.Waits b round (d.step net.sites (.enter i allocOk now) a) := by
  -- the listener of `b` is not free
  have hjb : j ≠ b := by
    rintro rfl
    simp [h.serving] at hfree
  constructor
  · simp only [Deployment.serve, hstage]
    split_ifs
    · exact (Function.update_of_ne hjb.symm _ _).trans h.serving
    · exact h.serving
  · by_cases hia : i = a
    · subst hia
      simp only [Deployment.step, hstage]
      cases hwelcome : d.welcome net.sites i j allocOk now with
      | none =>
          dsimp only
          rw [Function.update_self]
          exact h.waits.moves (h.ok i) hseed (.finish_fail _ (by decide) [])
      | some s' =>
          obtain ⟨peers, hpeers⟩ := idle_welcome hwelcome i
          dsimp only
          rw [Function.update_self, hpeers]
          refine h.waits.keep ⟨rfl, rfl, rfl⟩ rfl fun _ hpeer => ?_
          exact absurd (Option.some.inj hpeer) hjb
    · have hidle : Idle a net.sites (d.step net.sites (.enter i allocOk now)) :=
        idle_step net.sites (Ne.symm hia)
      exact h.waits.moves (h.ok a) hseed (movesIn_of_idle hidle)

omit [Fintype ι] in
/-- Everything else that the nodes do. -/
theorem Blocked.step (h : d.Blocked a b c round net) (hseed : d.Seed a b)
    {event : DiscoveryEvent ι} (hnot : ∀ allocOk now, event ≠ .enter event.node allocOk now) :
    d.serve net event b = some (.sender c) ∧ d.Waits b round (d.step net.sites event a) := by
  constructor
  · cases event with
    | enter i allocOk now => exact absurd rfl (hnot allocOk now)
    | reply i allocOk sendOk =>
        cases hstage : (net.sites i).stage with
        | entered j =>
            -- the caller that `j` answers is in service, and at `b` a sender thread is
            have hjb : j ≠ b := by
              rintro rfl
              have hserving := h.serves i j hstage
              simp [h.serving] at hserving
            simp only [Deployment.serve, hstage]
            exact (Function.update_of_ne hjb.symm _ _).trans h.serving
        | _ => simpa only [Deployment.serve, hstage] using h.serving
    | _ => exact h.serving
  · by_cases ha : a = event.node
    · subst ha
      exact h.waits.moves (h.ok _) hseed (moves_step net.sites hnot)
    · exact h.waits.moves (h.ok a) hseed (movesIn_of_idle (idle_step net.sites ha))

theorem Blocked.discovery (h : d.Blocked a b c round net) (hseed : d.Seed a b)
    {event event' : DiscoveryEvent ι} (hpermit : d.permit net event = some event') :
    d.serve net event' b = some (.sender c) ∧ d.Waits b round (d.step net.sites event' a) := by
  by_cases henter : ∃ i allocOk now, event' = .enter i allocOk now
  · obtain ⟨i, allocOk, now, rfl⟩ := henter
    obtain ⟨j, hstage, hfree⟩ := permit_enter hpermit
    exact h.enter hseed hstage hfree
  · exact h.step hseed fun allocOk now heq => henter ⟨_, allocOk, now, heq⟩

theorem Blocked.netStep (h : d.Blocked a b c round net) (hseed : d.Seed a b)
    {event : NetworkEvent ι} (hopen : event ≠ .close b) :
    d.Blocked a b c round (d.netStep net event) := by
  have hok : d.Ok (d.netStep net event).sites := h.ok.netRun [event]
  have hserves : Serves (d.netStep net event) := h.serves.netStep event
  cases event with
  | discovery event =>
      simp only [Deployment.netStep] at hok hserves ⊢
      cases hpermit : d.permit net event with
      | none => exact h
      | some event' =>
          rw [hpermit] at hok hserves
          obtain ⟨hserving, hwaits⟩ := h.discovery hseed hpermit
          exact ⟨hok, hserves, hserving, hwaits⟩
  | acceptSender j i =>
      simp only [Deployment.netStep] at hok hserves ⊢
      split_ifs at hok hserves ⊢ with hfree
      · have hjb : j ≠ b := by
          rintro rfl
          simp [h.serving] at hfree
        exact ⟨hok, hserves, (Function.update_of_ne hjb.symm _ _).trans h.serving, h.waits⟩
      · exact h
  | close j =>
      have hjb : j ≠ b := fun heq => hopen (congrArg NetworkEvent.close heq)
      simp only [Deployment.netStep] at hok hserves ⊢
      split_ifs at hok hserves ⊢
      · exact h
      · exact ⟨hok, hserves, (Function.update_of_ne hjb.symm _ _).trans h.serving, h.waits⟩

theorem Blocked.netRun (h : d.Blocked a b c round net) (hseed : d.Seed a b)
    {events : List (NetworkEvent ι)} (hopen : .close b ∉ events) :
    d.Blocked a b c round (d.netRun net events) := by
  induction events generalizing net with
  | nil => exact h
  | cons event events ih =>
      obtain ⟨hevent, hevents⟩ := not_or.mp (mt List.mem_cons.mpr hopen)
      exact ih (h.netStep hseed (Ne.symm hevent)) hevents

end Blocked

/-- As long as a node serves the connection of a sender thread, no round of a node that has it
as a seed gets all its answers. -/
theorem answered_le_of_sender (d : Deployment ι) (before events : List (NetworkEvent ι)) {a b c : ι}
    (hseed : d.Seed a b) (hserving : (d.netRun .init before).serving b = some (.sender c))
    (hopen : .close b ∉ events) :
    ((d.netRun (d.netRun .init before) events).sites a).answered ≤
      ((d.netRun .init before).sites a).begun := by
  have hok : d.Ok (d.netRun .init before).sites := d.ok_init.netRun before
  have hwaits : d.Waits b ((d.netRun .init before).sites a).begun
      ((d.netRun .init before).sites a) :=
    ⟨(hok a).answered, fun hlt => absurd hlt (lt_irrefl _), fun hlt => absurd hlt (lt_irrefl _)⟩
  have hblocked : d.Blocked a b c ((d.netRun .init before).sites a).begun
      (d.netRun .init before) := ⟨hok, d.serves_netRun before, hserving, hwaits⟩
  exact (hblocked.netRun hseed hopen).waits.answered

/-! ## Rounds with all their answers -/

/-- After `n` periods, in each of which every node with seeds begins and ends a round of which
each HELLO is answered.  Other rounds may fail, but no entry is lost. -/
inductive Rounds (d : Deployment ι) : ℕ → Network ι → Prop
  | zero : Rounds d 0 .init
  | next {n : ℕ} {net : Network ι} {events : List (NetworkEvent ι)} (hrounds : Rounds d n net)
      (hhealthy : ∀ event ∈ events, event.Healthy)
      (hround : ∀ a, d.seeds a ≠ [] →
        (net.sites a).begun < ((d.netRun net events).sites a).answered) :
      Rounds d (n + 1) (d.netRun net events)

theorem Rounds.ok {n : ℕ} (h : d.Rounds n net) : d.Ok net.sites := by
  induction h with
  | zero => exact d.ok_init
  | next _ _ _ ih => exact ih.netRun _

theorem phases_of_rounds (hd : d.Healthy) {n : ℕ} (h : d.Rounds n net) :
    Gossip.Phases (fun a => d.seeds a ≠ []) d.Seed
      (fun a b => d.Knows ((Network.init : Network ι).sites a).peers b) n
      (fun a b => d.Knows (net.sites a).peers b) := by
  induction h with
  | zero => exact .zero
  | @next n net events hrounds hhealthy hround ih =>
      -- a round with listeners is one of the rounds without
      obtain ⟨events', hsites, hhealthy'⟩ := sites_run (d := d) net events
      rw [hsites] at hround ⊢
      exact .next ih (phase_of_round hd hrounds.ok (hhealthy' hhealthy) hround)

/-- **Discovery reaches the whole cluster.**  As many such periods as there are nodes are enough:
a node with seeds and a node connected with it through seeds know each other. -/
theorem mesh_of_rounds (d : Deployment ι) (hd : d.Healthy) {n : ℕ} {net : Network ι}
    (hrounds : d.Rounds n net) (hn : Fintype.card ι ≤ n) {a b : ι} (ha : d.seeds a ≠ [])
    (hne : b ≠ a) (hreach : (SimpleGraph.fromRel d.Seed).Reachable a b) :
    d.Knows (net.sites a).peers b ∧ d.Knows (net.sites b).peers a :=
  (phases_of_rounds hd hrounds).mesh (fun _ _ hseed => hseed.ne_nil) hn ha hne hreach

/-- A round of the node `a`, whose only seed `b` answers. -/
def answeredRound (a b : ι) : List (NetworkEvent ι) :=
  [.begin a, .task a true 5 true, .connect a (some b), .enter a true 5, .reply a true true,
    .receive a true, .add a true 5, .add a true 5, .task a true 5 true, .task a true 5 true,
    .rest a].map .discovery

/-- A round while `b` serves the sender thread of `a`.  The HELLO is read after `a` has given
up. -/
def waitingRound (a b : ι) : List (NetworkEvent ι) :=
  .acceptSender b a ::
    ([.begin a, .task a true 6 true, .connect a (some b), .enter a true 6, .giveUp a,
      .task a true 6 true, .rest a].map .discovery ++ [.close b, .discovery (.late a b true 7)])

/-- Two nodes after two rounds with an answer, and one without between them. -/
theorem mesh_of_rounds_pair :
    let first := pair.netRun .init (answeredRound 0 1)
    let second := pair.netRun first (waitingRound 0 1 ++ answeredRound 0 1)
    (first.sites 0).begun = 1 ∧ (second.sites 0).begun = 3 ∧
      pair.Knows (second.sites 0).peers 1 ∧ pair.Knows (second.sites 1).peers 0 := by
  have hanswered : ∀ event ∈ answeredRound (0 : Fin 2) 1, event.Healthy := by
    simp [answeredRound, NetworkEvent.Healthy, DiscoveryEvent.Healthy]
  have hwaiting : ∀ event ∈ waitingRound (0 : Fin 2) 1, event.Healthy := by
    simp [waitingRound, NetworkEvent.Healthy, DiscoveryEvent.Healthy]
  have hfirst : pair.Rounds 1 (pair.netRun .init (answeredRound 0 1)) :=
    .next .zero hanswered (by decide +kernel)
  have hsecond : pair.Rounds 2 (pair.netRun _ (waitingRound 0 1 ++ answeredRound 0 1)) :=
    .next hfirst (List.forall_mem_append.mpr ⟨hwaiting, hanswered⟩) (by decide +kernel)
  have hseed : pair.Seed 0 1 := ⟨⟨cText "b", 7001, 0⟩, by decide, by decide⟩
  refine ⟨by decide +kernel, by decide +kernel, ?_⟩
  refine mesh_of_rounds pair ⟨fun _ _ => rfl, by decide, by decide⟩ hsecond (by decide) (by decide)
    (by decide) (SimpleGraph.Adj.reachable ?_)
  exact (SimpleGraph.fromRel_adj _ _ _).mpr ⟨by decide, Or.inl hseed⟩

end Deployment

end Dmmr.Cluster
