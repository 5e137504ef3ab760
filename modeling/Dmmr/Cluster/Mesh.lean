import Dmmr.Cluster.Discovery
import Dmmr.Lib.Gossip

/-!
# A round of discovery

A round of `discover_once` of which every HELLO is answered is a phase of gossip: the node gets
to know its seeds, everybody its seeds and its peers knew when the round began, and everybody it
has greeted gets to know it (`phase_of_round`), as long as a table fits into a list of 128
entries.  Rounds in which a call fails do no harm.

The rounds of different nodes overlap in any way.  What a node learns in its round is
measured against the tables `s₀` at a time before the round, and the argument follows the
tasks of the round: whom the node has to greet is still on its list, or has been greeted.

Nodes without seeds do not greet anybody in rounds, and two of them never get to know each other
(`not_knows_of_passive`).
-/

namespace Dmmr.Cluster

open Words Store Wire

variable {ι : Type*}

/-- Every entry is made, and nobody is removed from a table.  Calls of `send_hello` may
fail. -/
def DiscoveryEvent.Healthy : DiscoveryEvent ι → Prop
  | task _ allocOk _ _ | enter _ allocOk _ | add _ allocOk _ => allocOk = true
  | reap _ _ _ => False
  | _ => True

/-- Whose thread takes the step. -/
def DiscoveryEvent.node : DiscoveryEvent ι → ι
  | begin a | rest a | task a _ _ _ | connect a _ | enter a _ _ | reply a _ _ | receive a _
  | add a _ _ | reap a _ _ | healthcheck a _ _ _ | giveUp a | giveUpCheck a _ | late a _ _ _ => a

theorem Site.stage_task (cfg : NodeConfig) (allocOk : Bool) (now : Int) (snapshotOk : Bool)
    (t : Site ι) : (t.task cfg allocOk now snapshotOk).stage = t.stage := by
  unfold Site.task
  split <;> rfl

/-- What is history is that of another state of the node. -/
structure Site.SameRound (t t' : Site ι) : Prop where
  begun : t'.begun = t.begun
  answered : t'.answered = t.answered
  failed : t'.failed = t.failed

theorem Site.sameRound_task (cfg : NodeConfig) (allocOk : Bool) (now : Int) (snapshotOk : Bool)
    (t : Site ι) : t.SameRound (t.task cfg allocOk now snapshotOk) := by
  unfold Site.task
  split <;> exact ⟨rfl, rfl, rfl⟩

theorem Site.stage_finish (t : Site ι) (rc : Int) (items : List Endpoint) :
    (t.finish rc items).stage = .ready := by
  unfold Site.finish
  dsimp only
  split <;> rfl

theorem Site.begun_finish (t : Site ι) (rc : Int) (items : List Endpoint) :
    (t.finish rc items).begun = t.begun := by
  unfold Site.finish
  dsimp only
  split <;> rfl

theorem Site.answered_finish (t : Site ι) (rc : Int) (items : List Endpoint) :
    (t.finish rc items).answered = t.answered := by
  unfold Site.finish
  dsimp only
  split <;> rfl

theorem Site.failed_finish (t : Site ι) (rc : Int) (items : List Endpoint) :
    (t.finish rc items).failed = (t.failed || decide (rc ≠ 0)) := by
  unfold Site.finish
  dsimp only
  split <;> rfl

theorem Site.agenda_finish (t : Site ι) {task : Task} {rest : List Task}
    (hagenda : t.agenda = task :: rest) (rc : Int) (items : List Endpoint) :
    ∃ new, (t.finish rc items).agenda = new ++ rest := by
  unfold Site.finish
  dsimp only
  rw [hagenda]
  split
  next seed rest' heq =>
    obtain ⟨-, rfl⟩ := List.cons.inj heq
    split_ifs
    · exact ⟨[], rfl⟩
    · exact ⟨_, (List.append_cons ..)⟩
  next rest' heq =>
    obtain ⟨-, rfl⟩ := List.cons.inj heq
    exact ⟨[], rfl⟩
  next heq => simp at heq

theorem Site.peers_finish (t : Site ι) (rc : Int) (items : List Endpoint) :
    (t.finish rc items).peers = t.peers := by
  unfold Site.finish
  dsimp only
  split <;> rfl

/-- The answer has not been read, or it is what has been sent. -/
theorem Site.receive_eq_or (cfg : NodeConfig) (allocOk : Bool) (peer : ι) (bytes : Bytes)
    (t : Site ι) :
    t.receive cfg allocOk peer bytes = t.finish (-1) [] ∨
      t.receive cfg allocOk peer bytes = t.receive cfg true peer bytes := by
  unfold Site.receive
  cases hrecv : clusterRecvFrame allocOk bytes with
  | none => exact Or.inl rfl
  | some received =>
      rw [(clusterRecvFrame_inv hrecv).1]
      exact Or.inr rfl

theorem Site.peers_receive (cfg : NodeConfig) (allocOk : Bool) (peer : ι) (bytes : Bytes)
    (t : Site ι) : (t.receive cfg allocOk peer bytes).peers = t.peers := by
  unfold Site.receive
  split
  · exact t.peers_finish (-1) []
  · split_ifs
    · exact t.peers_finish (-1) []
    · rfl

/-- The node does nothing, though others may change its table. -/
def Idle (i : ι) (s s' : ι → Site ι) : Prop := ∃ peers, s' i = { s i with peers := peers }

namespace Deployment

/-- A node of the cluster is a seed of the other. -/
def Seed (d : Deployment ι) (a b : ι) : Prop :=
  ∃ e ∈ seedEndpoints (d.cfg a) (d.seeds a), d.At b e.addr e.port

/-- The nodes accept each other and a table fits into a list. -/
structure Healthy [Fintype ι] (d : Deployment ι) : Prop where
  name : ∀ a b, (d.cfg a).clusterName = (d.cfg b).clusterName
  secret : ∀ a, (d.cfg a).clusterSecret ≠ []
  card : Fintype.card ι ≤ maxDiscoveredPeers + 1

/-- Everybody knows whom they knew before. -/
def Grows (d : Deployment ι) (s s' : ι → Site ι) : Prop :=
  ∀ i j, d.Knows (s i).peers j → d.Knows (s' i).peers j

/-- `a` has greeted `b` since `s₀`. -/
def Greeted (d : Deployment ι) (s₀ s : ι → Site ι) (a b : ι) : Prop :=
  d.Knows (s b).peers a ∧ ∀ c, c ≠ a → d.Knows (s₀ b).peers c → d.Knows (s a).peers c

/-- `a` is still to greet `b`. -/
def Pending (d : Deployment ι) (agenda : List Task) (a b : ι) : Prop :=
  (∃ task ∈ agenda, ∃ e, task.target = some e ∧ d.At b e.addr e.port) ∨
    .rediscover ∈ agenda ∧ ¬ d.Seed a b

/-- How far the greeting under way has got. -/
def Halfway (d : Deployment ι) (s₀ s : ι → Site ι) (a : ι) : HelloStage ι → Prop
  | .ready | .greeting _ => True
  | .entered b => d.Knows (s b).peers a
  | .replied b bytes => d.Knows (s b).peers a ∧
      ∃ peers, d.Table b peers ∧ sendPeerList (d.cfg b) true peers = some bytes ∧
        ∀ c, d.Knows (s₀ b).peers c → d.Knows peers c
  | .adding b todo rc _ => d.Knows (s b).peers a ∧ rc = 0 ∧
      ∀ c, c ≠ a → d.Knows (s₀ b).peers c →
        d.Knows (s a).peers c ∨ ∃ e ∈ todo, d.At c e.addr e.port

/-- What is left to do in a round that has begun since `s₀`. -/
structure Covers (d : Deployment ι) (s₀ s : ι → Site ι) (a : ι) : Prop where
  seeds : ∀ e ∈ seedEndpoints (d.cfg a) (d.seeds a),
    .addSeed e ∈ (s a).agenda ∨ ∀ j, d.At j e.addr e.port → d.Knows (s a).peers j
  greets : ∀ b, d.Seed a b ∨ d.Knows (s₀ a).peers b →
    d.Greeted s₀ s a b ∨ d.Pending (s a).agenda a b
  stage : d.Halfway s₀ s a (s a).stage

/-- What a round that has begun since `s₀` has achieved. -/
structure Covered (d : Deployment ι) (s₀ s : ι → Site ι) (a : ι) : Prop where
  seeds : ∀ b, d.Seed a b → d.Knows (s a).peers b
  greeted : ∀ b, d.Seed a b ∨ d.Knows (s₀ a).peers b → d.Greeted s₀ s a b

/-- The rounds since `s₀`: one in which no call has failed yet, and one of which every HELLO
was answered. -/
structure Since (d : Deployment ι) (s₀ s : ι → Site ι) (a : ι) : Prop where
  grows : d.Grows s₀ s
  covers : (s₀ a).begun < (s a).begun → (s a).failed = false → d.Covers s₀ s a
  covered : (s₀ a).begun < (s a).answered → d.Covered s₀ s a

variable {d : Deployment ι} {s₀ s s' : ι → Site ι} {a b : ι}

theorem Seed.ne_nil (h : d.Seed a b) : d.seeds a ≠ [] := by
  obtain ⟨e, he, -⟩ := h
  intro hnil
  rw [hnil, show seedEndpoints (d.cfg a) [] = [] from rfl] at he
  simp at he

/-! ## What others do -/

theorem Grows.refl (d : Deployment ι) (s : ι → Site ι) : d.Grows s s := fun _ _ h => h

theorem Grows.trans {s'' : ι → Site ι} (h : d.Grows s s') (h' : d.Grows s' s'') :
    d.Grows s s'' :=
  fun i j hknows => h' i j (h i j hknows)

theorem Greeted.mono (h : d.Greeted s₀ s a b) (hgrows : d.Grows s s') : d.Greeted s₀ s' a b :=
  ⟨hgrows b a h.1, fun c hc hknows => hgrows a c (h.2 c hc hknows)⟩

theorem Halfway.mono {stage : HelloStage ι} (h : d.Halfway s₀ s a stage)
    (hgrows : d.Grows s s') : d.Halfway s₀ s' a stage := by
  cases stage with
  | ready | greeting b => trivial
  | entered b => exact hgrows b a h
  | replied b bytes => exact ⟨hgrows b a h.1, h.2⟩
  | adding b todo rc items =>
      exact ⟨hgrows b a h.1, h.2.1, fun c hc hknows => (h.2.2 c hc hknows).imp_left (hgrows a c)⟩

theorem Covered.mono (h : d.Covered s₀ s a) (hgrows : d.Grows s s') : d.Covered s₀ s' a :=
  ⟨fun b hb => hgrows a b (h.seeds b hb), fun b hb => (h.greeted b hb).mono hgrows⟩

/-- Every task is done or kept. -/
theorem Covers.next (h : d.Covers s₀ s a) (hgrows : d.Grows s s')
    (hadd : ∀ e, .addSeed e ∈ (s a).agenda →
      .addSeed e ∈ (s' a).agenda ∨ ∀ j, d.At j e.addr e.port → d.Knows (s' a).peers j)
    (hgreet : ∀ b, d.Seed a b ∨ d.Knows (s₀ a).peers b → d.Pending (s a).agenda a b →
      d.Greeted s₀ s' a b ∨ d.Pending (s' a).agenda a b)
    (hstage : d.Halfway s₀ s' a (s' a).stage) : d.Covers s₀ s' a := by
  constructor
  · intro e he
    rcases h.seeds e he with hmem | hknows
    · exact hadd e hmem
    · exact Or.inr fun j hj => hgrows a j (hknows j hj)
  · intro b hb
    rcases h.greets b hb with hgreeted | hpending
    · exact Or.inl (hgreeted.mono hgrows)
    · exact hgreet b hb hpending
  · exact hstage

theorem Covers.keep (h : d.Covers s₀ s a) (hgrows : d.Grows s s')
    (hagenda : (s' a).agenda = (s a).agenda) (hstage : d.Halfway s₀ s' a (s' a).stage) :
    d.Covers s₀ s' a :=
  h.next hgrows (fun _ he => Or.inl (hagenda ▸ he)) (fun _ _ hb => Or.inr (hagenda ▸ hb)) hstage

/-- Nothing is left to do. -/
theorem Covers.covered (h : d.Covers s₀ s a) (hagenda : (s a).agenda = []) :
    d.Covered s₀ s a := by
  constructor
  · rintro b ⟨e, he, hat⟩
    refine ((h.seeds e he).resolve_left ?_) b hat
    simp [hagenda]
  · intro b hb
    refine (h.greets b hb).resolve_right ?_
    simp [Pending, hagenda]

/-- A step in a round. -/
theorem Since.next (h : d.Since s₀ s a) (hgrows : d.Grows s s') (hround : (s a).SameRound (s' a))
    (hcovers : d.Covers s₀ s a → d.Covers s₀ s' a) : d.Since s₀ s' a :=
  ⟨h.grows.trans hgrows,
    fun hlt hfailed => hcovers (h.covers (hround.begun ▸ hlt) (hround.failed ▸ hfailed)),
    fun hlt => (h.covered (hround.answered ▸ hlt)).mono hgrows⟩

/-- A step in which the node does not go on. -/
theorem Since.keep (h : d.Since s₀ s a) (hgrows : d.Grows s s') (hround : (s a).SameRound (s' a))
    (hagenda : (s' a).agenda = (s a).agenda) (hstage : (s' a).stage = (s a).stage) :
    d.Since s₀ s' a := by
  refine h.next hgrows hround fun hcovers => hcovers.keep hgrows hagenda ?_
  rw [hstage]
  exact hcovers.stage.mono hgrows

/-- A step of others. -/
theorem Since.idle (h : d.Since s₀ s a) (hgrows : d.Grows s s') (hidle : Idle a s s') :
    d.Since s₀ s' a := by
  obtain ⟨peers, hpeers⟩ := hidle
  exact h.keep hgrows ⟨by rw [hpeers], by rw [hpeers], by rw [hpeers]⟩ (by rw [hpeers])
    (by rw [hpeers])

/-! ## Tasks -/

theorem Pending.tail {task : Task} {rest : List Task} (h : d.Pending (task :: rest) a b)
    (htarget : task.target = none) (htask : task ≠ .rediscover) : d.Pending rest a b := by
  rcases h with ⟨task', hmem, e, he, hat⟩ | ⟨hmem, hseed⟩
  · rcases List.mem_cons.mp hmem with rfl | hmem
    · exact absurd (htarget.symm.trans he) (by simp)
    · exact Or.inl ⟨task', hmem, e, he, hat⟩
  · rcases List.mem_cons.mp hmem with heq | hmem
    · exact absurd heq.symm htask
    · exact Or.inr ⟨hmem, hseed⟩

theorem Pending.append {rest : List Task} (h : d.Pending rest a b) (new : List Task) :
    d.Pending (new ++ rest) a b := by
  rcases h with ⟨task, hmem, he⟩ | ⟨hmem, hseed⟩
  · exact Or.inl ⟨task, List.mem_append_right new hmem, he⟩
  · exact Or.inr ⟨List.mem_append_right new hmem, hseed⟩

/-- The first task may be a greeting. -/
theorem Pending.greeting {task : Task} {rest : List Task} {e : Endpoint} {c : ι}
    (h : d.Pending (task :: rest) a c) (htarget : task.target = some e)
    (hat : d.At b e.addr e.port) : c = b ∨ d.Pending rest a c := by
  rcases h with ⟨task', hmem, e', he', hat'⟩ | ⟨hmem, hseed⟩
  · rcases List.mem_cons.mp hmem with rfl | hmem
    · obtain rfl : e = e' := Option.some.inj (htarget.symm.trans he')
      exact Or.inl (hat'.unique hat)
    · exact Or.inr (Or.inl ⟨task', hmem, e', he', hat'⟩)
  · rcases List.mem_cons.mp hmem with heq | hmem
    · subst heq
      simp [Task.target] at htarget
    · exact Or.inr (Or.inr ⟨hmem, hseed⟩)

/-- `discover_once` begins with everything left to do. -/
theorem pending_discoverOnce (hseeds : d.seeds a ≠ []) (b : ι) :
    d.Pending (discoverOnce (d.cfg a) (d.seeds a)) a b := by
  by_cases hb : d.Seed a b
  · obtain ⟨e, he, hat⟩ := hb
    exact Or.inl ⟨.greetSeed e, (mem_discoverOnce_of_seed hseeds he).2, e, rfl, hat⟩
  · exact Or.inr ⟨by simp [discoverOnce, hseeds], hb⟩

/-- `rediscover_from_known_peers` copies everybody who is not a seed. -/
theorem pending_rediscover [Fintype ι] (hd : d.Healthy) {peers : List Peer}
    (h : d.Table a peers) (hknows : d.Knows peers b) (hseed : ¬ d.Seed a b) (rest : List Task) :
    d.Pending (((knownEndpoints peers).filter fun e =>
      !endpointIsSelf (d.cfg a) e.addr e.port e.nodeId).map .greet ++ rest) a b := by
  obtain ⟨p, hp, hat⟩ := hknows
  obtain ⟨j, hj, hreal⟩ := h.real p hp
  have hlen : (peers.filter fun p => !p.isSeed).length ≤ maxDiscoveredPeers := by
    have hle := List.length_filter_le (fun p => !p.isSeed) peers
    have hlt := h.length_lt
    have hcard := hd.card
    omega
  have hflag : p.isSeed = false := by
    by_contra hflag
    obtain ⟨e, he, haddr, hport⟩ := h.seeds p hp (by simpa using hflag)
    exact hseed ⟨e, he, haddr ▸ hport ▸ hat⟩
  have hself : endpointIsSelf (d.cfg a) p.addr p.port p.nodeId = false := by
    rw [Bool.eq_false_iff]
    exact fun hself => hj ((endpointIsSelf_iff_of_real hreal a).mp hself)
  refine Or.inl ⟨.greet p.endpoint, List.mem_append_left _ ?_, p.endpoint, rfl, hat⟩
  refine List.mem_map_of_mem (List.mem_filter.mpr ⟨?_, by simp [Peer.endpoint, hself]⟩)
  unfold knownEndpoints
  rw [List.take_of_length_le hlen]
  exact List.mem_map_of_mem (List.mem_filter.mpr ⟨hp, by simp [hflag]⟩)

/-! ## What the node does -/

/-- A task does not make a node forget. -/
theorem SiteOk.knows_task {t : Site ι} (h : d.SiteOk a t) (allocOk : Bool) (now : Int)
    (snapshotOk : Bool) (j : ι) (hknows : d.Knows t.peers j) :
    d.Knows (t.task (d.cfg a) allocOk now snapshotOk).peers j := by
  unfold Site.task
  split
  next seed rest hagenda =>
    obtain ⟨k, -, hat⟩ := d.seed_ne (h.seeds seed (hagenda ▸ List.mem_cons_self))
    have hreal : d.Real k ⟨seed.addr, seed.port, 0⟩ := ⟨hat, Or.inl rfl⟩
    exact (h.table.knows_add hreal allocOk now true).1 j hknows
  all_goals exact hknows

theorem Table.send {peers : List Peer} (h : d.Table b peers) :
    ∃ bytes, sendPeerList (d.cfg b) true peers = some bytes := by
  obtain ⟨bytes, -, hbytes, -⟩ := parsePeerList_sendPeerList (d.cfg b) (d.cfg b) h.writable
  exact ⟨bytes, hbytes⟩

/-- The list that is sent tells of everybody its sender knows. -/
theorem Table.reply [Fintype ι] (hd : d.Healthy) {peers : List Peer} {bytes : Bytes}
    (h : d.Table b peers) (hbytes : sendPeerList (d.cfg b) true peers = some bytes)
    (t : Site ι) :
    ∃ todo items, t.receive (d.cfg a) true b bytes = { t with stage := .adding b todo 0 items } ∧
      ∀ c, d.Knows peers c → ∃ e ∈ todo, d.At c e.addr e.port := by
  obtain ⟨r, rest, hrecv⟩ := h.receive_true hbytes
  obtain ⟨hopcode, hrc, hadded⟩ := h.receive hbytes hrecv (d.cfg a)
  have hlen : peers.length ≤ maxDiscoveredPeers :=
    Nat.lt_succ_iff.mp (h.length_lt.trans_le hd.card)
  refine ⟨(parsePeerList (d.cfg a) r.payload r.frame.valueLen.toNat).added,
    (parsePeerList (d.cfg a) r.payload r.frame.valueLen.toNat).items, ?_, ?_⟩
  · unfold Site.receive
    rw [hrecv]
    simp only
    rw [if_neg (not_not.mpr hopcode), hrc]
  · rintro c ⟨p, hp, hat⟩
    rw [hadded, List.take_of_length_le hlen]
    exact ⟨p.endpoint, List.mem_map_of_mem hp, hat⟩

section Steps

variable [DecidableEq ι]

theorem grows_update {t : Site ι} (h : ∀ j, d.Knows (s a).peers j → d.Knows t.peers j) :
    d.Grows s (Function.update s a t) := by
  intro i j hknows
  by_cases hi : i = a
  · subst hi
    rw [Function.update_self]
    exact h j hknows
  · rwa [Function.update_of_ne hi]

/-- A node that keeps its table. -/
theorem grows_of_peers {t : Site ι} (h : t.peers = (s a).peers) :
    d.Grows s (Function.update s a t) :=
  grows_update fun _ hj => h ▸ hj

/-- A round begins. -/
theorem Since.begin (h : d.Since s₀ s a) (hok : d.Ok s) (hidle : (s a).begun = (s a).ended)
    (hseeds : d.seeds a ≠ []) :
    d.Since s₀ (Function.update s a ((s a).begin (d.cfg a) (d.seeds a))) a := by
  have hgrows : d.Grows s (Function.update s a ((s a).begin (d.cfg a) (d.seeds a))) :=
    grows_of_peers rfl
  refine ⟨h.grows.trans hgrows, fun _ _ => ⟨fun e he => Or.inl ?_, fun b _ => Or.inr ?_, ?_⟩, ?_⟩
  · rw [Function.update_self]
    exact (mem_discoverOnce_of_seed hseeds he).1
  · rw [Function.update_self]
    exact pending_discoverOnce hseeds b
  · rw [Function.update_self]
    simp only [Site.begin, (hok a).ready (by simp [(hok a).idle hidle])]
    trivial
  · rw [Function.update_self]
    exact fun hlt => (h.covered hlt).mono hgrows

/-- A round ends. -/
theorem Since.rest (h : d.Since s₀ s a) (hagenda : (s a).agenda = []) :
    d.Since s₀ (Function.update s a (s a).rest) a := by
  have hgrows : d.Grows s (Function.update s a (s a).rest) := grows_of_peers rfl
  refine ⟨h.grows.trans hgrows, fun hlt hfailed => ?_, fun hlt => ?_⟩
  · rw [Function.update_self] at hlt hfailed
    have hcovers := h.covers hlt hfailed
    refine hcovers.keep hgrows ?_ ?_
    · rw [Function.update_self]
      rfl
    · rw [Function.update_self]
      exact hcovers.stage.mono hgrows
  · rw [Function.update_self] at hlt
    cases hfailed : (s a).failed with
    | true =>
        simp only [Site.rest, hfailed, if_true] at hlt
        exact (h.covered hlt).mono hgrows
    | false =>
        simp only [Site.rest, hfailed, Bool.false_eq_true, if_false] at hlt
        exact ((h.covers hlt hfailed).covered hagenda).mono hgrows

/-- The first task is not a greeting, and is done. -/
theorem Covers.task [Fintype ι] (hd : d.Healthy) (h : d.Covers s₀ s a) (hgrows₀ : d.Grows s₀ s)
    (hok : d.Ok s) (now : Int) (snapshotOk : Bool) :
    d.Covers s₀ (Function.update s a ((s a).task (d.cfg a) true now snapshotOk)) a := by
  have hgrows : d.Grows s (Function.update s a ((s a).task (d.cfg a) true now snapshotOk)) :=
    grows_update ((hok a).knows_task true now snapshotOk)
  refine h.next hgrows ?_ ?_ ?_
  all_goals rw [Function.update_self]
  · intro e he
    unfold Site.task
    split
    next seed rest hagenda =>
      rcases List.mem_cons.mp (hagenda ▸ he) with heq | hmem
      · obtain rfl : e = seed := by simpa using heq
        obtain ⟨j, hj, hat⟩ := d.seed_ne ((hok a).seeds e he)
        refine Or.inr fun j' hat' => ?_
        have hreal : d.Real j ⟨e.addr, e.port, 0⟩ := ⟨hat, Or.inl rfl⟩
        exact hat.unique hat' ▸ ((hok a).table.knows_add hreal true now true).2 hj rfl
      · exact Or.inl hmem
    next seed rest hagenda => exact Or.inl (by simpa [hagenda] using he)
    next rest hagenda => exact Or.inl (by simpa [hagenda] using he)
    next => exact Or.inl he
  · intro b hb hpending
    unfold Site.task
    split
    next seed rest hagenda => exact Or.inr ((hagenda ▸ hpending).tail rfl (by simp))
    next seed rest hagenda => exact Or.inr ((hagenda ▸ hpending).tail rfl (by simp))
    next rest hagenda =>
      by_cases hseed : d.Seed a b
      · rw [hagenda] at hpending
        rcases hpending with ⟨task, hmem, e, he, hat⟩ | ⟨-, hnot⟩
        · rcases List.mem_cons.mp hmem with rfl | hmem
          · simp [Task.target] at he
          · exact Or.inr (Or.inl ⟨task, List.mem_append_right _ hmem, e, he, hat⟩)
        · exact absurd hseed hnot
      · have hknows := hgrows₀ a b (hb.resolve_left hseed)
        exact Or.inr (pending_rediscover hd (hok a).table hknows hseed rest)
    next => exact Or.inr hpending
  · rw [Site.stage_task]
    exact h.stage.mono hgrows

/-- A greeting is under way and the task stays. -/
theorem Covers.setStage (h : d.Covers s₀ s a) {stage : HelloStage ι}
    (hstage : d.Halfway s₀ s a stage) :
    d.Covers s₀ (Function.update s a { s a with stage := stage }) a := by
  have hgrows : d.Grows s (Function.update s a { s a with stage := stage }) := grows_of_peers rfl
  refine h.keep hgrows ?_ ?_
  · rw [Function.update_self]
  · rw [Function.update_self]
    exact hstage.mono hgrows

/-- A node accepts every other. -/
theorem Healthy.welcome [Fintype ι] (hd : d.Healthy) (s : ι → Site ι) (a b : ι) (allocOk : Bool)
    (now : Int) :
    d.welcome s a b allocOk now = some (Function.update s b
      { s b with
        peers := addPeerWithNode (d.cfg b) allocOk now (s b).peers (d.cfg a).advertiseAddress
          (d.cfg a).advertisePort (d.cfg a).myNodeId }) := by
  unfold Deployment.welcome
  rw [if_neg (hd.secret b), acceptHello_helloFrame (d.valid a) (d.id_ne_zero a),
    if_neg (fun hname => hname.2 (hd.name b a))]

/-- The node greeted knows the caller then, and forgets nobody. -/
theorem Ok.knows_welcome (hok : d.Ok s) {allocOk : Bool} {now : Int}
    (hwelcome : d.welcome s a b allocOk now = some s') :
    d.Grows s s' ∧ (a ≠ b → allocOk = true → d.Knows (s' b).peers a) := by
  have hreal : d.Real a
      ⟨(d.cfg a).advertiseAddress, (d.cfg a).advertisePort, (d.cfg a).myNodeId⟩ :=
    ⟨⟨rfl, rfl⟩, Or.inr rfl⟩
  have hadd := (hok b).table.knows_add hreal allocOk now false
  rw [welcome_eq hwelcome, Function.update_self]
  exact ⟨grows_update hadd.1, hadd.2⟩

theorem Ok.grows_getD_welcome (hok : d.Ok s) (a b : ι) (allocOk : Bool) (now : Int) :
    d.Grows s ((d.welcome s a b allocOk now).getD s) := by
  cases hwelcome : d.welcome s a b allocOk now with
  | none => exact .refl d s
  | some s' => exact (hok.knows_welcome hwelcome).1

/-- The greeting is over. -/
theorem Covers.finish (h : d.Covers s₀ s a) (hok : d.Ok s) (hb : (s a).stage.peer = some b)
    (hgreeted : d.Greeted s₀ s a b) (rc : Int) (items : List Endpoint) :
    d.Covers s₀ (Function.update s a ((s a).finish rc items)) a := by
  have hgrows : d.Grows s (Function.update s a ((s a).finish rc items)) :=
    grows_of_peers (Site.peers_finish ..)
  obtain ⟨e, he, hat⟩ := (hok a).head b hb
  obtain ⟨task, htask, htarget⟩ := Option.bind_eq_some_iff.mp he
  obtain ⟨rest, hagenda⟩ : ∃ rest, (s a).agenda = task :: rest :=
    ⟨_, (List.eq_cons_of_mem_head? htask)⟩
  obtain ⟨new, hnew⟩ := (s a).agenda_finish hagenda rc items
  refine h.next hgrows ?_ ?_ ?_
  all_goals rw [Function.update_self]
  · intro e' he'
    rw [hagenda] at he'
    rcases List.mem_cons.mp he' with heq | hmem
    · rw [← heq] at htarget
      simp [Task.target] at htarget
    · exact Or.inl (hnew ▸ List.mem_append_right new hmem)
  · intro c hc hpending
    rw [hagenda] at hpending
    rcases hpending.greeting htarget hat with rfl | hrest
    · exact Or.inl (hgreeted.mono hgrows)
    · exact Or.inr (hnew ▸ hrest.append new)
  · rw [Site.stage_finish]
    trivial

/-! ### One step -/

/-- Nobody is forgotten. -/
theorem Ok.grows_step (hok : d.Ok s) {event : DiscoveryEvent ι} (hhealthy : event.Healthy) :
    d.Grows s (d.step s event) := by
  have hfail : ∀ a, d.Grows s (Function.update s a ((s a).finish (-1) [])) :=
    fun a => grows_of_peers ((s a).peers_finish (-1) [])
  cases event with
  | begin a | rest a =>
      simp only [Deployment.step]
      split_ifs
      · exact grows_of_peers rfl
      · exact .refl d s
  | task a allocOk now snapshotOk => exact grows_update ((hok a).knows_task allocOk now snapshotOk)
  | connect a peer =>
      simp only [Deployment.step]
      split
      next =>
        cases peer with
        | none => exact hfail a
        | some b =>
            simp only
            split_ifs
            · exact grows_of_peers rfl
            · exact .refl d s
      next => exact .refl d s
  | enter a allocOk now =>
      simp only [Deployment.step]
      split
      next =>
        split
        next => exact hfail a
        next s' hwelcome => exact (hok.knows_welcome hwelcome).1.trans (grows_of_peers rfl)
      next => exact .refl d s
  | reply a allocOk sendOk =>
      simp only [Deployment.step]
      split
      next =>
        split
        next => exact hfail a
        next =>
          cases sendOk with
          | false => exact hfail a
          | true => exact grows_of_peers rfl
      next => exact .refl d s
  | receive a allocOk =>
      simp only [Deployment.step]
      split
      next => exact grows_of_peers (Site.peers_receive ..)
      next => exact .refl d s
  | add a allocOk now =>
      simp only [Deployment.step]
      split
      next b e todo rc items hstage =>
        have hadding := (hok a).stage
        rw [hstage] at hadding
        obtain ⟨j, hj⟩ := hadding.1 e List.mem_cons_self
        exact grows_update ((hok a).table.knows_add hj allocOk now false).1
      next => exact grows_of_peers (Site.peers_finish ..)
      next => exact .refl d s
  | reap a addr port => exact absurd hhealthy id
  | healthcheck a b allocOk now =>
      simp only [Deployment.step]
      split_ifs
      · exact hok.grows_getD_welcome a b allocOk now
      · exact .refl d s
  | giveUp a =>
      simp only [Deployment.step]
      split
      next => exact grows_of_peers ((s a).peers_finish (-1) [])
      next => exact hfail a
      next => exact hfail a
      next => exact .refl d s
  | giveUpCheck a b =>
      simp only [Deployment.step]
      split_ifs
      · exact grows_of_peers rfl
      · exact .refl d s
  | late a b allocOk now =>
      simp only [Deployment.step]
      split_ifs
      · exact (hok.grows_getD_welcome a b allocOk now).trans (grows_of_peers rfl)
      · exact .refl d s

/-- A node that is greeted gets another table. -/
theorem idle_welcome {allocOk : Bool} {now : Int}
    (h : d.welcome s a b allocOk now = some s') (i : ι) : Idle i s s' := by
  rw [welcome_eq h]
  by_cases hb : i = b
  · subst hb
    exact ⟨_, Function.update_self ..⟩
  · exact ⟨(s i).peers, Function.update_of_ne hb _ s⟩

theorem idle_getD_welcome (s : ι → Site ι) (a b : ι) (allocOk : Bool) (now : Int) (i : ι) :
    Idle i s ((d.welcome s a b allocOk now).getD s) := by
  cases hwelcome : d.welcome s a b allocOk now with
  | none => exact ⟨(s i).peers, rfl⟩
  | some s' => exact idle_welcome hwelcome i

/-- What a thread does is the business of its node: others get another table at most. -/
theorem idle_step (s : ι → Site ι) {event : DiscoveryEvent ι} {i : ι} (hi : i ≠ event.node) :
    Idle i s (d.step s event) := by
  have hself : Idle i s s := ⟨(s i).peers, rfl⟩
  have hupdate : ∀ t, Idle i s (Function.update s event.node t) :=
    fun t => ⟨(s i).peers, Function.update_of_ne hi t s⟩
  cases event with
  | begin a | rest a =>
      simp only [Deployment.step]
      split_ifs
      · exact hupdate _
      · exact hself
  | task a allocOk now snapshotOk => exact hupdate _
  | connect a peer =>
      simp only [Deployment.step]
      split
      next =>
        cases peer with
        | none => exact hupdate _
        | some b =>
            simp only
            split_ifs
            · exact hupdate _
            · exact hself
      next => exact hself
  | enter a allocOk now =>
      simp only [Deployment.step]
      split
      next =>
        split
        next => exact hupdate _
        next s' hwelcome =>
          obtain ⟨peers, hpeers⟩ := idle_welcome hwelcome i
          exact ⟨peers, (Function.update_of_ne hi _ s').trans hpeers⟩
      next => exact hself
  | reply a allocOk sendOk =>
      simp only [Deployment.step]
      split
      next =>
        split
        next => exact hupdate _
        next => cases sendOk <;> exact hupdate _
      next => exact hself
  | receive a allocOk =>
      simp only [Deployment.step]
      split
      next => exact hupdate _
      next => exact hself
  | add a allocOk now =>
      simp only [Deployment.step]
      split
      next => exact hupdate _
      next => exact hupdate _
      next => exact hself
  | reap a addr port => exact hupdate _
  | healthcheck a b allocOk now =>
      simp only [Deployment.step]
      split_ifs
      · exact idle_getD_welcome s a b allocOk now i
      · exact hself
  | giveUp a =>
      simp only [Deployment.step]
      split
      next => exact hupdate _
      next => exact hupdate _
      next => exact hupdate _
      next => exact hself
  | giveUpCheck a b =>
      simp only [Deployment.step]
      split_ifs
      · exact hupdate _
      · exact hself
  | late a b allocOk now =>
      simp only [Deployment.step]
      split_ifs
      · obtain ⟨peers, hpeers⟩ := idle_getD_welcome (d := d) s a b allocOk now i
        exact ⟨peers, (Function.update_of_ne hi _ _).trans hpeers⟩
      · exact hself

/-- A step of the node, between the beginning and the end of a round. -/
theorem Since.own (h : d.Since s₀ s a) {t : Site ι}
    (hgrows : d.Grows s (Function.update s a t)) (hround : (s a).SameRound t)
    (hcovers : d.Covers s₀ s a → d.Covers s₀ (Function.update s a t) a) :
    d.Since s₀ (Function.update s a t) a :=
  h.next hgrows (by rwa [Function.update_self]) hcovers

/-- A call of the node has failed, and the round does not count. -/
theorem Since.fail (h : d.Since s₀ s a) {t : Site ι} (hpeers : t.peers = (s a).peers)
    (hanswered : t.answered = (s a).answered) (hfailed : t.failed = true) :
    d.Since s₀ (Function.update s a t) a := by
  have hgrows : d.Grows s (Function.update s a t) := grows_of_peers hpeers
  refine ⟨h.grows.trans hgrows, fun _ hnot => ?_, fun hlt => ?_⟩
  · rw [Function.update_self, hfailed] at hnot
    exact absurd hnot (by simp)
  · rw [Function.update_self, hanswered] at hlt
    exact (h.covered hlt).mono hgrows

theorem Since.finish_fail (h : d.Since s₀ s a) :
    d.Since s₀ (Function.update s a ((s a).finish (-1) [])) a :=
  h.fail (Site.peers_finish ..) (Site.answered_finish ..) (by simp [Site.failed_finish])

/-- A step of `send_hello` at the node. -/
theorem Since.setStage (h : d.Since s₀ s a) {stage : HelloStage ι}
    (hstage : d.Covers s₀ s a → d.Halfway s₀ s a stage) :
    d.Since s₀ (Function.update s a { s a with stage := stage }) a :=
  h.own (grows_of_peers rfl) ⟨rfl, rfl, rfl⟩ fun hcovers => hcovers.setStage (hstage hcovers)

/-- An entry of the answer is taken over. -/
theorem Since.addEntry (h : d.Since s₀ s a) (hok : d.Ok s) (now : Int) {e : Endpoint}
    {todo items : List Endpoint} {rc : Int}
    (hstage : (s a).stage = .adding b (e :: todo) rc items) :
    d.Since s₀ (Function.update s a
      { s a with
        peers := addPeerWithNode (d.cfg a) true now (s a).peers e.addr e.port e.nodeId
        stage := .adding b todo rc items }) a := by
  have hadding := (hok a).stage
  rw [hstage] at hadding
  obtain ⟨j, hj⟩ := hadding.1 e List.mem_cons_self
  have hadd := (hok a).table.knows_add hj true now false
  have hgrows : d.Grows s (Function.update s a
      { s a with
        peers := addPeerWithNode (d.cfg a) true now (s a).peers e.addr e.port e.nodeId
        stage := .adding b todo rc items }) := grows_update hadd.1
  refine h.own hgrows ⟨rfl, rfl, rfl⟩ fun hcovers => hcovers.keep hgrows ?_ ?_
  · rw [Function.update_self]
  · have hhalf := hcovers.stage
    rw [hstage] at hhalf
    rw [Function.update_self]
    refine ⟨hgrows b a hhalf.1, hhalf.2.1, fun c hc hknows => ?_⟩
    rcases hhalf.2.2 c hc hknows with hknown | ⟨e', he', hat⟩
    · exact Or.inl (hgrows a c hknown)
    · rcases List.mem_cons.mp he' with rfl | hmem
      · obtain rfl := hj.here.unique hat
        rw [Function.update_self]
        exact Or.inl (hadd.2 hc rfl)
      · exact Or.inr ⟨e', hmem, hat⟩

variable [Fintype ι]

/-- The node greeted enters the caller. -/
theorem Since.enter (hd : d.Healthy) (hok : d.Ok s) (h : d.Since s₀ s a) (now : Int)
    (hstage : (s a).stage = .greeting b) : d.Since s₀ (d.step s (.enter a true now)) a := by
  have hne := (hok a).peer_ne (b := b) (by rw [hstage]; rfl)
  have hwelcome := hd.welcome s a b true now
  obtain ⟨hgrows, hknows⟩ := hok.knows_welcome hwelcome
  simp only [Deployment.step, hstage, hwelcome]
  refine Since.setStage (h.idle hgrows ?_) fun _ => hknows hne.symm rfl
  exact ⟨(s a).peers, Function.update_of_ne hne.symm _ s⟩

omit [Fintype ι] in
/-- The node greeted sends its table. -/
theorem Since.reply (hok : d.Ok s) (h : d.Since s₀ s a) (allocOk sendOk : Bool)
    (hstage : (s a).stage = .entered b) :
    d.Since s₀ (d.step s (.reply a allocOk sendOk)) a := by
  simp only [Deployment.step, hstage]
  cases hbytes : sendPeerList (d.cfg b) allocOk (s b).peers with
  | none => exact h.finish_fail
  | some bytes =>
      cases sendOk with
      | false => exact h.finish_fail
      | true =>
          refine h.setStage fun hcovers => ?_
          have hhalf := hcovers.stage
          rw [hstage] at hhalf
          exact ⟨hhalf, (s b).peers, (hok b).table, sendPeerList_of_some hbytes, h.grows b⟩

/-- The table has arrived. -/
theorem Since.receive (hd : d.Healthy) (hok : d.Ok s) (h : d.Since s₀ s a) {bytes : Bytes}
    (hstage : (s a).stage = .replied b bytes) :
    d.Since s₀ (Function.update s a ((s a).receive (d.cfg a) true b bytes)) a := by
  have hreplied := (hok a).stage
  rw [hstage] at hreplied
  obtain ⟨peers, htable, hbytes⟩ := hreplied
  obtain ⟨todo, items, hreceive, -⟩ := htable.reply (a := a) hd hbytes (s a)
  rw [hreceive]
  refine h.setStage fun hcovers => ?_
  have hhalf := hcovers.stage
  rw [hstage] at hhalf
  obtain ⟨hknows, peers', htable', hbytes', hlist⟩ := hhalf
  obtain ⟨todo', items', hreceive', htodo⟩ := htable'.reply (a := a) hd hbytes' (s a)
  have heq := congrArg Site.stage (hreceive.symm.trans hreceive')
  simp only [HelloStage.adding.injEq, true_and] at heq
  exact ⟨hknows, rfl, fun c _ hc => Or.inr (heq.1 ▸ htodo c (hlist c hc))⟩

omit [Fintype ι] in
/-- The whole table has been taken over. -/
theorem Since.addEnd (hok : d.Ok s) (h : d.Since s₀ s a) {rc : Int} {items : List Endpoint}
    (hstage : (s a).stage = .adding b [] rc items) :
    d.Since s₀ (Function.update s a ((s a).finish rc items)) a := by
  by_cases hrc : rc = 0
  · have hround : (s a).SameRound ((s a).finish rc items) :=
      ⟨Site.begun_finish .., Site.answered_finish .., by simp [Site.failed_finish, hrc]⟩
    refine h.own (grows_of_peers (Site.peers_finish ..)) hround fun hcovers => ?_
    have hhalf := hcovers.stage
    rw [hstage] at hhalf
    refine hcovers.finish (b := b) hok (by rw [hstage]; rfl) ⟨hhalf.1, ?_⟩ rc items
    exact fun c hc hknows => (hhalf.2.2 c hc hknows).resolve_right (by simp)
  · exact h.fail (Site.peers_finish ..) (Site.answered_finish ..)
      (by simp [Site.failed_finish, hrc])

omit [Fintype ι] in
/-- The node greets others in the name of the reaper, or did so before. -/
theorem Since.welcomed (hok : d.Ok s) (h : d.Since s₀ s a) (b : ι) (allocOk : Bool) (now : Int) :
    d.Since s₀ ((d.welcome s a b allocOk now).getD s) a :=
  h.idle (hok.grows_getD_welcome a b allocOk now) (idle_getD_welcome s a b allocOk now a)

omit [Fintype ι] in
theorem Since.setAbandoned (h : d.Since s₀ s a) (abandoned : List ι) :
    d.Since s₀ (Function.update s a { s a with abandoned := abandoned }) a := by
  refine h.keep (grows_of_peers rfl) ?_ ?_ ?_
  all_goals rw [Function.update_self]
  exact ⟨rfl, rfl, rfl⟩

/-- A step of the node itself. -/
theorem Since.step_own (hd : d.Healthy) (hok : d.Ok s) {event : DiscoveryEvent ι}
    (hhealthy : event.Healthy) (hnode : event.node = a) (h : d.Since s₀ s a) :
    d.Since s₀ (d.step s event) a := by
  cases event with
  | begin a =>
      obtain rfl := hnode
      simp only [Deployment.step]
      split_ifs with hbegin
      · exact h.begin hok hbegin.1 hbegin.2
      · exact h
  | rest a =>
      obtain rfl := hnode
      simp only [Deployment.step]
      split_ifs with hrest
      · exact h.rest hrest.2
      · exact h
  | task a allocOk now snapshotOk =>
      obtain rfl := hnode
      obtain rfl : allocOk = true := hhealthy
      exact h.own (grows_update ((hok _).knows_task true now snapshotOk)) (Site.sameRound_task ..)
        fun hcovers => hcovers.task hd h.grows hok now snapshotOk
  | connect a peer =>
      obtain rfl := hnode
      simp only [Deployment.step]
      split
      next =>
        cases peer with
        | none => exact h.finish_fail
        | some b =>
            simp only
            split_ifs
            · exact h.setStage fun _ => trivial
            · exact h
      next => exact h
  | enter a allocOk now =>
      obtain rfl := hnode
      obtain rfl : allocOk = true := hhealthy
      cases hstage : (s a).stage with
      | greeting b => exact h.enter hd hok now hstage
      | _ => simpa only [Deployment.step, hstage] using h
  | reply a allocOk sendOk =>
      obtain rfl := hnode
      cases hstage : (s a).stage with
      | entered b => exact h.reply hok allocOk sendOk hstage
      | _ => simpa only [Deployment.step, hstage] using h
  | receive a allocOk =>
      obtain rfl := hnode
      simp only [Deployment.step]
      split
      next b bytes hstage =>
        rcases (s a).receive_eq_or (d.cfg a) allocOk b bytes with heq | heq
        · rw [heq]
          exact h.finish_fail
        · rw [heq]
          exact h.receive hd hok hstage
      next => exact h
  | add a allocOk now =>
      obtain rfl := hnode
      obtain rfl : allocOk = true := hhealthy
      simp only [Deployment.step]
      split
      next b e todo rc items hstage => exact h.addEntry hok now hstage
      next b rc items hstage => exact h.addEnd hok hstage
      next => exact h
  | reap a addr port => exact absurd hhealthy id
  | healthcheck a b allocOk now =>
      obtain rfl := hnode
      simp only [Deployment.step]
      split_ifs
      · exact h.welcomed hok b allocOk now
      · exact h
  | giveUp a =>
      obtain rfl := hnode
      simp only [Deployment.step]
      split
      next =>
        exact h.fail (Site.peers_finish ..) (Site.answered_finish ..)
          (by simp [Site.failed_finish])
      next => exact h.finish_fail
      next => exact h.finish_fail
      next => exact h
  | giveUpCheck a b =>
      obtain rfl := hnode
      simp only [Deployment.step]
      split_ifs
      · exact h.setAbandoned _
      · exact h
  | late a b allocOk now =>
      obtain rfl := hnode
      simp only [Deployment.step]
      split_ifs
      · exact (h.welcomed hok b allocOk now).setAbandoned _
      · exact h

theorem Since.step (hd : d.Healthy) (hok : d.Ok s) (h : d.Since s₀ s a)
    {event : DiscoveryEvent ι} (hhealthy : event.Healthy) : d.Since s₀ (d.step s event) a := by
  by_cases ha : event.node = a
  · exact h.step_own hd hok hhealthy ha
  · exact h.idle (hok.grows_step hhealthy) (idle_step s (Ne.symm ha))

theorem Since.run (hd : d.Healthy) (hok : d.Ok s) (h : d.Since s₀ s a)
    {events : List (DiscoveryEvent ι)} (hhealthy : ∀ event ∈ events, event.Healthy) :
    d.Since s₀ (d.run s events) a := by
  induction events generalizing s with
  | nil => exact h
  | cons event events ih =>
      exact ih (hok.step event) (h.step hd hok (hhealthy event List.mem_cons_self))
        fun event' hevent => hhealthy event' (List.mem_cons_of_mem event hevent)

/-! ## A round of all nodes -/

omit [DecidableEq ι] [Fintype ι] in
/-- Nothing has been done since `s`. -/
theorem Ok.since (hok : d.Ok s) (a : ι) : d.Since s s a :=
  ⟨.refl d s, fun hlt => absurd hlt (lt_irrefl _),
    fun hlt => absurd (hok a).answered (not_le.mpr hlt)⟩

/-- A round of all nodes with seeds is a phase of gossip, if every HELLO is answered. -/
theorem phase_of_round (hd : d.Healthy) (hok : d.Ok s) {events : List (DiscoveryEvent ι)}
    (hhealthy : ∀ event ∈ events, event.Healthy)
    (hround : ∀ a, d.seeds a ≠ [] → (s a).begun < (d.run s events a).answered) :
    Gossip.Phase (fun a => d.seeds a ≠ []) d.Seed (fun a b => d.Knows (s a).peers b)
      (fun a b => d.Knows (d.run s events a).peers b) := by
  have hsince : ∀ a, d.Since s (d.run s events) a := fun a => (hok.since a).run hd hok hhealthy
  constructor
  · exact fun {a b} hknows => (hsince a).grows a b hknows
  · exact fun {a b} hseed => ((hsince a).covered (hround a hseed.ne_nil)).seeds b hseed
  · exact fun {a b} ha hb => (((hsince a).covered (hround a ha)).greeted b hb).1
  · exact fun {a b c} ha hab hbc hc =>
      (((hsince a).covered (hround a ha)).greeted b (Or.inr hab)).2 c hc hbc

end Steps

/-! ## Nodes without seeds -/

/-- Nobody becomes known in a call but the node it is for. -/
theorem Table.knows_of_add {peers : List Peer} {e : Endpoint} {j c : ι} (h : d.Table a peers)
    (he : d.Real j e) {allocOk : Bool} {now : Int} {isSeed : Bool}
    (hknows : d.Knows
      (addPeerInternal (d.cfg a) allocOk now peers e.addr e.port.toNat e.nodeId isSeed) c) :
    d.Knows peers c ∨ c = j := by
  obtain ⟨q, hq, hat⟩ := hknows
  rcases h.add_cases he allocOk now isSeed with
    ⟨heq, -⟩ | ⟨-, before, p, after, rfl, hp, heq⟩ | ⟨-, -, heq⟩
  · exact Or.inl ⟨q, heq ▸ hq, hat⟩
  · rw [heq] at hq
    rcases List.mem_append.mp hq with hmem | hmem
    · exact Or.inl ⟨q, List.mem_append_left _ hmem, hat⟩
    · rcases List.mem_cons.mp hmem with rfl | hmem
      · exact Or.inr (hat.unique he.here)
      · exact Or.inl ⟨q, List.mem_append_right _ (List.mem_cons_of_mem p hmem), hat⟩
  · rw [heq] at hq
    rcases List.mem_append.mp hq with hmem | hmem
    · exact Or.inl ⟨q, hmem, hat⟩
    · obtain rfl := List.mem_singleton.mp hmem
      exact Or.inr (hat.unique he.here)

/-- A node without seeds has no rounds, and knows and has greeted only nodes with seeds. -/
structure PassiveSite (d : Deployment ι) (t : Site ι) : Prop where
  idle : t.begun = t.ended
  knows : ∀ j, d.Knows t.peers j → d.seeds j ≠ []
  abandoned : ∀ j ∈ t.abandoned, d.seeds j ≠ []

def Passive (d : Deployment ι) (s : ι → Site ι) : Prop :=
  ∀ i, d.seeds i = [] → d.PassiveSite (s i)

section Passive

variable [DecidableEq ι]

theorem Passive.update (h : d.Passive s) {t : Site ι} (ht : d.seeds a = [] → d.PassiveSite t) :
    d.Passive (Function.update s a t) := by
  intro i hi
  by_cases hia : i = a
  · subst hia
    rw [Function.update_self]
    exact ht hi
  · rw [Function.update_of_ne hia]
    exact h i hi

/-- The caller is a node with seeds, or the node greeted is one. -/
theorem Passive.welcome (h : d.Passive s) (hok : d.Ok s) (ha : d.seeds b = [] → d.seeds a ≠ [])
    {allocOk : Bool} {now : Int} (hwelcome : d.welcome s a b allocOk now = some s') :
    d.Passive s' := by
  rw [welcome_eq hwelcome]
  refine h.update fun hb => ⟨(h b hb).idle, fun j hj => ?_, (h b hb).abandoned⟩
  have hreal : d.Real a
      ⟨(d.cfg a).advertiseAddress, (d.cfg a).advertisePort, (d.cfg a).myNodeId⟩ :=
    ⟨⟨rfl, rfl⟩, Or.inr rfl⟩
  rcases (hok b).table.knows_of_add hreal hj with hknows | rfl
  · exact (h b hb).knows j hknows
  · exact ha hb

theorem Passive.getD_welcome (h : d.Passive s) (hok : d.Ok s)
    (ha : d.seeds b = [] → d.seeds a ≠ []) (allocOk : Bool) (now : Int) :
    d.Passive ((d.welcome s a b allocOk now).getD s) := by
  cases hwelcome : d.welcome s a b allocOk now with
  | none => exact h
  | some s' => exact h.welcome hok ha hwelcome

theorem Passive.step (h : d.Passive s) (hok : d.Ok s) (event : DiscoveryEvent ι) :
    d.Passive (d.step s event) := by
  have hagenda : ∀ a, d.seeds a = [] → (s a).agenda = [] := fun a ha =>
    (hok a).idle (h a ha).idle
  have hready : ∀ a, d.seeds a = [] → (s a).stage = .ready := fun a ha =>
    (hok a).ready (by rw [hagenda a ha]; rfl)
  -- a node with a greeting under way has seeds
  have hbusy : ∀ {a t}, (s a).stage ≠ .ready → d.Passive (Function.update s a t) :=
    fun hstage => h.update fun ha => absurd (hready _ ha) hstage
  cases event with
  | begin a =>
      simp only [Deployment.step]
      split_ifs with hbegin
      · exact h.update fun ha => absurd ha hbegin.2
      · exact h
  | rest a =>
      simp only [Deployment.step]
      split_ifs with hrest
      · exact h.update fun ha => absurd (h a ha).idle hrest.1
      · exact h
  | task a allocOk now snapshotOk =>
      refine h.update fun ha => ?_
      unfold Site.task
      rw [hagenda a ha]
      exact h a ha
  | connect a peer =>
      simp only [Deployment.step]
      split
      next e hstage hhead =>
        have hseeds : d.seeds a ≠ [] := by
          intro ha
          rw [hagenda a ha] at hhead
          simp at hhead
        cases peer with
        | none => exact h.update fun ha => absurd ha hseeds
        | some b =>
            simp only
            split_ifs
            · exact h.update fun ha => absurd ha hseeds
            · exact h
      next => exact h
  | enter a allocOk now =>
      simp only [Deployment.step]
      split
      next b hstage =>
        have hseeds : d.seeds a ≠ [] := fun ha => by simp [hready a ha] at hstage
        split
        next => exact h.update fun ha => absurd ha hseeds
        next s' hwelcome =>
          exact (h.welcome hok (fun _ => hseeds) hwelcome).update fun ha => absurd ha hseeds
      next => exact h
  | reply a allocOk sendOk =>
      simp only [Deployment.step]
      split
      next b hstage =>
        split
        next => exact hbusy (by simp [hstage])
        next => cases sendOk <;> exact hbusy (by simp [hstage])
      next => exact h
  | receive a allocOk =>
      simp only [Deployment.step]
      split
      next hstage => exact hbusy (by simp [hstage])
      next => exact h
  | add a allocOk now =>
      simp only [Deployment.step]
      split
      next hstage => exact hbusy (by simp [hstage])
      next hstage => exact hbusy (by simp [hstage])
      next => exact h
  | reap a addr port =>
      refine h.update fun ha => ⟨(h a ha).idle, ?_, (h a ha).abandoned⟩
      rintro j ⟨p, hp, hat⟩
      exact (h a ha).knows j ⟨p, List.mem_of_mem_filter hp, hat⟩
  | healthcheck a b allocOk now =>
      simp only [Deployment.step]
      split_ifs with hany
      · obtain ⟨p, hp, hat⟩ := List.any_eq_true.mp hany
        refine h.getD_welcome hok (fun hb ha => ?_) allocOk now
        exact (h a ha).knows b ⟨p, hp, of_decide_eq_true hat⟩ hb
      · exact h
  | giveUp a =>
      simp only [Deployment.step]
      split
      next hstage => exact hbusy (by simp [hstage])
      next hstage => exact hbusy (by simp [hstage])
      next hstage => exact hbusy (by simp [hstage])
      next => exact h
  | giveUpCheck a b =>
      simp only [Deployment.step]
      split_ifs with hany
      · obtain ⟨p, hp, hat⟩ := List.any_eq_true.mp hany
        refine h.update fun ha => ⟨(h a ha).idle, (h a ha).knows, ?_⟩
        refine List.forall_mem_cons.mpr ⟨?_, (h a ha).abandoned⟩
        exact (h a ha).knows b ⟨p, hp, of_decide_eq_true hat⟩
      · exact h
  | late a b allocOk now =>
      simp only [Deployment.step]
      split_ifs with hmem
      · have hs' : d.Passive ((d.welcome s a b allocOk now).getD s) :=
          h.getD_welcome hok (fun hb ha => (h a ha).abandoned b hmem hb) allocOk now
        refine hs'.update fun ha => ⟨(hs' a ha).idle, (hs' a ha).knows, fun j hj => ?_⟩
        exact (hs' a ha).abandoned j (List.mem_of_mem_erase hj)
      · exact h

/-- Two nodes without seeds never get to know each other, however they are connected. -/
theorem not_knows_of_passive (d : Deployment ι) (events : List (DiscoveryEvent ι)) {a b : ι}
    (ha : d.seeds a = []) (hb : d.seeds b = []) :
    ¬ d.Knows (d.run (fun _ => .init) events a).peers b := by
  have hrun : ∀ events (s : ι → Site ι), d.Ok s → d.Passive s → d.Passive (d.run s events) := by
    intro events
    induction events with
    | nil => exact fun _ _ h => h
    | cons event events ih => exact fun s hok h => ih _ (hok.step event) (h.step hok event)
  have hinit : d.Passive fun _ => .init := by
    refine fun _ _ => ⟨rfl, ?_, by simp [Site.init]⟩
    rintro j ⟨p, hp, -⟩
    simp [Site.init] at hp
  exact fun hknows => (hrun events _ d.ok_init hinit a ha).knows b hknows hb

end Passive

/-- Two nodes without seeds beside a third. -/
def star : Deployment (Fin 3) where
  cfg := fun i => ⟨.little, if i = 0 then 1 else if i = 1 then 2 else 3, [], cText "s",
    if i = 0 then cText "a" else if i = 1 then cText "b" else cText "c", 7001⟩
  seeds := fun i => if i = 0 then cText "b:7001,c:7001" else []
  valid := fun i => by constructor <;> revert i <;> decide
  id_ne_zero := by decide
  id_inj := by decide
  endpoint_inj := by decide
  seeds_real := by decide

/-- The first node has greeted the second. -/
theorem not_knows_of_passive_star :
    ¬ star.Knows (star.run (fun _ => .init) [.begin 0, .task 0 true 5 true, .connect 0 (some 1),
      .enter 0 true 5, .reply 0 true true, .receive 0 true] 1).peers 2 :=
  not_knows_of_passive star _ (by decide) (by decide)

end Deployment

end Dmmr.Cluster
