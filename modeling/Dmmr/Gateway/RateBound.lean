import Dmmr.Gateway.RateZone
import Dmmr.Lib.FixedWindow

/-!
# The limiter as a counter per client

With one window in force everywhere, clocks that do not run backwards and
enough memory, a client sees a fixed-window counter of its own: other clients'
calls can remove its node, but only once its window has passed, and a counter
would then start a new window anyway.  `Tracks` is the simulation relation; its
two step lemmas are `tracks_serve_self`, for the client's own calls, and
`tracks_serve_of_ne`, for everybody else's.

`rate_bound` is what the counter's bounds say about the limiter.
-/

namespace Dmmr.Gateway

open Words FixedWindow

/-- The call as the counter sees it. -/
def RateCall.arrival (call : RateCall) : Arrival := ⟨call.now.toNat, call.limit.toNat⟩

/-- The verdict as the counter's decision. -/
def Verdict.decision : Verdict → Decision
  | .created => .started
  | .restarted => .started
  | .counted => .counted
  | _ => .rejected

/-- A call and its verdict as the counter sees them. -/
def counterView (e : RateCall × Verdict) : Arrival × Decision := (e.1.arrival, e.2.decision)

/-- A verdict that starts a window. -/
def Verdict.starts (v : Verdict) : Bool := v == .created || v == .restarted

theorem Verdict.decision_eq_started (v : Verdict) : v.decision = .started ↔ v.starts = true := by
  cases v <;> decide

theorem Verdict.admits_decision (v : Verdict) : v.decision.admits = true ↔ v.rc = .ok := by
  cases v <;> decide

variable {ngx : Ngx} {window : UInt64}

/-! ## The simulation -/

/-- At time `clock` the counter `w` stands for what the zone holds about a
client: the client's node, or a window that has passed. -/
def Tracks (window : UInt64) (z : RateZone ngx) (key : Bytes) (clock : UInt64)
    (w : Option Window) : Prop :=
  match z.client key with
  | some node => w = some ⟨node.windowStart.toNat, node.count.toNat⟩ ∧ node.windowStart ≤ clock
  | none => ∀ v ∈ w, window.toNat < clock.toNat - v.start

theorem tracks_some {z : RateZone ngx} {key : Bytes} {clock : UInt64} {w : Option Window}
    {node : RateNode} (h : z.client key = some node) :
    Tracks window z key clock w ↔
      w = some ⟨node.windowStart.toNat, node.count.toNat⟩ ∧ node.windowStart ≤ clock := by
  simp only [Tracks, h]

theorem tracks_none {z : RateZone ngx} {key : Bytes} {clock : UInt64} {w : Option Window}
    (h : z.client key = none) :
    Tracks window z key clock w ↔ ∀ v ∈ w, window.toNat < clock.toNat - v.start := by
  simp only [Tracks, h]

theorem Tracks.mono {z : RateZone ngx} {key : Bytes} {clock clock' : UInt64} {w : Option Window}
    (h : Tracks window z key clock w) (hle : clock ≤ clock') : Tracks window z key clock' w := by
  have hle' := UInt64.le_iff_toNat_le.mp hle
  cases hclient : z.client key with
  | some node =>
      rw [tracks_some hclient] at h ⊢
      exact ⟨h.1, h.2.trans hle⟩
  | none =>
      rw [tracks_none hclient] at h ⊢
      intro v hv
      have := h v hv
      omega

/-- The node and the counter go the same way. -/
theorem rateHit_eq_step {call : RateCall} {node : RateNode} (hle : node.windowStart ≤ call.now) :
    (rateHit call node).1.decision = (step call.window.toNat call.arrival
        (some ⟨node.windowStart.toNat, node.count.toNat⟩)).1 ∧
      (⟨(rateHit call node).2.windowStart.toNat, (rateHit call node).2.count.toNat⟩ : Window) =
        (step call.window.toNat call.arrival
          (some ⟨node.windowStart.toNat, node.count.toNat⟩)).2 ∧
      (rateHit call node).2.windowStart ≤ call.now := by
  have hpassed : call.now - node.windowStart > call.window ↔
      call.window.toNat < call.now.toNat - node.windowStart.toNat := by
    rw [gt_iff_lt, UInt64.lt_iff_toNat_lt, UInt64.toNat_sub_of_le _ _ hle]
  have hused : node.count ≥ call.limit ↔ call.limit.toNat ≤ node.count.toNat :=
    UInt64.le_iff_toNat_le
  unfold rateHit step RateCall.arrival
  simp only [hpassed, hused]
  split_ifs with h₁ h₂
  · exact ⟨rfl, rfl, le_refl _⟩
  · exact ⟨rfl, rfl, hle⟩
  · refine ⟨rfl, ?_, hle⟩
    have hlt := call.limit.toNat_lt
    rw [UInt64.toNat_add, Nat.mod_eq_of_lt (by simp; omega)]
    rfl

/-- A call of the client itself. -/
theorem tracks_serve_self {z : RateZone ngx} {call : RateCall} {clock : UInt64}
    {w : Option Window} (hvalid : call.Valid) (halloc : call.allocOk = true)
    (hclock : clock ≤ call.now) (h : Tracks call.window z call.clientKey clock w) :
    (z.serve call).1.decision = (step call.window.toNat call.arrival w).1 ∧
      Tracks call.window (z.serve call).2 call.clientKey call.now
        (some (step call.window.toNat call.arrival w).2) := by
  replace h := h.mono hclock
  cases hclient : z.client call.clientKey with
  | some node =>
      obtain ⟨rfl, hle⟩ := (tracks_some hclient).mp h
      obtain ⟨hverdict, hnode, -⟩ := RateZone.serve_hit hvalid hclient
      obtain ⟨hdecision, hwindow, hstart⟩ := rateHit_eq_step hle
      rw [hverdict]
      exact ⟨hdecision, (tracks_some hnode).mpr ⟨congrArg some hwindow.symm, hstart⟩⟩
  | none =>
      have hpassed := (tracks_none hclient).mp h
      obtain ⟨hverdict, hnode, -⟩ := RateZone.serve_miss hvalid halloc hclient
      have hstep : step call.window.toNat call.arrival w = (.started, ⟨call.now.toNat, 1⟩) := by
        cases w with
        | none => rfl
        | some v => exact if_pos (hpassed v rfl)
      rw [hstep, hverdict]
      exact ⟨rfl, (tracks_some hnode).mpr ⟨rfl, le_refl _⟩⟩

/-- A call of another client. -/
theorem tracks_serve_of_ne {z : RateZone ngx} {call : RateCall} {key : Bytes} {clock : UInt64}
    {w : Option Window} (hne : key ≠ call.clientKey) (halloc : call.allocOk = true)
    (hclock : clock ≤ call.now) (h : Tracks call.window z key clock w) :
    Tracks call.window (z.serve call).2 key call.now w := by
  replace h := h.mono hclock
  by_cases hvalid : call.Valid
  · cases hother : z.client call.clientKey with
    | some node =>
        unfold Tracks at h ⊢
        rwa [(RateZone.serve_hit hvalid hother).2.2 key hne]
    | none =>
        rcases (RateZone.serve_miss hvalid halloc hother).2.2 key hne with
          hsame | ⟨hgone, node, hnode, hpassed⟩
        · unfold Tracks at h ⊢
          rwa [hsame]
        · -- the node has been removed: its window has passed
          obtain ⟨rfl, hle⟩ := (tracks_some hnode).mp h
          refine (tracks_none hgone).mpr fun v hv => ?_
          obtain rfl := Option.some.inj hv
          rwa [UInt64.lt_iff_toNat_lt, UInt64.toNat_sub_of_le _ _ hle] at hpassed
  · unfold Tracks at h ⊢
    rwa [(RateZone.serve_invalid hvalid).2 key]

/-! ## Runs -/

/-- The window is the same in every call, every allocation succeeds at once, and
the clock does not run backwards. -/
structure Steady (window : UInt64) (calls : List RateCall) : Prop where
  window_eq : ∀ call ∈ calls, call.window = window
  allocOk : ∀ call ∈ calls, call.allocOk = true
  clock : calls.Pairwise fun a b => a.now ≤ b.now

/-- The first call of a run and the rest of it. -/
theorem Steady.of_cons {call : RateCall} {calls : List RateCall}
    (h : Steady window (call :: calls)) :
    call.window = window ∧ call.allocOk = true ∧ (∀ later ∈ calls, call.now ≤ later.now) ∧
      Steady window calls := by
  obtain ⟨hwindow, hwindow'⟩ := List.forall_mem_cons.mp h.window_eq
  obtain ⟨halloc, halloc'⟩ := List.forall_mem_cons.mp h.allocOk
  obtain ⟨hlater, hsorted⟩ := List.pairwise_cons.mp h.clock
  exact ⟨hwindow, halloc, hlater, hwindow', halloc', hsorted⟩

/-- The part of a run that is about one client. -/
def clientTrace (key : Bytes) (trace : List (RateCall × Verdict)) : List (RateCall × Verdict) :=
  trace.filter fun e => e.1.clientKey == key

/-- The calls of one client. -/
def ownCalls (key : Bytes) (calls : List RateCall) : List RateCall :=
  calls.filter fun call => call.clientKey == key

theorem map_fst_clientTrace (key : Bytes) (calls : List RateCall) (z : RateZone ngx) :
    (clientTrace key (z.serveAll calls)).map Prod.fst = ownCalls key calls := by
  induction calls generalizing z with
  | nil => rfl
  | cons call calls ih =>
      have ih' := ih (z.serve call).2
      unfold clientTrace ownCalls at ih' ⊢
      simp only [RateZone.serveAll, List.filter_cons]
      split_ifs <;> simp [ih']

/-- Nothing is left of the client but what the counter does with its calls. -/
theorem clientTrace_serveAll {calls : List RateCall} (hsteady : Steady window calls) {key : Bytes}
    (hvalid : ∀ call ∈ calls, call.clientKey = key → call.Valid) {z : RateZone ngx}
    {clock : UInt64} {w : Option Window} (hclock : ∀ call ∈ calls, clock ≤ call.now)
    (h : Tracks window z key clock w) :
    (clientTrace key (z.serveAll calls)).map counterView =
      run window.toNat w ((ownCalls key calls).map RateCall.arrival) := by
  induction calls generalizing z clock w with
  | nil => rfl
  | cons call calls ih =>
      obtain ⟨rfl, halloc, hlater, hsteady'⟩ := hsteady.of_cons
      obtain ⟨hvalid, hvalid'⟩ := List.forall_mem_cons.mp hvalid
      have hle := hclock call List.mem_cons_self
      have ih' := fun w' => ih hsteady' hvalid' (z := (z.serve call).2) (w := w') hlater
      unfold clientTrace ownCalls at ih' ⊢
      by_cases hkey : call.clientKey = key
      · subst hkey
        obtain ⟨hdecision, htracks⟩ := tracks_serve_self (hvalid rfl) halloc hle h
        simp only [RateZone.serveAll, List.filter_cons, beq_self_eq_true, if_true, List.map_cons,
          run, counterView, hdecision, ← ih' _ htracks]
      · have hbeq : (call.clientKey == key) = false := by simpa using hkey
        simp only [RateZone.serveAll, List.filter_cons, hbeq, Bool.false_eq_true, if_false]
        exact ih' _ (tracks_serve_of_ne (Ne.symm hkey) halloc hle h)

theorem tracks_empty (ngx : Ngx) (window : UInt64) (key : Bytes) (clock : UInt64) :
    Tracks window (RateZone.empty ngx) key clock none :=
  (tracks_none rfl).mpr (by simp)

/-! ## The bound -/

theorem limit_pos (call : RateCall) : 0 < call.limit.toNat := by
  have hpos : (0 : UInt64) < effectiveLimit call.conf := by
    unfold effectiveLimit
    split
    · split_ifs with h
      · exact h
      · decide
    · decide
  exact UInt64.lt_iff_toNat_lt.mp hpos

/-- A request was let through. -/
def admitted (e : RateCall × Verdict) : Bool := e.2.rc == .ok

/-- A request was let through at a time from `t` to `t + length`. -/
def admittedIn (t length : ℕ) (e : RateCall × Verdict) : Bool :=
  admitted e && decide (t ≤ e.1.now.toNat ∧ e.1.now.toNat ≤ t + length)

theorem admits_decision_eq (e : RateCall × Verdict) : e.2.decision.admits = admitted e := by
  rw [Bool.eq_iff_iff, Verdict.admits_decision]
  simp [admitted]

theorem admits_counterView (trace : List (RateCall × Verdict)) :
    admits (trace.map counterView) = trace.countP admitted := by
  unfold admits
  rw [List.countP_map]
  exact congrArg (List.countP · trace) (funext admits_decision_eq)

theorem admitsIn_counterView (width t : ℕ) (trace : List (RateCall × Verdict)) :
    admitsIn width t (trace.map counterView) = trace.countP (admittedIn t width) := by
  unfold admitsIn
  rw [List.countP_map]
  refine congrArg (List.countP · trace) (funext fun e => ?_)
  exact congrArg (· && decide (t ≤ e.1.now.toNat ∧ e.1.now.toNat ≤ t + width))
    (admits_decision_eq e)

theorem clientTrace_invalid {key : Bytes} {calls : List RateCall} {z : RateZone ngx}
    (hvalid : ∀ call ∈ calls, call.clientKey = key → ¬ call.Valid) :
    ∀ e ∈ clientTrace key (z.serveAll calls), e.2 = .badAddress := by
  have hall : ∀ e ∈ z.serveAll calls, e.1.clientKey = key → e.2 = .badAddress :=
    RateZone.forall_mem_serveAll
      (fun call hcall _ hkey => (RateZone.serve_invalid (hvalid call hcall hkey)).1) z
  intro e he
  obtain ⟨hmem, hkey⟩ := List.mem_filter.mp he
  exact hall e hmem (by simpa using hkey)

/-- The trace of a client is the run of a counter, or the client's address is
not accepted at all. -/
theorem clientTrace_cases (ngx : Ngx) {calls : List RateCall} (hsteady : Steady window calls)
    (key : Bytes) :
    (clientTrace key ((RateZone.empty ngx).serveAll calls)).map counterView =
      run window.toNat none ((ownCalls key calls).map RateCall.arrival) ∨
    ∀ e ∈ clientTrace key ((RateZone.empty ngx).serveAll calls), e.2 = .badAddress := by
  by_cases hkey : key.length = 0 ∨ key.length > sockaddrStrlen
  · exact .inr (clientTrace_invalid fun call _ h => not_not.mpr (h ▸ hkey))
  · have hvalid : ∀ call ∈ calls, call.clientKey = key → call.Valid := by
      rintro call - rfl
      exact hkey
    exact .inl (clientTrace_serveAll hsteady hvalid (fun _ _ => UInt64.zero_le)
      (tracks_empty ngx window key 0))

theorem pairwise_arrival {calls : List RateCall} (hsteady : Steady window calls) (key : Bytes) :
    ((ownCalls key calls).map RateCall.arrival).Pairwise fun a b => a.now ≤ b.now := by
  refine List.Pairwise.map _ (fun a b h => ?_) (hsteady.clock.filter _)
  exact UInt64.le_iff_toNat_le.mp h

/-- **The rate bound.**  With one limit and one window in force everywhere,
clocks that do not run backwards and enough memory, each client is let through
at most `limit` times from one start of its window to the next, and at most
`2 * limit` times in any closed interval as long as the window. -/
theorem rate_bound (ngx : Ngx) (limit window : UInt64) (calls : List RateCall)
    (hsteady : Steady window calls) (hlimit : ∀ call ∈ calls, call.limit = limit) (key : Bytes) :
    (∀ pre e seg post,
      clientTrace key ((RateZone.empty ngx).serveAll calls) = pre ++ e :: (seg ++ post) →
      e.2.starts = true → (∀ e' ∈ seg, e'.2.starts = false) →
      (e :: seg).countP admitted ≤ limit.toNat) ∧
    ∀ t, (clientTrace key ((RateZone.empty ngx).serveAll calls)).countP
      (admittedIn t window.toNat) ≤ 2 * limit.toNat := by
  by_cases hnil : calls = []
  · simp [hnil, RateZone.serveAll, clientTrace]
  obtain ⟨call, hcall⟩ := List.exists_mem_of_ne_nil calls hnil
  have hpos : 0 < limit.toNat := hlimit call hcall ▸ limit_pos call
  have hlimits : ∀ a ∈ (ownCalls key calls).map RateCall.arrival, a.limit = limit.toNat := by
    simp only [List.forall_mem_map]
    intro c hc
    simp only [RateCall.arrival, hlimit c (List.mem_of_mem_filter hc)]
  rcases clientTrace_cases ngx hsteady key with hrun | hbad
  · refine ⟨fun pre e seg post htrace hstart hseg => ?_, fun t => ?_⟩
    · rw [htrace, List.map_append, List.map_cons, List.map_append] at hrun
      have hseg' : ∀ e' ∈ seg.map counterView, e'.2 ≠ .started := by
        simp only [List.forall_mem_map]
        intro e' he' hstarted
        exact absurd ((Verdict.decision_eq_started _).mp hstarted) (by simp [hseg e' he'])
      have hle := admits_segment_le hpos hlimits hrun.symm
        ((Verdict.decision_eq_started _).mpr hstart) hseg'
      rwa [← List.map_cons, admits_counterView] at hle
    · rw [← admitsIn_counterView, hrun]
      exact admitsIn_run_le hpos t hlimits (pairwise_arrival hsteady key) (by simp)
  · have hnone : ∀ e ∈ clientTrace key ((RateZone.empty ngx).serveAll calls), admitted e = false :=
      fun e he => by simp [admitted, hbad e he, Verdict.rc]
    refine ⟨fun pre e seg post htrace hstart _ => ?_, fun t => ?_⟩
    · rw [hbad e (by simp [htrace])] at hstart
      exact absurd hstart (by decide)
    · rw [List.countP_eq_zero.mpr fun e he => by simp [admittedIn, hnone e he]]
      exact Nat.zero_le _

/-- Two clients at a limit of two requests in ten milliseconds. -/
def twoClients : List RateCall :=
  let conf : Option Conf := some { createConf with rateLimit := 2, rateWindow := 10 }
  [⟨conf, [65], 0, true, true⟩, ⟨conf, [65], 3, true, true⟩, ⟨conf, [66], 3, true, true⟩,
    ⟨conf, [65], 4, true, true⟩, ⟨conf, [66], 12, true, true⟩, ⟨conf, [65], 12, true, true⟩]

theorem rate_bound_two_clients :
    (clientTrace [65] ((RateZone.empty .plain).serveAll twoClients)).countP (admittedIn 3 10) ≤ 4 :=
  (rate_bound .plain 2 10 twoClients ⟨by decide, by decide, by decide⟩ (by decide) [65]).2 3

end Dmmr.Gateway
