import Dmmr.Gateway.Handler
import Dmmr.Gateway.RateBound

/-!
# The limiter behind the other stages

All workers handle requests against one rate zone, and the zone outlives them: when
nginx reads its configuration again, the zone of the same name and size is handed on to
the new workers.  The stages before the limiter do not look at the zone.  So a request
that they refuse has no effect on any other request (`refused_leave_no_trace`), and what
holds of the limiter holds of the requests that are passed on, under assumptions on the
authenticated requests alone (`forwarded_bounded`).

The handler calls the limiter at most once, and the lock of the zone puts these calls in
an order.  The requests are listed here in this order.
-/

namespace Dmmr.Gateway

open Words FixedWindow

/-! ## Requests and reloads -/

/-- `ngx_http_dmmr_rate_zone_init`, with the zone nginx hands on. -/
def rateZoneInit (slabOk : Bool) (data : Option RateShctx) : Rc × Option RateShctx :=
  match data with
  | some sh => (.ok, some sh)
  | none => if !slabOk then (.error, none) else (.ok, some .init)

/-- A request as it comes to the handler of some worker, with the configuration the
worker has and what happens around the request. -/
structure Visit where
  main : Option Conf
  loc : Option Conf
  env : RequestEnv
  request : Request

variable (ngx : Ngx)

def Visit.handle (v : Visit) (zone : Option RateShctx) : Outcome :=
  handler ngx v.env v.main v.loc v.request zone

/-- The call of the limiter for the request, if it comes to that. -/
def Visit.call (v : Visit) : RateCall := rateCall v.env v.loc v.request

inductive TrafficEvent
  | visit (v : Visit)
  /-- The configuration is read again. -/
  | reload (slabOk : Bool)

/-- The requests of a run, each with its outcome. -/
def traffic : List TrafficEvent → Option RateShctx → List (Visit × Outcome)
  | [], _ => []
  | .visit v :: events, zone => (v, v.handle ngx zone) :: traffic events (v.handle ngx zone).zone
  | .reload slabOk :: events, zone => traffic events (rateZoneInit slabOk zone).2

/-! ## Which requests are counted -/

/-- The request gets as far as the limiter. -/
def Visit.counted (v : Visit) : Bool :=
  let routed := router v.env.pool v.main v.request .zero
  (v.loc.map Conf.enable).getD .off == .on && v.env.pool.ctx && routed.1 == .ok &&
    (auth v.env.pool v.env.attempts v.loc v.request routed.2).1 == .ok

def TrafficEvent.counted : TrafficEvent → Bool
  | .visit v => v.counted
  | .reload _ => false

/-- The limiter's calls for the requests that get so far. -/
def countedCalls : List TrafficEvent → List RateCall
  | [] => []
  | .visit v :: events => if v.counted then v.call :: countedCalls events else countedCalls events
  | .reload _ :: events => countedCalls events

/-- A request of the client was passed on, at a time from `t` to `t + length`. -/
def forwardedIn (key : Bytes) (t length : ℕ) (e : Visit × Outcome) : Bool :=
  e.2.rc == .ok && e.1.request.clientAddr == key &&
    decide (t ≤ e.1.env.now.toNat ∧ e.1.env.now.toNat ≤ t + length)

variable {ngx}

/-- What a request does that does not get to the limiter is the same on any zone. -/
theorem handle_of_not_counted (ngx : Ngx) {v : Visit} (h : v.counted = false) :
    ∃ rc ctx, rc ≠ .ok ∧ ∀ zone, v.handle ngx zone = ⟨rc, ctx, zone, v.request.uri, none⟩ := by
  simp only [Visit.counted, Bool.and_eq_false_iff, beq_eq_false_iff_ne] at h
  unfold Visit.handle handler handleRouted
  set routed := router v.env.pool v.main v.request .zero
  by_cases hon : (v.loc.map Conf.enable).getD .off = .on
  · simp only [ne_eq, hon, not_true_eq_false, if_false, false_or] at h ⊢
    cases hctx : v.env.pool.ctx with
    | false => exact ⟨.internalServerError, none, by simp, fun zone => rfl⟩
    | true =>
        simp only [hctx, Bool.true_eq_false, false_or] at h
        by_cases hrouted : routed.1 = .ok
        · have hauth := h.resolve_left (not_not.mpr hrouted)
          refine ⟨_, some (auth v.env.pool v.env.attempts v.loc v.request routed.2).2, hauth,
            fun zone => ?_⟩
          simp only [Bool.not_true, Bool.false_eq_true, hrouted, hauth, not_true_eq_false,
            not_false_eq_true, if_false, if_true]
        · refine ⟨_, some routed.2, hrouted, fun zone => ?_⟩
          simp only [Bool.not_true, Bool.false_eq_true, hrouted, not_false_eq_true, if_false,
            if_true]
  · refine ⟨.declined, none, by simp, fun zone => ?_⟩
    rw [if_pos hon]

/-- A request that gets to the limiter leaves the zone as the limiter does, and is passed
on only if the limiter admits it. -/
theorem handle_of_counted {v : Visit} (h : v.counted = true) (zone : Option RateShctx) :
    (v.handle ngx zone).zone = (dmmrRateLimit ngx v.call zone).2 ∧
      ((v.handle ngx zone).rc = .ok → (dmmrRateLimit ngx v.call zone).1 = .ok) := by
  simp only [Visit.counted, Bool.and_eq_true, beq_iff_eq] at h
  obtain ⟨⟨⟨hon, hctx⟩, hrouted⟩, hauth⟩ := h
  unfold Visit.handle handler handleRouted handleAuthenticated Visit.call
  simp only [ne_eq, hon, hctx, hrouted, hauth, not_true_eq_false, Bool.not_true,
    Bool.false_eq_true, if_false, plugins]
  by_cases hok : (dmmrRateLimit ngx (rateCall v.env v.loc v.request) zone).1 = .ok
  · rw [if_neg (not_not.mpr hok)]
    exact ⟨rfl, fun _ => hok⟩
  · rw [if_pos hok]
    exact ⟨rfl, fun h => absurd h hok⟩

/-- The zone stays there. -/
theorem handle_zone_of_counted {v : Visit} (h : v.counted = true) (sh : RateShctx) :
    (v.handle ngx (some sh)).zone = some (rateLimit ngx v.call sh).2 :=
  (handle_of_counted h (some sh)).1

/-! ## Requests that are refused -/

/-- **Requests that do not get to the limiter leave no trace.**  However many of them
come, from whatever clients, and however often the configuration is read again: the
others fare as they would without them. -/
theorem refused_leave_no_trace (ngx : Ngx) (events : List TrafficEvent) (sh : RateShctx) :
    (traffic ngx events (some sh)).filter (fun e => e.1.counted) =
      traffic ngx (events.filter TrafficEvent.counted) (some sh) := by
  induction events generalizing sh with
  | nil => rfl
  | cons event events ih =>
      cases event with
      | reload slabOk => exact ih sh
      | visit v =>
          cases hcounted : v.counted with
          | false =>
              obtain ⟨rc, ctx, -, hsame⟩ := handle_of_not_counted ngx hcounted
              have hskip : TrafficEvent.counted (.visit v) = false := hcounted
              simp only [traffic, List.filter_cons, hcounted, hskip, Bool.false_eq_true, if_false,
                hsame]
              exact ih sh
          | true =>
              have hkeep : TrafficEvent.counted (.visit v) = true := hcounted
              simp only [traffic, List.filter_cons, hcounted, hkeep, if_true,
                handle_zone_of_counted hcounted, ih]

/-! ## Requests that are passed on -/

/-- A request counts for a client only if it does so for the limiter. -/
theorem admitted_of_forwardedIn {v : Visit} (hcounted : v.counted = true) {z : RateZone ngx}
    {key : Bytes} {t length : ℕ}
    (h : forwardedIn key t length (v, v.handle ngx (some z.toRateShctx)) = true) :
    (v.call.clientKey == key) = true ∧
      admittedIn t length (v.call, (z.serve v.call).1) = true := by
  obtain ⟨-, hadmits⟩ := handle_of_counted hcounted (some z.toRateShctx)
  simp only [forwardedIn, Bool.and_eq_true, beq_iff_eq] at h
  obtain ⟨⟨hrc, hkey⟩, htime⟩ := h
  refine ⟨beq_iff_eq.mpr hkey, ?_⟩
  rw [admittedIn, Bool.and_eq_true]
  exact ⟨beq_iff_eq.mpr (hadmits hrc), htime⟩

/-- The limiter sees the counted requests only. -/
theorem countP_forwardedIn_le (events : List TrafficEvent) (z : RateZone ngx) (key : Bytes)
    (t length : ℕ) :
    (traffic ngx events (some z.toRateShctx)).countP (forwardedIn key t length) ≤
      (clientTrace key (z.serveAll (countedCalls events))).countP (admittedIn t length) := by
  induction events generalizing z with
  | nil => exact le_rfl
  | cons event events ih =>
      cases event with
      | reload slabOk => exact ih z
      | visit v =>
          cases hcounted : v.counted with
          | false =>
              obtain ⟨rc, ctx, hrc, hsame⟩ := handle_of_not_counted ngx hcounted
              have hnot : ∀ zone uri, forwardedIn key t length (v, ⟨rc, ctx, zone, uri, none⟩) =
                  false := fun zone uri => by simp [forwardedIn, hrc]
              simp only [traffic, countedCalls, hcounted, Bool.false_eq_true, if_false,
                List.countP_cons, hsame, hnot, add_zero]
              exact ih z
          | true =>
              have hih := ih (z.serve v.call).2
              simp only [traffic, countedCalls, hcounted, if_true, RateZone.serveAll,
                handle_zone_of_counted hcounted, clientTrace, List.filter_cons, List.countP_cons]
              by_cases hfwd : forwardedIn key t length
                  (v, v.handle ngx (some z.toRateShctx)) = true
              · obtain ⟨hkey, hadmitted⟩ := admitted_of_forwardedIn hcounted hfwd
                simp only [hfwd, hkey, if_true, List.countP_cons, hadmitted]
                exact Nat.add_le_add_right hih 1
              · rw [if_neg hfwd, add_zero]
                refine hih.trans ?_
                split_ifs
                · rw [List.countP_cons]
                  exact Nat.le_add_right _ _
                · exact le_rfl

/-- The limiter's own bound, for an interval. -/
theorem countP_admittedIn_le (ngx : Ngx) {limit window : UInt64} {calls : List RateCall}
    (hsteady : Steady window calls) (hlimit : ∀ call ∈ calls, call.limit = limit) (key : Bytes)
    (t : ℕ) :
    (clientTrace key ((RateZone.empty ngx).serveAll calls)).countP
      (admittedIn t window.toNat) ≤ 2 * limit.toNat := by
  rcases clientTrace_cases ngx hsteady key with hrun | hbad
  · by_cases hnil : calls = []
    · simp [hnil, RateZone.serveAll, clientTrace]
    obtain ⟨call, hcall⟩ := List.exists_mem_of_ne_nil calls hnil
    have hpos : 0 < limit.toNat := hlimit call hcall ▸ limit_pos call
    have hlimits : ∀ a ∈ (ownCalls key calls).map RateCall.arrival, a.limit = limit.toNat := by
      intro a ha
      obtain ⟨c, hc, rfl⟩ := List.mem_map.mp ha
      rw [RateCall.arrival, hlimit c (List.mem_of_mem_filter hc)]
    rw [← admitsIn_counterView, hrun]
    exact admitsIn_run_le hpos t hlimits (pairwise_arrival hsteady key) (by simp)
  · have hnone : ∀ e ∈ clientTrace key ((RateZone.empty ngx).serveAll calls),
        ¬ admittedIn t window.toNat e = true := by
      intro e he
      simp [admittedIn, admitted, hbad e he, Verdict.rc]
    rw [List.countP_eq_zero.mpr hnone]
    exact Nat.zero_le _

/-- **What is passed on is bounded.**  From the start of nginx on, through all workers
and reloads that keep the zone, at most `2 * limit` requests of a client are passed on
to an upstream in any interval as long as the window.  One limit, one window, an orderly
clock and enough memory are assumed for the requests that are authenticated, and nothing
for the rest. -/
theorem forwarded_bounded (ngx : Ngx) (limit window : UInt64) {events : List TrafficEvent}
    (hsteady : Steady window (countedCalls events))
    (hlimit : ∀ call ∈ countedCalls events, call.limit = limit) (key : Bytes) (t : ℕ) :
    (traffic ngx events (rateZoneInit true none).2).countP (forwardedIn key t window.toNat) ≤
      2 * limit.toNat :=
  calc
    _ ≤ (clientTrace key ((RateZone.empty ngx).serveAll (countedCalls events))).countP
          (admittedIn t window.toNat) :=
        countP_forwardedIn_le events (RateZone.empty ngx) key t window.toNat
    _ ≤ 2 * limit.toNat := countP_admittedIn_le ngx hsteady hlimit key t

/-- A request for a public path, which needs no credential, at the given time. -/
def publicVisit (now : UInt64) : Visit where
  main := some { createConf with
    services := some [⟨ascii "web", ascii "10.0.0.2", ascii "8080"⟩]
    routes := some [⟨ascii "/", [], some (ascii "web"), none, false, 0⟩] }
  loc := some { createConf.enabled with rateLimit := 1, rateWindow := 10 }
  env := { cachelessEnv with now := now }
  request := { bareRequest with uri := ascii "/public/a" }

/-- Two requests within a window, a third one after it, and a reload: one of the first
two is passed on. -/
theorem forwarded_bounded_public :
    ((traffic .plain [.visit (publicVisit 0), .visit (publicVisit 3), .reload true,
        .visit (publicVisit 20)] (rateZoneInit true none).2).map fun e => e.2.rc) =
        [.ok, .tooManyRequests, .ok] ∧
      (traffic .plain [.visit (publicVisit 0), .visit (publicVisit 3), .reload true,
        .visit (publicVisit 20)] (rateZoneInit true none).2).countP
          (forwardedIn (ascii "10.0.0.1") 0 10) ≤ 2 := by
  refine ⟨by decide, ?_⟩
  exact forwarded_bounded .plain 1 10 ⟨by decide, by decide, by decide⟩ (by decide)
    (ascii "10.0.0.1") 0

end Dmmr.Gateway
