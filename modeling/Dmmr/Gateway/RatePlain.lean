import Dmmr.Gateway.RateIsolation

/-!
# Expiry cannot be seen

`ngx_http_dmmr_rate_expire` deletes the nodes of clients that have been quiet for
longer than the window.  A plain counter would keep them: it remembers the last
window of everyone it has ever seen.

With one limit and one window in force everywhere, clocks that do not run
backwards and enough memory, nobody can tell the two apart
(`rateLimit_eq_plainCounter`).  At every client the zone and the counter are
related by `Tracks`: they hold the same window, or the zone holds none and the
window the counter remembers has passed.
-/

namespace Dmmr.Gateway

open Words FixedWindow

/-! ## The plain counter -/

/-- One request at the plain counter, which keeps the last window of every
client.  A request without an address it could be counted under is an error. -/
def plainCounter (limit width : ℕ) (call : RateCall) (windows : Bytes → Option Window) :
    Rc × (Bytes → Option Window) :=
  if call.Valid then
    (decisionRc (step width ⟨call.now.toNat, limit⟩ (windows call.clientKey)).1,
      Function.update windows call.clientKey
        (some (step width ⟨call.now.toNat, limit⟩ (windows call.clientKey)).2))
  else (.internalServerError, windows)

/-- The answers of the plain counter to a run of requests. -/
def plainRun (limit width : ℕ) : List RateCall → (Bytes → Option Window) → List Rc
  | [], _ => []
  | call :: calls, windows =>
      (plainCounter limit width call windows).1 ::
        plainRun limit width calls (plainCounter limit width call windows).2

/-! ## The simulation -/

variable {ngx : Ngx} {window : UInt64}

/-- The zone and the counter agree on every client. -/
def TracksAll (window : UInt64) (z : RateZone ngx) (clock : UInt64)
    (windows : Bytes → Option Window) : Prop :=
  ∀ key, Tracks window z key clock (windows key)

theorem tracksAll_empty (ngx : Ngx) (window clock : UInt64) :
    TracksAll window (RateZone.empty ngx) clock fun _ => none :=
  fun key => tracks_empty ngx window key clock

/-- One request: the same answer, and agreement afterwards. -/
theorem tracksAll_serve {z : RateZone ngx} {call : RateCall} {clock : UInt64}
    {windows : Bytes → Option Window} (halloc : call.allocOk = true) (hclock : clock ≤ call.now)
    (h : TracksAll call.window z clock windows) :
    (z.serve call).1.rc =
        (plainCounter call.limit.toNat call.window.toNat call windows).1 ∧
      TracksAll call.window (z.serve call).2 call.now
        (plainCounter call.limit.toNat call.window.toNat call windows).2 := by
  unfold plainCounter
  split_ifs with hvalid
  · obtain ⟨hdecision, hself⟩ := tracks_serve_self hvalid halloc hclock (h call.clientKey)
    refine ⟨?_, fun key => ?_⟩
    · rw [rc_serve hvalid halloc, hdecision]
      rfl
    · show Tracks call.window (z.serve call).2 key call.now
        (Function.update windows call.clientKey
          (some (step call.window.toNat call.arrival (windows call.clientKey)).2) key)
      by_cases hkey : key = call.clientKey
      · subst hkey
        rw [Function.update_self]
        exact hself
      · rw [Function.update_of_ne hkey]
        exact tracks_serve_of_ne hkey halloc hclock (h key)
  · obtain ⟨hverdict, hsame⟩ := RateZone.serve_invalid (z := z) hvalid
    refine ⟨?_, fun key => ?_⟩
    · rw [hverdict]
      rfl
    · have hmono := (h key).mono hclock
      unfold Tracks at hmono ⊢
      rwa [hsame key]

/-- A whole run: the same answers. -/
theorem serveAll_eq_plainRun {limit : UInt64} {calls : List RateCall}
    (hsteady : Steady window calls) (hlimit : ∀ call ∈ calls, call.limit = limit)
    {z : RateZone ngx} {clock : UInt64} {windows : Bytes → Option Window}
    (hclock : ∀ call ∈ calls, clock ≤ call.now) (h : TracksAll window z clock windows) :
    (z.serveAll calls).map (fun e => e.2.rc) =
      plainRun limit.toNat window.toNat calls windows := by
  induction calls generalizing z clock windows with
  | nil => rfl
  | cons call calls ih =>
      obtain ⟨rfl, halloc, hlater, hsteady'⟩ := hsteady.of_cons
      obtain ⟨rfl, hlimit'⟩ := List.forall_mem_cons.mp hlimit
      obtain ⟨hrc, htracks⟩ := tracksAll_serve halloc (hclock call List.mem_cons_self) h
      rw [RateZone.serveAll, List.map_cons, plainRun, ← hrc]
      congr 1
      exact ih hsteady' hlimit' hlater htracks

/-- **Expiry cannot be seen.**  With one limit and one window in force
everywhere, clocks that do not run backwards and enough memory, the limiter
answers every run of requests as the counter does that never deletes anything. -/
theorem rateLimit_eq_plainCounter (ngx : Ngx) (limit window : UInt64) (calls : List RateCall)
    (hsteady : Steady window calls) (hlimit : ∀ call ∈ calls, call.limit = limit) :
    ((RateZone.empty ngx).serveAll calls).map (fun e => e.2.rc) =
      plainRun limit.toNat window.toNat calls fun _ => none :=
  serveAll_eq_plainRun hsteady hlimit (fun _ _ => UInt64.zero_le) (tracksAll_empty ngx window 0)

/-- A limit of two requests in ten milliseconds.  The first client uses it up;
the second one comes when that window has passed, and its arrival has the first
client's node deleted; then the first client is back. -/
def quietClient : List RateCall :=
  let conf : Option Conf := some { createConf with rateLimit := 2, rateWindow := 10 }
  [⟨conf, [65], 0, true, true⟩, ⟨conf, [65], 3, true, true⟩, ⟨conf, [65], 4, true, true⟩,
    ⟨conf, [66], 12, true, true⟩, ⟨conf, [65], 13, true, true⟩]

theorem rateLimit_eq_plainCounter_quietClient :
    ((RateZone.empty .plain).after (quietClient.take 4)).client [65] = none ∧
      ((RateZone.empty .plain).serveAll quietClient).map (fun e => e.2.rc) =
        plainRun 2 10 quietClient fun _ => none :=
  ⟨by decide, rateLimit_eq_plainCounter .plain 2 10 quietClient ⟨by decide, by decide, by decide⟩
    (by decide)⟩

end Dmmr.Gateway
