import Dmmr.Gateway.RateZone
import Mathlib.Data.List.TakeWhile

/-!
# Workers whose clocks disagree

Every worker reads its own cached `ngx_current_msec`, so a request can carry a
time before the start of the window it is judged by.  The age of a window is an
unsigned difference: it is right when the clock is not behind the start of the
window, and wraps to a huge age when it is.

A run restarts and expires windows by elapsed time only exactly when no call
meets a window it lags behind (`byElapsedTime_iff`).  Every other run hands out a
fresh quota too early: one request with an older clock reading is enough
(`byElapsedTime_fails`).
-/

namespace Dmmr.Gateway

open Words

/-! ## The age of a window -/

/-- As integers, `now` exceeds the start of a window by more than its length. -/
def Elapsed (start window now : UInt64) : Prop := start.toNat + window.toNat < now.toNat

/-- The clock is behind the start of a window, and not by so much that the
difference wraps back to at most the length of the window. -/
def Lags (start window now : UInt64) : Prop :=
  now < start ∧ window.toNat + (start.toNat - now.toNat) < 2 ^ 64

/-- What the limiter takes for a window that has passed. -/
theorem lt_sub_iff (start window now : UInt64) :
    window < now - start ↔ Elapsed start window now ∨ Lags start window now := by
  have hstart := start.toNat_lt
  have hnow := now.toNat_lt
  unfold Elapsed Lags
  simp only [UInt64.lt_iff_toNat_lt, UInt64.toNat_sub]
  by_cases hle : start.toNat ≤ now.toNat
  · have hsub : (2 ^ 64 - start.toNat + now.toNat) % 2 ^ 64 = now.toNat - start.toNat := by omega
    rw [hsub]
    omega
  · have hsub : (2 ^ 64 - start.toNat + now.toNat) % 2 ^ 64 =
        2 ^ 64 - start.toNat + now.toNat := Nat.mod_eq_of_lt (by omega)
    rw [hsub]
    omega

theorem Lags.not_elapsed {start window now : UInt64} (h : Lags start window now) :
    ¬ Elapsed start window now := by
  have hlt := UInt64.lt_iff_toNat_lt.mp h.1
  unfold Elapsed
  omega

/-! ## Restarts and expiries -/

variable {ngx : Ngx}

/-- A call restarts its client's window, and expires those of the others, only
by elapsed time; in particular a clock that lags gives no fresh quota. -/
structure ByElapsedTime (call : RateCall) (z : RateZone ngx) : Prop where
  restart : ∀ node, z.client call.clientKey = some node → (z.serve call).1 = .restarted →
    Elapsed node.windowStart call.window call.now
  expiry : call.Valid → z.client call.clientKey = none → ∀ key node, z.client key = some node →
    client ngx (rateExpire ngx call.now call.window z.toRateShctx) key = none →
      Elapsed node.windowStart call.window call.now
  quota : ∀ node, z.client call.clientKey = some node → call.now < node.windowStart →
    (z.serve call).1 ≠ .restarted

/-- A call meets a window it lags behind: its client's own or, for a client
without a node, the first window of the queue that has not passed. -/
def Overtaken (call : RateCall) (z : RateZone ngx) : Prop :=
  call.Valid ∧
    match z.client call.clientKey with
    | some node => Lags node.windowStart call.window call.now
    | none => ∃ pre a post, z.lru = pre ++ a :: post ∧
        (∀ b ∈ pre, Elapsed (z.mem b).windowStart call.window call.now) ∧
        Lags (z.mem a).windowStart call.window call.now

/-! ### The queue -/

variable {sh : RateShctx} {now window : UInt64}

/-- Expiry removes nodes from the head of the queue as long as their windows
count as passed. -/
theorem lru_rateExpire (now window : UInt64) (sh : RateShctx) :
    (rateExpire ngx now window sh).lru =
      sh.lru.dropWhile fun a => window < now - (sh.mem a).windowStart := by
  induction hlru : sh.lru generalizing sh with
  | nil =>
      unfold rateExpire
      rw [hlru, rateExpireLoop]
      rfl
  | cons entry lru ih =>
      rw [rateExpire_cons hlru]
      split_ifs with hfresh
      · rw [hlru, List.dropWhile_cons_of_neg (by simpa using hfresh)]
      · rw [List.dropWhile_cons_of_pos (by simpa using hfresh)]
        exact ih _ rfl

/-- Two nodes of the queue with the same key are the same. -/
theorem eq_of_key_eq (hwf : sh.Wf ngx) {a b : ℕ} (ha : a ∈ sh.lru) (hb : b ∈ sh.lru)
    (hkey : (sh.mem a).key = (sh.mem b).key) : a = b := by
  have hlookup := (rateLookup_eq_some_iff hwf).mpr ⟨ha, hkey⟩
  rw [(rateLookup_eq_some_iff hwf).mpr ⟨hb, rfl⟩] at hlookup
  exact (Option.some.inj hlookup).symm

theorem nodup_lru (hwf : sh.Wf ngx) : sh.lru.Nodup := by
  refine hwf.perm.nodup_iff.mpr (List.Pairwise.imp ?_ hwf.ordered)
  rintro a b hlt rfl
  exact lt_irrefl _ hlt

/-- The node of a client is gone after expiry exactly when it is among those
removed. -/
theorem client_rateExpire_eq_none_iff (hwf : sh.Wf ngx) {a : ℕ} (ha : a ∈ sh.lru) :
    client ngx (rateExpire ngx now window sh) (sh.mem a).key = none ↔
      a ∈ sh.lru.takeWhile fun a => window < now - (sh.mem a).windowStart := by
  obtain ⟨hwf', hmem, hsub, -⟩ := rateExpire_spec hwf now window
  have hsplit := List.takeWhile_append_dropWhile
    (p := fun a => decide (window < now - (sh.mem a).windowStart)) (l := sh.lru)
  have hkept : a ∈ (rateExpire ngx now window sh).lru ↔
      client ngx (rateExpire ngx now window sh) (sh.mem a).key ≠ none := by
    rw [Option.ne_none_iff_exists']
    constructor
    · exact fun h => ⟨sh.mem a, (client_eq_some_iff hwf').mpr ⟨a, h, congrFun hmem a, rfl⟩⟩
    · rintro ⟨node, hnode⟩
      obtain ⟨b, hb, rfl, hkey⟩ := (client_eq_some_iff hwf').mp hnode
      rw [hmem] at hkey
      rwa [eq_of_key_eq hwf ha (hsub b hb) hkey.symm]
  have hdisjoint := nodup_lru hwf
  rw [← hsplit, List.nodup_append] at hdisjoint
  rw [← not_iff_not, ← ne_eq, ← hkept, lru_rateExpire]
  constructor
  · exact fun h h' => hdisjoint.2.2 a h' a h rfl
  · intro h
    rw [← hsplit] at ha
    exact (List.mem_append.mp ha).resolve_left h

/-- Among windows that count as passed, either all have elapsed or one is the
first to be lagged behind. -/
theorem exists_first_lags {mem : ℕ → RateNode} {l : List ℕ}
    (hpassed : ∀ a ∈ l, window < now - (mem a).windowStart) {a : ℕ} (ha : a ∈ l)
    (hlags : Lags (mem a).windowStart window now) :
    ∃ pre b post, l = pre ++ b :: post ∧ (∀ c ∈ pre, Elapsed (mem c).windowStart window now) ∧
      Lags (mem b).windowStart window now := by
  induction l with
  | nil => simp at ha
  | cons c l ih =>
      obtain ⟨hc, hl⟩ := List.forall_mem_cons.mp hpassed
      rcases (lt_sub_iff _ _ _).mp hc with helapsed | hfirst
      · have ha' : a ∈ l := by
          rcases List.mem_cons.mp ha with rfl | ha'
          · exact absurd helapsed hlags.not_elapsed
          · exact ha'
        obtain ⟨pre, b, post, rfl, hpre, hb⟩ := ih hl ha'
        exact ⟨c :: pre, b, post, rfl, List.forall_mem_cons.mpr ⟨helapsed, hpre⟩, hb⟩
      · exact ⟨[], c, l, rfl, by simp, hfirst⟩

/-! ## One call -/

variable {z : RateZone ngx} {call : RateCall}

/-- A window is restarted exactly when it counts as passed. -/
theorem serve_eq_restarted_iff (hvalid : call.Valid) {node : RateNode}
    (hclient : z.client call.clientKey = some node) :
    (z.serve call).1 = .restarted ↔ call.window < call.now - node.windowStart := by
  rw [(RateZone.serve_hit hvalid hclient).1, rateHit]
  split_ifs with hpassed hcount <;> simp [hpassed]

theorem valid_of_restarted (h : (z.serve call).1 = .restarted) : call.Valid := by
  by_contra hvalid
  rw [(RateZone.serve_invalid hvalid).1] at h
  exact absurd h (by decide)

theorem byElapsedTime_of_not_overtaken (h : ¬ Overtaken call z) : ByElapsedTime call z := by
  have hrestart : ∀ node, z.client call.clientKey = some node → (z.serve call).1 = .restarted →
      Elapsed node.windowStart call.window call.now := by
    intro node hclient hrestarted
    have hvalid := valid_of_restarted hrestarted
    have hpassed := (serve_eq_restarted_iff hvalid hclient).mp hrestarted
    refine ((lt_sub_iff _ _ _).mp hpassed).resolve_right fun hlags => h ⟨hvalid, ?_⟩
    rw [hclient]
    exact hlags
  refine ⟨hrestart, ?_, ?_⟩
  · intro hvalid hnone key node hnode hgone
    obtain ⟨a, ha, rfl, rfl⟩ := (client_eq_some_iff z.wf).mp hnode
    have htaken := (client_rateExpire_eq_none_iff z.wf ha).mp hgone
    have hpassed : ∀ b ∈ z.lru.takeWhile fun a => call.window < call.now - (z.mem a).windowStart,
        call.window < call.now - (z.mem b).windowStart :=
      fun b hb => by simpa using List.mem_takeWhile_imp hb
    refine ((lt_sub_iff _ _ _).mp (hpassed a htaken)).resolve_right fun hlags => h ⟨hvalid, ?_⟩
    obtain ⟨pre, b, post, heq, hpre, hb⟩ := exists_first_lags hpassed htaken hlags
    rw [hnone]
    refine ⟨pre, b, post ++ z.lru.dropWhile fun a =>
      call.window < call.now - (z.mem a).windowStart, ?_, hpre, hb⟩
    rw [← List.cons_append, ← List.append_assoc, ← heq, List.takeWhile_append_dropWhile]
  · intro node hclient hlt hrestarted
    have helapsed := hrestart node hclient hrestarted
    have hlt' := UInt64.lt_iff_toNat_lt.mp hlt
    unfold Elapsed at helapsed
    omega

theorem not_overtaken_of_byElapsedTime (h : ByElapsedTime call z) : ¬ Overtaken call z := by
  rintro ⟨hvalid, hmatch⟩
  cases hclient : z.client call.clientKey with
  | some node =>
      rw [hclient] at hmatch
      have hpassed := (lt_sub_iff _ _ _).mpr (.inr hmatch)
      exact hmatch.not_elapsed
        (h.restart node hclient ((serve_eq_restarted_iff hvalid hclient).mpr hpassed))
  | none =>
      rw [hclient] at hmatch
      obtain ⟨pre, a, post, hlru, hpre, hlags⟩ := hmatch
      have ha : a ∈ z.lru := by simp [hlru]
      -- everything up to the lagging window is removed
      have htaken : a ∈ z.lru.takeWhile fun a =>
          call.window < call.now - (z.mem a).windowStart := by
        have hpre : ∀ b ∈ pre, decide (call.window < call.now - (z.mem b).windowStart) = true :=
          fun b hb => decide_eq_true ((lt_sub_iff _ _ _).mpr (.inl (hpre b hb)))
        have hself := (lt_sub_iff _ _ _).mpr (.inr hlags)
        rw [hlru, List.takeWhile_append_of_pos hpre]
        simp [hself]
      exact hlags.not_elapsed (h.expiry hvalid hclient _ _
        ((client_eq_some_iff z.wf).mpr ⟨a, ha, rfl, rfl⟩)
        ((client_rateExpire_eq_none_iff z.wf ha).mpr htaken))

/-! ## Runs -/

/-- **Windows restart and expire by elapsed time exactly when no clock lags.**
In a run of any clients' requests, each with a clock reading of its own, every
call restarts and expires windows by elapsed time only if and only if no call
meets a window it lags behind. -/
theorem byElapsedTime_iff (ngx : Ngx) (calls : List RateCall) :
    (∀ pre call post, calls = pre ++ call :: post →
        ByElapsedTime call ((RateZone.empty ngx).after pre)) ↔
      ∀ pre call post, calls = pre ++ call :: post →
        ¬ Overtaken call ((RateZone.empty ngx).after pre) := by
  constructor
  · exact fun h pre call post heq => not_overtaken_of_byElapsedTime (h pre call post heq)
  · exact fun h pre call post heq => byElapsedTime_of_not_overtaken (h pre call post heq)

/-- A client at a limit of one request in ten milliseconds: its second request is
handled by a worker whose clock is a millisecond behind, and passes. -/
theorem byElapsedTime_fails :
    let conf : Option Conf := some { createConf with rateLimit := 1, rateWindow := 10 }
    let calls : List RateCall := [⟨conf, [65], 10, true, true⟩, ⟨conf, [65], 9, true, true⟩]
    ((RateZone.empty .plain).serveAll calls).map Prod.snd = [.created, .restarted] ∧
      ¬ ∀ pre call post, calls = pre ++ call :: post →
        ByElapsedTime call ((RateZone.empty .plain).after pre) := by
  intro conf calls
  refine ⟨by decide, fun h => ?_⟩
  have hclient : ((RateZone.empty .plain).after [⟨conf, [65], 10, true, true⟩]).client [65] =
      some ⟨0, 10, 1, [65]⟩ := by decide
  exact (h [⟨conf, [65], 10, true, true⟩] ⟨conf, [65], 9, true, true⟩ [] rfl).quota _ hclient
    (by decide) (by decide)

end Dmmr.Gateway
