import Mathlib.Data.List.Basic
import Mathlib.Data.Nat.Basic
import Mathlib.Order.Basic

/-!
# Fixed-window counters

A fixed-window counter admits the first request and starts a window with it.
Requests within `width` of the start are counted against the limit; the first
later one starts a new window.

Within one window at most `limit` requests are admitted (`admits_segment_le`).
Windows start more than `width` apart, so an interval of that length meets at
most two of them, and no more than `2 * limit` requests are admitted in it
(`admitsIn_run_le`).
-/

namespace FixedWindow

/-- A window: when it started and how many requests it has admitted. -/
structure Window where
  start : ℕ
  count : ℕ
  deriving DecidableEq, Repr

/-- A request: when it arrives and which limit applies to it. -/
structure Arrival where
  now : ℕ
  limit : ℕ
  deriving DecidableEq, Repr

inductive Decision
  /-- The request is admitted and starts a window. -/
  | started
  /-- The request is admitted into the current window. -/
  | counted
  | rejected
  deriving DecidableEq, Repr

def Decision.admits : Decision → Bool
  | started => true
  | counted => true
  | rejected => false

variable (width : ℕ)

def step (a : Arrival) : Option Window → Decision × Window
  | none => (.started, ⟨a.now, 1⟩)
  | some w =>
      if width < a.now - w.start then (.started, ⟨a.now, 1⟩)
      else if a.limit ≤ w.count then (.rejected, w)
      else (.counted, ⟨w.start, w.count + 1⟩)

/-- The decisions on a sequence of requests, each with its request. -/
def run : Option Window → List Arrival → List (Arrival × Decision)
  | _, [] => []
  | w, a :: as => (a, (step width a w).1) :: run (some (step width a w).2) as

/-- The number of requests admitted. -/
def admits (trace : List (Arrival × Decision)) : ℕ := trace.countP fun e => e.2.admits

/-- The number of requests admitted from time `t` to time `t + width`. -/
def admitsIn (t : ℕ) (trace : List (Arrival × Decision)) : ℕ :=
  trace.countP fun e => e.2.admits && decide (t ≤ e.1.now ∧ e.1.now ≤ t + width)

variable {width} {limit : ℕ}

/-- The three ways a request can go. -/
theorem step_cases (width : ℕ) (a : Arrival) (w : Window) :
    (width < a.now - w.start ∧ step width a (some w) = (.started, ⟨a.now, 1⟩)) ∨
      (a.now - w.start ≤ width ∧ a.limit ≤ w.count ∧ step width a (some w) = (.rejected, w)) ∨
      (a.now - w.start ≤ width ∧ w.count < a.limit ∧
        step width a (some w) = (.counted, ⟨w.start, w.count + 1⟩)) := by
  simp only [step]
  split_ifs with hwidth hlimit
  · exact .inl ⟨hwidth, rfl⟩
  · exact .inr (.inl ⟨not_lt.mp hwidth, hlimit, rfl⟩)
  · exact .inr (.inr ⟨not_lt.mp hwidth, not_le.mp hlimit, rfl⟩)

/-! ## One window -/

theorem admits_add_count_le {as : List Arrival} (hlimit : ∀ a ∈ as, a.limit = limit) {w : Window}
    (hcount : w.count ≤ limit) {seg post : List (Arrival × Decision)}
    (hrun : run width (some w) as = seg ++ post) (hseg : ∀ e ∈ seg, e.2 ≠ .started) :
    admits seg + w.count ≤ limit := by
  induction seg generalizing as w with
  | nil => simpa [admits] using hcount
  | cons e seg ih =>
      cases as with
      | nil => simp [run] at hrun
      | cons a as =>
          obtain ⟨he, hrest⟩ := List.cons.inj hrun
          obtain ⟨ha, hlimit⟩ := List.forall_mem_cons.mp hlimit
          obtain ⟨hne, hseg⟩ := List.forall_mem_cons.mp hseg
          rcases step_cases width a w with ⟨-, hstep⟩ | ⟨-, -, hstep⟩ | ⟨-, hlt, hstep⟩
          · rw [← he, hstep] at hne
            exact absurd rfl hne
          · rw [hstep] at he hrest
            have := ih hlimit hcount hrest hseg
            simpa [admits, ← he, Decision.admits] using this
          · rw [hstep] at he hrest
            have : admits seg + (w.count + 1) ≤ limit := ih hlimit (by simp; omega) hrest hseg
            simp only [admits, ← he, Decision.admits, List.countP_cons, if_true] at this ⊢
            omega

/-- **At most `limit` requests are admitted from one start of a window to the
next.** -/
theorem admits_segment_le (hpos : 0 < limit) {as : List Arrival}
    (hlimit : ∀ a ∈ as, a.limit = limit) {w : Option Window}
    {pre seg post : List (Arrival × Decision)} {e : Arrival × Decision}
    (hrun : run width w as = pre ++ e :: (seg ++ post)) (he : e.2 = .started)
    (hseg : ∀ e ∈ seg, e.2 ≠ .started) : admits (e :: seg) ≤ limit := by
  induction pre generalizing as w with
  | nil =>
      cases as with
      | nil => simp [run] at hrun
      | cons a as =>
          obtain ⟨rfl, hrest⟩ := List.cons.inj hrun
          have hstarted : (step width a w).1 = .started := he
          have hcount : (step width a w).2.count = 1 := by
            cases w with
            | none => rfl
            | some w =>
                rcases step_cases width a w with ⟨-, h⟩ | ⟨-, -, h⟩ | ⟨-, -, h⟩ <;>
                  simp_all
          have := admits_add_count_le (List.forall_mem_cons.mp hlimit).2 (hcount.trans_le hpos)
            hrest hseg
          simp only [admits, List.countP_cons, hstarted, Decision.admits, if_true] at this ⊢
          omega
  | cons e' pre ih =>
      cases as with
      | nil => simp [run] at hrun
      | cons a as => exact ih (List.forall_mem_cons.mp hlimit).2 (List.cons.inj hrun).2

/-! ## An interval as long as a window -/

theorem admitsIn_eq_zero {t : ℕ} {as : List Arrival} (hlate : ∀ a ∈ as, t + width < a.now)
    (w : Option Window) : admitsIn width t (run width w as) = 0 := by
  induction as generalizing w with
  | nil => rfl
  | cons a as ih =>
      obtain ⟨ha, hlate⟩ := List.forall_mem_cons.mp hlate
      have hout : ¬ a.now ≤ t + width := not_le.mpr ha
      simpa [admitsIn, run, hout] using ih hlate _

/-- In a window that starts in the interval nothing but the rest of its quota is
admitted. -/
theorem admitsIn_add_count_le {t : ℕ} {as : List Arrival} (hlimit : ∀ a ∈ as, a.limit = limit)
    (hsorted : as.Pairwise fun a b => a.now ≤ b.now) {w : Window} (hcount : w.count ≤ limit)
    (hstart : t ≤ w.start) : admitsIn width t (run width (some w) as) + w.count ≤ limit := by
  induction as generalizing w with
  | nil => simpa [admitsIn, run] using hcount
  | cons a as ih =>
      obtain ⟨ha, hlimit'⟩ := List.forall_mem_cons.mp hlimit
      obtain ⟨hle, hsorted'⟩ := List.pairwise_cons.mp hsorted
      by_cases hin : a.now ≤ t + width
      · rcases step_cases width a w with ⟨h, -⟩ | ⟨-, -, hstep⟩ | ⟨-, hlt, hstep⟩
        · -- a new window would start after the end of the interval
          omega
        · have := ih hlimit' hsorted' hcount hstart
          simpa [admitsIn, run, hstep, Decision.admits] using this
        · have : admitsIn width t (run width (some ⟨w.start, w.count + 1⟩) as) + (w.count + 1) ≤
            limit := ih hlimit' hsorted' (by simp; omega) hstart
          simp only [admitsIn, run, hstep, List.countP_cons] at this ⊢
          split_ifs <;> omega
      · have hlate : ∀ b ∈ a :: as, t + width < b.now := List.forall_mem_cons.mpr
          ⟨not_le.mp hin, fun b hb => (not_le.mp hin).trans_le (hle b hb)⟩
        have hzero := admitsIn_eq_zero hlate (some w)
        omega

/-- Once the interval has begun, the current window and one more can be used. -/
theorem admitsIn_add_count_le_two_mul (width : ℕ) (hpos : 0 < limit) {t : ℕ} {as : List Arrival}
    (hlimit : ∀ a ∈ as, a.limit = limit) (hsorted : as.Pairwise fun a b => a.now ≤ b.now)
    (hbegun : ∀ a ∈ as, t ≤ a.now) {w : Window} (hcount : w.count ≤ limit) :
    admitsIn width t (run width (some w) as) + w.count ≤ 2 * limit := by
  induction as generalizing w with
  | nil =>
      simp only [admitsIn, run, List.countP_nil]
      omega
  | cons a as ih =>
      obtain ⟨ha, hlimit'⟩ := List.forall_mem_cons.mp hlimit
      obtain ⟨-, hsorted'⟩ := List.pairwise_cons.mp hsorted
      obtain ⟨hat, hbegun'⟩ := List.forall_mem_cons.mp hbegun
      rcases step_cases width a w with ⟨-, hstep⟩ | ⟨-, -, hstep⟩ | ⟨-, hlt, hstep⟩
      · have : admitsIn width t (run width (some ⟨a.now, 1⟩) as) + 1 ≤ limit :=
          admitsIn_add_count_le hlimit' hsorted' hpos hat
        simp only [admitsIn, run, hstep, List.countP_cons] at this ⊢
        split_ifs <;> omega
      · have := ih hlimit' hsorted' hbegun' hcount
        simpa [admitsIn, run, hstep, Decision.admits] using this
      · have : admitsIn width t (run width (some ⟨w.start, w.count + 1⟩) as) + (w.count + 1) ≤
          2 * limit := ih hlimit' hsorted' hbegun' (by simp; omega)
        simp only [admitsIn, run, hstep, List.countP_cons] at this ⊢
        split_ifs <;> omega

/-- **At most `2 * limit` requests are admitted in an interval of length
`width`.** -/
theorem admitsIn_run_le (hpos : 0 < limit) (t : ℕ) {as : List Arrival}
    (hlimit : ∀ a ∈ as, a.limit = limit) (hsorted : as.Pairwise fun a b => a.now ≤ b.now)
    {w : Option Window} (hcount : ∀ v ∈ w, v.count ≤ limit) :
    admitsIn width t (run width w as) ≤ 2 * limit := by
  induction as generalizing w with
  | nil => simp [admitsIn, run]
  | cons a as ih =>
      obtain ⟨ha, hlimit'⟩ := List.forall_mem_cons.mp hlimit
      obtain ⟨hle, hsorted'⟩ := List.pairwise_cons.mp hsorted
      by_cases hbegun : t ≤ a.now
      · have hall : ∀ b ∈ a :: as, t ≤ b.now :=
          List.forall_mem_cons.mpr ⟨hbegun, fun b hb => hbegun.trans (hle b hb)⟩
        cases w with
        | none =>
            have : admitsIn width t (run width (some ⟨a.now, 1⟩) as) + 1 ≤ limit :=
              admitsIn_add_count_le hlimit' hsorted' hpos hbegun
            simp only [admitsIn, run, step, List.countP_cons] at this ⊢
            split_ifs <;> omega
        | some w =>
            have := admitsIn_add_count_le_two_mul width hpos hlimit hsorted hall (hcount w rfl)
            omega
      · have hcount' : (step width a w).2.count ≤ limit := by
          cases w with
          | none => exact hpos
          | some w =>
              have := hcount w rfl
              rcases step_cases width a w with ⟨-, h⟩ | ⟨-, -, h⟩ | ⟨-, hlt, h⟩ <;>
                simp only [h] <;> omega
        have := ih hlimit' hsorted' (w := some (step width a w).2) (by simpa using hcount')
        simpa [admitsIn, run, hbegun] using this

end FixedWindow
