import Dmmr.Gateway.RateBound

/-!
# Isolation of the clients of a zone

The locations of a server share one rate zone but can each have a limit and a
window of their own.  `ngx_http_dmmr_rate_expire` measures the age of every
client's node by the window of the location at which a new client happens to
arrive, so a location with a short window deletes nodes that still count at a
location with a long one.

Clients are isolated from each other exactly when all locations have the same
window (`isolated_iff_sameWindow`); their limits do not matter.
-/

namespace Dmmr.Gateway

open Words FixedWindow

variable {ngx : Ngx} {confs : Set (Option Conf)}

/-! ## Isolation -/

/-- What of a call is the client's own: its time, and the limit and the window
of the location it is for. -/
def RateCall.terms (call : RateCall) : UInt64 × UInt64 × UInt64 :=
  (call.now, call.limit, call.window)

/-- What a client is answered in a run. -/
def verdicts (ngx : Ngx) (key : Bytes) (calls : List RateCall) : List Rc :=
  (clientTrace key ((RateZone.empty ngx).serveAll calls)).map fun e => e.2.rc

/-- A run over the given locations, with enough memory and clocks that do not
run backwards. -/
structure RunsOn (confs : Set (Option Conf)) (calls : List RateCall) : Prop where
  conf_mem : ∀ call ∈ calls, call.conf ∈ confs
  allocOk : ∀ call ∈ calls, call.allocOk = true
  clock : calls.Pairwise fun a b => a.now ≤ b.now

/-- What a client is answered depends on its own calls alone. -/
def Isolated (ngx : Ngx) (confs : Set (Option Conf)) : Prop :=
  ∀ calls calls', RunsOn confs calls → RunsOn confs calls' → ∀ key,
    (ownCalls key calls).map RateCall.terms = (ownCalls key calls').map RateCall.terms →
      verdicts ngx key calls = verdicts ngx key calls'

/-- All locations have the same window in force. -/
def SameWindow (confs : Set (Option Conf)) : Prop :=
  ∀ conf ∈ confs, ∀ conf' ∈ confs, effectiveWindow conf = effectiveWindow conf'

/-! ## One window -/

/-- The code a decision stands for. -/
def decisionRc : Decision → Rc
  | .started => .ok
  | .counted => .ok
  | .rejected => .tooManyRequests

theorem rc_serve {z : RateZone ngx} {call : RateCall} (hvalid : call.Valid)
    (halloc : call.allocOk = true) :
    (z.serve call).1.rc = decisionRc (z.serve call).1.decision := by
  cases hclient : z.client call.clientKey with
  | some node =>
      rw [(RateZone.serve_hit hvalid hclient).1]
      unfold rateHit
      split_ifs <;> rfl
  | none => rw [(RateZone.serve_miss hvalid halloc hclient).1]; rfl

/-- The answers to a client whose address is accepted are its counter's. -/
theorem verdicts_of_valid {window : UInt64} {calls : List RateCall} (hsteady : Steady window calls)
    {key : Bytes} (hvalid : ∀ call ∈ calls, call.clientKey = key → call.Valid) :
    verdicts ngx key calls = (run window.toNat none
      ((ownCalls key calls).map RateCall.arrival)).map fun e => decisionRc e.2 := by
  have hrc : ∀ e ∈ (RateZone.empty ngx).serveAll calls, e.1.clientKey = key →
      e.2.rc = decisionRc e.2.decision :=
    RateZone.forall_mem_serveAll (fun call hcall _ hkey =>
      rc_serve (hvalid call hcall hkey) (hsteady.allocOk call hcall)) _
  rw [← clientTrace_serveAll hsteady hvalid (fun _ _ => UInt64.zero_le)
    (tracks_empty ngx window key 0), List.map_map]
  refine List.map_congr_left fun e he => ?_
  obtain ⟨hmem, hkey⟩ := List.mem_filter.mp he
  exact hrc e hmem (by simpa using hkey)

/-- A client whose address is not accepted gets an error every time. -/
theorem verdicts_of_invalid {calls : List RateCall} {key : Bytes}
    (hvalid : ∀ call ∈ calls, call.clientKey = key → ¬ call.Valid) :
    verdicts ngx key calls =
      ((ownCalls key calls).map RateCall.terms).map fun _ => .internalServerError := by
  rw [← map_fst_clientTrace key calls (RateZone.empty ngx), List.map_map, List.map_map]
  refine List.map_congr_left fun e he => ?_
  rw [clientTrace_invalid hvalid e he]
  rfl

theorem verdicts_eq_of_steady {window : UInt64} {calls calls' : List RateCall}
    (hsteady : Steady window calls) (hsteady' : Steady window calls') {key : Bytes}
    (hown : (ownCalls key calls).map RateCall.terms = (ownCalls key calls').map RateCall.terms) :
    verdicts ngx key calls = verdicts ngx key calls' := by
  by_cases hkey : key.length = 0 ∨ key.length > sockaddrStrlen
  · have hinvalid : ∀ call : RateCall, call.clientKey = key → ¬ call.Valid := by
      rintro call rfl
      exact not_not.mpr hkey
    rw [verdicts_of_invalid fun call _ => hinvalid call,
      verdicts_of_invalid fun call _ => hinvalid call, hown]
  · have hvalid : ∀ call : RateCall, call.clientKey = key → call.Valid := by
      rintro call rfl
      exact hkey
    have harrivals : (ownCalls key calls).map RateCall.arrival =
        (ownCalls key calls').map RateCall.arrival := by
      have h := congrArg (List.map fun terms : UInt64 × UInt64 × UInt64 =>
        (⟨terms.1.toNat, terms.2.1.toNat⟩ : Arrival)) hown
      rwa [List.map_map, List.map_map] at h
    rw [verdicts_of_valid hsteady fun call _ => hvalid call,
      verdicts_of_valid hsteady' fun call _ => hvalid call, harrivals]

theorem isolated_of_sameWindow (ngx : Ngx) (hsame : SameWindow confs) : Isolated ngx confs := by
  intro calls calls' hruns hruns' key hown
  obtain ⟨window, hwindow⟩ : ∃ window, ∀ conf ∈ confs, effectiveWindow conf = window := by
    by_cases hne : confs.Nonempty
    · obtain ⟨conf, hconf⟩ := hne
      exact ⟨_, fun conf' hconf' => hsame conf' hconf' conf hconf⟩
    · exact ⟨0, fun conf hconf => absurd ⟨conf, hconf⟩ hne⟩
  have hsteady : ∀ {calls}, RunsOn confs calls → Steady window calls := fun hruns =>
    ⟨fun call hcall => hwindow _ (hruns.conf_mem call hcall), hruns.allocOk, hruns.clock⟩
  exact verdicts_eq_of_steady (hsteady hruns) (hsteady hruns') hown

/-! ## Two windows -/

section TwoWindows

variable {conf : Option Conf}

/-- A request of the first of two clients, at time zero. -/
def firstCall (conf : Option Conf) : RateCall := ⟨conf, [65], 0, true, true⟩

theorem valid_of_key {call : RateCall} (hkey : call.clientKey = [65] ∨ call.clientKey = [66]) :
    call.Valid := by
  unfold RateCall.Valid
  rcases hkey with h | h <;> rw [h] <;> decide

/-- The client alone in the zone uses up its quota. -/
theorem client_after_replicate (ngx : Ngx) {n : ℕ} (hn : n + 1 ≤ (effectiveLimit conf).toNat) :
    ((RateZone.empty ngx).after (List.replicate (n + 1) (firstCall conf))).client [65] =
        some ⟨ngx.crc32Short [65], 0, UInt64.ofNat (n + 1), [65]⟩ ∧
      ∀ key, key ≠ [65] →
        ((RateZone.empty ngx).after (List.replicate (n + 1) (firstCall conf))).client key =
          none := by
  have hvalid : (firstCall conf).Valid := valid_of_key (.inl rfl)
  induction n with
  | zero =>
      obtain ⟨-, hnode, hothers⟩ := RateZone.serve_miss (z := RateZone.empty ngx) hvalid rfl rfl
      refine ⟨hnode, fun key hne => ?_⟩
      rcases hothers key hne with h | h
      · exact h
      · exact h.1
  | succ n ih =>
      obtain ⟨hnode, hothers⟩ := ih (by omega)
      rw [List.replicate_succ', RateZone.after, List.foldl_append]
      obtain ⟨-, hnode', hothers'⟩ := RateZone.serve_hit hvalid hnode
      have hhit :
          (rateHit (firstCall conf) ⟨ngx.crc32Short [65], 0, UInt64.ofNat (n + 1), [65]⟩).2 =
          ⟨ngx.crc32Short [65], 0, UInt64.ofNat (n + 1 + 1), [65]⟩ := by
        have hlt := (effectiveLimit conf).toNat_lt
        have hcount : (UInt64.ofNat (n + 1)).toNat = n + 1 := by
          rw [UInt64.toNat_ofNat', Nat.mod_eq_of_lt (by omega)]
        unfold rateHit
        rw [if_neg, if_neg]
        · simp [UInt64.ofNat_add]
        · simp only [ge_iff_le, UInt64.le_iff_toNat_le, hcount]
          exact not_le.mpr hn
        · simp [firstCall]
      rw [hhit] at hnode'
      exact ⟨hnode', fun key hne => (hothers' key hne).trans (hothers key hne)⟩

/-- The client's next request, after its quota has been used up. -/
def nextCall (conf : Option Conf) (now : UInt64) : RateCall := ⟨conf, [65], now, true, true⟩

/-- A request of the other client. -/
def otherCall (conf : Option Conf) (now : UInt64) : RateCall := ⟨conf, [66], now, true, true⟩

/-- The client uses up its quota at a location. -/
def usedUp (conf : Option Conf) : List RateCall :=
  List.replicate (effectiveLimit conf).toNat (firstCall conf)

theorem client_after_usedUp (ngx : Ngx) (conf : Option Conf) :
    ((RateZone.empty ngx).after (usedUp conf)).client [65] =
        some ⟨ngx.crc32Short [65], 0, effectiveLimit conf, [65]⟩ ∧
      ∀ key, key ≠ [65] → ((RateZone.empty ngx).after (usedUp conf)).client key = none := by
  have hpos : 0 < (effectiveLimit conf).toNat := limit_pos (firstCall conf)
  obtain ⟨n, hn⟩ : ∃ n, (effectiveLimit conf).toNat = n + 1 := ⟨_, (Nat.succ_pred hpos.ne').symm⟩
  have h := client_after_replicate ngx hn.ge
  rwa [← hn, UInt64.ofNat_toNat] at h

/-- Left alone, the client is rejected as long as its window lasts. -/
theorem serve_nextCall (ngx : Ngx) {now : UInt64} (hnow : now ≤ effectiveWindow conf) :
    (((RateZone.empty ngx).after (usedUp conf)).serve (nextCall conf now)).1 = .limited := by
  have hvalid : (nextCall conf now).Valid := valid_of_key (.inl rfl)
  rw [(RateZone.serve_hit hvalid (client_after_usedUp ngx conf).1).1]
  unfold rateHit
  rw [if_neg, if_pos]
  · exact le_refl _
  · simpa [nextCall, RateCall.window] using hnow

/-- A new client at a location with a shorter window makes it be admitted. -/
theorem serve_nextCall_after_otherCall (ngx : Ngx) (conf : Option Conf) {conf' : Option Conf}
    {now : UInt64} (hnow : effectiveWindow conf' < now) :
    ((((RateZone.empty ngx).after (usedUp conf)).serve (otherCall conf' now)).2.serve
      (nextCall conf now)).1 = .created := by
  obtain ⟨hfirst, hothers⟩ := client_after_usedUp ngx conf
  have hgone : (((RateZone.empty ngx).after (usedUp conf)).serve (otherCall conf' now)).2.client
      [65] = none := by
    refine RateZone.serve_miss_of_passed (valid_of_key (.inr rfl)) rfl
      (hothers _ (by simp [otherCall])) (fun key node hnode => ?_) (by simp [otherCall])
    -- the only node in the zone is the first client's
    by_cases hkey : key = [65]
    · rw [hkey, hfirst] at hnode
      rw [← Option.some.inj hnode]
      simpa [otherCall, RateCall.window] using hnow
    · rw [hothers key hkey] at hnode
      exact absurd hnode (by simp)
  exact (RateZone.serve_miss (valid_of_key (.inl rfl)) rfl hgone).1

theorem runsOn_usedUp (hconf : conf ∈ confs) (now : UInt64) {calls : List RateCall}
    (hcalls : ∀ call ∈ calls, call.conf ∈ confs ∧ call.allocOk = true ∧ call.now = now) :
    RunsOn confs (usedUp conf ++ calls) := by
  have hquota : ∀ call ∈ usedUp conf, call = firstCall conf := fun call => List.eq_of_mem_replicate
  refine ⟨?_, ?_, List.pairwise_append.mpr ⟨?_, ?_, fun a ha b _ => ?_⟩⟩
  · exact List.forall_mem_append.mpr
      ⟨fun call h => hquota call h ▸ hconf, fun call h => (hcalls call h).1⟩
  · exact List.forall_mem_append.mpr
      ⟨fun call h => hquota call h ▸ rfl, fun call h => (hcalls call h).2.1⟩
  · exact List.pairwise_replicate.mpr (.inr (le_refl _))
  · exact List.pairwise_of_forall_mem_list fun a ha b hb =>
      ((hcalls a ha).2.2.trans (hcalls b hb).2.2.symm).le
  · rw [hquota a ha]
    exact UInt64.zero_le

/-- Two locations with different windows are enough to break isolation. -/
theorem not_isolated_of_lt (ngx : Ngx) {conf' : Option Conf} (hconf : conf ∈ confs)
    (hconf' : conf' ∈ confs) (hlt : effectiveWindow conf' < effectiveWindow conf) :
    ¬ Isolated ngx confs := by
  intro hisolated
  have hnow : effectiveWindow conf' < effectiveWindow conf' + 1 ∧
      effectiveWindow conf' + 1 ≤ effectiveWindow conf := by
    have hbound := (effectiveWindow conf).toNat_lt
    rw [UInt64.lt_iff_toNat_lt] at hlt ⊢
    rw [UInt64.le_iff_toNat_le, UInt64.toNat_add, UInt64.toNat_one, Nat.mod_eq_of_lt (by omega)]
    omega
  generalize effectiveWindow conf' + 1 = now at hnow
  have hruns : RunsOn confs (usedUp conf ++ [nextCall conf now]) :=
    runsOn_usedUp hconf now (by simp [nextCall, hconf])
  have hruns' : RunsOn confs (usedUp conf ++ [otherCall conf' now, nextCall conf now]) :=
    runsOn_usedUp hconf now (by simp [nextCall, otherCall, hconf, hconf'])
  have hverdicts := hisolated _ _ hruns hruns' [65] (by simp [ownCalls, nextCall, otherCall])
  have hlimited := serve_nextCall ngx hnow.2
  have hcreated := serve_nextCall_after_otherCall ngx conf hnow.1
  simp only [verdicts, RateZone.serveAll_append, clientTrace, List.filter_append, List.map_append,
    List.append_cancel_left_eq, RateZone.serveAll, hlimited, hcreated] at hverdicts
  simp [nextCall, otherCall, Verdict.rc] at hverdicts

end TwoWindows

/-- **Isolation needs one window.**  Whatever the limits of the locations that
share a zone, the answers a client gets depend only on its own requests if and
only if all these locations have the same window in force. -/
theorem isolated_iff_sameWindow (ngx : Ngx) (confs : Set (Option Conf)) :
    Isolated ngx confs ↔ SameWindow confs := by
  refine ⟨fun hisolated conf hconf conf' hconf' => ?_, isolated_of_sameWindow ngx⟩
  by_contra hne
  rcases lt_or_gt_of_ne hne with hlt | hgt
  · exact not_isolated_of_lt ngx hconf' hconf hlt hisolated
  · exact not_isolated_of_lt ngx hconf hconf' hgt hisolated

/-- Two locations with windows of ten and of a hundred milliseconds. -/
theorem isolated_fails : ¬ Isolated .plain
    {some { createConf with rateWindow := 10 }, some { createConf with rateWindow := 100 }} :=
  not_isolated_of_lt .plain (Set.mem_insert_of_mem _ rfl) (Set.mem_insert _ _) (by decide)

end Dmmr.Gateway
