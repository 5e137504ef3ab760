import Mathlib.Order.Lattice
import Mathlib.Data.List.Basic
import Mathlib.Data.Option.Basic
import Mathlib.Logic.Function.Basic

/-!
# Last-writer-wins registers

A register holds at most one record, and a record offered to it is kept when
its stamp is strictly greater than the stamp of the record held.  Stamps are
any linear order.

The register's content after a list of offers is the greatest record among the
one it held and those offered, with the record held preferred on a tie
(`offerAll_eq_some_iff`).  It follows that the content depends only on *which*
records were offered, not on their order or multiplicity
(`offerAll_eq_of_mem_iff`).  Two registers are joined by offering one what the
other holds.
-/

namespace LastWrite

variable {R S : Type*} [LinearOrder S] (stamp : R → S)

/-- Offer a record to a register. -/
def offer (held : Option R) (r : R) : Option R :=
  match held with
  | none => some r
  | some h => if stamp h < stamp r then some r else some h

/-- Offer the records of a list one after the other. -/
def offerAll (held : Option R) (rs : List R) : Option R :=
  rs.foldl (offer stamp) held

/-- Offer what another register holds. -/
def join (held other : Option R) : Option R :=
  match other with
  | none => held
  | some r => offer stamp held r

/-- Offer the records of a list, each to the register of its key. -/
def offerEach {K : Type*} [DecidableEq K] (m : K → Option R) (items : List (K × R)) :
    K → Option R :=
  items.foldl (fun m item => Function.update m item.1 (offer stamp (m item.1) item.2)) m

/-- `x` is the greatest record among the one held and those offered, the one
held being preferred on a tie. -/
def IsLast (held : Option R) (rs : List R) (x : R) : Prop :=
  (∀ r ∈ rs, stamp r ≤ stamp x) ∧
    (held = some x ∨ x ∈ rs ∧ ∀ h ∈ held, stamp h < stamp x)

variable {stamp}

@[simp] theorem offer_none (r : R) : offer stamp none r = some r := rfl

theorem offer_of_lt {h r : R} (hlt : stamp h < stamp r) : offer stamp (some h) r = some r := by
  simp [offer, hlt]

theorem offer_of_not_lt {h r : R} (hnot : ¬ stamp h < stamp r) :
    offer stamp (some h) r = some h := by
  simp [offer, hnot]

/-- A register never loses ground: what it holds after an offer is at least as
recent as what it held and as what it was offered. -/
theorem exists_offer (stamp : R → S) (held : Option R) (r : R) :
    ∃ x, offer stamp held r = some x ∧ stamp r ≤ stamp x ∧ ∀ h ∈ held, stamp h ≤ stamp x := by
  cases held with
  | none => exact ⟨r, rfl, le_rfl, by simp⟩
  | some h =>
      by_cases hlt : stamp h < stamp r
      · exact ⟨r, offer_of_lt hlt, le_rfl, by simpa using hlt.le⟩
      · exact ⟨h, offer_of_not_lt hlt, not_lt.mp hlt, by simp⟩

theorem offer_eq_or (stamp : R → S) (held : Option R) (r : R) :
    offer stamp held r = held ∨ offer stamp held r = some r := by
  cases held with
  | none => exact Or.inr rfl
  | some h =>
      by_cases hlt : stamp h < stamp r
      · exact Or.inr (offer_of_lt hlt)
      · exact Or.inl (offer_of_not_lt hlt)

/-- The same offer twice is no more than once. -/
theorem offer_offer (held : Option R) (r : R) :
    offer stamp (offer stamp held r) r = offer stamp held r := by
  obtain ⟨x, hx, hle, -⟩ := exists_offer stamp held r
  rw [hx, offer_of_not_lt (not_lt.mpr hle)]

theorem join_join (held other : Option R) :
    join stamp (join stamp held other) other = join stamp held other := by
  cases other with
  | none => rfl
  | some r => exact offer_offer held r

/-! ## Many registers -/

section OfferEach

variable {K : Type*} [DecidableEq K] {items : List (K × R)} {k : K}

theorem offerEach_singleton (m : K → Option R) (k : K) (r : R) :
    offerEach stamp m [(k, r)] = Function.update m k (offer stamp (m k) r) := rfl

theorem offerEach_append (m : K → Option R) (items items' : List (K × R)) :
    offerEach stamp m (items ++ items') = offerEach stamp (offerEach stamp m items) items' :=
  List.foldl_append

/-- The records of one key. -/
def ofKey (k : K) (items : List (K × R)) : List R :=
  items.filterMap fun item => if item.1 = k then some item.2 else none

theorem mem_ofKey {r : R} : r ∈ ofKey k items ↔ (k, r) ∈ items := by
  unfold ofKey
  rw [List.mem_filterMap]
  constructor
  · intro ⟨item, hitem, hr⟩
    split_ifs at hr with hkey
    rwa [← hkey, ← Option.some.inj hr]
  · intro hmem
    exact ⟨(k, r), hmem, if_pos rfl⟩

theorem ofKey_append (k : K) (items items' : List (K × R)) :
    ofKey k (items ++ items') = ofKey k items ++ ofKey k items' := List.filterMap_append

/-- A register gets the offers for its key. -/
theorem offerEach_apply (m : K → Option R) (items : List (K × R)) (k : K) :
    offerEach stamp m items k = offerAll stamp (m k) (ofKey k items) := by
  induction items generalizing m with
  | nil => rfl
  | cons item items ih =>
      have htail := ih (Function.update m item.1 (offer stamp (m item.1) item.2))
      by_cases hkey : item.1 = k
      · subst hkey
        rw [Function.update_self] at htail
        have hcons : ofKey item.1 (item :: items) = item.2 :: ofKey item.1 items := by
          simp [ofKey]
        rw [hcons]
        exact htail
      · rw [Function.update_of_ne (Ne.symm hkey)] at htail
        have hcons : ofKey k (item :: items) = ofKey k items := by
          simp [ofKey, hkey]
        rw [hcons]
        exact htail

theorem offerEach_of_not_mem (m : K → Option R) (h : k ∉ items.map Prod.fst) :
    offerEach stamp m items k = m k := by
  induction items generalizing m with
  | nil => rfl
  | cons item items ih =>
      rw [List.map_cons, List.mem_cons, not_or] at h
      exact (ih _ h.2).trans (Function.update_of_ne h.1 _ _)

/-- When no key occurs twice, a register gets the one offer for its key. -/
theorem offerEach_of_mem (m : K → Option R) (hnodup : (items.map Prod.fst).Nodup) {r : R}
    (h : (k, r) ∈ items) : offerEach stamp m items k = offer stamp (m k) r := by
  induction items generalizing m with
  | nil => simp at h
  | cons item items ih =>
      rw [List.map_cons, List.nodup_cons] at hnodup
      rcases List.mem_cons.mp h with rfl | hmem
      · exact (offerEach_of_not_mem _ hnodup.1).trans (Function.update_self ..)
      · have hne : k ≠ item.1 := by
          intro heq
          exact hnodup.1 (List.mem_map.mpr ⟨_, hmem, heq⟩)
        refine (ih _ hnodup.2 hmem).trans ?_
        simp only [Function.update_of_ne hne]

end OfferEach

/-! ## The content after a list of offers -/

theorem isLast_offerAll {x : R} :
    ∀ {rs : List R} {held : Option R}, offerAll stamp held rs = some x →
      IsLast stamp held rs x := by
  intro rs
  induction rs with
  | nil =>
      intro held h
      exact ⟨by simp, Or.inl h⟩
  | cons r rs ih =>
      intro held h
      have htail : offerAll stamp (offer stamp held r) rs = some x := h
      obtain ⟨hall, hwhere⟩ := ih htail
      obtain ⟨y, hy, hry, hheld⟩ := exists_offer stamp held r
      have hyx : stamp y ≤ stamp x := by
        rcases hwhere with hx | ⟨_, hx⟩
        · rw [hy] at hx
          rw [Option.some.inj hx]
        · exact (hx y hy).le
      refine ⟨List.forall_mem_cons.mpr ⟨hry.trans hyx, hall⟩, ?_⟩
      rcases hwhere with hx | ⟨hmem, hx⟩
      · cases held with
        | none =>
            have : r = x := Option.some.inj hx
            exact Or.inr ⟨this ▸ List.mem_cons_self .., by simp⟩
        | some h₀ =>
            by_cases hlt : stamp h₀ < stamp r
            · rw [offer_of_lt hlt] at hx
              have : r = x := Option.some.inj hx
              exact Or.inr ⟨this ▸ List.mem_cons_self .., by simpa [← this] using hlt⟩
            · rw [offer_of_not_lt hlt] at hx
              exact Or.inl hx
      · exact Or.inr ⟨List.mem_cons_of_mem _ hmem,
          fun h₀ hh₀ => (hheld h₀ hh₀).trans_lt (hx y hy)⟩

theorem offerAll_isSome {held : Option R} {rs : List R} (h : held.isSome ∨ rs ≠ []) :
    (offerAll stamp held rs).isSome := by
  induction rs generalizing held with
  | nil => simpa [offerAll] using h
  | cons r rs ih =>
      obtain ⟨y, hy, _⟩ := exists_offer stamp held r
      exact ih (Or.inl (by rw [hy]; rfl))

/-- A greatest record is unique as soon as the offered records with equal
stamps are equal. -/
theorem IsLast.unique {held : Option R} {rs : List R} {x y : R}
    (hinj : ∀ r ∈ rs, ∀ r' ∈ rs, stamp r = stamp r' → r = r')
    (hx : IsLast stamp held rs x) (hy : IsLast stamp held rs y) : x = y := by
  obtain ⟨hxall, hxheld | ⟨hxmem, hxlt⟩⟩ := hx
  · obtain ⟨hyall, hyheld | ⟨hymem, hylt⟩⟩ := hy
    · exact Option.some.inj (hxheld.symm.trans hyheld)
    · exact absurd (hxall y hymem) (not_le.mpr (hylt x hxheld))
  · obtain ⟨hyall, hyheld | ⟨hymem, hylt⟩⟩ := hy
    · exact absurd (hyall x hxmem) (not_le.mpr (hxlt y hyheld))
    · exact hinj x hxmem y hymem (le_antisymm (hyall x hxmem) (hxall y hymem))

/-- **The content of a register is the greatest record it has seen.** -/
theorem offerAll_eq_some_iff {held : Option R} {rs : List R} {x : R}
    (hinj : ∀ r ∈ rs, ∀ r' ∈ rs, stamp r = stamp r' → r = r') :
    offerAll stamp held rs = some x ↔ IsLast stamp held rs x := by
  refine ⟨isLast_offerAll, fun hx => ?_⟩
  have hsome : (offerAll stamp held rs).isSome := by
    apply offerAll_isSome
    rcases hx.2 with h | ⟨h, _⟩
    · exact Or.inl (by rw [h]; rfl)
    · exact Or.inr (List.ne_nil_of_mem h)
  obtain ⟨y, hy⟩ := Option.isSome_iff_exists.mp hsome
  rw [hy, (isLast_offerAll hy).unique hinj hx]

/-- **Offers commute and repeat harmlessly.**  Two lists with the same records,
in any order and with any repetitions, leave the same content. -/
theorem offerAll_eq_of_mem_iff {held : Option R} {rs rs' : List R}
    (hinj : ∀ r ∈ rs, ∀ r' ∈ rs, stamp r = stamp r' → r = r')
    (hmem : ∀ r, r ∈ rs ↔ r ∈ rs') : offerAll stamp held rs = offerAll stamp held rs' := by
  have hinj' : ∀ r ∈ rs', ∀ r' ∈ rs', stamp r = stamp r' → r = r' := fun r hr r' hr' =>
    hinj r ((hmem r).mpr hr) r' ((hmem r').mpr hr')
  have hlast : ∀ x, IsLast stamp held rs x ↔ IsLast stamp held rs' x := fun x => by
    simp only [IsLast, hmem]
  apply Option.ext
  intro x
  rw [offerAll_eq_some_iff hinj, offerAll_eq_some_iff hinj', hlast]

/-- The same for many registers. -/
theorem offerEach_eq_of_mem_iff {K : Type*} [DecidableEq K] (m : K → Option R)
    {items items' : List (K × R)}
    (hinj : ∀ k r r', (k, r) ∈ items → (k, r') ∈ items → stamp r = stamp r' → r = r')
    (hmem : ∀ item, item ∈ items ↔ item ∈ items') :
    offerEach stamp m items = offerEach stamp m items' := by
  funext k
  rw [offerEach_apply, offerEach_apply]
  apply offerAll_eq_of_mem_iff
  · intro r hr r' hr'
    exact hinj k r r' (mem_ofKey.mp hr) (mem_ofKey.mp hr')
  · intro r
    rw [mem_ofKey, mem_ofKey]
    exact hmem (k, r)

end LastWrite
