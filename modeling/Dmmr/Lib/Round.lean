import Dmmr.Lib.OrderedMap
import Mathlib.Data.List.Rotate
import Mathlib.Data.Nat.ModEq

/-!
# Going round an ordered map

A cursor that starts over at the first entry once it has passed the last one
goes round the map.  `round pos` lists the entries in the order in which it
meets them from position `pos` on, each of them once, and a step of the cursor
rotates this list by one (`round_of_cycle?`).

So the `i`-th entry of a walk is the one at `i` modulo the number of entries
(`getElem?_walk`), and a walk with at least that many steps meets every entry
(`mem_walk_of_length_le`).
-/

namespace OrderedMap

open scoped List

variable {K V : Type*} [LinearOrder K] (m : OrderedMap K V) (pos : Option K)

/-! ## One step -/

/-- The entry the cursor moves to: the next one or, at the end, the first. -/
def cycle? : Option (K × V) := (m.next? pos).or (m.next? none)

/-- The entries up to a cursor position. -/
def before : List (K × V) := m.entries.filter fun entry => ¬ After pos entry.1

/-- The entries in the order in which the cursor meets them. -/
def round : List (K × V) := m.rest pos ++ m.before pos

/-- The position splits the entries. -/
theorem before_append_rest : m.before pos ++ m.rest pos = m.entries := by
  obtain ⟨entries, hsorted⟩ := m
  simp only [before, rest]
  induction entries with
  | nil => rfl
  | cons head tail ih =>
      obtain ⟨hhead, htail⟩ := List.pairwise_cons.mp hsorted
      by_cases hafter : After pos head.1
      · have hall : ∀ entry ∈ head :: tail, After pos entry.1 := by
          intro entry hentry
          rcases List.mem_cons.mp hentry with rfl | hentry
          · exact hafter
          · exact fun p hp => (hafter p hp).trans (hhead entry hentry)
        rw [List.filter_eq_nil_iff.mpr fun entry hentry => by simpa using hall entry hentry,
          List.filter_eq_self.mpr fun entry hentry => by simpa using hall entry hentry,
          List.nil_append]
      · rw [List.filter_cons_of_pos (by simpa using hafter),
          List.filter_cons_of_neg (by simpa using hafter), List.cons_append, ih htail]

theorem round_perm : (m.round pos).Perm m.entries := by
  calc m.round pos
      _ ~ m.before pos ++ m.rest pos := List.perm_append_comm
      _ = m.entries := m.before_append_rest pos

@[simp] theorem length_round : (m.round pos).length = m.entries.length :=
  (m.round_perm pos).length_eq

theorem nodup_entries : m.entries.Nodup :=
  m.sorted.imp fun hlt heq => absurd (congrArg Prod.fst heq) hlt.ne

theorem nodup_round : (m.round pos).Nodup :=
  (m.round_perm pos).nodup_iff.mpr m.nodup_entries

variable {m pos}

/-- Past the last entry the cursor starts over. -/
theorem round_of_next?_eq_none (h : m.next? pos = none) : m.round pos = m.entries := by
  have hsplit := m.before_append_rest pos
  rw [m.rest_eq_nil h, List.append_nil] at hsplit
  rw [round, m.rest_eq_nil h, hsplit, List.nil_append]

theorem before_of_next? {entry : K × V} (h : m.next? pos = some entry) :
    m.before (some entry.1) = m.before pos ++ [entry] := by
  have hsplit := m.before_append_rest pos
  rw [m.rest_eq_cons h, ← m.before_append_rest (some entry.1), List.append_cons] at hsplit
  exact (List.append_cancel_right hsplit).symm

variable (m pos) in
theorem cycle?_eq_head? : m.cycle? pos = (m.round pos).head? := by
  unfold cycle?
  cases hnext : m.next? pos with
  | some entry => simp [round, m.rest_eq_cons hnext]
  | none => rw [round_of_next?_eq_none hnext, next?_eq_head?, rest_none, Option.none_or]

/-- **A step rotates the round.** -/
theorem round_of_cycle? {entry : K × V} (h : m.cycle? pos = some entry) :
    m.round (some entry.1) = (m.round pos).rotate 1 := by
  have hstep : ∀ {p : Option K}, m.next? p = some entry →
      m.round (some entry.1) = (m.round p).rotate 1 := by
    intro p hp
    unfold round
    rw [m.rest_eq_cons hp, before_of_next? hp, List.cons_append, List.rotate_cons_succ,
      List.rotate_zero, List.append_assoc]
  unfold cycle? at h
  cases hnext : m.next? pos with
  | some e =>
      rw [hnext, Option.some_or] at h
      exact hstep (hnext.trans h)
  | none =>
      rw [hnext, Option.none_or] at h
      have hfresh : m.round none = m.entries := by simp [round, before, After]
      rw [round_of_next?_eq_none hnext, hstep h, hfresh]

/-! ## Walks -/

variable (m) in
/-- The entries the cursor meets in a number of steps. -/
def walk : Option K → ℕ → List (K × V)
  | _, 0 => []
  | pos, k + 1 =>
      match m.cycle? pos with
      | none => []
      | some entry => entry :: walk (some entry.1) k

variable (m) in
/-- Where the cursor is then. -/
def walkEnd : Option K → ℕ → Option K
  | pos, 0 => pos
  | pos, k + 1 =>
      match m.cycle? pos with
      | none => pos
      | some entry => walkEnd (some entry.1) k

theorem cycle?_eq_none_iff : m.cycle? pos = none ↔ m.entries = [] := by
  rw [cycle?_eq_head?, List.head?_eq_none_iff, ← List.length_eq_zero_iff, length_round,
    List.length_eq_zero_iff]

theorem entries_ne_nil_of_cycle? {entry : K × V} (h : m.cycle? pos = some entry) :
    m.entries ≠ [] := by
  intro hempty
  rw [cycle?_eq_none_iff.mpr hempty] at h
  exact absurd h (by simp)

theorem walk_succ {entry : K × V} (h : m.cycle? pos = some entry) (k : ℕ) :
    m.walk pos (k + 1) = entry :: m.walk (some entry.1) k := by
  rw [walk, h]

theorem walkEnd_succ {entry : K × V} (h : m.cycle? pos = some entry) (k : ℕ) :
    m.walkEnd pos (k + 1) = m.walkEnd (some entry.1) k := by
  rw [walkEnd, h]

variable (m pos) in
/-- **Walks are periodic.** -/
theorem getElem?_walk (k i : ℕ) :
    (m.walk pos k)[i]? = if i < k then (m.round pos)[i % m.entries.length]? else none := by
  induction k generalizing pos i with
  | zero => simp [walk]
  | succ k ih =>
      cases hcycle : m.cycle? pos with
      | none =>
          have hempty := cycle?_eq_none_iff.mp hcycle
          have hround : m.round pos = [] :=
            List.length_eq_zero_iff.mp (by rw [length_round, hempty, List.length_nil])
          simp [walk, hcycle, hround]
      | some entry =>
          have hpos : 0 < m.entries.length :=
            List.length_pos_iff.mpr (entries_ne_nil_of_cycle? hcycle)
          rw [walk_succ hcycle]
          cases i with
          | zero =>
              rw [List.getElem?_cons_zero, if_pos k.succ_pos, Nat.zero_mod, ← hcycle,
                cycle?_eq_head?, List.head?_eq_getElem?]
          | succ i =>
              have hlt : i % m.entries.length < (m.round pos).length := by
                rw [length_round]
                exact Nat.mod_lt _ hpos
              rw [List.getElem?_cons_succ, ih, round_of_cycle? hcycle,
                List.getElem?_rotate hlt, length_round, Nat.mod_add_mod]
              simp only [Nat.add_lt_add_iff_right]

theorem length_walk (hne : m.entries ≠ []) (pos : Option K) (k : ℕ) :
    (m.walk pos k).length = k := by
  induction k generalizing pos with
  | zero => rfl
  | succ k ih =>
      obtain ⟨entry, hentry⟩ := Option.ne_none_iff_exists'.mp (mt cycle?_eq_none_iff.mp hne)
      rw [walk_succ hentry, List.length_cons, ih]

theorem mem_take_round {k : ℕ} {entry : K × V} :
    entry ∈ (m.round pos).take k ↔ ∃ i < k, (m.round pos)[i]? = some entry := by
  rw [List.mem_take_iff_getElem]
  constructor
  · rintro ⟨i, hi, rfl⟩
    exact ⟨i, hi.trans_le (min_le_left _ _), List.getElem?_eq_getElem _⟩
  · rintro ⟨i, hi, hentry⟩
    obtain ⟨hlt, rfl⟩ := List.getElem?_eq_some_iff.mp hentry
    exact ⟨i, lt_min hi hlt, rfl⟩

theorem lt_of_getElem?_round {i : ℕ} {entry : K × V} (h : (m.round pos)[i]? = some entry) :
    i < m.entries.length := by
  rw [← m.length_round pos]
  exact (List.getElem?_eq_some_iff.mp h).1

/-- A walk of `k` steps meets the first `k` entries of the round. -/
theorem mem_walk_iff {k : ℕ} {entry : K × V} :
    entry ∈ m.walk pos k ↔ entry ∈ (m.round pos).take k := by
  rw [List.mem_iff_getElem?, mem_take_round]
  constructor
  · rintro ⟨i, hi⟩
    rw [getElem?_walk] at hi
    split_ifs at hi with hlt
    exact ⟨_, (Nat.mod_le _ _).trans_lt hlt, hi⟩
  · rintro ⟨i, hlt, hi⟩
    refine ⟨i, ?_⟩
    rw [getElem?_walk, if_pos hlt, Nat.mod_eq_of_lt (lt_of_getElem?_round hi), hi]

/-- **A walk with enough steps meets every entry.** -/
theorem mem_walk_of_length_le {k : ℕ} (hk : m.entries.length ≤ k) {entry : K × V}
    (hentry : entry ∈ m.entries) : entry ∈ m.walk pos k := by
  rw [mem_walk_iff, List.take_of_length_le (by rwa [length_round])]
  exact (m.round_perm pos).mem_iff.mpr hentry

theorem mem_entries_of_mem_walk {k : ℕ} {entry : K × V} (h : entry ∈ m.walk pos k) :
    entry ∈ m.entries :=
  (m.round_perm pos).mem_iff.mp (List.mem_of_mem_take (mem_walk_iff.mp h))

/-- The cursor stays on the last entry it has met. -/
theorem walkEnd_of_getLast? {k : ℕ} {entry : K × V} (h : (m.walk pos k).getLast? = some entry) :
    m.walkEnd pos k = some entry.1 := by
  induction k generalizing pos with
  | zero => simp [walk] at h
  | succ k ih =>
      cases hcycle : m.cycle? pos with
      | none => simp [walk, hcycle] at h
      | some first =>
          rw [walk_succ hcycle] at h
          rw [walkEnd_succ hcycle]
          cases hwalk : m.walk (some first.1) k with
          | nil =>
              -- the walk ends here: there were no more steps to take
              have hk : k = 0 := by
                rw [← length_walk (entries_ne_nil_of_cycle? hcycle) (some first.1) k, hwalk,
                  List.length_nil]
              rw [hwalk, List.getLast?_singleton] at h
              rw [hk, walkEnd, Option.some.inj h]
          | cons second others =>
              rw [hwalk, List.getLast?_cons_cons] at h
              exact ih (by rw [hwalk, h])

variable (m pos) in
/-- A walk can be interrupted. -/
theorem walk_add (k l : ℕ) :
    m.walk pos (k + l) = m.walk pos k ++ m.walk (m.walkEnd pos k) l := by
  induction k generalizing pos with
  | zero => simp [walk, walkEnd]
  | succ k ih =>
      rw [Nat.succ_add]
      cases hcycle : m.cycle? pos with
      | none =>
          cases l with
          | zero => simp [walk, hcycle]
          | succ l => simp [walk, walkEnd, hcycle]
      | some entry =>
          rw [walk_succ hcycle, walk_succ hcycle, walkEnd_succ hcycle, ih, List.cons_append]

/-! ## Walks and keys -/

section Keys

variable {m' : OrderedMap K V} (hkeys : m.keys = m'.keys)
include hkeys

/-- Which key the cursor comes to depends on the keys alone. -/
theorem map_fst_cycle? (pos : Option K) :
    (m.cycle? pos).map Prod.fst = (m'.cycle? pos).map Prod.fst := by
  have hnext : ∀ pos : Option K, (m.next? pos).map Prod.fst = (m'.next? pos).map Prod.fst := by
    intro pos
    have hfind : ∀ m : OrderedMap K V, (m.next? pos).map Prod.fst =
        m.keys.find? fun k => decide (After pos k) := by
      intro m
      rw [keys, List.find?_map]
      rfl
    rw [hfind, hfind, hkeys]
  rw [cycle?, cycle?, Option.map_or, Option.map_or, hnext, hnext]

theorem walk_congr_keys (pos : Option K) (k : ℕ) :
    (m.walk pos k).map Prod.fst = (m'.walk pos k).map Prod.fst ∧
      m.walkEnd pos k = m'.walkEnd pos k := by
  induction k generalizing pos with
  | zero => exact ⟨rfl, rfl⟩
  | succ k ih =>
      have hcycle := map_fst_cycle? hkeys pos
      cases hm : m.cycle? pos with
      | none =>
          rw [hm, Option.map_none, eq_comm, Option.map_eq_none_iff] at hcycle
          simp only [walk, walkEnd, hm, hcycle]
          exact ⟨trivial, trivial⟩
      | some entry =>
          rw [hm, Option.map_some, eq_comm, Option.map_eq_some_iff] at hcycle
          obtain ⟨entry', hm', hfst⟩ := hcycle
          obtain ⟨hwalk, hend⟩ := ih (some entry.1)
          rw [walk_succ hm, walk_succ hm', walkEnd_succ hm, walkEnd_succ hm', hfst, List.map_cons,
            List.map_cons, hfst, hwalk, hend]
          exact ⟨rfl, rfl⟩

end Keys

/-! ## Meeting an entry again -/

theorem pairwise_walk_iff_getElem? {R : K × V → K × V → Prop} {k : ℕ} :
    (m.walk pos k).Pairwise R ↔ ∀ i j a b, i < j → j < k →
      (m.round pos)[i % m.entries.length]? = some a →
      (m.round pos)[j % m.entries.length]? = some b → R a b := by
  have hwalk : ∀ {i}, i < k →
      (m.walk pos k)[i]? = (m.round pos)[i % m.entries.length]? := by
    intro i hi
    rw [getElem?_walk, if_pos hi]
  rw [List.pairwise_iff_getElem]
  constructor
  · intro h i j a b hij hjk ha hb
    rw [← hwalk (hij.trans hjk)] at ha
    rw [← hwalk hjk] at hb
    obtain ⟨hi, rfl⟩ := List.getElem?_eq_some_iff.mp ha
    obtain ⟨hj, rfl⟩ := List.getElem?_eq_some_iff.mp hb
    exact h i j hi hj hij
  · intro h i j hi hj hij
    have hjk : j < k := by
      by_contra hle
      have hnone := getElem?_walk m pos k j
      rw [if_neg hle, List.getElem?_eq_getElem hj] at hnone
      exact absurd hnone (by simp)
    refine h i j _ _ hij hjk ?_ ?_
    · rw [← hwalk (hij.trans hjk), List.getElem?_eq_getElem hi]
    · rw [← hwalk hjk, List.getElem?_eq_getElem hj]

/-- **What a walk meets twice.**  In a walk of `k` steps among `n` entries these
are the first `k - n` entries of the round. -/
theorem pairwise_walk_iff {R : K × V → K × V → Prop} (hsymm : ∀ a b, R a b → R b a) {k : ℕ} :
    (m.walk pos k).Pairwise R ↔
      (∀ a ∈ (m.round pos).take (k - m.entries.length), R a a) ∧
        ∀ a ∈ (m.round pos).take k, ∀ b ∈ (m.round pos).take k, a ≠ b → R a b := by
  rw [pairwise_walk_iff_getElem?]
  constructor
  · intro h
    constructor
    · intro a ha
      obtain ⟨i, hi, ha⟩ := mem_take_round.mp ha
      have hlt := lt_of_getElem?_round ha
      have hmod := Nat.mod_eq_of_lt hlt
      refine h i (i + m.entries.length) a a (by omega) (by omega) ?_ ?_
      · rwa [hmod]
      · rwa [Nat.add_mod_right, hmod]
    · intro a ha b hb hne
      obtain ⟨i, hi, ha⟩ := mem_take_round.mp ha
      obtain ⟨j, hj, hb⟩ := mem_take_round.mp hb
      rw [← Nat.mod_eq_of_lt (lt_of_getElem?_round ha)] at ha
      rw [← Nat.mod_eq_of_lt (lt_of_getElem?_round hb)] at hb
      rcases lt_trichotomy i j with hlt | rfl | hgt
      · exact h i j a b hlt hj ha hb
      · exact absurd (Option.some.inj (ha.symm.trans hb)) hne
      · exact hsymm b a (h j i b a hgt hi hb ha)
  · rintro ⟨hself, hother⟩ i j a b hij hjk ha hb
    by_cases hab : a = b
    · subst hab
      -- the walk has come round to the same entry
      obtain ⟨hi, hai⟩ := List.getElem?_eq_some_iff.mp ha
      obtain ⟨hj, haj⟩ := List.getElem?_eq_some_iff.mp hb
      have hsame : i % m.entries.length = j % m.entries.length :=
        (m.nodup_round pos).getElem_inj_iff.mp (hai.trans haj.symm)
      have hlap : m.entries.length ≤ j - i :=
        Nat.le_of_dvd (by omega) ((Nat.modEq_iff_dvd' hij.le).mp hsame)
      have hle := Nat.mod_le i m.entries.length
      exact hself a (mem_take_round.mpr ⟨_, by omega, ha⟩)
    · exact hother a (mem_take_round.mpr ⟨_, (Nat.mod_le _ _).trans_lt (hij.trans hjk), ha⟩) b
        (mem_take_round.mpr ⟨_, (Nat.mod_le _ _).trans_lt hjk, hb⟩) hab

end OrderedMap
