import Mathlib.Data.List.Sort
import Mathlib.Order.Lattice

/-!
# Finite maps kept in key order

An `OrderedMap` is an association list whose keys increase strictly, which is
what an ordered index presents to a program: point lookups (`get?`), point
updates (`put`), and a cursor that steps from one key to the next (`next?`).
Because the list is strictly sorted a map is determined by its lookups
(`ext_get?`), so equality of maps can be proved key by key.

The cursor is a position: `none` before the first entry, `some k` on key `k`,
which need not be present any more.  `rest` lists the entries after a position,
and stepping the cursor takes them one by one (`rest_eq_cons`, `rest_eq_nil`).
-/

/-- An association list with strictly increasing keys. -/
structure OrderedMap (K V : Type*) [LinearOrder K] where
  entries : List (K × V)
  sorted : entries.Pairwise fun a b => a.1 < b.1

namespace OrderedMap

variable {K V : Type*} [LinearOrder K]

instance [DecidableEq V] : DecidableEq (OrderedMap K V) := fun m m' =>
  decidable_of_iff (m.entries = m'.entries) (by cases m; cases m'; simp)

/-- The map with no entries. -/
def empty : OrderedMap K V := ⟨[], List.Pairwise.nil⟩

/-- The value under a key in an association list. -/
def find (k : K) : List (K × V) → Option V
  | [] => none
  | (k', v) :: rest => if k = k' then some v else find k rest

/-- The value stored under `k`. -/
def get? (m : OrderedMap K V) (k : K) : Option V := find k m.entries

/-- Insert or overwrite an entry, keeping the keys in order. -/
def insertEntry (k : K) (v : V) : List (K × V) → List (K × V)
  | [] => [(k, v)]
  | (k', v') :: rest =>
      if k < k' then (k, v) :: (k', v') :: rest
      else if k = k' then (k, v) :: rest
      else (k', v') :: insertEntry k v rest

theorem mem_insertEntry {k : K} {v : V} {entry : K × V} :
    ∀ {l : List (K × V)}, entry ∈ insertEntry k v l → entry = (k, v) ∨ entry ∈ l := by
  intro l
  induction l with
  | nil => simp [insertEntry]
  | cons head rest ih =>
      simp only [insertEntry]
      split_ifs with hlt heq
      · simp
      · simp only [List.mem_cons]
        rintro (h | h)
        · exact Or.inl h
        · exact Or.inr (Or.inr h)
      · simp only [List.mem_cons]
        rintro (h | h)
        · exact Or.inr (Or.inl h)
        · exact (ih h).imp id Or.inr

theorem sorted_insertEntry (k : K) (v : V) {l : List (K × V)}
    (hsorted : l.Pairwise fun a b => a.1 < b.1) :
    (insertEntry k v l).Pairwise fun a b => a.1 < b.1 := by
  induction l with
  | nil => simp [insertEntry]
  | cons head rest ih =>
      obtain ⟨hhead, hrest⟩ := List.pairwise_cons.mp hsorted
      simp only [insertEntry]
      split_ifs with hlt heq
      · refine List.pairwise_cons.mpr ⟨?_, hsorted⟩
        intro entry hentry
        rcases List.mem_cons.mp hentry with rfl | hentry
        · exact hlt
        · exact hlt.trans (hhead entry hentry)
      · exact List.pairwise_cons.mpr ⟨fun entry hentry => heq ▸ hhead entry hentry, hrest⟩
      · refine List.pairwise_cons.mpr ⟨?_, ih hrest⟩
        intro entry hentry
        rcases mem_insertEntry hentry with rfl | hentry
        · exact lt_of_le_of_ne (not_lt.mp hlt) (Ne.symm heq)
        · exact hhead entry hentry

/-- Store `v` under `k`, replacing what was there. -/
def put (m : OrderedMap K V) (k : K) (v : V) : OrderedMap K V :=
  ⟨insertEntry k v m.entries, sorted_insertEntry k v m.sorted⟩

/-! ## Lookups -/

theorem find_insertEntry_self (k : K) (v : V) (l : List (K × V)) :
    find k (insertEntry k v l) = some v := by
  induction l with
  | nil => simp [insertEntry, find]
  | cons head rest ih =>
      simp only [insertEntry]
      split_ifs with hlt heq
      · simp [find]
      · simp [find]
      · simp [find, heq, ih]

theorem find_insertEntry_of_ne {k k' : K} (hne : k' ≠ k) (v : V) (l : List (K × V)) :
    find k' (insertEntry k v l) = find k' l := by
  induction l with
  | nil => simp [insertEntry, find, hne]
  | cons head rest ih =>
      simp only [insertEntry]
      split_ifs with hlt heq
      · simp [find, hne]
      · simp [find, hne, ← heq]
      · simp [find, ih]

@[simp] theorem get?_empty (k : K) : (empty : OrderedMap K V).get? k = none := rfl

@[simp] theorem get?_put_self (m : OrderedMap K V) (k : K) (v : V) :
    (m.put k v).get? k = some v :=
  find_insertEntry_self k v m.entries

theorem get?_put_of_ne (m : OrderedMap K V) {k k' : K} (hne : k' ≠ k) (v : V) :
    (m.put k v).get? k' = m.get? k' :=
  find_insertEntry_of_ne hne v m.entries

theorem get?_put (m : OrderedMap K V) (k k' : K) (v : V) :
    (m.put k v).get? k' = if k' = k then some v else m.get? k' := by
  split_ifs with h
  · rw [h, get?_put_self]
  · exact get?_put_of_ne m h v

theorem find_eq_some_iff_mem {k : K} {v : V} {l : List (K × V)}
    (hsorted : l.Pairwise fun a b => a.1 < b.1) : find k l = some v ↔ (k, v) ∈ l := by
  induction l with
  | nil => simp [find]
  | cons head rest ih =>
      obtain ⟨hhead, hrest⟩ := List.pairwise_cons.mp hsorted
      simp only [find, List.mem_cons]
      split_ifs with heq
      · constructor
        · intro h
          exact Or.inl (Prod.ext heq (Option.some.inj h).symm)
        · rintro (h | h)
          · rw [← h]
          · exact absurd heq (hhead _ h).ne'
      · rw [ih hrest]
        constructor
        · exact Or.inr
        · rintro (h | h)
          · exact absurd (congrArg Prod.fst h) heq
          · exact h

/-- A lookup succeeds exactly on the entries of the map. -/
theorem get?_eq_some_iff_mem (m : OrderedMap K V) {k : K} {v : V} :
    m.get? k = some v ↔ (k, v) ∈ m.entries :=
  find_eq_some_iff_mem m.sorted

/-- Two maps with the same lookups are equal. -/
theorem ext_get? {m m' : OrderedMap K V} (h : ∀ k, m.get? k = m'.get? k) : m = m' := by
  have hmem : ∀ entry, entry ∈ m.entries ↔ entry ∈ m'.entries := by
    intro entry
    rw [← m.get?_eq_some_iff_mem, ← m'.get?_eq_some_iff_mem, h]
  have hirrefl : ∀ (n : OrderedMap K V), n.entries.Nodup := fun n =>
    n.sorted.imp fun hlt heq => absurd (congrArg Prod.fst heq) hlt.ne
  have hperm : m.entries.Perm m'.entries :=
    (List.perm_ext_iff_of_nodup (hirrefl m) (hirrefl m')).mpr hmem
  have hentries : m.entries = m'.entries :=
    hperm.eq_of_pairwise (fun a b _ _ hab hba => absurd (hab.trans hba) (lt_irrefl _))
      m.sorted m'.sorted
  cases m
  cases m'
  simpa using hentries

/-- The keys in their order. -/
def keys (m : OrderedMap K V) : List K := m.entries.map Prod.fst

theorem map_fst_insertEntry {k : K} {l : List (K × V)}
    (hsorted : l.Pairwise fun a b => a.1 < b.1) (hk : k ∈ l.map Prod.fst) (v : V) :
    (insertEntry k v l).map Prod.fst = l.map Prod.fst := by
  induction l with
  | nil => simp at hk
  | cons head rest ih =>
      obtain ⟨hhead, hrest⟩ := List.pairwise_cons.mp hsorted
      simp only [insertEntry]
      split_ifs with hlt heq
      · -- the key would come before all others
        obtain ⟨entry, hentry, rfl⟩ := List.mem_map.mp hk
        rcases List.mem_cons.mp hentry with rfl | hmem
        · exact absurd hlt (lt_irrefl _)
        · exact absurd hlt (hhead entry hmem).asymm
      · rw [List.map_cons, List.map_cons, heq]
      · rw [List.map_cons, List.map_cons, ih hrest]
        rw [List.map_cons, List.mem_cons] at hk
        exact hk.resolve_left heq

/-- To overwrite an entry leaves the keys as they are. -/
theorem keys_put (m : OrderedMap K V) {k : K} (hk : k ∈ m.keys) (v : V) :
    (m.put k v).keys = m.keys :=
  map_fst_insertEntry m.sorted hk v

/-! ## Cursors -/

/-- Whether a key lies after a cursor position. -/
def After (pos : Option K) (k : K) : Prop := ∀ p ∈ pos, p < k

instance (pos : Option K) (k : K) : Decidable (After pos k) :=
  match pos with
  | none => isTrue (by simp [After])
  | some p => decidable_of_iff (p < k) (by simp [After])

/-- The first entry after a cursor position. -/
def next? (m : OrderedMap K V) (pos : Option K) : Option (K × V) :=
  m.entries.find? fun entry => After pos entry.1

/-- The entries after a cursor position, in the order a cursor meets them. -/
def rest (m : OrderedMap K V) (pos : Option K) : List (K × V) :=
  m.entries.filter fun entry => After pos entry.1

@[simp] theorem rest_none (m : OrderedMap K V) : m.rest none = m.entries := by
  simp [rest, After]

theorem next?_eq_head? (m : OrderedMap K V) (pos : Option K) :
    m.next? pos = (m.rest pos).head? := by
  rw [next?, rest, List.head?_filter]

/-- Stepping the cursor onto the entry it found drops exactly that entry. -/
theorem rest_eq_cons (m : OrderedMap K V) {pos : Option K} {entry : K × V}
    (h : m.next? pos = some entry) : m.rest pos = entry :: m.rest (some entry.1) := by
  obtain ⟨entries, hsorted⟩ := m
  simp only [next?, rest] at h ⊢
  induction entries with
  | nil => simp at h
  | cons head tail ih =>
      obtain ⟨hhead, htail⟩ := List.pairwise_cons.mp hsorted
      by_cases hafter : After pos head.1
      · have heq : head = entry := by
          simpa [List.find?_cons, hafter] using h
        subst heq
        have hall : ∀ other ∈ tail, After pos other.1 ∧ After (some head.1) other.1 := by
          intro other hother
          have hlt := hhead other hother
          exact ⟨fun p hp => (hafter p hp).trans hlt, by simpa [After] using hlt⟩
        have hself : ¬ After (some head.1) head.1 := by simp [After]
        simp only [List.filter_cons, hafter, decide_true, if_true, hself, decide_false,
          Bool.false_eq_true, if_false]
        rw [List.filter_eq_self.mpr fun other hother => by simpa using (hall other hother).1,
          List.filter_eq_self.mpr fun other hother => by simpa using (hall other hother).2]
      · have hfind : tail.find? (fun e => decide (After pos e.1)) = some entry := by
          simpa [List.find?_cons, hafter] using h
        have hmem : entry ∈ tail := List.mem_of_find?_eq_some hfind
        have hnot : ¬ After (some entry.1) head.1 := by
          simpa [After] using (hhead entry hmem).le
        simp only [List.filter_cons, hafter, hnot, decide_false, Bool.false_eq_true, if_false]
        exact ih htail hfind

theorem rest_eq_nil (m : OrderedMap K V) {pos : Option K} (h : m.next? pos = none) :
    m.rest pos = [] := by
  rw [next?_eq_head?] at h
  exact List.head?_eq_none_iff.mp h

end OrderedMap
