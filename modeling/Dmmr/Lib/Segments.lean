import Mathlib.Data.List.Basic

/-!
# Streams that are read and written in segments

A reader that wants a number of items calls the operating system until it has
them.  Each call hands over the next segment of the stream, whose size the reader
does not choose, or is interrupted, or fails; a segment longer than what is still
wanted stays behind for the next reader.  A writer repeats its calls in the same
way until all its items are taken.

What a reader gets does not depend on how the stream was cut
(`readExactly_of_delivers`), and a writer that meets no failure writes everything
(`writeAll_of_accepts`).
-/

namespace Segments

variable {α : Type*}

/-! ## Reading -/

/-- What one reading call does; the end of the stream is an empty segment. -/
inductive ReadCall (α : Type*)
  | got (items : List α)
  | interrupted
  | failed
  deriving DecidableEq, Repr

/-- Call until `want` items have arrived: the items and the calls still to come,
`none` if the stream ends or a call fails before. -/
def readExactly : List (ReadCall α) → ℕ → Option (List α × List (ReadCall α))
  | calls, 0 => some ([], calls)
  | [], _ + 1 => none
  | .got [] :: _, _ + 1 => none
  | .got (item :: items) :: calls, want + 1 =>
      if want < items.length then
        some (item :: items.take want, .got (items.drop want) :: calls)
      else
        match readExactly calls (want - items.length) with
        | none => none
        | some (more, rest) => some (item :: items ++ more, rest)
  | .interrupted :: calls, want + 1 => readExactly calls (want + 1)
  | .failed :: _, _ + 1 => none

/-- All that the calls bring. -/
def pending : List (ReadCall α) → List α
  | [] => []
  | .got items :: calls => items ++ pending calls
  | .interrupted :: calls => pending calls
  | .failed :: calls => pending calls

/-- What is read is as long as was wanted, and is what the calls bring next. -/
theorem readExactly_spec {calls rest : List (ReadCall α)} {want : ℕ} {items : List α}
    (h : readExactly calls want = some (items, rest)) :
    items.length = want ∧ pending calls = items ++ pending rest := by
  induction calls generalizing items want rest with
  | nil =>
      cases want with
      | zero =>
          obtain ⟨rfl, rfl⟩ := Prod.mk.inj (Option.some.inj h)
          exact ⟨rfl, rfl⟩
      | succ want => exact absurd h (by simp [readExactly])
  | cons call calls ih =>
      cases want with
      | zero =>
          rw [readExactly] at h
          obtain ⟨rfl, rfl⟩ := Prod.mk.inj (Option.some.inj h)
          exact ⟨rfl, rfl⟩
      | succ want =>
          cases call with
          | got segment =>
              cases segment with
              | nil => exact absurd h (by simp [readExactly])
              | cons item segment =>
                  rw [readExactly] at h
                  split_ifs at h with hlt
                  · obtain ⟨rfl, rfl⟩ := Prod.mk.inj (Option.some.inj h)
                    constructor
                    · simp only [List.length_cons, List.length_take]
                      omega
                    · simp only [pending, List.cons_append, ← List.append_assoc,
                        List.take_append_drop]
                  · cases hread : readExactly calls (want - segment.length) with
                    | none => simp [hread] at h
                    | some p =>
                        obtain ⟨more, rest'⟩ := p
                        simp only [hread, Option.some.injEq, Prod.mk.injEq] at h
                        obtain ⟨rfl, rfl⟩ := h
                        obtain ⟨hlen, hpending⟩ := ih hread
                        constructor
                        · rw [List.length_append, hlen, List.length_cons]
                          omega
                        · rw [pending, hpending, List.append_assoc]
          | interrupted => exact ih h
          | failed => exact absurd h (by simp [readExactly])

theorem length_of_readExactly {calls rest : List (ReadCall α)} {want : ℕ} {items : List α}
    (h : readExactly calls want = some (items, rest)) : items.length = want :=
  (readExactly_spec h).1

theorem pending_of_readExactly {calls rest : List (ReadCall α)} {want : ℕ} {items : List α}
    (h : readExactly calls want = some (items, rest)) : pending calls = items ++ pending rest :=
  (readExactly_spec h).2

/-- The calls deliver the stream and nothing else, in segments that are not
empty. -/
def Delivers : List (ReadCall α) → List α → Prop
  | [], stream => stream = []
  | .got items :: calls, stream => items ≠ [] ∧ ∃ rest, stream = items ++ rest ∧ Delivers calls rest
  | .interrupted :: calls, stream => Delivers calls stream
  | .failed :: _, _ => False

/-- **A reader gets the next items of the stream**, however it was cut. -/
theorem readExactly_of_delivers {calls : List (ReadCall α)} {items rest : List α} {want : ℕ}
    (h : Delivers calls (items ++ rest)) (hlen : items.length = want) :
    ∃ calls', readExactly calls want = some (items, calls') ∧ Delivers calls' rest := by
  induction calls generalizing items want with
  | nil =>
      obtain ⟨rfl, rfl⟩ := List.append_eq_nil_iff.mp h
      obtain rfl : want = 0 := hlen.symm
      exact ⟨[], rfl, rfl⟩
  | cons call calls ih =>
      cases items with
      | nil =>
          obtain rfl : want = 0 := hlen.symm
          exact ⟨call :: calls, by simp [readExactly], h⟩
      | cons item items =>
          obtain rfl : want = items.length + 1 := hlen.symm
          cases call with
          | got segment =>
              obtain ⟨hne, tail, heq, htail⟩ := h
              obtain ⟨head, segment, rfl⟩ := List.exists_cons_of_ne_nil hne
              simp only [List.cons_append, List.cons.injEq] at heq
              obtain ⟨rfl, heq⟩ := heq
              rw [readExactly]
              rcases List.append_eq_append_iff.mp heq with ⟨more, rfl, rfl⟩ | ⟨more, rfl, rfl⟩
              · cases more with
                | nil =>
                    obtain ⟨calls', hread, hcalls'⟩ := @ih [] 0 htail rfl
                    rw [List.append_nil, if_neg (Nat.lt_irrefl _), Nat.sub_self, hread]
                    exact ⟨calls', by simp, hcalls'⟩
                | cons next more =>
                    -- the segment goes further than the reader wants
                    rw [if_pos (by simp), List.take_left, List.drop_left]
                    exact ⟨_, rfl, by simp, tail, rfl, htail⟩
              · obtain ⟨calls', hread, hcalls'⟩ := @ih more _ htail rfl
                rw [if_neg (by simp), List.length_append, Nat.add_sub_cancel_left, hread]
                exact ⟨calls', rfl, hcalls'⟩
          | interrupted => exact ih h hlen
          | failed => exact h.elim

/-- Nothing can be read from a stream that has ended. -/
theorem readExactly_of_delivers_nil {calls : List (ReadCall α)} (h : Delivers calls []) (want : ℕ) :
    readExactly calls (want + 1) = none := by
  induction calls with
  | nil => rfl
  | cons call calls ih =>
      cases call with
      | got segment =>
          obtain ⟨hne, rest, heq, -⟩ := h
          exact absurd (List.append_eq_nil_iff.mp heq.symm).1 hne
      | interrupted => exact ih h
      | failed => exact h.elim

/-- Every stream can be delivered, in one segment if need be. -/
theorem exists_delivers (stream : List α) :
    ∃ segments : List (List α), Delivers (segments.map .got) stream := by
  by_cases h : stream = []
  · exact ⟨[], h⟩
  · exact ⟨[stream], h, [], (List.append_nil stream).symm, rfl⟩

/-! ## Writing -/

/-- What one writing call does. -/
inductive WriteCall
  | wrote (n : ℕ)
  | interrupted
  | failed
  deriving DecidableEq, Repr

/-- Call until all items are written: the items that were written, and whether
that is all of them. -/
def writeAll : List WriteCall → List α → List α × Bool
  | _, [] => ([], true)
  | [], _ :: _ => ([], false)
  | .wrote n :: calls, item :: items =>
      if n = 0 then ([], false)
      else
        let (written, all) := writeAll calls ((item :: items).drop n)
        ((item :: items).take n ++ written, all)
  | .interrupted :: calls, item :: items => writeAll calls (item :: items)
  | .failed :: _, _ :: _ => ([], false)

/-- The calls take `n` items before one of them fails. -/
def Accepts : List WriteCall → ℕ → Prop
  | _, 0 => True
  | [], _ + 1 => False
  | .wrote k :: calls, n + 1 => k ≠ 0 ∧ Accepts calls (n + 1 - k)
  | .interrupted :: calls, n + 1 => Accepts calls (n + 1)
  | .failed :: _, _ + 1 => False

theorem Accepts.mono {calls : List WriteCall} {m n : ℕ} (h : Accepts calls n) (hle : m ≤ n) :
    Accepts calls m := by
  induction calls generalizing m n with
  | nil =>
      cases n with
      | zero =>
          obtain rfl : m = 0 := by omega
          trivial
      | succ n => exact h.elim
  | cons call calls ih =>
      cases m with
      | zero => simp [Accepts]
      | succ m =>
          obtain ⟨n, rfl⟩ : ∃ n', n = n' + 1 := ⟨n - 1, by omega⟩
          cases call with
          | wrote k => exact ⟨h.1, ih h.2 (by omega)⟩
          | interrupted => exact ih h hle
          | failed => exact h.elim

/-- One call may take everything. -/
theorem accepts_wrote (n : ℕ) : Accepts [.wrote n] n := by
  cases n with
  | zero => trivial
  | succ n => exact ⟨n.succ_ne_zero, by rw [Nat.sub_self]; trivial⟩

/-- **A writer that meets no failure writes everything.** -/
theorem writeAll_of_accepts {calls : List WriteCall} {items : List α}
    (h : Accepts calls items.length) : writeAll calls items = (items, true) := by
  induction calls generalizing items with
  | nil =>
      cases items with
      | nil => rfl
      | cons item items => exact h.elim
  | cons call calls ih =>
      cases items with
      | nil => simp [writeAll]
      | cons item items =>
          cases call with
          | wrote k =>
              obtain ⟨hk, h⟩ := h
              rw [writeAll, if_neg hk, ih (by simpa using h)]
              simp only [List.take_append_drop]
          | interrupted => exact ih h
          | failed => exact h.elim

end Segments
