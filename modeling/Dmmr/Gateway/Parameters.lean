import Dmmr.Gateway.Credential
import Mathlib.Data.List.Pairwise

/-!
# Which credential is taken

A request can carry a credential in several places, and the first of them in a
fixed order counts: the `Authorization` header, `X-API-Key`, `Apikey`, the query
parameter `apikey`, the query parameter `token` (`presentCredential`).

For the headers `ngx_http_dmmr_extract_credential` does just that
(`locateHeader_eq`).  A query parameter, however, is not looked for among the
pieces between the `&`s: the text `apikey=` is, anywhere in the query string.  It
can be the end of a longer name, or part of a value.  So the right parameter is
taken exactly if the first occurrence is at the beginning of its piece
(`selects_iff`).  What is taken is a pointer and a length, so a credential comes
with the place where it lies.

Throughout, a `NUL` follows the query string and none is in it.
-/

namespace Dmmr.Gateway

open Words

/-! ## The credential as a part of the request -/

/-- Where a credential lies: in one of the headers, or in the query string from a
byte on. -/
inductive Place
  | authorization
  | xApiKey
  | apikey
  | query (start : ℕ)
  deriving DecidableEq

/-- The header that gives the credential, and the credential. -/
def locateHeader (r : Request) : Option (Place × Bytes) :=
  (((nonemptyHeader r (ascii "authorization")).bind authorizationCredential).map
      (Prod.mk .authorization)).or
    (((nonemptyHeader r (ascii "x-api-key")).map (Prod.mk .xApiKey)).or
      ((nonemptyHeader r (ascii "apikey")).map (Prod.mk .apikey)))

/-- The credential in a C string: where `credential->data` points, and the bytes up to
`end`. -/
def locateMemory (memory : Bytes) : Option (ℕ × Bytes) :=
  ((strstr (ascii "apikey=") memory).or (strstr (ascii "token=") memory)).map fun p =>
    (memory.length - (p.drop (if p.headD 0 = 97 then 7 else 6)).length, parameterValue p)

/-- The credential in the query string, which is searched as a C string. -/
def locateQuery (r : Request) : Option (Place × Bytes) :=
  if r.args.length > 0 then
    (locateMemory ((r.args ++ r.afterArgs).takeWhile (· ≠ 0))).map fun found =>
      (.query found.1, found.2)
  else none

/-- `ngx_http_dmmr_extract_credential`, with the place that `credential->data` points
to. -/
def locateCredential (r : Request) : Option (Place × Bytes) := (locateHeader r).or (locateQuery r)

/-- Without the place it is the credential. -/
theorem extractCredential_eq_map (r : Request) :
    extractCredential r = (locateCredential r).map Prod.snd := by
  have hheader : headerCredential r = (locateHeader r).map Prod.snd := by
    simp only [headerCredential, locateHeader, Option.map_or, Option.map_map, Function.comp_def,
      Option.map_id']
  have hquery : queryCredential r = (locateQuery r).map Prod.snd := by
    rw [queryCredential_eq, locateQuery]
    split_ifs
    · simp only [memoryCredential, locateMemory, Option.map_map, Function.comp_def]
    · rfl
  rw [extractCredential_eq, hheader, hquery, locateCredential, Option.map_or]

/-! ## The sources of a credential -/

/-- The value of the first header with a name, which is given in small
letters. -/
def header (r : Request) (name : Bytes) : Option Bytes :=
  (r.headers.find? fun h => h.1.map tolower = name).map Prod.snd

/-- What follows the scheme `Bearer` or `Token` and a space, unless it is
empty. -/
def schemeCredential (value : Bytes) : Option Bytes :=
  let scheme := value.takeWhile (· ≠ 32)
  let rest := value.drop (scheme.length + 1)
  if (scheme.map tolower = ascii "bearer" ∨ scheme.map tolower = ascii "token") ∧ rest ≠ [] then
    some rest
  else none

/-- The pieces of a string, each with the place where it begins. -/
def piecesFrom : ℕ → List Bytes → List (ℕ × Bytes)
  | _, [] => []
  | start, piece :: rest => (start, piece) :: piecesFrom (start + (piece.length + 1)) rest

/-- What a function gives for the first piece of a query string for which it gives
something, and where the piece begins. -/
def findPiece {α : Type} (f : Bytes → Option α) (args : Bytes) : Option (ℕ × α) :=
  (piecesFrom 0 (args.splitOn 38)).findSome? fun piece => (f piece.2).map (Prod.mk piece.1)

/-- The value of a piece of a query string, if the piece has the name. -/
def parameter (name piece : Bytes) : Option Bytes :=
  if piece.takeWhile (· ≠ 61) = name ∧ 61 ∈ piece then some (piece.drop (name.length + 1))
  else none

/-- The value of the first parameter of a query string that has the name, and where it
begins. -/
def queryParameter (name args : Bytes) : Option (ℕ × Bytes) :=
  (findPiece (parameter name) args).map fun found => (found.1 + (name.length + 1), found.2)

/-- The credential of the first header that carries one. -/
def presentHeader (r : Request) : Option (Place × Bytes) :=
  (((header r (ascii "authorization")).bind schemeCredential).map (Prod.mk .authorization)).or
    ((((header r (ascii "x-api-key")).filter (· ≠ [])).map (Prod.mk .xApiKey)).or
      (((header r (ascii "apikey")).filter (· ≠ [])).map (Prod.mk .apikey)))

/-- The credential of the first query parameter that carries one. -/
def presentParameter (args : Bytes) : Option (ℕ × Bytes) :=
  (queryParameter (ascii "apikey") args).or (queryParameter (ascii "token") args)

/-- The credential of the first source that is present. -/
def presentCredential (r : Request) : Option (Place × Bytes) :=
  (presentHeader r).or ((presentParameter r.args).map fun found => (.query found.1, found.2))

/-! ## Headers -/

theorem tolower_eq_iff {c b : UInt8} (hb : b < 65) : tolower c = b ↔ c = b := by
  unfold tolower
  split_ifs with hletter
  · have hle : c.toNat ≤ (c ||| 0x20).toNat := by
      rw [UInt8.toNat_or]
      exact Nat.left_le_or
    have hlow : 65 ≤ c.toNat := UInt8.le_iff_toNat_le.mp hletter.1
    have hb' : b.toNat < 65 := UInt8.lt_iff_toNat_lt.mp hb
    constructor <;> rintro rfl <;> omega
  · rfl

/-- A comparison with a text that has no `NUL`. -/
theorem strnEq_iff {fold : UInt8 → UInt8} (hfold : ∀ c, fold c = 0 ↔ c = 0) {s t : Bytes}
    (hlen : t.length ≤ s.length) (hnul : 0 ∉ t) :
    strnEq fold t.length s t = true ↔ (s.take t.length).map fold = t.map fold := by
  induction t generalizing s with
  | nil => simp [strnEq]
  | cons b t ih =>
      cases s with
      | nil => simp at hlen
      | cons c s =>
          obtain ⟨hb, hnul'⟩ := not_or.mp (mt List.mem_cons.mpr hnul)
          have hb' : fold b ≠ 0 := mt (hfold b).mp (Ne.symm hb)
          have ih' := ih (s := s) (by simpa using hlen) hnul'
          by_cases hcb : fold c = fold b
          · simp [strnEq, hcb, hb', ih']
          · simp [strnEq, hcb]

theorem strncasecmpEq_iff {s t : Bytes} (hlen : t.length ≤ s.length) (hnul : 0 ∉ t) :
    strncasecmpEq s t t.length = true ↔ (s.take t.length).map tolower = t.map tolower :=
  strnEq_iff (fun _ => tolower_eq_iff (by decide)) hlen hnul

theorem getHeaderValue_eq (r : Request) {name : Bytes} (hnul : 0 ∉ name)
    (hsmall : name.map tolower = name) : getHeaderValue r name = header r name := by
  have hname : ∀ h : Bytes × Bytes, (h.1.length == name.length &&
      strncasecmpEq h.1 name name.length) = decide (h.1.map tolower = name) := by
    intro h
    rw [Bool.eq_iff_iff, Bool.and_eq_true, beq_iff_eq, decide_eq_true_eq]
    constructor
    · rintro ⟨hlen, heq⟩
      rw [strncasecmpEq_iff hlen.ge hnul, List.take_of_length_le hlen.le, hsmall] at heq
      exact heq
    · intro heq
      have hlen : h.1.length = name.length := by rw [← heq, List.length_map]
      refine ⟨hlen, (strncasecmpEq_iff hlen.ge hnul).mpr ?_⟩
      rw [List.take_of_length_le hlen.le, hsmall, heq]
  unfold getHeaderValue header
  simp only [hname]

theorem takeWhile_append_cons {b : UInt8} {a : Bytes} (h : b ∉ a) (rest : Bytes) :
    (a ++ b :: rest).takeWhile (· ≠ b) = a := by
  rw [takeWhile_append_of_not_mem h, List.takeWhile_cons_of_neg (by simp), List.append_nil]

/-- The test for a scheme is a test of the text before the first space. -/
theorem scheme_iff (value scheme word : Bytes) (hword : scheme.map tolower = word ++ [32])
    (hnul : 0 ∉ scheme) (hspace : 32 ∉ word) :
    (value.length > scheme.length ∧ strncasecmpEq value scheme scheme.length = true) ↔
      (value.takeWhile (· ≠ 32)).map tolower = word ∧ value.drop (word.length + 1) ≠ [] := by
  have hlen : scheme.length = word.length + 1 := by
    simpa using congrArg List.length hword
  rw [ne_eq, List.drop_eq_nil_iff, not_le, hlen]
  constructor
  · rintro ⟨hlong, heq⟩
    refine ⟨?_, hlong⟩
    rw [← hlen, strncasecmpEq_iff (by omega) hnul, hword, hlen] at heq
    obtain ⟨a, c, hac, ha, hc⟩ := List.map_eq_append_iff.mp heq
    obtain ⟨b, rfl, hb⟩ := List.map_eq_singleton_iff.mp hc
    obtain rfl := (tolower_eq_iff (by decide)).mp hb
    have hvalue : value = a ++ 32 :: value.drop (word.length + 1) := by
      rw [← List.singleton_append, ← List.append_assoc, ← hac, List.take_append_drop]
    have hnot : 32 ∉ a := fun hmem => hspace (ha ▸ List.mem_map.mpr ⟨32, hmem, by decide⟩)
    rw [hvalue, takeWhile_append_cons hnot, ha]
  · rintro ⟨hscheme, hlong⟩
    refine ⟨hlong, ?_⟩
    have hwlen : (value.takeWhile (· ≠ 32)).length = word.length := by
      rw [← hscheme, List.length_map]
    have hmem : 32 ∈ value := by
      by_contra hmem
      rw [takeWhile_of_not_mem hmem] at hwlen
      omega
    obtain ⟨a, rest, rfl, ha⟩ := List.eq_append_cons_of_mem hmem
    rw [takeWhile_append_cons ha] at hscheme hwlen
    rw [← hlen, strncasecmpEq_iff (by omega) hnul, hword, hlen, ← hwlen, ← hscheme,
      List.take_length_add_append]
    simp [tolower]

theorem authorizationCredential_eq (value : Bytes) :
    authorizationCredential value = schemeCredential value := by
  have hbearer : value.length > 7 ∧ strncasecmpEq value (ascii "Bearer ") 7 = true ↔
      (value.takeWhile (· ≠ 32)).map tolower = ascii "bearer" ∧ value.drop 7 ≠ [] :=
    scheme_iff value (ascii "Bearer ") (ascii "bearer") (by decide) (by decide) (by decide)
  have htoken : value.length > 6 ∧ strncasecmpEq value (ascii "Token ") 6 = true ↔
      (value.takeWhile (· ≠ 32)).map tolower = ascii "token" ∧ value.drop 6 ≠ [] :=
    scheme_iff value (ascii "Token ") (ascii "token") (by decide) (by decide) (by decide)
  have hlen : ∀ {word : Bytes}, (value.takeWhile (· ≠ 32)).map tolower = word →
      (value.takeWhile (· ≠ 32)).length = word.length := by
    rintro word rfl
    rw [List.length_map]
  unfold authorizationCredential schemeCredential
  simp only [hbearer, htoken]
  by_cases hb : (value.takeWhile (· ≠ 32)).map tolower = ascii "bearer"
  · have ht : ascii "bearer" ≠ ascii "token" := by decide
    simp only [hlen hb, hb, ht, true_and, false_and, true_or, if_false]
    rfl
  · by_cases ht : (value.takeWhile (· ≠ 32)).map tolower = ascii "token"
    · have hb' : ascii "token" ≠ ascii "bearer" := by decide
      simp only [hlen ht, ht, hb', true_and, false_and, or_true, if_false]
      rfl
    · simp only [hb, ht, false_and, or_self, if_false]

/-- The headers are read as they should be. -/
theorem locateHeader_eq (r : Request) : locateHeader r = presentHeader r := by
  have hempty : ∀ value : Option Bytes, (value.filter fun v => v.length > 0).bind schemeCredential =
      value.bind schemeCredential := by
    intro value
    cases value with
    | none => rfl
    | some v =>
        cases v with
        | nil => rfl
        | cons c v => rfl
  have hlength : ∀ value : Option Bytes, (value.filter fun v => v.length > 0) =
      value.filter (· ≠ []) := by
    intro value
    cases value with
    | none => rfl
    | some v => cases v <;> rfl
  unfold locateHeader presentHeader nonemptyHeader
  rw [getHeaderValue_eq r (by decide) (by decide), getHeaderValue_eq r (by decide) (by decide),
    getHeaderValue_eq r (by decide) (by decide), funext authorizationCredential_eq, hempty,
    hlength, hlength]

/-! ## Query parameters -/

/-- What a piece holds before and after the first occurrence of a text. -/
def cut (t piece : Bytes) : Option (Bytes × Bytes) :=
  (strstr t piece).map fun p => (piece.take (piece.length - p.length), p.drop t.length)

/-- The first piece of a query string that holds a text, cut there. -/
def occurrence (t args : Bytes) : Option (ℕ × Bytes × Bytes) := findPiece (cut t) args

/-! ### Pieces -/

theorem piecesFrom_eq_map (start : ℕ) (pieces : List Bytes) :
    piecesFrom start pieces =
      (piecesFrom 0 pieces).map fun piece => (start + piece.1, piece.2) := by
  induction pieces generalizing start with
  | nil => rfl
  | cons piece pieces ih =>
      rw [piecesFrom, piecesFrom, ih, ih (0 + (piece.length + 1)), List.map_cons, List.map_map]
      simp [Function.comp_def, Nat.add_assoc]

/-- A piece begins behind the end of those before it. -/
theorem pairwise_piecesFrom (start : ℕ) (pieces : List Bytes) :
    (∀ piece ∈ piecesFrom start pieces, start ≤ piece.1) ∧
      (piecesFrom start pieces).Pairwise fun x y => x.1 + x.2.length < y.1 := by
  induction pieces generalizing start with
  | nil => exact ⟨by simp [piecesFrom], List.Pairwise.nil⟩
  | cons piece pieces ih =>
      obtain ⟨hstart, hpairs⟩ := ih (start + (piece.length + 1))
      constructor
      · intro x hx
        rcases List.mem_cons.mp hx with rfl | hmem
        · exact le_rfl
        · exact (Nat.le_add_right _ _).trans (hstart x hmem)
      · refine List.pairwise_cons.mpr ⟨fun y hy => ?_, hpairs⟩
        have hle := hstart y hy
        simp only
        omega

/-- A place is in one piece only. -/
theorem piece_unique {start n : ℕ} {pieces : List Bytes} {x y : ℕ × Bytes}
    (hx : x ∈ piecesFrom start pieces) (hy : y ∈ piecesFrom start pieces)
    (hxn : x.1 ≤ n ∧ n ≤ x.1 + x.2.length) (hyn : y.1 ≤ n ∧ n ≤ y.1 + y.2.length) : x = y := by
  by_contra hne
  have hsymm : Std.Symm fun x y : ℕ × Bytes =>
      x.1 + x.2.length < y.1 ∨ y.1 + y.2.length < x.1 := ⟨fun _ _ => Or.symm⟩
  have hpairs : (piecesFrom start pieces).Pairwise fun x y =>
      x.1 + x.2.length < y.1 ∨ y.1 + y.2.length < x.1 :=
    (pairwise_piecesFrom start pieces).2.imp Or.inl
  have hapart := hpairs.forall hx hy hne
  omega

section FindPiece

variable {α : Type} (f : Bytes → Option α)

theorem findPiece_of_not_mem {args : Bytes} (h : 38 ∉ args) :
    findPiece f args = (f args).map (Prod.mk 0) := by
  unfold findPiece
  rw [List.splitOn_eq_singleton h]
  exact List.findSome?_singleton

theorem findPiece_append_cons {x : Bytes} (h : 38 ∉ x) (rest : Bytes) :
    findPiece f (x ++ 38 :: rest) =
      ((f x).map (Prod.mk 0)).or
        ((findPiece f rest).map fun found => (x.length + 1 + found.1, found.2)) := by
  unfold findPiece
  rw [List.splitOn_append_cons_self_of_not_mem h, piecesFrom, List.findSome?_cons,
    piecesFrom_eq_map, List.findSome?_map]
  cases f x with
  | some a => rfl
  | none =>
      simp only [Option.map_none, Option.none_or, List.map_findSome?, Function.comp_def,
        Option.map_map, Nat.zero_add]

variable {f}

theorem exists_of_findPiece {args : Bytes} {start : ℕ} {a : α}
    (h : findPiece f args = some (start, a)) :
    ∃ piece, (start, piece) ∈ piecesFrom 0 (args.splitOn 38) ∧ f piece = some a := by
  obtain ⟨piece, hmem, hpiece⟩ := List.exists_of_findSome?_eq_some h
  obtain ⟨b, hb, heq⟩ := Option.map_eq_some_iff.mp hpiece
  obtain ⟨rfl, rfl⟩ := Prod.mk.inj heq
  exact ⟨piece.2, hmem, hb⟩

end FindPiece

section Pieces

variable {t : Bytes} (hne : t ≠ []) (hamp : 38 ∉ t)

include hamp in
/-- A text without a `&` does not reach beyond one. -/
theorem isPrefix_append_cons_iff (x rest : Bytes) : t <+: x ++ 38 :: rest ↔ t <+: x := by
  refine ⟨fun h => ?_, fun h => h.trans (List.prefix_append x _)⟩
  by_contra hnot
  have hlong : x.length < t.length := by
    by_contra hle
    exact hnot (List.prefix_of_prefix_length_le h (List.prefix_append x _) (not_lt.mp hle))
  have hpre : x ++ [38] <+: t := by
    refine List.prefix_of_prefix_length_le ⟨rest, ?_⟩ h ?_
    · rw [List.append_assoc, List.singleton_append]
    · rw [List.length_append, List.length_singleton]
      exact hlong
  exact hamp (hpre.subset (by simp))

include hne hamp

/-- The first piece is searched, and then the others. -/
theorem strstr_append_cons (x rest : Bytes) :
    strstr t (x ++ 38 :: rest) = ((strstr t x).map (· ++ 38 :: rest)).or (strstr t rest) := by
  have hbegins := isPrefix_append_cons_iff hamp
  simp only [← List.isPrefixOf_iff_prefix] at hbegins
  induction x with
  | nil =>
      have hnot : ¬ t.isPrefixOf (38 :: rest) = true := by
        intro h
        exact hne (List.prefix_nil.mp (List.isPrefixOf_iff_prefix.mp ((hbegins [] rest).mp h)))
      have hnil : strstr t [] = none := if_neg hne
      have hcons : strstr t (38 :: rest) = strstr t rest := if_neg hnot
      rw [List.nil_append, hnil, hcons]
      rfl
  | cons c x ih =>
      have hcons := hbegins (c :: x) rest
      rw [List.cons_append] at hcons
      rw [List.cons_append, strstr, strstr, ih]
      by_cases hpre : t.isPrefixOf (c :: x) = true
      · rw [if_pos hpre, if_pos (hcons.mpr hpre)]
        rfl
      · rw [if_neg hpre, if_neg (mt hcons.mp hpre)]

/-- Searching the query string as a whole comes to cutting the first piece that
holds the text. -/
theorem map_strstr_eq (args : Bytes) :
    (strstr t args).map (fun p =>
        (args.length - (p.drop t.length).length, (p.drop t.length).takeWhile (· ≠ 38))) =
      (occurrence t args).map fun o => (o.1 + (o.2.1.length + t.length), o.2.2) := by
  induction hn : args.length using Nat.strong_induction_on generalizing args with
  | _ n ih =>
      by_cases hmem : 38 ∈ args
      · obtain ⟨x, rest, rfl, hx⟩ := List.eq_append_cons_of_mem hmem
        have hlt : rest.length < n := by
          rw [← hn, List.length_append, List.length_cons]
          omega
        rw [strstr_append_cons hne hamp, occurrence, findPiece_append_cons _ hx, cut]
        cases hp : strstr t x with
        | none =>
            -- the rest of the string begins behind `x` and the `&`
            have hrest := congrArg (Option.map fun found : ℕ × Bytes =>
              (x.length + 1 + found.1, found.2)) (ih rest.length hlt rest rfl)
            rw [Option.map_map, Option.map_map] at hrest
            simp only [Option.map_none, Option.none_or, Option.map_map]
            refine Eq.trans ?_ (hrest.trans ?_)
            · cases hq : strstr t rest with
              | none => rfl
              | some q =>
                  have hle := (strstr_spec hq).2.length_le
                  simp only [Option.map_some, Function.comp_apply, List.length_drop, ← hn,
                    List.length_append, List.length_cons]
                  congr 2
                  omega
            · simp only [Function.comp_def, Nat.add_assoc, occurrence]
        | some p =>
            obtain ⟨⟨v, rfl⟩, pre, rfl⟩ := strstr_spec hp
            have hv : 38 ∉ v := fun h => hx (by simp [h])
            simp only [Option.map_some, Option.some_or, List.append_assoc, List.drop_left,
              takeWhile_append_cons hv, ← hn, List.length_append, List.length_cons,
              List.length_take]
            congr 2
            omega
      · rw [occurrence, findPiece_of_not_mem _ hmem, cut]
        cases hp : strstr t args with
        | none => rfl
        | some p =>
            obtain ⟨⟨v, rfl⟩, pre, rfl⟩ := strstr_spec hp
            have hv : 38 ∉ v := fun h => hmem (by simp [h])
            simp only [Option.map_some, List.drop_left, takeWhile_of_not_mem hv, ← hn,
              List.length_append, List.length_take]
            congr 2
            omega

end Pieces

theorem ascii_token : ascii "token=" = [116, 111, 107, 101, 110, 61] := by decide

theorem parameterValue_token (v : Bytes) :
    parameterValue (ascii "token=" ++ v) = v.takeWhile (· ≠ 38) := by
  simp [parameterValue, ascii_token]

/-- What is taken from an occurrence: where its value begins, and the value. -/
def takenFrom (t args : Bytes) : Option (ℕ × Bytes) :=
  (occurrence t args).map fun o => (o.1 + (o.2.1.length + t.length), o.2.2)

theorem map_parameterValue {t : Bytes} (args : Bytes)
    (hvalue : ∀ v, parameterValue (t ++ v) = v.takeWhile (· ≠ 38))
    (hskip : ∀ v, (if (t ++ v).headD 0 = 97 then 7 else 6) = t.length) (hne : t ≠ [])
    (hamp : 38 ∉ t) :
    (strstr t args).map (fun p => (args.length - (p.drop (if p.headD 0 = 97 then 7 else 6)).length,
      parameterValue p)) = takenFrom t args := by
  rw [takenFrom, ← map_strstr_eq hne hamp]
  cases hp : strstr t args with
  | none => rfl
  | some p =>
      obtain ⟨⟨v, rfl⟩, -⟩ := strstr_spec hp
      rw [Option.map_some, Option.map_some, hvalue, hskip, List.drop_left]

theorem locateMemory_eq (args : Bytes) :
    locateMemory args =
      (takenFrom (ascii "apikey=") args).or (takenFrom (ascii "token=") args) := by
  unfold locateMemory
  rw [Option.map_or,
    map_parameterValue args parameterValue_apikey (fun v => by simp [ascii_apikey]) (by decide)
      (by decide),
    map_parameterValue args parameterValue_token (fun v => by simp [ascii_token]) (by decide)
      (by decide)]

theorem locateQuery_of_terminated {r : Request} (hnul : 0 ∉ r.args)
    (hafter : r.afterArgs.head? = some 0) :
    locateQuery r = (locateMemory r.args).map fun found => (.query found.1, found.2) := by
  obtain ⟨rest, hrest⟩ := List.head?_eq_some_iff.mp hafter
  rw [locateQuery, hrest, takeWhile_append_cons hnul]
  cases hargs : r.args with
  | nil => rfl
  | cons c args => rfl

/-! ### Parameters -/

theorem parameter_eq_some_iff {name piece v : Bytes} (hname : 61 ∉ name) :
    parameter name piece = some v ↔ piece = name ++ 61 :: v := by
  unfold parameter
  constructor
  · intro h
    split_ifs at h with hcond
    obtain ⟨x, rest, rfl, hx⟩ := List.eq_append_cons_of_mem hcond.2
    obtain ⟨hx', -⟩ := hcond
    rw [takeWhile_append_cons hx] at hx'
    subst hx'
    rw [← Option.some.inj h]
    simp
  · rintro rfl
    rw [if_pos ⟨takeWhile_append_cons hname v, by simp⟩]
    simp

theorem strstr_of_isPrefix {t s : Bytes} (h : t <+: s) : strstr t s = some s := by
  cases s with
  | nil => exact if_pos (List.prefix_nil.mp h)
  | cons c s => exact if_pos (List.isPrefixOf_iff_prefix.mpr h)

/-- Nothing is before the text if the piece begins with it. -/
theorem cut_eq_nil_iff {t piece v : Bytes} : cut t piece = some ([], v) ↔ piece = t ++ v := by
  unfold cut
  constructor
  · intro h
    obtain ⟨p, hp, heq⟩ := Option.map_eq_some_iff.mp h
    obtain ⟨⟨w, rfl⟩, pre, rfl⟩ := strstr_spec hp
    obtain ⟨hpre, rfl⟩ := Prod.mk.inj heq
    have hnil : pre = [] := by simpa using hpre
    simp [hnil]
  · rintro rfl
    rw [strstr_of_isPrefix (List.prefix_append t v)]
    simp

section Names

variable {name : Bytes} (hname : 61 ∉ name)
include hname

theorem parameter_eq_some_iff_cut {piece v : Bytes} :
    parameter name piece = some v ↔ cut (name ++ [61]) piece = some ([], v) := by
  rw [parameter_eq_some_iff hname, cut_eq_nil_iff, List.append_assoc, List.singleton_append]

theorem parameter_eq_none {piece : Bytes} (h : cut (name ++ [61]) piece = none) :
    parameter name piece = none := by
  rw [Option.eq_none_iff_forall_ne_some]
  intro v hv
  rw [parameter_eq_some_iff_cut hname, h] at hv
  exact absurd hv (by simp)

/-- A parameter is an occurrence of its name and the `=`. -/
theorem queryParameter_eq_none {args : Bytes} (h : occurrence (name ++ [61]) args = none) :
    queryParameter name args = none := by
  unfold occurrence findPiece at h
  unfold queryParameter findPiece
  rw [List.findSome?_eq_none_iff] at h
  rw [Option.map_eq_none_iff, List.findSome?_eq_none_iff]
  intro piece hpiece
  rw [parameter_eq_none hname (Option.map_eq_none_iff.mp (h piece hpiece)), Option.map_none]

/-- If nothing is before the first occurrence, it is the first parameter. -/
theorem queryParameter_eq_some {args v : Bytes} {start : ℕ}
    (h : occurrence (name ++ [61]) args = some (start, [], v)) :
    queryParameter name args = some (start + (name.length + 1), v) := by
  unfold occurrence findPiece at h
  unfold queryParameter findPiece
  rw [List.findSome?_eq_some_iff] at h
  obtain ⟨before, piece, after, hpieces, hcut, hbefore⟩ := h
  obtain ⟨c, hc, heq⟩ := Option.map_eq_some_iff.mp hcut
  obtain ⟨rfl, rfl⟩ := Prod.mk.inj heq
  refine Option.map_eq_some_iff.mpr ⟨(piece.1, v), List.findSome?_eq_some_iff.mpr ?_, rfl⟩
  refine ⟨before, piece, after, hpieces, ?_, fun x hx => ?_⟩
  · rw [(parameter_eq_some_iff_cut hname).mpr hc, Option.map_some]
  · rw [parameter_eq_none hname (Option.map_eq_none_iff.mp (hbefore x hx)), Option.map_none]

/-- If what is taken from an occurrence begins where the value of a parameter does,
nothing is before the occurrence: both are in one piece. -/
theorem before_eq_nil {t args before v w : Bytes} {start : ℕ} (hlen : name.length + 1 ≤ t.length)
    (ho : occurrence t args = some (start, before, v))
    (hparam : queryParameter name args = some (start + (before.length + t.length), w)) :
    before = [] := by
  obtain ⟨piece, hpiece, hcut⟩ := exists_of_findPiece ho
  obtain ⟨⟨start', w'⟩, hfound, heq⟩ := Option.map_eq_some_iff.mp hparam
  obtain ⟨piece', hpiece', hparameter⟩ := exists_of_findPiece hfound
  have hplace : start' + (name.length + 1) = start + (before.length + t.length) :=
    congrArg Prod.fst heq
  have hroom : before.length + t.length ≤ piece.length := by
    obtain ⟨p, hp, hbefore⟩ := Option.map_eq_some_iff.mp hcut
    obtain ⟨hpre, hsuffix⟩ := strstr_spec hp
    rw [← (Prod.mk.inj hbefore).1, List.length_take]
    have := hpre.length_le
    have := hsuffix.length_le
    omega
  have hroom' : name.length + 1 ≤ piece'.length := by
    rw [(parameter_eq_some_iff hname).mp hparameter, List.length_append, List.length_cons]
    omega
  have hsame := piece_unique (n := start' + (name.length + 1)) hpiece hpiece'
    (by simp only; omega) (by simp only; omega)
  have hstart : start = start' := congrArg Prod.fst hsame
  exact List.length_eq_zero_iff.mp (by omega)

end Names

/-! ## The selection -/

/-- The credential is that of the first source that is present, and taken from
there. -/
def Selects (r : Request) : Prop := locateCredential r = presentCredential r

instance (r : Request) : Decidable (Selects r) := inferInstanceAs (Decidable (_ = _))

/-- The occurrence the credential is taken from. -/
def firstOccurrence (args : Bytes) : Option (ℕ × Bytes × Bytes) :=
  (occurrence (ascii "apikey=") args).or (occurrence (ascii "token=") args)

/-- Nothing is before the first occurrence of `apikey=` in its piece, or of
`token=` if there is no `apikey=`. -/
def BeginsPiece (args : Bytes) : Prop := ∀ o ∈ firstOccurrence args, o.2.1 = []

theorem locateMemory_eq_iff (args : Bytes) :
    locateMemory args = presentParameter args ↔ BeginsPiece args := by
  have hkeyName : 61 ∉ ascii "apikey" := by decide
  have htokenName : 61 ∉ ascii "token" := by decide
  rw [locateMemory_eq]
  unfold BeginsPiece firstOccurrence presentParameter
  cases hkey : occurrence (ascii "apikey=") args with
  | some o =>
      obtain ⟨start, before, v⟩ := o
      simp only [takenFrom, hkey, Option.map_some, Option.some_or, Option.mem_def,
        Option.some.injEq, forall_eq']
      constructor
      · intro h
        rcases Option.or_eq_some_iff.mp h.symm with h | ⟨-, h⟩
        · exact before_eq_nil hkeyName (by decide) hkey h
        · exact before_eq_nil htokenName (by decide) hkey h
      · rintro rfl
        rw [queryParameter_eq_some hkeyName hkey, Option.some_or]
        rfl
  | none =>
      rw [queryParameter_eq_none hkeyName hkey, takenFrom, hkey, Option.map_none]
      simp only [Option.none_or]
      cases htoken : occurrence (ascii "token=") args with
      | none =>
          rw [queryParameter_eq_none htokenName htoken, takenFrom, htoken]
          simp
      | some o =>
          obtain ⟨start, before, v⟩ := o
          simp only [takenFrom, htoken, Option.map_some, Option.mem_def, Option.some.injEq,
            forall_eq']
          constructor
          · intro h
            exact before_eq_nil htokenName (by decide) htoken h.symm
          · rintro rfl
            rw [queryParameter_eq_some htokenName htoken]
            rfl

/-- **The right credential is taken**, if a `NUL` follows the query string and
none is in it, exactly when a header carries one, or the first occurrence of
`apikey=` in the query string (of `token=` if there is none) begins its piece. -/
theorem selects_iff (r : Request) (hnul : 0 ∉ r.args) (hafter : r.afterArgs.head? = some 0) :
    Selects r ↔ presentHeader r ≠ none ∨ BeginsPiece r.args := by
  have hplace : Function.Injective fun found : ℕ × Bytes => (Place.query found.1, found.2) := by
    intro x y h
    obtain ⟨hstart, hvalue⟩ := Prod.mk.inj h
    exact Prod.ext (Place.query.inj hstart) hvalue
  unfold Selects locateCredential presentCredential
  rw [locateHeader_eq, locateQuery_of_terminated hnul hafter, ← locateMemory_eq_iff]
  cases presentHeader r with
  | none => simp [(Option.map_injective hplace).eq_iff]
  | some c => simp

/-- A request with a query string and nothing else. -/
def queryRequest (args : Bytes) : Request where
  uri := ascii "/"
  methodName := ascii "GET"
  host := none
  headers := []
  args := args
  afterArgs := [0]
  clientAddr := []

theorem selects_apikey :
    Selects (queryRequest (ascii "user=7&apikey=good")) ∧
      presentCredential (queryRequest (ascii "user=7&apikey=good")) =
        some (.query 14, ascii "good") :=
  ⟨(selects_iff (queryRequest (ascii "user=7&apikey=good")) (by decide) rfl).mpr
    (.inr (by unfold BeginsPiece; decide)), by decide⟩

/-- The name of the first parameter ends in `apikey`; its value is taken. -/
theorem selects_fails :
    extractCredential (queryRequest (ascii "xapikey=bad&apikey=good")) = some (ascii "bad") ∧
      presentCredential (queryRequest (ascii "xapikey=bad&apikey=good")) =
        some (.query 19, ascii "good") ∧
      ¬ Selects (queryRequest (ascii "xapikey=bad&apikey=good")) := by
  decide

end Dmmr.Gateway
