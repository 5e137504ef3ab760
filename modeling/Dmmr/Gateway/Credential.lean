import Dmmr.Gateway.Auth

/-!
# Where query credentials come from

`r->args` is a counted string inside the request buffer, but
`ngx_http_dmmr_extract_credential` searches it with `ngx_strstr` and reads a
value up to the next `&` or `NUL`.  Both run on into whatever follows the query
string: the rest of the request line, and the headers.

The credential is independent of that memory, and part of the query string,
exactly for the requests of `queryOnly_iff`: those with a credential in a header,
without a query string, with a `NUL` in it, or with an `apikey=` that is followed
by a `&`.
-/

namespace Dmmr.Gateway

open Words

/-! ## Searching -/

/-- Reading up to a byte that is there does not depend on what follows. -/
theorem takeWhile_append_of_mem {b : UInt8} {s : Bytes} (h : b ∈ s) (u : Bytes) :
    (s ++ u).takeWhile (· ≠ b) = s.takeWhile (· ≠ b) := by
  induction s with
  | nil => simp at h
  | cons c s ih =>
      by_cases hc : c = b
      · rw [List.cons_append, List.takeWhile_cons_of_neg (by simp [hc]),
          List.takeWhile_cons_of_neg (by simp [hc])]
      · have hs : b ∈ s := (List.mem_cons.mp h).resolve_left (Ne.symm hc)
        rw [List.cons_append, List.takeWhile_cons_of_pos (by simp [hc]),
          List.takeWhile_cons_of_pos (by simp [hc]), ih hs]

/-- Reading up to a byte that is not there goes on into what follows. -/
theorem takeWhile_append_of_not_mem {b : UInt8} {s : Bytes} (h : b ∉ s) (u : Bytes) :
    (s ++ u).takeWhile (· ≠ b) = s ++ u.takeWhile (· ≠ b) :=
  List.takeWhile_append_of_pos fun _ hc => decide_eq_true fun heq => h (heq ▸ hc)

theorem takeWhile_of_not_mem {b : UInt8} {s : Bytes} (h : b ∉ s) :
    s.takeWhile (· ≠ b) = s := by
  have hself := takeWhile_append_of_not_mem h []
  rwa [List.takeWhile_nil, List.append_nil] at hself

variable {t s p u : Bytes}

theorem strstr_spec (h : strstr t s = some p) : t <+: p ∧ p <:+ s := by
  induction s with
  | nil =>
      unfold strstr at h
      split_ifs at h with hnil
      obtain rfl := Option.some.inj h
      exact ⟨hnil ▸ List.prefix_rfl, List.suffix_rfl⟩
  | cons c s ih =>
      unfold strstr at h
      split_ifs at h with hpre
      · obtain rfl := Option.some.inj h
        exact ⟨List.isPrefixOf_iff_prefix.mp hpre, List.suffix_rfl⟩
      · exact ⟨(ih h).1, (ih h).2.trans (List.suffix_cons c s)⟩

/-- An occurrence is found, or one before it. -/
theorem exists_strstr (pre : Bytes) (hpre : t <+: s) :
    ∃ p, strstr t (pre ++ s) = some p ∧ s.length ≤ p.length := by
  induction pre with
  | nil =>
      refine ⟨s, ?_, le_rfl⟩
      cases s with
      | nil => simp [strstr, List.prefix_nil.mp hpre]
      | cons c s => simp [strstr, List.isPrefixOf_iff_prefix.mpr hpre]
  | cons c pre ih =>
      obtain ⟨p, hp, hlen⟩ := ih
      rw [List.cons_append, strstr]
      split_ifs
      · exact ⟨_, rfl, by simp; omega⟩
      · exact ⟨p, hp, hlen⟩

/-- What follows the string does not change the first occurrence in it. -/
theorem strstr_append (h : strstr t s = some p) (u : Bytes) :
    strstr t (s ++ u) = some (p ++ u) := by
  induction s with
  | nil =>
      unfold strstr at h
      split_ifs at h with hnil
      obtain rfl := Option.some.inj h
      cases u <;> simp [strstr, hnil]
  | cons c s ih =>
      have hlen : t.length ≤ (c :: s).length := by
        obtain ⟨hpre, hsuffix⟩ := strstr_spec h
        exact hpre.length_le.trans hsuffix.length_le
      have hiff : t <+: c :: (s ++ u) ↔ t <+: c :: s := by
        rw [← List.cons_append]
        exact ⟨fun h => List.prefix_of_prefix_length_le h (List.prefix_append _ u) hlen,
          fun h => h.trans (List.prefix_append _ u)⟩
      rw [List.cons_append]
      unfold strstr at h ⊢
      split_ifs at h with hpre
      · obtain rfl := Option.some.inj h
        have hwider := hiff.mpr (List.isPrefixOf_iff_prefix.mp hpre)
        rw [if_pos (List.isPrefixOf_iff_prefix.mpr hwider)]
        rfl
      · rw [if_neg fun h' => hpre
          (List.isPrefixOf_iff_prefix.mpr (hiff.mp (List.isPrefixOf_iff_prefix.mp h')))]
        exact ih h

/-- In a string without an occurrence, the one that is put behind it is found
there, or overlapping the end. -/
theorem strstr_of_not_infix (hnot : ¬ t <:+: s) (u : Bytes) :
    ∃ v, strstr t (s ++ (t ++ u)) = some (t ++ v) ∧ v <:+ t ++ u ∧ u.length ≤ v.length := by
  obtain ⟨p, hp, hlen⟩ := exists_strstr s (List.prefix_append t u)
  obtain ⟨⟨v, rfl⟩, hsuffix⟩ := strstr_spec hp
  rw [List.length_append, List.length_append] at hlen
  refine ⟨v, hp, ?_, by omega⟩
  obtain ⟨pre, hpre⟩ := hsuffix
  have hv : v <:+ s ++ (t ++ u) := ⟨pre ++ t, by rw [List.append_assoc, hpre]⟩
  refine List.suffix_of_suffix_length_le hv (List.suffix_append s _) ?_
  -- a longer rest would leave room for the occurrence before it
  by_contra hlong
  refine hnot ?_
  have hwhole : pre ++ t <+: s ++ (t ++ u) := ⟨v, by rw [List.append_assoc, hpre]⟩
  have hpt : pre ++ t <+: s := by
    refine List.prefix_of_prefix_length_le hwhole (List.prefix_append s _) ?_
    have := congrArg List.length hpre
    simp only [List.length_append] at this hlong ⊢
    omega
  exact (List.suffix_append pre t).isInfix.trans hpt.isInfix

/-! ## The memory behind the query string -/

/-- The credential a header gives; headers are looked at first. -/
def headerCredential (r : Request) : Option Bytes :=
  ((nonemptyHeader r (ascii "authorization")).bind authorizationCredential).or
    ((nonemptyHeader r (ascii "x-api-key")).or (nonemptyHeader r (ascii "apikey")))

/-- A request with the given headers and query string; somewhere in or behind the
query string there is a `NUL`. -/
structure Carries (r : Request) (headers : List (Bytes × Bytes)) (args : Bytes) : Prop where
  headers_eq : r.headers = headers
  args_eq : r.args = args
  terminated : 0 ∈ r.args ++ r.afterArgs

/-- Requests with these headers and this query string give the same credential,
and it is part of the query string unless a header gives it. -/
def QueryOnly (headers : List (Bytes × Bytes)) (args : Bytes) : Prop :=
  ∀ r r', Carries r headers args → Carries r' headers args →
    extractCredential r = extractCredential r' ∧
      (headerCredential r = none → ∀ c, extractCredential r = some c → c <:+: args)

theorem extractCredential_eq (r : Request) :
    extractCredential r = (headerCredential r).or (queryCredential r) := by
  simp only [extractCredential, headerCredential, Option.or_assoc]

theorem headerCredential_congr {r r' : Request} (h : r.headers = r'.headers) :
    headerCredential r = headerCredential r' := by
  simp only [headerCredential, nonemptyHeader, getHeaderValue, h]

/-- The part of a parameter's text that is its value. -/
def parameterValue (p : Bytes) : Bytes :=
  (p.drop (if p.headD 0 = 97 then 7 else 6)).takeWhile (· ≠ 38)

/-- The credential in a C string. -/
def memoryCredential (memory : Bytes) : Option Bytes :=
  ((strstr (ascii "apikey=") memory).or (strstr (ascii "token=") memory)).map parameterValue

theorem queryCredential_eq (r : Request) :
    queryCredential r = if r.args.length > 0 then
      memoryCredential ((r.args ++ r.afterArgs).takeWhile (· ≠ 0)) else none := by
  unfold queryCredential memoryCredential
  split_ifs
  · simp only
    cases (strstr (ascii "apikey=") _).or (strstr (ascii "token=") _) <;> rfl
  · rfl

theorem memoryCredential_substring {memory c : Bytes} (h : memoryCredential memory = some c) :
    c <:+: memory := by
  obtain ⟨p, hp, rfl⟩ := Option.map_eq_some_iff.mp h
  have hsuffix : p <:+ memory := by
    rcases Option.or_eq_some_iff.mp hp with hp | ⟨-, hp⟩
    · exact (strstr_spec hp).2
    · exact (strstr_spec hp).2
  exact (List.takeWhile_prefix _).isInfix.trans
    ((List.drop_suffix _ _).isInfix.trans hsuffix.isInfix)

theorem ascii_apikey : ascii "apikey=" = [97, 112, 105, 107, 101, 121, 61] := by decide

theorem parameterValue_apikey (v : Bytes) :
    parameterValue (ascii "apikey=" ++ v) = v.takeWhile (· ≠ 38) := by
  simp [parameterValue, ascii_apikey]

/-! ## Independence -/

/-- The value of an `apikey=` that is followed by a `&` lies in the query
string, whatever comes behind it. -/
theorem memoryCredential_of_ampersand {args pre post : Bytes}
    (hargs : args = pre ++ (ascii "apikey=" ++ post)) (hamp : 38 ∈ post) (u : Bytes) :
    memoryCredential (args ++ u) = memoryCredential args := by
  obtain ⟨p, hp, hlen⟩ := exists_strstr pre (List.prefix_append (ascii "apikey=") post)
  rw [← hargs] at hp
  obtain ⟨⟨v, rfl⟩, hsuffix⟩ := strstr_spec hp
  -- the first occurrence has the `&` behind it as well
  have hmem : 38 ∈ v := by
    rw [List.length_append, List.length_append] at hlen
    have hv : v <:+ args := (List.suffix_append _ v).trans hsuffix
    have hpost : post <:+ args :=
      hargs ▸ (List.suffix_append _ post).trans (List.suffix_append pre _)
    exact (List.suffix_of_suffix_length_le hpost hv (by omega)).subset hamp
  unfold memoryCredential
  rw [strstr_append hp, hp, Option.some_or, Option.some_or, Option.map_some, Option.map_some,
    List.append_assoc, parameterValue_apikey, parameterValue_apikey,
    takeWhile_append_of_mem hmem]

/-- The condition under which the memory behind the query string plays no
part. -/
def Enclosed (args : Bytes) : Prop :=
  args = [] ∨ 0 ∈ args ∨ ∃ pre post, args = pre ++ (ascii "apikey=" ++ post) ∧ 38 ∈ post

theorem queryCredential_of_enclosed {r : Request} (h : Enclosed r.args) :
    queryCredential r =
      if r.args.length > 0 then memoryCredential (r.args.takeWhile (· ≠ 0)) else none := by
  rw [queryCredential_eq]
  by_cases hnul : 0 ∈ r.args
  · rw [takeWhile_append_of_mem hnul]
  · rw [takeWhile_append_of_not_mem hnul, takeWhile_of_not_mem hnul]
    rcases h with hnil | hnul' | ⟨pre, post, hargs, hamp⟩
    · simp [hnil]
    · exact absurd hnul' hnul
    · rw [memoryCredential_of_ampersand hargs hamp]

theorem queryOnly_of_enclosed {headers : List (Bytes × Bytes)} {args : Bytes}
    (h : Enclosed args) : QueryOnly headers args := by
  intro r r' hr hr'
  have hquery : ∀ {r : Request}, Carries r headers args → queryCredential r =
      if args.length > 0 then memoryCredential (args.takeWhile (· ≠ 0)) else none := by
    intro r hr
    rw [queryCredential_of_enclosed (hr.args_eq ▸ h), hr.args_eq]
  constructor
  · rw [extractCredential_eq, extractCredential_eq, hquery hr, hquery hr',
      headerCredential_congr (hr.headers_eq.trans hr'.headers_eq.symm)]
  · intro hnone c hc
    rw [extractCredential_eq, hnone, Option.none_or, hquery hr] at hc
    split_ifs at hc
    exact (memoryCredential_substring hc).trans (List.takeWhile_prefix _).isInfix

/-! ## Dependence -/

/-- Without the condition, something can stand behind the query string that makes
for a credential longer than the query string. -/
theorem exists_long_credential {args : Bytes} (h : ¬ Enclosed args) :
    ∃ u, 0 ∉ u ∧ ∃ c, memoryCredential (args ++ u) = some c ∧ args.length < c.length := by
  simp only [Enclosed, not_or, not_exists, not_and] at h
  obtain ⟨-, -, hopen⟩ := h
  have hfill : ∀ b ∈ List.replicate (args.length + 1) (120 : UInt8), b = 120 :=
    fun b hb => List.eq_of_mem_replicate hb
  cases hfound : strstr (ascii "apikey=") args with
  | some p =>
      -- the value of the last parameter is still open at the end
      obtain ⟨⟨v, rfl⟩, pre, hpre⟩ := strstr_spec hfound
      have hamp : 38 ∉ v ++ List.replicate (args.length + 1) 120 := by
        simp [hopen pre v hpre.symm]
      refine ⟨List.replicate (args.length + 1) 120, by simp,
        v ++ List.replicate (args.length + 1) 120, ?_, ?_⟩
      · unfold memoryCredential
        rw [strstr_append hfound, Option.some_or, Option.map_some, List.append_assoc,
          parameterValue_apikey, takeWhile_of_not_mem hamp]
      · rw [List.length_append, List.length_replicate]
        omega
  | none =>
      have hnot : ¬ ascii "apikey=" <:+: args := by
        rintro ⟨pre, post, rfl⟩
        obtain ⟨p, hp, -⟩ := exists_strstr pre (List.prefix_append (ascii "apikey=") post)
        rw [List.append_assoc, hp] at hfound
        exact absurd hfound (by simp)
      obtain ⟨v, hv, hsuffix, hlen⟩ :=
        strstr_of_not_infix hnot (List.replicate (args.length + 1) 120)
      have hamp : 38 ∉ v := fun hmem => by
        have := hsuffix.subset hmem
        rw [ascii_apikey] at this
        simp at this
      refine ⟨ascii "apikey=" ++ List.replicate (args.length + 1) 120, ?_, v, ?_, ?_⟩
      · rw [ascii_apikey]
        simp
      · unfold memoryCredential
        rw [hv, Option.some_or, Option.map_some, parameterValue_apikey, takeWhile_of_not_mem hamp]
      · rw [List.length_replicate] at hlen
        omega

/-- **Query credentials come from the query string only for some requests.**  The
result is the same whatever follows the query string in memory, and part of the
query string when no header gives it, if and only if a header gives it, or the
query string is empty, holds a `NUL`, or holds an `apikey=` with a `&` behind
it. -/
theorem queryOnly_iff (r : Request) :
    QueryOnly r.headers r.args ↔ headerCredential r ≠ none ∨ Enclosed r.args := by
  constructor
  · intro h
    by_contra hcond
    rw [not_or, not_not] at hcond
    obtain ⟨hnone, hopen⟩ := hcond
    obtain ⟨u, hnul, c, hc, hlen⟩ := exists_long_credential hopen
    simp only [Enclosed, not_or] at hopen
    have hcarries : Carries { r with afterArgs := u ++ [0] } r.headers r.args :=
      ⟨rfl, rfl, by simp⟩
    have hclean : 0 ∉ r.args ++ u := by
      rw [List.mem_append]
      exact fun hmem => hmem.elim hopen.2.1 hnul
    have hmemory : (r.args ++ (u ++ [0])).takeWhile (· ≠ 0) = r.args ++ u := by
      rw [← List.append_assoc, takeWhile_append_of_not_mem hclean]
      simp
    have hheader : headerCredential { r with afterArgs := u ++ [0] } = none :=
      (headerCredential_congr rfl).trans hnone
    have hextract : extractCredential { r with afterArgs := u ++ [0] } = some c := by
      rw [extractCredential_eq, queryCredential_eq, hheader, Option.none_or,
        if_pos (List.length_pos_iff.mpr hopen.1), hmemory, hc]
    have hinfix := (h _ _ hcarries hcarries).2 hheader c hextract
    exact absurd hinfix.length_le (not_le.mpr hlen)
  · rintro (hheader | hclosed)
    · intro r₁ r₂ h₁ h₂
      have hsame₁ := headerCredential_congr h₁.headers_eq
      have hsame₂ := headerCredential_congr h₂.headers_eq
      obtain ⟨c, hc⟩ := Option.ne_none_iff_exists'.mp hheader
      refine ⟨?_, fun hnone => absurd (hsame₁ ▸ hnone) hheader⟩
      rw [extractCredential_eq, extractCredential_eq, hsame₁, hsame₂, hc, Option.some_or,
        Option.some_or]
    · exact queryOnly_of_enclosed hclosed

/-- The last parameter is `apikey=abc`, and a `NUL` is put behind the name of the first
header: the value goes on as far as there. -/
theorem queryOnly_fails :
    let headers : List (Bytes × Bytes) := [(ascii "Host", ascii "a")]
    let request : Request :=
      { uri := ascii "/", methodName := ascii "GET", host := some (ascii "a"), headers := headers
        args := ascii "apikey=abc", afterArgs := ascii " HTTP/1.1\r\nHost" ++ [0]
        clientAddr := [] }
    extractCredential request = some (ascii "abc HTTP/1.1\r\nHost") ∧
      ¬ QueryOnly headers (ascii "apikey=abc") := by
  intro headers request
  have hextract : extractCredential request = some (ascii "abc HTTP/1.1\r\nHost") := by decide
  refine ⟨hextract, fun h => ?_⟩
  have hcarries : Carries request headers (ascii "apikey=abc") := ⟨rfl, rfl, by decide⟩
  have hinfix := (h _ _ hcarries hcarries).2 (by decide) _ hextract
  exact absurd hinfix.length_le (by decide)

end Dmmr.Gateway
