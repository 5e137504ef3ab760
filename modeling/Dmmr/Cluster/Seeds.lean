import Dmmr.Cluster.PeerList
import Dmmr.Cluster.Startup
import Mathlib.Data.List.DropRight
import Mathlib.Data.List.ReduceOption

/-!
# The seeds of a node: `parse_seed`

The seeds are one string, a list of endpoints with commas between them.  `discover_once`
takes it apart with `strsep`, skips blanks in front of each token and passes the token to
`parse_seed`.  The host is what is in brackets, or what is in front of the last colon; the
port is left to `strtol`, which is more liberal than a number: white space and a plus sign
may precede the digits.

`parseSeed_iff` says which texts are taken for a seed, and for which one.  A list that
fits the buffer of `cluster_configure` is read token by token: what is not a seed is passed
over, and the seeds are taken in the order in which they are written
(`seedEndpoints_configured`).
-/

namespace Dmmr.Cluster

open Words Store Wire

/-! ## `strtol` -/

/-- What `strtol` returns, the text from which it has read nothing and whether the number
was out of range. -/
structure Strtol where
  value : Int
  rest : Bytes
  erange : Bool

/-- `strtol`.  Without a digit nothing is read. -/
def strtol (base : ℕ) (text : Bytes) : Strtol :=
  let (negative, digits) := readSign text
  if digits.takeWhile (digitValue · < base) = [] then ⟨0, text, false⟩
  else
    let value : Int := readDigits base 0 digits
    let long := if negative then -value else value
    ⟨max (-2 ^ 63) (min (2 ^ 63 - 1) long), digits.dropWhile (digitValue · < base),
      long < -2 ^ 63 || long > 2 ^ 63 - 1⟩

/-! ## Seeds -/

/-- The host and the text of the port.  A host in brackets ends at the first bracket,
which a colon follows; any other ends at the last colon. -/
def seedParts : Bytes → Option (Bytes × Bytes)
  | [] => none
  | 91 :: text =>
      match text.dropWhile (· ≠ 93) with
      | 93 :: 58 :: portText => some (text.takeWhile (· ≠ 93), portText)
      | _ => none
  | text =>
      if text.contains 58 then
        some ((text.rdropWhile (· ≠ 58)).dropLast, text.rtakeWhile (· ≠ 58))
      else none

/-- `parse_seed`. -/
def parseSeed (text : Bytes) : Option Endpoint :=
  match seedParts text with
  | none => none
  | some (host, portText) =>
      if host.length = 0 ∨ host.length > peerAddrMax ∨ portText = [] then none
      else
        let port := strtol 10 portText
        if port.erange = true ∨ port.rest ≠ [] ∨ port.value < 1 ∨ port.value > 65535 then none
        else some ⟨host, UInt16.ofNat port.value.toNat, 0⟩

/-- A space or a tab. -/
def isBlank (b : UInt8) : Bool := b == 32 || b == 9

/-- The seeds that `discover_once` passes to `discover_seed`. -/
def seedEndpoints (cfg : NodeConfig) (seeds : Bytes) : List Endpoint :=
  (seeds.splitOn 44).filterMap fun token =>
    (parseSeed (token.dropWhile isBlank)).filter fun seed =>
      !endpointIsSelf cfg seed.addr seed.port 0

/-! ## What a seed looks like -/

/-- The text of a port: white space, a plus sign or none, and decimal digits. -/
inductive IsPortText : Bytes → ℕ → Prop
  | intro {space sign digits : Bytes} (hspace : ∀ b ∈ space, isSpace b = true)
      (hsign : sign = [] ∨ sign = [43]) (hne : digits ≠ [])
      (hdigits : ∀ b ∈ digits, digitValue b < 10) (hpos : 1 ≤ readDigits 10 0 digits)
      (hle : readDigits 10 0 digits ≤ 65535) :
      IsPortText (space ++ (sign ++ digits)) (readDigits 10 0 digits)

/-- A seed: a host and a port with a colon between them, the host in brackets or not. -/
inductive IsSeed : Bytes → Endpoint → Prop
  | plain {host portText : Bytes} {port : ℕ} (hhost : host.head? ≠ some 91) (hpos : 1 ≤ host.length)
      (hle : host.length ≤ peerAddrMax) (hport : IsPortText portText port) :
      IsSeed (host ++ 58 :: portText) ⟨host, UInt16.ofNat port, 0⟩
  | bracketed {host portText : Bytes} {port : ℕ} (hhost : 93 ∉ host) (hpos : 1 ≤ host.length)
      (hle : host.length ≤ peerAddrMax) (hport : IsPortText portText port) :
      IsSeed (91 :: (host ++ 93 :: 58 :: portText)) ⟨host, UInt16.ofNat port, 0⟩

/-- A token of the list: a seed, and blanks in front of it. -/
inductive IsToken : Bytes → Endpoint → Prop
  | intro {blanks text : Bytes} {e : Endpoint} (hblanks : ∀ b ∈ blanks, isBlank b = true)
      (htext : ∀ b, text.head? = some b → isBlank b = false) (hseed : IsSeed text e) :
      IsToken (blanks ++ text) e

/-! ## The port -/

section Port

/-- What is read before the digits is white space and a sign. -/
theorem readSign_cases (text : Bytes) :
    ∃ space sign, text = space ++ (sign ++ (readSign text).2) ∧ (∀ b ∈ space, isSpace b = true) ∧
      ((sign = [] ∨ sign = [43]) ∧ (readSign text).1 = false ∨
        sign = [45] ∧ (readSign text).1 = true) := by
  have hspace : ∀ b ∈ text.takeWhile isSpace, isSpace b = true := fun b hb =>
    List.mem_takeWhile_imp hb
  have hsplit : text = text.takeWhile isSpace ++ text.dropWhile isSpace :=
    List.takeWhile_append_dropWhile.symm
  refine ⟨text.takeWhile isSpace, ?_⟩
  unfold readSign
  split
  next rest hrest =>
    exact ⟨[45], hsplit.trans (congrArg (_ ++ ·) hrest), hspace, Or.inr ⟨rfl, rfl⟩⟩
  next rest hrest =>
    exact ⟨[43], hsplit.trans (congrArg (_ ++ ·) hrest), hspace, Or.inl ⟨Or.inr rfl, rfl⟩⟩
  next rest hne hne' => exact ⟨[], hsplit, hspace, Or.inl ⟨Or.inl rfl, rfl⟩⟩

/-- A digit is neither white space nor a sign. -/
theorem not_isSpace_of_digit {b : UInt8} (hb : digitValue b < 10) :
    isSpace b = false ∧ b ≠ 45 ∧ b ≠ 43 := by
  have hb' : 48 ≤ b.toNat ∧ b.toNat ≤ 57 := by
    unfold digitValue at hb
    simp only [UInt8.le_iff_toNat_le, UInt8.reduceToNat] at hb
    split_ifs at hb <;> omega
  have hne : ∀ c : UInt8, c.toNat < 48 → b ≠ c := by
    rintro c hc rfl
    omega
  refine ⟨?_, hne 45 (by decide), hne 43 (by decide)⟩
  have hspace : ¬ b ≤ 13 := by
    rw [UInt8.le_iff_toNat_le]
    simp only [UInt8.reduceToNat]
    omega
  simp [isSpace, hspace, hne 32 (by decide)]

theorem readSign_of_digits {space sign digits : Bytes} (hspace : ∀ b ∈ space, isSpace b = true)
    (hsign : sign = [] ∨ sign = [43]) (hne : digits ≠ [])
    (hdigits : ∀ b ∈ digits, digitValue b < 10) :
    readSign (space ++ (sign ++ digits)) = (false, digits) := by
  obtain ⟨d, rest, rfl⟩ := List.exists_cons_of_ne_nil hne
  obtain ⟨hd, hminus, hplus⟩ := not_isSpace_of_digit (hdigits d List.mem_cons_self)
  unfold readSign
  rw [List.dropWhile_append_of_pos hspace]
  rcases hsign with rfl | rfl
  · rw [List.nil_append, List.dropWhile_cons_of_neg (by simp [hd])]
    split
    next text htext => exact absurd (List.cons.inj htext).1 hminus
    next text htext => exact absurd (List.cons.inj htext).1 hplus
    next => rfl
  · rw [List.singleton_append, List.dropWhile_cons_of_neg (by decide)]
    rfl

/-- The test that `parse_seed` makes on the port is passed by port texts only. -/
theorem strtol_port_iff (text : Bytes) (port : ℕ) :
    (text ≠ [] ∧ (strtol 10 text).erange = false ∧ (strtol 10 text).rest = [] ∧
        1 ≤ (strtol 10 text).value ∧ (strtol 10 text).value ≤ 65535 ∧
        (strtol 10 text).value = port) ↔ IsPortText text port := by
  constructor
  · rintro ⟨hne, -, hrest, hpos, hle, hport⟩
    obtain ⟨space, sign, htext, hspace, hsign⟩ := readSign_cases text
    revert hrest hpos hle hport
    simp only [strtol]
    set digits := (readSign text).2 with hdigits
    by_cases hnone : digits.takeWhile (digitValue · < 10) = []
    · rw [if_pos hnone]
      exact fun hrest => absurd hrest hne
    rw [if_neg hnone]
    simp only
    intro hrest hpos hle hport
    have hall : ∀ b ∈ digits, digitValue b < 10 := by
      simpa using List.dropWhile_eq_nil_iff.mp hrest
    rcases hsign with ⟨hsign, hneg⟩ | ⟨-, hneg⟩
    · rw [hneg] at hpos hle hport
      simp only [Bool.false_eq_true, if_false] at hpos hle hport
      have hvalue : readDigits 10 0 digits = port := by omega
      have hne' : digits ≠ [] := fun h => hnone (by rw [h]; rfl)
      rw [htext, ← hvalue]
      exact .intro hspace hsign hne' hall (by omega) (by omega)
    · -- a negative number is below every port
      rw [hneg] at hpos
      simp only [if_true] at hpos
      omega
  · rintro ⟨hspace, hsign, hne, hdigits, hpos, hle⟩
    rename_i space sign digits
    have htake : digits.takeWhile (digitValue · < 10) = digits :=
      List.takeWhile_eq_self_iff.mpr (by simpa using hdigits)
    have hdrop : digits.dropWhile (digitValue · < 10) = [] :=
      List.dropWhile_eq_nil_iff.mpr (by simpa using hdigits)
    have hstrtol : strtol 10 (space ++ (sign ++ digits)) =
        ⟨readDigits 10 0 digits, [], false⟩ := by
      simp only [strtol, readSign_of_digits hspace hsign hne hdigits, htake, if_neg hne, hdrop,
        Bool.false_eq_true, if_false]
      congr 1
      · omega
      · simp only [Bool.or_eq_false_iff, decide_eq_false_iff_not]
        omega
    rw [hstrtol]
    refine ⟨?_, rfl, rfl, ?_, ?_, rfl⟩
    · simp [hne]
    · simp only
      omega
    · simp only
      omega

end Port

/-! ## The host -/

section Host

/-- The text in front of the last colon and the text behind it. -/
theorem rsplit_colon (host : Bytes) {portText : Bytes} (hport : 58 ∉ portText) :
    (host ++ 58 :: portText).rdropWhile (· ≠ 58) = host ++ [58] ∧
      (host ++ 58 :: portText).rtakeWhile (· ≠ 58) = portText := by
  have hall : ∀ b ∈ portText.reverse, decide (b ≠ 58) = true := by
    intro b hb
    simp only [ne_eq, decide_not, Bool.not_eq_true', decide_eq_false_iff_not]
    rintro rfl
    exact hport (List.mem_reverse.mp hb)
  have hreverse : (host ++ 58 :: portText).reverse = portText.reverse ++ 58 :: host.reverse := by
    simp
  constructor
  · rw [List.rdropWhile, hreverse, List.dropWhile_append_of_pos hall,
      List.dropWhile_cons_of_neg (by simp)]
    simp
  · rw [List.rtakeWhile, hreverse, List.takeWhile_append_of_pos hall,
      List.takeWhile_cons_of_neg (by simp)]
    simp

theorem exists_rsplit_colon {text : Bytes} (h : 58 ∈ text) :
    ∃ host portText, text = host ++ 58 :: portText ∧ 58 ∉ portText := by
  induction text with
  | nil => exact absurd h List.not_mem_nil
  | cons b text ih =>
      by_cases htext : 58 ∈ text
      · obtain ⟨host, portText, rfl, hport⟩ := ih htext
        exact ⟨b :: host, portText, rfl, hport⟩
      · obtain rfl : b = 58 := ((List.mem_cons.mp h).resolve_right htext).symm
        exact ⟨[], text, rfl, htext⟩

/-- The text in front of the first bracket and the text behind it. -/
theorem split_bracket {host : Bytes} (rest : Bytes) (hhost : 93 ∉ host) :
    (host ++ 93 :: rest).takeWhile (· ≠ 93) = host ∧
      (host ++ 93 :: rest).dropWhile (· ≠ 93) = 93 :: rest := by
  have hall : ∀ b ∈ host, decide (b ≠ 93) = true := by
    intro b hb
    simp only [ne_eq, decide_not, Bool.not_eq_true', decide_eq_false_iff_not]
    rintro rfl
    exact hhost hb
  constructor
  · rw [List.takeWhile_append_of_pos hall, List.takeWhile_cons_of_neg (by simp),
      List.append_nil]
  · rw [List.dropWhile_append_of_pos hall, List.dropWhile_cons_of_neg (by simp)]

theorem seedParts_plain {host portText : Bytes} (hhost : (host ++ 58 :: portText).head? ≠ some 91)
    (hport : 58 ∉ portText) : seedParts (host ++ 58 :: portText) = some (host, portText) := by
  obtain ⟨hdrop, htake⟩ := rsplit_colon host hport
  unfold seedParts
  split
  next htext => simp at htext
  next text htext => exact absurd (by rw [htext]; rfl) hhost
  next =>
    rw [if_pos (by simp), hdrop, htake, List.dropLast_concat]

theorem seedParts_bracketed {host portText : Bytes} (hhost : 93 ∉ host) :
    seedParts (91 :: (host ++ 93 :: 58 :: portText)) = some (host, portText) := by
  obtain ⟨htake, hdrop⟩ := split_bracket (58 :: portText) hhost
  simp only [seedParts, htake, hdrop]

theorem seedParts_cases {text host portText : Bytes} (h : seedParts text = some (host, portText)) :
    (text = host ++ 58 :: portText ∧ text.head? ≠ some 91) ∨
      (text = 91 :: (host ++ 93 :: 58 :: portText) ∧ 93 ∉ host) := by
  unfold seedParts at h
  split at h
  next => simp at h
  next text =>
    split at h
    next port hdrop =>
      obtain ⟨rfl, rfl⟩ := Prod.mk.inj (Option.some.inj h)
      refine Or.inr ⟨?_, fun hmem => ?_⟩
      · rw [← hdrop, List.takeWhile_append_dropWhile]
      · simpa using List.mem_takeWhile_imp hmem
    next => simp at h
  next hnil hbracket =>
    split_ifs at h with hcolon
    obtain ⟨host', portText', htext, hport⟩ := exists_rsplit_colon (List.contains_iff_mem.mp hcolon)
    obtain ⟨hdrop, htake⟩ := rsplit_colon host' hport
    rw [htext, hdrop, htake, List.dropLast_concat] at h
    obtain ⟨rfl, rfl⟩ := Prod.mk.inj (Option.some.inj h)
    refine Or.inl ⟨htext, fun hhead => ?_⟩
    obtain ⟨rest, hrest⟩ := List.head?_eq_some_iff.mp hhead
    exact hbracket rest hrest

end Host

theorem IsPortText.not_colon {text : Bytes} {port : ℕ} (h : IsPortText text port) :
    58 ∉ text := by
  obtain ⟨hspace, hsign, -, hdigits, -, -⟩ := h
  intro hmem
  rcases List.mem_append.mp hmem with hmem | hmem
  · exact absurd (hspace 58 hmem) (by decide)
  rcases List.mem_append.mp hmem with hmem | hmem
  · rcases hsign with rfl | rfl
    · exact absurd hmem List.not_mem_nil
    · exact absurd hmem (by decide)
  · exact absurd (hdigits 58 hmem) (by decide)

/-- What `parse_seed` makes of a host and a port. -/
theorem parseSeed_of_parts {text host portText : Bytes}
    (hparts : seedParts text = some (host, portText)) (e : Endpoint) :
    parseSeed text = some e ↔ 1 ≤ host.length ∧ host.length ≤ peerAddrMax ∧
      ∃ port, IsPortText portText port ∧ e = ⟨host, UInt16.ofNat port, 0⟩ := by
  unfold parseSeed
  rw [hparts]
  simp only
  constructor
  · intro h
    split_ifs at h with hhost hport
    have hport' : IsPortText portText (strtol 10 portText).value.toNat := by
      rw [← strtol_port_iff]
      simp only [not_or, not_lt, Bool.not_eq_true, not_not] at hport hhost
      exact ⟨hhost.2.2, hport.1, hport.2.1, hport.2.2.1, hport.2.2.2, by omega⟩
    refine ⟨by omega, by omega, _, hport', (Option.some.inj h).symm⟩
  · rintro ⟨hpos, hle, port, hport, rfl⟩
    obtain ⟨hne, herange, hrest, hvalue, hvalue', heq⟩ := (strtol_port_iff _ _).mpr hport
    rw [if_neg (by simp only [hne, or_false]; omega), if_neg, heq, Int.toNat_natCast]
    simp only [herange, hrest, Bool.false_eq_true, ne_eq, not_true_eq_false, false_or]
    omega

/-- **What is a seed.** -/
theorem parseSeed_iff (text : Bytes) (e : Endpoint) : parseSeed text = some e ↔ IsSeed text e := by
  constructor
  · intro h
    cases hparts : seedParts text with
    | none =>
        rw [parseSeed, hparts] at h
        simp at h
    | some parts =>
        obtain ⟨host, portText⟩ := parts
        obtain ⟨hpos, hle, port, hport, rfl⟩ := (parseSeed_of_parts hparts e).mp h
        rcases seedParts_cases hparts with ⟨rfl, hhead⟩ | ⟨rfl, hhost⟩
        · refine .plain (fun hhost => hhead ?_) hpos hle hport
          rw [List.head?_append, hhost]
          rfl
        · exact .bracketed hhost hpos hle hport
  · rintro (⟨hhost, hpos, hle, hport⟩ | ⟨hhost, hpos, hle, hport⟩)
    · rename_i host portText port
      have hhead : (host ++ 58 :: portText).head? ≠ some 91 := by
        obtain ⟨b, host, rfl⟩ := List.exists_cons_of_length_pos hpos
        exact hhost
      exact (parseSeed_of_parts (seedParts_plain hhead hport.not_colon) _).mpr
        ⟨hpos, hle, port, hport, rfl⟩
    · rename_i host portText port
      exact (parseSeed_of_parts (seedParts_bracketed hhost) _).mpr ⟨hpos, hle, port, hport, rfl⟩

/-! ## The list -/

theorem parseSeed_token_iff (token : Bytes) (e : Endpoint) :
    parseSeed (token.dropWhile isBlank) = some e ↔ IsToken token e := by
  rw [parseSeed_iff]
  constructor
  · intro h
    have hblanks : ∀ b ∈ token.takeWhile isBlank, isBlank b = true := fun b hb =>
      List.mem_takeWhile_imp hb
    have htext : ∀ b, (token.dropWhile isBlank).head? = some b → isBlank b = false := by
      intro b hb
      have hnot := List.head?_dropWhile_not isBlank token
      rwa [hb] at hnot
    have htoken := IsToken.intro hblanks htext h
    rwa [List.takeWhile_append_dropWhile] at htoken
  · rintro ⟨hblanks, htext, hseed⟩
    rename_i blanks text
    have hdrop : text.dropWhile isBlank = text := by
      cases text with
      | nil => rfl
      | cons b text => exact List.dropWhile_cons_of_neg (by simp [htext b rfl])
    rwa [List.dropWhile_append_of_pos hblanks, hdrop]

/-- **The seeds of a configuration.**  Of the tokens of the string those that are seeds are
greeted, in their order, except the node itself. -/
theorem seedEndpoints_configured (g : ClusterGlobals) {args : ClusterArgs} {seeds : CStr}
    (hseeds : args.seeds = some seeds) (hlen : seeds.1.length < seedsMax) {tokens : List Bytes}
    (hne : tokens ≠ []) (hcomma : ∀ token ∈ tokens, 44 ∉ token)
    (htext : seeds.1 = [44].intercalate tokens) {found : List (Option Endpoint)}
    (hfound : List.Forall₂ (fun token e? => ∀ e, e? = some e ↔ IsToken token e) tokens found)
    (cfg : NodeConfig) :
    seedEndpoints cfg (clusterConfigure g args).seeds =
      found.reduceOption.filter fun e => !endpointIsSelf cfg e.addr e.port 0 := by
  have hbuffer : (clusterConfigure g args).seeds = [44].intercalate tokens := by
    simp only [clusterConfigure, hseeds, strlcpy]
    rw [List.take_of_length_le (by omega), htext]
  have hparsed : ∀ token e?, (∀ e, e? = some e ↔ IsToken token e) →
      parseSeed (token.dropWhile isBlank) = e? := by
    intro token e? he
    apply Option.ext
    intro e
    rw [parseSeed_token_iff, he]
  unfold seedEndpoints
  rw [hbuffer, List.splitOn_intercalate 44 hcomma hne]
  clear hne hcomma htext hbuffer
  induction hfound with
  | nil => rfl
  | @cons token e? tokens found htoken _ ih =>
      rw [List.filterMap_cons, hparsed token e? htoken, ih]
      cases e? with
      | none => rfl
      | some e =>
          rw [List.reduceOption_cons_of_some, List.filter_cons, Option.filter_some]
          split_ifs <;> rfl

/-- Two seeds, one of them in brackets and behind a blank, and something else. -/
theorem seedEndpoints_configured_three :
    seedEndpoints (configuredNode .little 1 ⟨none, 9081, none, 10, none, none⟩)
        (clusterConfigure .initial ⟨none, 9081, some ⟨cText "a:7001, [::1]:+22,b", by decide⟩, 10,
          none, none⟩).seeds =
      [⟨cText "a", 7001, 0⟩, ⟨cText "::1", 22, 0⟩] := by
  have hfound : List.Forall₂ (fun token e? => ∀ e, e? = some e ↔ IsToken token e)
      [cText "a:7001", cText " [::1]:+22", cText "b"]
      [some ⟨cText "a", 7001, 0⟩, some ⟨cText "::1", 22, 0⟩, none] := by
    refine .cons ?_ (.cons ?_ (.cons ?_ .nil)) <;>
    · intro e
      rw [← parseSeed_token_iff]
      exact Iff.of_eq (congrArg (· = some e) (by decide))
  exact (seedEndpoints_configured .initial rfl (by decide) (by decide) (by decide) (by decide)
    hfound _).trans (by decide)

end Dmmr.Cluster
