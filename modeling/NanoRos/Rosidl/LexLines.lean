import Mathlib.Data.Bool.AllAny
import NanoRos.Lib.Loops
import NanoRos.Rosidl.Lexer

/-! Lexing goes line by line: no token reaches from a line that lexes on its own into the next. -/

namespace NanoRos.Rosidl

/-- A pattern that sees nothing from such a character on. -/
def StopsAt {α : Type} (stop : Char) (pattern : Text → α) : Prop :=
  ∀ word rest : Text, pattern (word ++ stop :: rest) = pattern word

/-- A pattern that sees nothing past the end of a line. -/
def StaysInLine {α : Type} (pattern : Text → α) : Prop :=
  ∀ line rest : Text, pattern (line ++ '\n' :: rest) = pattern line

/-- The characters outside string literals that are in no token: blanks, and what begins a
comment. -/
def stopChars : List Char := [' ', '\t', '\r', '\n', Char.ofNat 12, '#']

variable {c quote : Char} {text : Text} {n : Nat} {rest : Text} {found : TokenKind × Nat}
  {line : Text}

theorem mem_stopChars : c ∈ stopChars ↔ isSpace c = true ∨ c = '#' := by
  simp [stopChars, isSpace, or_assoc]

section

variable {stop : Char} {p : Char → Bool}

theorem takeWhile_stop (stops : p stop = false) (word rest : Text) :
    (word ++ stop :: rest).takeWhile p = word.takeWhile p := by
  induction word with
  | nil => rw [List.nil_append, List.takeWhile_cons_of_neg (by simp [stops]), List.takeWhile_nil]
  | cons c word ih => rw [List.cons_append, List.takeWhile_cons, List.takeWhile_cons, ih]

theorem dropWhile_stop (stops : p stop = false) (word rest : Text) :
    (word ++ stop :: rest).dropWhile p = word.dropWhile p ++ stop :: rest := by
  induction word with
  | nil => rw [List.nil_append, List.dropWhile_cons_of_neg (by simp [stops]), List.dropWhile_nil,
      List.nil_append]
  | cons c word ih =>
    rw [List.cons_append, List.dropWhile_cons, List.dropWhile_cons, ih]
    split <;> rfl

theorem matchRun_stop (stops : p stop = false) : StopsAt stop (matchRun p) := by
  intro word rest
  rw [matchRun, matchRun, takeWhile_stop stops]

variable (ends : stop ∈ stopChars)

include ends

theorem matchIdentifier_stop : StopsAt stop matchIdentifier := by
  have noLetter : ∀ c ∈ stopChars, c.isAlpha = false ∧ isWord c = false :=
    List.all_iff_forall_prop.mp rfl
  intro word rest
  cases word with
  | nil => exact if_neg (by simp [(noLetter stop ends).1])
  | cons c word =>
    rw [List.cons_append, matchIdentifier, matchIdentifier, takeWhile_stop (noLetter stop ends).2]

theorem matchPrefixed_stop {lower upper : Char} (stops : p stop = false)
    (apart : stop ≠ lower ∧ stop ≠ upper) : StopsAt stop (matchPrefixed lower upper p) := by
  have notZero : ∀ c ∈ stopChars, c ≠ '0' := List.all_iff_forall_prop.mp rfl
  intro word rest
  match word with
  | [] =>
    cases rest with
    | nil => rfl
    | cons x rest => exact if_neg fun found => notZero stop ends found.1
  | [c] =>
    rw [List.cons_append, List.nil_append, matchPrefixed, matchPrefixed]
    · exact if_neg fun found => not_or.mpr apart found.2
    · exact fun _ _ _ same => nomatch same
  | c :: x :: word =>
    rw [List.cons_append, List.cons_append, matchPrefixed, matchPrefixed, matchRun_stop stops]

theorem dropSign_stop (word rest : Text) :
    dropSign (word ++ stop :: rest) = dropSign word ++ stop :: rest := by
  have noSign : ∀ c ∈ stopChars, ¬(c = '+' ∨ c = '-') := List.all_iff_forall_prop.mp rfl
  cases word with
  | nil => exact if_neg (noSign stop ends)
  | cons c word =>
    rw [List.cons_append, dropSign, dropSign]
    split <;> rfl

theorem matchExponent_stop : StopsAt stop matchExponent := by
  have noExponent : ∀ c ∈ stopChars, ¬(c = 'e' ∨ c = 'E') ∧ c.isDigit = false :=
    List.all_iff_forall_prop.mp rfl
  intro word rest
  cases word with
  | nil => exact if_neg (noExponent stop ends).1
  | cons c word =>
    rw [List.cons_append, matchExponent, matchExponent, dropSign_stop ends,
      matchRun_stop (noExponent stop ends).2, List.length_append, List.length_append,
      Nat.add_sub_add_right]

theorem matchFraction_stop : StopsAt stop matchFraction := by
  have noPoint : ∀ c ∈ stopChars, c ≠ '.' ∧ c.isDigit = false := List.all_iff_forall_prop.mp rfl
  obtain ⟨notPoint, notDigit⟩ := noPoint stop ends
  intro word rest
  rw [matchFraction, matchFraction, matchRun_stop notDigit, dropWhile_stop notDigit]
  congr 1
  funext whole
  cases word.dropWhile Char.isDigit with
  | nil => exact if_neg notPoint
  | cons point after =>
    rw [List.cons_append]
    simp only [matchRun_stop notDigit after, dropWhile_stop notDigit after,
      matchExponent_stop ends _ rest]

theorem matchScientific_stop : StopsAt stop matchScientific := by
  have noDigit : ∀ c ∈ stopChars, c.isDigit = false := List.all_iff_forall_prop.mp rfl
  intro word rest
  rw [matchScientific, matchScientific, matchRun_stop (noDigit stop ends),
    dropWhile_stop (noDigit stop ends), matchExponent_stop ends]

theorem linePatterns_stop : ∀ pattern ∈ linePatterns, StopsAt stop pattern.2 := by
  have noDigit : ∀ c ∈ stopChars, (isHex c = false ∧ (c = '0' || c = '1') = false ∧
      ('0' ≤ c && c ≤ '7') = false ∧ c.isDigit = false) ∧ (c ≠ 'x' ∧ c ≠ 'X') ∧
      (c ≠ 'b' ∧ c ≠ 'B') ∧ c ≠ 'o' ∧ c ≠ 'O' := List.all_iff_forall_prop.mp rfl
  obtain ⟨⟨hex, binary, octal, decimal⟩, noX, noB, noO⟩ := noDigit stop ends
  simp only [linePatterns, List.forall_mem_cons]
  exact ⟨matchIdentifier_stop ends, matchPrefixed_stop ends hex noX,
    matchPrefixed_stop ends binary noB, matchPrefixed_stop ends octal noO, matchRun_stop decimal,
    matchFraction_stop ends, matchScientific_stop ends, fun _ member => nomatch member⟩

end

theorem linePatterns_line : ∀ pattern ∈ linePatterns, StaysInLine pattern.2 :=
  linePatterns_stop (by decide)

/-! ### Quotes -/

theorem quotedBody_append {escaped : Bool} (closed : quotedBody quote escaped text = some n)
    (rest : Text) :
    quotedBody quote escaped (text ++ rest) = some n := by
  fun_induction quotedBody quote escaped text generalizing n with
  | case1 => cases closed
  | case2 text => cases closed
  | case3 c text within ih =>
    obtain ⟨m, found, rfl⟩ := Option.map_eq_some_iff.mp closed
    rw [List.cons_append, quotedBody, if_neg within, ih found]
    rfl
  | case4 text =>
    rw [List.cons_append, quotedBody, if_pos rfl, closed]
  | case5 c text within ih =>
    obtain ⟨m, found, rfl⟩ := Option.map_eq_some_iff.mp closed
    rw [List.cons_append, quotedBody, if_neg within, ih found]
    rfl

theorem quotedBody_le {escaped : Bool} (closed : quotedBody quote escaped text = some n) :
    n ≤ text.length := by
  fun_induction quotedBody quote escaped text generalizing n with
  | case1 => cases closed
  | case2 text => cases closed
  | case3 c text within ih =>
    obtain ⟨m, found, rfl⟩ := Option.map_eq_some_iff.mp closed
    have bound := ih found
    rw [List.length_cons]
    omega
  | case4 text =>
    cases closed
    exact Nat.succ_le_succ (Nat.zero_le _)
  | case5 c text within ih =>
    obtain ⟨m, found, rfl⟩ := Option.map_eq_some_iff.mp closed
    have bound := ih found
    rw [List.length_cons]
    omega

/-! ### The match at one position -/

theorem isPrefixOf_stop {stop : Char} {word : Text} (clear : stop ∉ word) (text rest : Text) :
    word.isPrefixOf (text ++ stop :: rest) = word.isPrefixOf text := by
  induction word generalizing text with
  | nil => rfl
  | cons c word ih =>
    rw [List.mem_cons, not_or] at clear
    cases text with
    | nil =>
      rw [List.nil_append, List.isPrefixOf_cons_cons]
      simp [Ne.symm clear.1]
    | cons d text =>
      rw [List.cons_append, List.isPrefixOf_cons_cons, List.isPrefixOf_cons_cons, ih clear.2]

theorem literals_clear : ∀ word ∈ literals, (∀ c ∈ stopChars, c ∉ word.1) ∧ 0 < word.1.length := by
  simp [literals, stopChars]

theorem literal_head {word : Text × TokenKind} (listed : word ∈ literals)
    (begins : word.1 <+: c :: rest) : word.1.head? = some c := by
  obtain ⟨tail, whole⟩ := begins
  cases spelled : word.1 with
  | nil => exact absurd (literals_clear word listed).2 (by simp [spelled])
  | cons d letters =>
    rw [spelled] at whole
    exact congrArg some (List.cons.inj whole).1

theorem mem_candidates : found ∈ candidates text ↔
    (∃ word ∈ literals, word.1 <+: text ∧ found = (word.2, word.1.length)) ∨
      ∃ pattern ∈ linePatterns ++ quotePatterns, pattern.1 = found.1 ∧
        pattern.2 text = some found.2 := by
  rw [candidates, List.mem_append, List.mem_map, List.mem_filterMap]
  apply or_congr
  · constructor
    · rintro ⟨word, kept, rfl⟩
      obtain ⟨listed, begins⟩ := List.mem_filter.mp kept
      exact ⟨word, listed, List.isPrefixOf_iff_prefix.mp begins, rfl⟩
    · rintro ⟨word, listed, begins, rfl⟩
      exact ⟨word, List.mem_filter.mpr ⟨listed, List.isPrefixOf_iff_prefix.mpr begins⟩, rfl⟩
  · constructor
    · rintro ⟨pattern, listed, shown⟩
      obtain ⟨n, matched, rfl⟩ := Option.map_eq_some_iff.mp shown
      exact ⟨pattern, listed, rfl, matched⟩
    · rintro ⟨pattern, listed, kind, matched⟩
      refine ⟨pattern, listed, Option.map_eq_some_iff.mpr ⟨found.2, matched, ?_⟩⟩
      rw [kind]

/-- How many characters a pattern can take. -/
def Fits (pattern : Text → Option Nat) : Prop :=
  ∀ text n, pattern text = some n → 0 < n ∧ n ≤ text.length

theorem matchRun_fits (p : Char → Bool) : Fits (matchRun p) := by
  intro text n found
  rw [matchRun] at found
  split at found
  · cases found
  · cases found
    exact ⟨by omega, (List.takeWhile_sublist p).length_le⟩

theorem matchIdentifier_fits : Fits matchIdentifier := by
  intro text n found
  cases text with
  | nil => cases found
  | cons c rest =>
    rw [matchIdentifier] at found
    split at found
    · cases found
      have bound := (List.takeWhile_sublist (l := rest) isWord).length_le
      rw [List.length_cons]
      omega
    · cases found

theorem matchPrefixed_fits (lower upper : Char) (p : Char → Bool) :
    Fits (matchPrefixed lower upper p) := by
  intro text n found
  match text with
  | [] | [_] => cases found
  | zero :: x :: rest =>
    rw [matchPrefixed] at found
    split at found
    · obtain ⟨m, run, rfl⟩ := Option.map_eq_some_iff.mp found
      have bound := matchRun_fits p rest m run
      rw [List.length_cons, List.length_cons]
      omega
    · cases found

theorem dropSign_le (text : Text) : (dropSign text).length ≤ text.length := by
  cases text with
  | nil => exact le_rfl
  | cons c rest =>
    rw [dropSign]
    split
    · exact Nat.le_succ _
    · exact le_rfl

theorem matchExponent_fits : Fits matchExponent := by
  intro text n found
  cases text with
  | nil => cases found
  | cons c rest =>
    rw [matchExponent] at found
    split at found
    · obtain ⟨m, run, rfl⟩ := Option.map_eq_some_iff.mp found
      have bound := matchRun_fits _ _ m run
      have sign := dropSign_le rest
      rw [List.length_cons]
      omega
    · cases found

theorem matchRun_left {p : Char → Bool} (found : matchRun p text = some n) :
    n + (text.dropWhile p).length = text.length := by
  rw [matchRun] at found
  split at found
  · cases found
  · cases found
    rw [← List.length_append, List.takeWhile_append_dropWhile]

theorem matchFraction_fits : Fits matchFraction := by
  intro text n found
  obtain ⟨whole, run, found⟩ := Option.bind_eq_some_iff.mp found
  have left := matchRun_left run
  have positive := (matchRun_fits _ _ _ run).1
  split at found
  case h_1 point rest after =>
    split at found
    case isTrue =>
      obtain ⟨part, runToo, found⟩ := Option.bind_eq_some_iff.mp found
      cases found
      have leftToo := matchRun_left runToo
      have exponent : (matchExponent (rest.dropWhile Char.isDigit)).getD 0 ≤
          (rest.dropWhile Char.isDigit).length := by
        cases matched : matchExponent (rest.dropWhile Char.isDigit) with
        | none => exact Nat.zero_le _
        | some m => exact (matchExponent_fits _ m matched).2
      rw [after, List.length_cons] at left
      omega
    case isFalse => cases found
  case h_2 => cases found

theorem matchScientific_fits : Fits matchScientific := by
  intro text n found
  obtain ⟨whole, run, found⟩ := Option.bind_eq_some_iff.mp found
  obtain ⟨exponent, matched, found⟩ := Option.bind_eq_some_iff.mp found
  cases found
  have left := matchRun_left run
  have positive := (matchRun_fits _ _ _ run).1
  have bound := (matchExponent_fits _ exponent matched).2
  omega

theorem matchQuoted_fits (quote : Char) : Fits (matchQuoted quote) := by
  intro text n found
  cases text with
  | nil => cases found
  | cons c rest =>
    rw [matchQuoted] at found
    split at found
    · obtain ⟨m, body, rfl⟩ := Option.map_eq_some_iff.mp found
      have bound := quotedBody_le body
      rw [List.length_cons]
      omega
    · cases found

theorem patterns_fit : ∀ pattern ∈ linePatterns ++ quotePatterns, Fits pattern.2 := by
  simp only [linePatterns, quotePatterns, List.cons_append, List.nil_append, List.forall_mem_cons]
  exact ⟨matchIdentifier_fits, matchPrefixed_fits _ _ _, matchPrefixed_fits _ _ _,
    matchPrefixed_fits _ _ _, matchRun_fits _, matchFraction_fits, matchScientific_fits,
    matchQuoted_fits _, matchQuoted_fits _, fun _ member => nomatch member⟩

theorem candidates_fit :
    ∀ found ∈ candidates text, 0 < found.2 ∧ found.2 ≤ text.length := by
  intro found member
  obtain literal | regex := List.mem_append.mp member
  · obtain ⟨word, kept, rfl⟩ := List.mem_map.mp literal
    obtain ⟨listed, begins⟩ := List.mem_filter.mp kept
    exact ⟨(literals_clear word listed).2, (List.isPrefixOf_iff_prefix.mp begins).length_le⟩
  · obtain ⟨pattern, listed, shown⟩ := List.mem_filterMap.mp regex
    obtain ⟨n, matched, rfl⟩ := Option.map_eq_some_iff.mp shown
    exact patterns_fit pattern listed text n matched

theorem foldl_longer_mem (found : List (TokenKind × Nat)) (best : Option (TokenKind × Nat))
    {last : TokenKind × Nat} (result : found.foldl longer best = some last) :
    last ∈ found ∨ best = some last := by
  induction found generalizing best with
  | nil => exact .inr result
  | cons next found ih =>
    obtain later | now := ih (longer best next) result
    · exact .inl (List.mem_cons_of_mem _ later)
    · rw [longer.eq_def] at now
      split at now
      · split at now
        · cases now
          exact .inl List.mem_cons_self
        · exact .inr now
      · cases now
        exact .inl List.mem_cons_self

theorem longestMatch_mem (longest : longestMatch text = some found) : found ∈ candidates text := by
  obtain member | start := foldl_longer_mem _ _ longest
  · exact member
  · cases start

theorem matchRun_start {p : Char → Bool} (found : matchRun p (c :: rest) = some n) :
    p c = true := by
  by_contra stops
  rw [matchRun, List.takeWhile_cons_of_neg stops] at found
  cases found

theorem linePatterns_start :
    ∀ pattern ∈ linePatterns, pattern.2 (c :: rest) = some n → c.isAlphanum = true := by
  have digit : ∀ {n : Nat}, matchRun Char.isDigit (c :: rest) = some n → c.isAlphanum = true := by
    intro n found
    rw [Char.isAlphanum, matchRun_start found, Bool.or_true]
  have zero : ∀ (lower upper : Char) (p : Char → Bool),
      matchPrefixed lower upper p (c :: rest) = some n → c.isAlphanum = true := by
    intro lower upper p found
    cases rest with
    | nil => cases found
    | cons x rest =>
      rw [matchPrefixed] at found
      split at found
      case isTrue begins =>
        rw [begins.1]
        rfl
      case isFalse => cases found
  simp only [linePatterns, List.forall_mem_cons]
  refine ⟨?_, zero _ _ _, zero _ _ _, zero _ _ _, digit, ?_, ?_, fun _ member => nomatch member⟩
  · intro found
    rw [matchIdentifier] at found
    split at found
    case isTrue letter => rw [Char.isAlphanum, letter, Bool.true_or]
    case isFalse => cases found
  · intro found
    obtain ⟨whole, run, -⟩ := Option.bind_eq_some_iff.mp found
    exact digit run
  · intro found
    obtain ⟨whole, run, -⟩ := Option.bind_eq_some_iff.mp found
    exact digit run

theorem mem_candidates_quote (isQuote : quote = '"' ∨ quote = '\'')
    (member : found ∈ candidates (quote :: rest)) :
    found.1 = .stringLiteral ∧ (quotedBody quote false rest).map (1 + ·) = some found.2 := by
  have other : ∀ word ∈ literals, word.1.head? ≠ some '"' ∧ word.1.head? ≠ some '\'' := by decide
  obtain ⟨word, listed, begins, -⟩ | ⟨pattern, listed, kind, matched⟩ := mem_candidates.mp member
  · have head := literal_head listed begins
    obtain rfl | rfl := isQuote
    · exact absurd head (other word listed).1
    · exact absurd head (other word listed).2
  · rw [← kind]
    obtain plain | quoted := List.mem_append.mp listed
    · have letter := linePatterns_start pattern plain matched
      obtain rfl | rfl := isQuote
      · exact absurd letter (by decide)
      · exact absurd letter (by decide)
    · have closed : ∀ q, matchQuoted q (quote :: rest) = some found.2 →
          (quotedBody quote false rest).map (1 + ·) = some found.2 := by
        intro q matched
        rw [matchQuoted] at matched
        split at matched
        case isTrue same => rwa [← same] at matched
        case isFalse => cases matched
      obtain rfl | rfl := List.mem_pair.mp quoted
      · exact ⟨rfl, closed _ matched⟩
      · exact ⟨rfl, closed _ matched⟩

theorem candidates_quote (isQuote : quote = '"' ∨ quote = '\'')
    (open_ : quotedBody quote false rest = none) : candidates (quote :: rest) = [] := by
  apply List.eq_nil_iff_forall_not_mem.mpr
  intro found member
  have closed := (mem_candidates_quote isQuote member).2
  rw [open_] at closed
  cases closed

theorem candidates_congr {other : Text}
    (words : ∀ word ∈ literals, word.1.isPrefixOf other = word.1.isPrefixOf text)
    (patterns : ∀ pattern ∈ linePatterns, pattern.2 other = pattern.2 text)
    (quotes : ∀ quote, quote = '"' ∨ quote = '\'' →
      matchQuoted quote other = matchQuoted quote text) : candidates other = candidates text := by
  have regexes : (linePatterns ++ quotePatterns).filterMap (fun pattern =>
        (pattern.2 other).map (pattern.1, ·)) =
      (linePatterns ++ quotePatterns).filterMap fun pattern =>
        (pattern.2 text).map (pattern.1, ·) := by
    apply List.filterMap_congr
    intro pattern listed
    obtain plain | quoted := List.mem_append.mp listed
    · rw [patterns pattern plain]
    · obtain rfl | rfl := List.mem_pair.mp quoted
      · exact congrArg _ (quotes _ (.inl rfl))
      · exact congrArg _ (quotes _ (.inr rfl))
  rw [candidates, candidates, List.filter_congr words, regexes]

theorem candidates_line (matched : candidates line ≠ []) (rest : Text) :
    candidates (line ++ '\n' :: rest) = candidates line := by
  apply candidates_congr
  · intro word listed
    exact isPrefixOf_stop ((literals_clear word listed).1 _ (by decide)) line rest
  · intro pattern plain
    exact linePatterns_line pattern plain line rest
  · intro quote isQuote
    cases line with
    | nil => exact if_neg (by rintro rfl; revert isQuote; decide)
    | cons c line =>
      rw [List.cons_append, matchQuoted, matchQuoted]
      split
      case isTrue begins =>
        subst begins
        cases body : quotedBody c false line with
        | none => exact absurd (candidates_quote isQuote body) matched
        | some n => rw [quotedBody_append body]
      case isFalse => rfl

theorem longestMatch_line (longest : longestMatch line = some found) (rest : Text) :
    longestMatch (line ++ '\n' :: rest) = some found := by
  rw [longestMatch, candidates_line (List.ne_nil_of_mem (longestMatch_mem longest)) rest]
  exact longest

/-! ### Lines -/

theorem lexFrom_line {passed : Nat} {tokens : List Token} (rest : Text) (oneLine : '\n' ∉ line)
    (within : passed ≤ line.length) (lexed : lexFrom passed line = .ok tokens) :
    lexFrom passed (line ++ '\n' :: rest) = (lexFrom 0 rest).map (tokens ++ ·) := by
  fun_induction lexFrom passed line generalizing tokens with
  | case1 passed =>
    cases lexed
    obtain rfl := Nat.le_zero.mp within
    rw [List.nil_append, lexFrom, if_pos (by decide)]
    cases lexFrom 0 rest <;> rfl
  | case2 passed c line ih =>
    exact ih (fun inside => oneLine (List.mem_cons_of_mem _ inside))
      (Nat.le_of_succ_le_succ within) lexed
  | case3 c line space ih =>
    rw [List.cons_append, lexFrom, if_pos space]
    exact ih (fun inside => oneLine (List.mem_cons_of_mem _ inside)) (Nat.zero_le _) lexed
  | case4 line space ih =>
    have same : (line ++ '\n' :: rest).takeWhile (· ≠ '\n') = line.takeWhile (· ≠ '\n') :=
      takeWhile_stop rfl line rest
    rw [List.cons_append, lexFrom, if_neg space, if_pos rfl, same]
    exact ih (fun inside => oneLine (List.mem_cons_of_mem _ inside))
      (List.takeWhile_sublist _).length_le lexed
  | case5 c line space comment none => cases lexed
  | case6 c line space comment kind n longest ih =>
    have fits := candidates_fit _ (longestMatch_mem longest)
    obtain ⟨later, lexedLater, done⟩ := bind_eq_ok.mp lexed
    cases done
    have onward := ih (fun inside => oneLine (List.mem_cons_of_mem _ inside))
      (by rw [List.length_cons] at fits; omega) lexedLater
    have text : (c :: (line ++ '\n' :: rest)).take n = (c :: line).take n :=
      List.take_append_of_le_length fits.2
    rw [List.cons_append, lexFrom, if_neg space, if_neg comment, ← List.cons_append,
      longestMatch_line longest]
    simp only [List.cons_append, text]
    rw [onward]
    cases lexFrom 0 rest <;> rfl

theorem lex_line {tokens : List Token} (rest : Text) (oneLine : '\n' ∉ line)
    (lexed : lex line = .ok tokens) :
    lex (line ++ '\n' :: rest) = (lex rest).map (tokens ++ ·) :=
  lexFrom_line rest oneLine (Nat.zero_le _) lexed

end NanoRos.Rosidl
