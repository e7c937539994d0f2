import Mathlib
import NanoRos.Rosidl.LexTokens

/-! Integer literals in the four radixes: each is one token, and what the parser makes of it. -/

namespace NanoRos.Rosidl

/-! ### One token -/

/-- The four ways an integer is written. -/
inductive Radix where
  | decimal
  | hexadecimal
  | binary
  | octal
  deriving DecidableEq, Repr

namespace Radix

def kind : Radix → TokenKind
  | decimal => .decimalInteger
  | hexadecimal => .hexInteger
  | binary => .binaryInteger
  | octal => .octalInteger

def digits : Radix → Text
  | decimal => "0123456789".toList
  | hexadecimal => "0123456789abcdefABCDEF".toList
  | binary => "01".toList
  | octal => "01234567".toList

/-- What the digits stand behind, the letter of either case. -/
def start (upper : Bool) : Radix → Text
  | decimal => []
  | hexadecimal => ['0', if upper then 'X' else 'x']
  | binary => ['0', if upper then 'B' else 'b']
  | octal => ['0', if upper then 'O' else 'o']

end Radix

/-- The text behind a number does not go on with it. -/
def EndsNumber (after : Text) : Prop := ∀ c ∈ after.head?, isWord c = false ∧ c ≠ '.'

theorem takeWhile_exact {α : Type} {p : α → Bool} {run after : List α}
    (inside : ∀ a ∈ run, p a = true) (boundary : ∀ a ∈ after.head?, p a = false) :
    (run ++ after).takeWhile p = run := by
  rw [List.takeWhile_append_of_pos inside]
  cases after with
  | nil => simp
  | cons a after => simp [boundary a rfl]

theorem dropWhile_exact {α : Type} {p : α → Bool} {run after : List α}
    (inside : ∀ a ∈ run, p a = true) (boundary : ∀ a ∈ after.head?, p a = false) :
    (run ++ after).dropWhile p = after := by
  rw [List.dropWhile_append_of_pos inside]
  cases after with
  | nil => rfl
  | cons a after => simp [boundary a rfl]

theorem matchRun_exact {p : Char → Bool} {word after : Text} (nonempty : word ≠ [])
    (inside : ∀ c ∈ word, p c = true) (boundary : ∀ c ∈ after.head?, p c = false) :
    matchRun p (word ++ after) = some word.length := by
  rw [matchRun, takeWhile_exact inside boundary]
  exact if_neg (by simpa using nonempty)

theorem isWord_of_isDigit {c : Char} (digit : c.isDigit = true) : isWord c = true := by
  simp [isWord, Char.isAlphanum, digit]

theorem isWord_of_isHex {c : Char} (digit : isHex c = true) : isWord c = true := by
  simp only [isHex, isWord, Char.isAlphanum, Char.isAlpha, Char.isLower, Char.isUpper,
    Bool.or_eq_true, Bool.and_eq_true, decide_eq_true_eq, Char.le_def,
    UInt32.le_iff_toNat_le] at *
  simp at *
  grind

theorem isWord_of_binary {c : Char} (digit : (c = '0' || c = '1') = true) : isWord c = true := by
  rw [Bool.or_eq_true, decide_eq_true_eq, decide_eq_true_eq] at digit
  rcases digit with rfl | rfl
  · rfl
  · rfl

theorem isWord_of_octal {c : Char} (digit : ('0' ≤ c && c ≤ '7') = true) : isWord c = true := by
  simp only [isWord, Char.isAlphanum, Char.isAlpha, Char.isLower, Char.isUpper, Char.isDigit,
    Bool.or_eq_true, Bool.and_eq_true, decide_eq_true_eq, Char.le_def,
    UInt32.le_iff_toNat_le] at *
  simp at *
  grind

theorem not_of_not_isWord {p : Char → Bool} (word : ∀ c, p c = true → isWord c = true)
    {after : Text} (ends : EndsNumber after) : ∀ c ∈ after.head?, p c = false := by
  intro c head
  apply Bool.eq_false_of_not_eq_true
  intro within
  have outside := (ends c head).1
  rw [word c within] at outside
  cases outside

theorem matchPrefixed_none {lower upper zero : Char} {p : Char → Bool} {rest : Text}
    (other : ∀ c ∈ rest.head?, c ≠ lower ∧ c ≠ upper) :
    matchPrefixed lower upper p (zero :: rest) = none := by
  cases rest with
  | nil => rfl
  | cons c rest => exact if_neg fun found => not_or.mpr (other c rfl) found.2

theorem matchExponent_none {text : Text} (other : ∀ c ∈ text.head?, c ≠ 'e' ∧ c ≠ 'E') :
    matchExponent text = none := by
  cases text with
  | nil => rfl
  | cons c rest => exact if_neg (not_or.mpr (other c rfl))

theorem float_none {run after : Text} (digits : ∀ c ∈ run, c.isDigit = true)
    (boundary : ∀ c ∈ after.head?, c.isDigit = false ∧ c ≠ '.' ∧ c ≠ 'e' ∧ c ≠ 'E') :
    matchFraction (run ++ after) = none ∧ matchScientific (run ++ after) = none := by
  have left : (run ++ after).dropWhile Char.isDigit = after :=
    dropWhile_exact digits fun c head => (boundary c head).1
  constructor
  · rw [matchFraction, left]
    apply Option.bind_eq_none_iff.mpr
    intro whole _
    cases after with
    | nil => rfl
    | cons c rest => exact if_neg (boundary c rfl).2.1
  · rw [matchScientific, left, matchExponent_none fun c head => (boundary c head).2.2]
    apply Option.bind_eq_none_iff.mpr
    intro whole _
    rfl

theorem mem_candidates_digit {c : Char} {rest : Text} (digit : c.isDigit = true)
    {found : TokenKind × Nat} (member : found ∈ candidates (c :: rest)) :
    ∃ pattern ∈ linePatterns.tail, pattern.1 = found.1 ∧
      pattern.2 (c :: rest) = some found.2 := by
  have noDigit : ∀ word ∈ literals, ∀ d ∈ word.1.head?, d.isDigit = false := by simp [literals]
  rcases mem_candidates.mp member with ⟨word, listed, begins, rfl⟩ | ⟨pattern, listed, kind, matched⟩
  · have clash := noDigit word listed c (literal_head listed begins)
    rw [digit] at clash
    cases clash
  · rcases List.mem_append.mp listed with plain | quoted
    · rcases List.mem_cons.mp plain with rfl | number
      · have notAlpha : c.isAlpha = false := by
          simp only [Char.isDigit, Char.isAlpha, Char.isUpper, Char.isLower,
            UInt32.le_iff_toNat_le] at *
          simp at *
          omega
        dsimp only at matched
        rw [matchIdentifier, if_neg (by simp [notAlpha])] at matched
        cases matched
      · exact ⟨pattern, number, kind, matched⟩
    · have notQuote : c ≠ '"' ∧ c ≠ '\'' := by
        constructor
        · rintro rfl
          cases digit
        · rintro rfl
          cases digit
      rcases List.mem_pair.mp quoted with rfl | rfl
      · dsimp only at matched
        rw [matchQuoted, if_neg notQuote.1] at matched
        cases matched
      · dsimp only at matched
        rw [matchQuoted, if_neg notQuote.2] at matched
        cases matched

theorem longestMatch_decimal {digits after : Text} (nonempty : digits ≠ [])
    (valid : ∀ c ∈ digits, c.isDigit = true) (ends : EndsNumber after) :
    longestMatch (digits ++ after) = some (.decimalInteger, digits.length) := by
  have boundary := not_of_not_isWord (fun _ => isWord_of_isDigit) ends
  have run : matchRun Char.isDigit (digits ++ after) = some digits.length :=
    matchRun_exact nonempty valid boundary
  have floats := float_none valid fun c head => by
    obtain ⟨outside, notPoint⟩ := ends c head
    refine ⟨boundary c head, notPoint, ?_, ?_⟩
    · rintro rfl
      cases outside
    · rintro rfl
      cases outside
  apply longestMatch_best
  · rw [mem_candidates]
    exact Or.inr ⟨(.decimalInteger, matchRun Char.isDigit), by simp [linePatterns], rfl, run⟩
  · intro other member
    right
    cases digits with
    | nil => exact absurd rfl nonempty
    | cons d digits =>
      obtain ⟨first, valid⟩ := List.forall_mem_cons.mp valid
      have behind : ∀ letter : Char, letter.isDigit = false → isWord letter = true →
          ∀ c ∈ (digits ++ after).head?, c ≠ letter := by
        intro letter notDigit inWord c head
        rintro rfl
        cases digits with
        | nil =>
          rw [(ends c head).1] at inWord
          cases inWord
        | cons e digits =>
          cases head
          rw [valid c List.mem_cons_self] at notDigit
          cases notDigit
      have unprefixed : ∀ {lower upper : Char} {p : Char → Bool},
          (lower.isDigit = false ∧ isWord lower = true) ∧
            (upper.isDigit = false ∧ isWord upper = true) →
          matchPrefixed lower upper p (d :: (digits ++ after)) = none := by
        intro lower upper p letters
        apply matchPrefixed_none
        intro c head
        exact ⟨behind lower letters.1.1 letters.1.2 c head,
          behind upper letters.2.1 letters.2.2 c head⟩
      obtain ⟨pattern, listed, kind, matched⟩ := mem_candidates_digit first member
      simp only [linePatterns, List.tail_cons, List.mem_cons, List.not_mem_nil, or_false]
        at listed
      rcases listed with rfl | rfl | rfl | rfl | rfl | rfl
      · cases matched.symm.trans (unprefixed (by decide))
      · cases matched.symm.trans (unprefixed (by decide))
      · cases matched.symm.trans (unprefixed (by decide))
      · exact Prod.ext kind.symm (Option.some.inj (matched.symm.trans run))
      · cases matched.symm.trans floats.1
      · cases matched.symm.trans floats.2

/-- No decimal integer and no float goes on with the letter. -/
abbrev NoDecimal (letter : Char) : Prop :=
  letter.isDigit = false ∧ letter ≠ '.' ∧ letter ≠ 'e' ∧ letter ≠ 'E'

theorem zero_letter {letter : Char} {rest : Text} (noDecimal : NoDecimal letter) :
    matchRun Char.isDigit ('0' :: letter :: rest) = some 1 ∧
      matchFraction ('0' :: letter :: rest) = none ∧
        matchScientific ('0' :: letter :: rest) = none := by
  have zero : ∀ c ∈ ['0'], c.isDigit = true := List.all_iff_forall_prop.mp rfl
  have boundary : ∀ c ∈ (letter :: rest).head?, c.isDigit = false ∧ c ≠ '.' ∧ c ≠ 'e' ∧ c ≠ 'E' := by
    intro c head
    cases head
    exact noDecimal
  exact ⟨matchRun_exact (List.cons_ne_nil _ _) zero fun c head => (boundary c head).1,
    float_none zero boundary⟩

theorem longestMatch_prefixed (isUpper : Bool) {kind : TokenKind} {lower upper : Char}
    {p : Char → Bool} (own : (kind, matchPrefixed lower upper p) ∈ linePatterns)
    (noDecimal : NoDecimal lower ∧ NoDecimal upper)
    (others : ∀ pattern ∈ linePatterns.tail.take 3, pattern = (kind, matchPrefixed lower upper p) ∨
      ∀ rest, pattern.2 ('0' :: lower :: rest) = none ∧ pattern.2 ('0' :: upper :: rest) = none)
    {digits after : Text} (nonempty : digits ≠ []) (valid : ∀ c ∈ digits, p c = true)
    (boundary : ∀ c ∈ after.head?, p c = false) :
    longestMatch ('0' :: (if isUpper then upper else lower) :: (digits ++ after)) =
      some (kind, digits.length + 2) := by
  generalize spelled : (if isUpper then upper else lower) = letter
  have isLetter : letter = lower ∨ letter = upper := by
    rw [← spelled]
    cases isUpper
    · exact Or.inl rfl
    · exact Or.inr rfl
  have run : matchPrefixed lower upper p ('0' :: letter :: (digits ++ after)) =
      some (digits.length + 2) := by
    rw [matchPrefixed, if_pos ⟨rfl, isLetter⟩, matchRun_exact nonempty valid boundary,
      Option.map_some, Nat.add_comm]
  have noDecimal : NoDecimal letter := by
    rcases isLetter with rfl | rfl
    · exact noDecimal.1
    · exact noDecimal.2
  obtain ⟨single, noFraction, noScientific⟩ := @zero_letter letter (digits ++ after) noDecimal
  apply longestMatch_best
  · rw [mem_candidates]
    exact Or.inr ⟨_, List.mem_append_left _ own, rfl, run⟩
  · intro other member
    obtain ⟨pattern, listed, ofKind, matched⟩ := mem_candidates_digit (by decide) member
    rw [← List.take_append_drop 3 linePatterns.tail] at listed
    rcases List.mem_append.mp listed with isPrefixed | number
    · rcases others pattern isPrefixed with rfl | none
      · exact Or.inr (Prod.ext ofKind.symm (Option.some.inj (matched.symm.trans run)))
      · rcases isLetter with rfl | rfl
        · cases matched.symm.trans (none _).1
        · cases matched.symm.trans (none _).2
    · simp only [linePatterns, List.tail_cons, List.drop_succ_cons, List.drop_zero, List.mem_cons,
        List.not_mem_nil, or_false] at number
      rcases number with rfl | rfl | rfl
      · left
        rw [← Option.some.inj (single.symm.trans matched)]
        exact Nat.succ_lt_succ (Nat.succ_pos _)
      · cases matched.symm.trans noFraction
      · cases matched.symm.trans noScientific

theorem matchPrefixed_apart {lower upper one two : Char} {p : Char → Bool}
    (other : (one ≠ lower ∧ one ≠ upper) ∧ two ≠ lower ∧ two ≠ upper) (rest : Text) :
    matchPrefixed lower upper p ('0' :: one :: rest) = none ∧
      matchPrefixed lower upper p ('0' :: two :: rest) = none := by
  constructor
  · exact if_neg fun found => not_or.mpr other.1 found.2
  · exact if_neg fun found => not_or.mpr other.2 found.2

theorem longestMatch_integer (radix : Radix) (upper : Bool) {digits after : Text}
    (nonempty : digits ≠ []) (valid : ∀ c ∈ digits, c ∈ radix.digits) (ends : EndsNumber after) :
    longestMatch (radix.start upper ++ digits ++ after) =
      some (radix.kind, (radix.start upper ++ digits).length) := by
  cases radix with
  | decimal =>
    have isDigits : ∀ c ∈ Radix.decimal.digits, c.isDigit = true := List.all_iff_forall_prop.mp rfl
    exact longestMatch_decimal nonempty (fun c member => isDigits c (valid c member)) ends
  | hexadecimal =>
    have isDigits : ∀ c ∈ Radix.hexadecimal.digits, isHex c = true :=
      List.all_iff_forall_prop.mp rfl
    apply longestMatch_prefixed upper (by simp [linePatterns, Radix.kind]) (by decide) _ nonempty
      (fun c member => isDigits c (valid c member))
      (not_of_not_isWord (fun _ => isWord_of_isHex) ends)
    simp only [linePatterns, List.tail_cons, List.take_succ_cons, List.take_zero,
      List.forall_mem_cons]
    exact ⟨Or.inl rfl, Or.inr (matchPrefixed_apart (by decide)),
      Or.inr (matchPrefixed_apart (by decide)), List.forall_mem_nil _⟩
  | binary =>
    have isDigits : ∀ c ∈ Radix.binary.digits, (c = '0' || c = '1') = true :=
      List.all_iff_forall_prop.mp rfl
    apply longestMatch_prefixed upper (by simp [linePatterns, Radix.kind]) (by decide) _ nonempty
      (fun c member => isDigits c (valid c member))
      (not_of_not_isWord (fun _ => isWord_of_binary) ends)
    simp only [linePatterns, List.tail_cons, List.take_succ_cons, List.take_zero,
      List.forall_mem_cons]
    exact ⟨Or.inr (matchPrefixed_apart (by decide)), Or.inl rfl,
      Or.inr (matchPrefixed_apart (by decide)), List.forall_mem_nil _⟩
  | octal =>
    have isDigits : ∀ c ∈ Radix.octal.digits, ('0' ≤ c && c ≤ '7') = true :=
      List.all_iff_forall_prop.mp rfl
    apply longestMatch_prefixed upper (by simp [linePatterns, Radix.kind]) (by decide) _ nonempty
      (fun c member => isDigits c (valid c member))
      (not_of_not_isWord (fun _ => isWord_of_octal) ends)
    simp only [linePatterns, List.tail_cons, List.take_succ_cons, List.take_zero,
      List.forall_mem_cons]
    exact ⟨Or.inr (matchPrefixed_apart (by decide)), Or.inr (matchPrefixed_apart (by decide)),
      Or.inl rfl, List.forall_mem_nil _⟩

/-! ### Their values -/

def Radix.base : Radix → Nat
  | decimal => 10
  | hexadecimal => 16
  | binary => 2
  | octal => 8

def digitValue (c : Char) : Nat := "0123456789abcdef".toList.idxOf c.toLower

/-- An integer as it is written, without its sign. -/
structure IntegerLiteral where
  radix : Radix
  upper : Bool
  digits : Text
  nonempty : digits ≠ []
  valid : ∀ c ∈ digits, c ∈ radix.digits

/-- The integers a constant can hold. -/
def InRange (value : Int) : Prop := -2 ^ 63 ≤ value ∧ value ≤ 2 ^ 64 - 1

def ConstantValue.int? : ConstantValue → Option Int
  | .integer v => some v
  | .uinteger v => some v
  | _ => none

theorem radixValue_digits {base : Nat} {digits : Text} (nonempty : digits ≠ [])
    (valid : ∀ c ∈ digits, digitOf c = some (digitValue c) ∧ digitValue c < base) :
    radixValue base digits = some (Nat.ofDigits base (digits.reverse.map digitValue)) := by
  have run : ∀ acc, digits.foldlM (fun value c => (digitOf c).bind fun digit =>
      if digit < base then some (value * base + digit) else none) acc =
        some (Nat.ofDigits base (digits.reverse.map digitValue) + base ^ digits.length * acc) := by
    clear nonempty
    induction digits with
    | nil =>
      intro acc
      simp
    | cons c digits ih =>
      intro acc
      obtain ⟨⟨digit, small⟩, valid⟩ := List.forall_mem_cons.mp valid
      rw [List.foldlM_cons, digit, Option.bind_some, if_pos small]
      dsimp only [Option.bind_eq_bind, Option.bind_some]
      rw [ih valid]
      simp [Nat.ofDigits_append, Nat.ofDigits_singleton]
      ring
  rw [radixValue, if_neg nonempty, run 0]
  simp

theorem Radix.start_letter (radix : Radix) (prefixed : radix ≠ .decimal) (upper : Bool) :
    ∃ letter, radix.start upper = ['0', letter] ∧ ∀ digit ∈ digitOf letter, ¬ digit < 10 := by
  cases radix with
  | decimal => exact absurd rfl prefixed
  | hexadecimal | binary | octal =>
    refine ⟨_, rfl, ?_⟩
    revert upper
    decide

namespace IntegerLiteral

variable (literal : IntegerLiteral)

def text : Text := literal.radix.start literal.upper ++ literal.digits

def token : Token := ⟨literal.radix.kind, literal.text⟩

def value : Nat := Nat.ofDigits literal.radix.base (literal.digits.reverse.map digitValue)

def signed (negative : Bool) : Int := if negative then -literal.value else literal.value

theorem radixValue_eq : radixValue literal.radix.base literal.digits = some literal.value := by
  apply radixValue_digits literal.nonempty
  have values : ∀ radix : Radix, ∀ c ∈ radix.digits,
      digitOf c = some (digitValue c) ∧ digitValue c < radix.base := by
    intro radix
    cases radix <;> exact List.all_iff_forall_prop.mp rfl
  intro c member
  exact values literal.radix c (literal.valid c member)

/-- The value `parse_integer` reads off the text. -/
def parsed (negative : Bool) : Option Int :=
  match literal.radix with
  | .decimal => fromDecimal literal.digits negative
  | radix => fromRadix radix.base literal.digits negative

theorem parseInteger_token (negative : Bool) :
    parseInteger literal.token negative =
      match literal.parsed negative with
      | some value => .ok value
      | none => .error (.invalidInteger
          (if negative then '-' :: literal.text else literal.text)) := by
  obtain ⟨radix, upper, digits, nonempty, valid⟩ := literal
  have behind : ∀ zero letter : Char, (zero :: letter :: digits).drop 2 = digits := fun _ _ => rfl
  cases radix with
  | decimal =>
    rw [parseInteger, parsed]
    dsimp only [token, text, Radix.kind, Radix.start, List.nil_append]
    cases fromDecimal digits negative with
    | none => rfl
    | some value => rfl
  | hexadecimal =>
    rw [parseInteger, parsed]
    dsimp only [token, text, Radix.kind, Radix.start, Radix.base, List.cons_append, List.nil_append]
    rw [behind]
    cases fromRadix 16 digits negative with
    | none => rfl
    | some value => rfl
  | binary =>
    rw [parseInteger, parsed]
    dsimp only [token, text, Radix.kind, Radix.start, Radix.base, List.cons_append, List.nil_append]
    rw [behind]
    cases fromRadix 2 digits negative with
    | none => rfl
    | some value => rfl
  | octal =>
    rw [parseInteger, parsed]
    dsimp only [token, text, Radix.kind, Radix.start, Radix.base, List.cons_append, List.nil_append]
    rw [behind]
    cases fromRadix 8 digits negative with
    | none => rfl
    | some value => rfl

theorem parsed_eq (negative : Bool) : literal.parsed negative =
    if literal.value < 2 ^ 63 ∨
        literal.radix = .decimal ∧ negative = true ∧ literal.value = 2 ^ 63 then
      some (literal.signed negative)
    else none := by
  have read := literal.radixValue_eq
  have prefixed : literal.radix ≠ .decimal →
      fromRadix literal.radix.base literal.digits negative = if literal.value < 2 ^ 63 ∨
        literal.radix = .decimal ∧ negative = true ∧ literal.value = 2 ^ 63 then
      some (literal.signed negative) else none := by
    intro other
    rw [fromRadix, read, Option.bind_some, signed]
    simp only [other, false_and, or_false]
  rw [parsed]
  cases isRadix : literal.radix with
  | decimal =>
    rw [isRadix] at read
    dsimp only
    rw [fromDecimal, show (10 : Nat) = Radix.decimal.base from rfl, read, Option.bind_some, signed]
    cases negative with
    | true => simp [le_iff_lt_or_eq]
    | false => simp
  | hexadecimal | binary | octal =>
    rw [isRadix] at prefixed
    exact prefixed (by decide)

theorem radixValue_text (prefixed : literal.radix ≠ .decimal) :
    radixValue 10 literal.text = none := by
  obtain ⟨letter, start, noDigit⟩ := literal.radix.start_letter prefixed literal.upper
  have zero : digitOf '0' = some 0 := rfl
  rw [text, start, List.cons_append, List.cons_append, radixValue, if_neg (List.cons_ne_nil _ _),
    List.foldlM_cons, zero]
  cases value : digitOf letter with
  | none => simp [value]
  | some digit => simp [value, noDigit digit value]

/-- The literals with the sign that a constant can be given. -/
def Readable (negative : Bool) : Prop :=
  literal.value < 2 ^ 63 ∨ literal.radix = .decimal ∧ InRange (literal.signed negative)

theorem inRange_signed (negative : Bool) : InRange (literal.signed negative) ↔
    if negative then literal.value ≤ 2 ^ 63 else literal.value < 2 ^ 64 := by
  rw [InRange, signed]
  cases negative with
  | true => simp
  | false =>
    simp
    omega

theorem isInteger_token : isInteger literal.token.kind = true := by
  rw [token]
  cases literal.radix <;> rfl

theorem token_text_decimal (isDecimal : literal.radix = .decimal) :
    radixValue 10 literal.token.text = some literal.value := by
  have read := literal.radixValue_eq
  rw [isDecimal] at read
  rw [token, text, isDecimal]
  exact read

variable {negative : Bool}

theorem parseValue_readable (readable : literal.Readable negative) (type : FieldType)
    (rest : List Token) : ∃ value, parseValue type negative literal.token rest = .ok (value, rest) ∧
      value.int? = some (literal.signed negative) := by
  rw [parseValue, if_pos literal.isInteger_token, parseInteger_token, parsed_eq]
  by_cases signed64 : literal.value < 2 ^ 63 ∨
      literal.radix = .decimal ∧ negative = true ∧ literal.value = 2 ^ 63
  · rw [if_pos signed64]
    exact ⟨_, rfl, rfl⟩
  · obtain ⟨big, notLeast⟩ := not_or.mp signed64
    obtain ⟨isDecimal, inRange⟩ := readable.resolve_left big
    rw [inRange_signed] at inRange
    cases negative with
    | true => exact absurd ⟨isDecimal, rfl, le_antisymm inRange (not_lt.mp big)⟩ notLeast
    | false =>
      have fits : literal.value < 2 ^ 64 := inRange
      refine ⟨.uinteger literal.value, ?_, rfl⟩
      rw [if_neg signed64, literal.token_text_decimal isDecimal, Option.filter_some,
        if_pos (decide_eq_true fits)]
      rfl

theorem parseValue_unreadable (unreadable : ¬ literal.Readable negative) (type : FieldType)
    (rest : List Token) : ∃ e, parseValue type negative literal.token rest = .error e := by
  obtain ⟨big, beyond⟩ := not_or.mp unreadable
  have notSigned64 : ¬(literal.value < 2 ^ 63 ∨
      literal.radix = .decimal ∧ negative = true ∧ literal.value = 2 ^ 63) := by
    rintro (small | ⟨isDecimal, rfl, least⟩)
    · exact big small
    · exact beyond ⟨isDecimal, (literal.inRange_signed true).mpr (le_of_eq least)⟩
  rw [parseValue, if_pos literal.isInteger_token, parseInteger_token, parsed_eq,
    if_neg notSigned64]
  cases negative with
  | true => exact ⟨_, rfl⟩
  | false =>
    have none : (radixValue 10 literal.token.text).filter (· < 2 ^ 64) = none := by
      by_cases isDecimal : literal.radix = .decimal
      · have tooBig : ¬ literal.value < 2 ^ 64 := fun fits =>
          beyond ⟨isDecimal, (literal.inRange_signed false).mpr fits⟩
        rw [literal.token_text_decimal isDecimal, Option.filter_some,
          if_neg (by simpa using tooBig)]
      · have spelled : literal.token.text = literal.text := rfl
        rw [spelled, literal.radixValue_text isDecimal]
        rfl
    rw [none]
    exact ⟨_, rfl⟩

end IntegerLiteral

end NanoRos.Rosidl
