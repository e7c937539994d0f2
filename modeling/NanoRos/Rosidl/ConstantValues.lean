import Mathlib.Data.List.DropRight
import NanoRos.Rosidl.IntegerLiterals

/-! The values of constants and defaults: what the parser reads, and when that is what is written.
-/

namespace NanoRos.Rosidl

/-- The value of a constant, from the text behind its `=`. -/
def readConstant (type : FieldType) (text : Text) :
    Except ParseError (ConstantValue × List Token) :=
  match lex text with
  | .error left => .error (.lexerError left)
  | .ok tokens => parseConstantValue type tokens

/-- The default of a field, from the text behind its name. -/
def readDefault (type : FieldType) (text : Text) :
    Except ParseError (Option ConstantValue × List Token) :=
  match lex text with
  | .error left => .error (.lexerError left)
  | .ok tokens => tryParseDefaultValue type tokens

/-- Constant or default, the text has this value. -/
def ReadAs (type : FieldType) (text : Text) (value : ConstantValue) : Prop :=
  ∃ left, readConstant type text = .ok (value, left) ∧
    readDefault type text = .ok (some value, left)

def Rejected (type : FieldType) (text : Text) : Prop :=
  (∃ e, readConstant type text = .error e) ∧ ∃ e, readDefault type text = .error e

theorem tryParseDefaultValue_begins {type : FieldType} {tokens : List Token} {kind : TokenKind}
    (next : nextKind tokens = some kind) (begins : beginsDefault kind = true) :
    tryParseDefaultValue type tokens =
      (parseConstantValue type tokens).map fun read => (some read.1, read.2) := by
  rw [tryParseDefaultValue, next]
  split
  · cases (Option.some.inj ‹some kind = some _›)
    cases begins
  · cases (Option.some.inj ‹some kind = some _›)
    cases begins
  · rw [Option.any_some, if_pos begins]
    cases parseConstantValue type tokens <;> rfl

theorem readAs_of_parse {type : FieldType} {text : Text} {tokens left : List Token}
    {value : ConstantValue} {kind : TokenKind} (lexed : lex text = .ok tokens)
    (next : nextKind tokens = some kind) (begins : beginsDefault kind = true)
    (parsed : parseConstantValue type tokens = .ok (value, left)) : ReadAs type text value := by
  refine ⟨left, ?_, ?_⟩
  · rw [readConstant, lexed]
    exact parsed
  · rw [readDefault, lexed]
    dsimp only
    rw [tryParseDefaultValue_begins next begins, parsed]
    rfl

theorem rejected_of_parse {type : FieldType} {text : Text} {tokens : List Token} {e : ParseError}
    {kind : TokenKind} (lexed : lex text = .ok tokens) (next : nextKind tokens = some kind)
    (begins : beginsDefault kind = true) (failed : parseConstantValue type tokens = .error e) :
    Rejected type text := by
  refine ⟨⟨e, ?_⟩, ⟨e, ?_⟩⟩
  · rw [readConstant, lexed]
    exact failed
  · rw [readDefault, lexed]
    dsimp only
    rw [tryParseDefaultValue_begins next begins, failed]
    rfl

theorem rejected_of_lex {type : FieldType} {text left : Text} (failed : lex text = .error left) :
    Rejected type text := by
  refine ⟨⟨.lexerError left, ?_⟩, ⟨.lexerError left, ?_⟩⟩
  · rw [readConstant, failed]
  · rw [readDefault, failed]

theorem ReadAs.not_rejected {type : FieldType} {text : Text} {value : ConstantValue}
    (read : ReadAs type text value) : ¬ Rejected type text := by
  obtain ⟨left, read, _⟩ := read
  rintro ⟨⟨e, failed⟩, _⟩
  rw [read] at failed
  cases failed

theorem lex_whole {c : Char} {letters after : Text} {kind : TokenKind} (begins : c ∉ stopChars)
    (longest : longestMatch (c :: letters ++ after) = some (kind, (c :: letters).length)) :
    lex (c :: letters ++ after) = (lex after).map (⟨kind, c :: letters⟩ :: ·) := by
  rw [List.cons_append] at longest ⊢
  rw [lex_token begins longest, ← List.cons_append, List.take_left, List.drop_left]

/-! ### Integers -/

/-- An integer as a constant or a default has it, and the text around it. -/
structure WrittenInteger where
  before : Text
  beforeGap : Gap before
  negative : Bool
  between : Text
  betweenGap : Gap between
  literal : IntegerLiteral
  after : Text
  ends : EndsNumber after

namespace WrittenInteger

variable (integer : WrittenInteger)

def sign : Text := if integer.negative then '-' :: integer.between else []

def text : Text :=
  integer.before ++ (integer.sign ++ (integer.literal.text ++ integer.after))

def value : Int := integer.literal.signed integer.negative

/-- An integer a constant can hold is read as itself, any other is rejected. -/
def ReadExactly (type : FieldType) : Prop :=
  (InRange integer.value → ∃ value, ReadAs type integer.text value ∧
      value.int? = some integer.value) ∧
    (¬ InRange integer.value → Rejected type integer.text)

/-- It is decimal or below `2^63`, and what follows lexes; beyond the range anything will do. -/
def Readable : Prop :=
  InRange integer.value →
    (integer.literal.radix = .decimal ∨ integer.literal.value < 2 ^ 63) ∧
      ∃ later, lex integer.after = .ok later

def tokens (later : List Token) : List Token :=
  (if integer.negative then [⟨.minus, ['-']⟩] else []) ++ integer.literal.token :: later

end WrittenInteger

theorem IntegerLiteral.text_starts (literal : IntegerLiteral) :
    ∃ c letters, literal.text = c :: letters ∧ c ∉ stopChars ∧ c ≠ '-' := by
  obtain ⟨radix, upper, digits, nonempty, valid⟩ := literal
  cases radix with
  | decimal =>
    have plain : ∀ c ∈ Radix.decimal.digits, c ∉ stopChars ∧ c ≠ '-' :=
      List.all_iff_forall_prop.mp rfl
    cases digits with
    | nil => exact absurd rfl nonempty
    | cons c letters => exact ⟨c, letters, rfl, plain c (valid c List.mem_cons_self)⟩
  | hexadecimal | binary | octal => exact ⟨_, _, rfl, by decide, by decide⟩

theorem IntegerLiteral.lex_text (literal : IntegerLiteral) {after : Text}
    (ends : EndsNumber after) :
    lex (literal.text ++ after) = (lex after).map (literal.token :: ·) := by
  obtain ⟨c, letters, spelled, begins, _⟩ := literal.text_starts
  have longest : longestMatch (literal.text ++ after) =
      some (literal.radix.kind, literal.text.length) :=
    longestMatch_integer literal.radix literal.upper literal.nonempty literal.valid ends
  rw [token, spelled] at *
  exact lex_whole begins longest

namespace WrittenInteger

variable (integer : WrittenInteger)

theorem lex_text : lex integer.text = (lex integer.after).map integer.tokens := by
  have number := integer.literal.lex_text integer.ends
  rw [text, lex_gap integer.beforeGap, sign]
  cases sign : integer.negative with
  | false =>
    rw [if_neg Bool.false_ne_true, List.nil_append, number]
    cases lex integer.after with
    | error e => rfl
    | ok later => simp [Except.map, tokens, sign]
  | true =>
    obtain ⟨c, letters, spelled, _, notMinus⟩ := integer.literal.text_starts
    have single : ∀ d ∈ (integer.between ++ (integer.literal.text ++ integer.after)).head?,
        d ≠ '-' := by
      intro d head
      cases gap : integer.between with
      | nil =>
        rw [gap, List.nil_append, spelled] at head
        cases head
        exact notMinus
      | cons blank rest =>
        rw [gap] at head
        cases head
        rintro rfl
        have stop := integer.betweenGap.starts '-' (by rw [gap]; rfl)
        revert stop
        decide
    have minus : lex ('-' :: (integer.between ++ (integer.literal.text ++ integer.after))) =
        (lex (integer.between ++ (integer.literal.text ++ integer.after))).map
          (⟨.minus, ['-']⟩ :: ·) :=
      @lex_whole '-' [] _ _ (by decide) (longestMatch_minus single)
    rw [if_pos rfl, List.cons_append, minus, lex_gap integer.betweenGap, number]
    cases lex integer.after with
    | error e => rfl
    | ok later => simp [Except.map, tokens, sign]

theorem parseConstantValue_tokens (type : FieldType) (later : List Token) :
    parseConstantValue type (integer.tokens later) =
      parseValue type integer.negative integer.literal.token later := by
  have number : integer.literal.radix.kind ≠ .minus := by
    cases integer.literal.radix <;> decide
  rw [parseConstantValue, tokens]
  cases sign : integer.negative with
  | false => simp [nextKind, IntegerLiteral.token, number]
  | true => simp [nextKind]

theorem tokens_begin (later : List Token) : ∃ kind,
    nextKind (integer.tokens later) = some kind ∧ beginsDefault kind = true := by
  rw [tokens]
  cases integer.negative with
  | true => exact ⟨.minus, rfl, rfl⟩
  | false =>
    refine ⟨integer.literal.token.kind, rfl, ?_⟩
    rw [beginsDefault, isLiteral, integer.literal.isInteger_token]
    rfl

theorem readExactly_iff (type : FieldType) : integer.ReadExactly type ↔ integer.Readable := by
  have shown := integer.lex_text
  rw [ReadExactly, Readable]
  cases behind : lex integer.after with
  | error left =>
    rw [behind] at shown
    have rejected : Rejected type integer.text := rejected_of_lex shown
    constructor
    · intro exactly inRange
      obtain ⟨value, read, _⟩ := exactly.1 inRange
      exact absurd rejected read.not_rejected
    · intro readable
      refine ⟨fun inRange => ?_, fun _ => rejected⟩
      obtain ⟨_, later, impossible⟩ := readable inRange
      cases impossible
  | ok later =>
    rw [behind] at shown
    have lexed : lex integer.text = .ok (integer.tokens later) := shown
    obtain ⟨kind, next, begins⟩ := integer.tokens_begin later
    by_cases readable : integer.literal.Readable integer.negative
    · have inRange : InRange integer.value := by
        rcases readable with small | ⟨_, inRange⟩
        · rw [value, IntegerLiteral.inRange_signed]
          split <;> omega
        · exact inRange
      obtain ⟨value, parsed, same⟩ :=
        integer.literal.parseValue_readable readable type later
      rw [← integer.parseConstantValue_tokens] at parsed
      have read := readAs_of_parse lexed next begins parsed
      constructor
      · intro _ _
        refine ⟨?_, later, rfl⟩
        rcases readable with small | ⟨isDecimal, _⟩
        · exact Or.inr small
        · exact Or.inl isDecimal
      · intro _
        exact ⟨fun _ => ⟨value, read, same⟩, fun beyond => absurd inRange beyond⟩
    · obtain ⟨e, failed⟩ := integer.literal.parseValue_unreadable readable type later
      rw [← integer.parseConstantValue_tokens] at failed
      have rejected := rejected_of_parse lexed next begins failed
      constructor
      · intro exactly inRange
        obtain ⟨value, read, _⟩ := exactly.1 inRange
        exact absurd rejected read.not_rejected
      · intro isReadable
        refine ⟨fun inRange => absurd ?_ readable, fun _ => rejected⟩
        rcases (isReadable inRange).1 with isDecimal | small
        · exact Or.inr ⟨isDecimal, inRange⟩
        · exact Or.inl small

end WrittenInteger

/-! ### Quoted strings -/

/-- A string in quotes as a constant or a default has it. -/
structure QuotedString where
  before : Text
  beforeGap : Gap before
  quote : Char
  isQuote : quote = '"' ∨ quote = '\''
  body : Text
  isBody : QuotedBody quote body
  after : Text

/-- The characters that `trim_matches` takes off at either end. -/
def isQuoteMark (c : Char) : Bool := c = '"' || c = Char.ofNat 39

theorem trim_between {p : Char → Bool} {first last : Char} (marks : p first = true ∧ p last = true)
    (body : Text) : ((first :: (body ++ [last])).dropWhile p).rdropWhile p = body ↔
      (∀ c ∈ body.head?, p c = false) ∧ ∀ c ∈ body.getLast?, p c = false := by
  have opened : ((first :: (body ++ [last])).dropWhile p).rdropWhile p =
      (body.dropWhile p).rdropWhile p := by
    rw [List.dropWhile_cons_of_pos marks.1, List.dropWhile_append]
    split
    next allMarks =>
      rw [List.isEmpty_iff.mp allMarks, List.dropWhile_cons_of_pos marks.2, List.dropWhile_nil]
    next => rw [List.rdropWhile_concat_pos _ _ _ marks.2]
  have both : (body.dropWhile p).rdropWhile p = body ↔
      body.dropWhile p = body ∧ body.rdropWhile p = body := by
    constructor
    · intro same
      have short := (List.rdropWhile_prefix p (body.dropWhile p)).length_le
      rw [same] at short
      have front : body.dropWhile p = body :=
        (List.dropWhile_sublist p).eq_of_length_le short
      rw [front] at same
      exact ⟨front, same⟩
    · rintro ⟨front, back⟩
      rw [front, back]
  rw [opened, both, List.dropWhile_eq_self_iff, List.rdropWhile_eq_self_iff]
  cases body with
  | nil => simp
  | cons c rest => simp [List.getLast?_eq_some_getLast]

namespace QuotedString

variable (quoted : QuotedString)

def text : Text :=
  quoted.before ++ (quoted.quote :: (quoted.body ++ quoted.quote :: quoted.after))

/-- What stands between the quotes is the value. -/
def ReadExactly (type : FieldType) : Prop := ReadAs type quoted.text (.string quoted.body)

/-- What stands between the quotes does not begin or end with a quote of either kind, and what
follows lexes. -/
def Readable : Prop :=
  ((∀ c ∈ quoted.body.head?, isQuoteMark c = false) ∧
      ∀ c ∈ quoted.body.getLast?, isQuoteMark c = false) ∧
    ∃ later, lex quoted.after = .ok later

def token : Token := ⟨.stringLiteral, quoted.quote :: (quoted.body ++ [quoted.quote])⟩

theorem lex_text : lex quoted.text = (lex quoted.after).map (quoted.token :: ·) := by
  have begins : quoted.quote ∉ stopChars := by
    rcases quoted.isQuote with isQuote | isQuote
    · rw [isQuote]
      decide
    · rw [isQuote]
      decide
  have shape : quoted.quote :: (quoted.body ++ quoted.quote :: quoted.after) =
      quoted.quote :: (quoted.body ++ [quoted.quote]) ++ quoted.after := by
    simp
  have longest := longestMatch_quoted quoted.isQuote quoted.isBody quoted.after
  rw [text, lex_gap quoted.beforeGap]
  rw [shape] at longest ⊢
  apply lex_whole begins
  rw [longest, List.length_cons, List.length_append, List.length_singleton]

theorem readExactly_iff (type : FieldType) : quoted.ReadExactly type ↔ quoted.Readable := by
  have shown := quoted.lex_text
  rw [ReadExactly, Readable]
  cases behind : lex quoted.after with
  | error left =>
    rw [behind] at shown
    have rejected : Rejected type quoted.text := rejected_of_lex shown
    constructor
    · intro read
      exact absurd rejected read.not_rejected
    · rintro ⟨_, later, impossible⟩
      cases impossible
  | ok later =>
    rw [behind] at shown
    have lexed : lex quoted.text = .ok (quoted.token :: later) := shown
    have parsed : parseConstantValue type (quoted.token :: later) =
        .ok (.string (trimQuotes quoted.token.text), later) := rfl
    have read := readAs_of_parse lexed rfl rfl parsed
    have marks : isQuoteMark quoted.quote = true := by
      rcases quoted.isQuote with isQuote | isQuote
      · rw [isQuote]
        rfl
      · rw [isQuote]
        rfl
    have trimmed : trimQuotes quoted.token.text = quoted.body ↔ _ :=
      trim_between ⟨marks, marks⟩ quoted.body
    rw [← trimmed]
    constructor
    · intro exactly
      obtain ⟨left, one, _⟩ := read
      obtain ⟨left', other, _⟩ := exactly
      have same := (Prod.mk.inj (Except.ok.inj (one.symm.trans other))).1
      exact ⟨ConstantValue.string.inj same, later, rfl⟩
    · rintro ⟨same, _⟩
      rw [← same]
      exact read

end QuotedString

/-! ### Unquoted strings -/

/-- The types an unquoted string can be a constant of. -/
abbrev StringType := { type : FieldType // type.isString = true }

/-- The text behind a constant's `=` where no quoted string comes first. -/
structure UnquotedString where
  text : Text
  unquoted : ∀ tokens, lex text = .ok tokens → nextKind tokens ≠ some .stringLiteral

/-- `[ \t\r\n\f]` taken off at either end. -/
def trimBlanks (text : Text) : Text := (text.dropWhile isSpace).rdropWhile isSpace

/-- Not the end of the line and not the start of a comment. -/
def inLine (c : Char) : Bool := c ≠ '\n' && c ≠ '#'

theorem trimBlanks_split (text : Text) : ∃ lead trail, text = lead ++ (trimBlanks text ++ trail) ∧
    (∀ c ∈ lead, isSpace c = true) ∧ ∀ c ∈ trail, isSpace c = true := by
  refine ⟨text.takeWhile isSpace, (text.dropWhile isSpace).rtakeWhile isSpace, ?_, ?_, ?_⟩
  · rw [trimBlanks, List.rdropWhile_append_rtakeWhile, List.takeWhile_append_dropWhile]
  · exact fun c member => List.mem_takeWhile_imp member
  · exact fun c member => List.mem_rtakeWhile_imp member

namespace UnquotedString

variable (unquotedString : UnquotedString)

/-- The text up to the end of its line or a comment, without the blanks around it. -/
def word : Text := trimBlanks (unquotedString.text.takeWhile inLine)

def behind : Text := unquotedString.text.dropWhile inLine

def ReadExactly (type : StringType) : Prop :=
  ∃ left, readConstant type.1 unquotedString.text = .ok (.string unquotedString.word, left)

/-- The text is one word of tokens: its first is no literal and no minus, the others are among
those a string goes on with, and behind the line none of these comes next. -/
def Readable : Prop :=
  Solid unquotedString.word ∧
    (∃ first run, lex unquotedString.word = .ok (first :: run) ∧
      beginsDefault first.kind = false ∧ ∀ token ∈ run, continuesString token = true) ∧
    ∃ later, lex unquotedString.behind = .ok later ∧
      ∀ token ∈ later.head?, continuesString token = false

theorem lex_text : ∃ after, Apart after ∧ lex after = lex unquotedString.behind ∧
    lex unquotedString.text = lex (unquotedString.word ++ after) := by
  obtain ⟨lead, trail, split, leadBlank, trailBlank⟩ :=
    trimBlanks_split (unquotedString.text.takeWhile inLine)
  have whole : unquotedString.text =
      lead ++ (unquotedString.word ++ (trail ++ unquotedString.behind)) := by
    rw [word, behind, ← List.append_assoc (trimBlanks _), ← List.append_assoc lead, ← split,
      List.takeWhile_append_dropWhile]
  refine ⟨trail ++ unquotedString.behind, ?_, lex_blank trailBlank _, ?_⟩
  · intro c head
    rw [mem_stopChars]
    cases trail with
    | cons blank trail =>
      cases head
      exact Or.inl (trailBlank _ List.mem_cons_self)
    | nil =>
      have stops := List.head?_dropWhile_not inLine unquotedString.text
      rw [List.nil_append, behind] at head
      rw [head] at stops
      have ends : c = '\n' ∨ c = '#' := by
        simpa [inLine, Classical.or_iff_not_imp_left] using stops
      rcases ends with rfl | rfl
      · exact Or.inl rfl
      · exact Or.inr rfl
  · rw [whole, lex_blank leadBlank]

end UnquotedString

theorem not_literal_of_continues {token : Token} (continues : continuesString token = true) :
    token.kind ≠ .stringLiteral := by
  intro isLiteral
  simp [continuesString, isLiteral, isInteger] at continues

theorem parseValue_string {type : FieldType} {isNegative : Bool} {token : Token} {s : Text}
    {rest left : List Token}
    (parsed : parseValue type isNegative token rest = .ok (.string s, left)) :
    isNegative = false ∧ (token.kind = .stringLiteral ∨
      isLiteral token.kind = false ∧ s = unquoted token rest) := by
  by_cases literal : isLiteral token.kind = false
  · obtain ⟨_, positive, same, _⟩ := (parseValue_other literal).mp parsed
    exact ⟨positive, Or.inr ⟨literal, ConstantValue.string.inj same⟩⟩
  · rw [parseValue] at parsed
    split at parsed
    next number =>
      split at parsed
      · cases parsed
      · split at parsed
        · cases parsed
        · split at parsed
          · cases parsed
          · cases parsed
    next notNumber =>
      split at parsed
      · cases parsed
      · cases (refuseNegative_ok.mp parsed).2
      · cases (refuseNegative_ok.mp parsed).2
      next quoted => exact ⟨(refuseNegative_ok.mp parsed).1, Or.inl quoted⟩
      next notFloat notTrue notFalse notQuoted =>
        refine absurd ?_ literal
        simp_all [isLiteral]

theorem parseConstantValue_string {type : FieldType} {tokens left : List Token} {s : Text}
    (notQuoted : nextKind tokens ≠ some .stringLiteral)
    (parsed : parseConstantValue type tokens = .ok (.string s, left)) :
    ∃ first rest, tokens = first :: rest ∧ beginsDefault first.kind = false ∧
      s = unquoted first rest := by
  rw [parseConstantValue] at parsed
  by_cases minus : nextKind tokens = some .minus
  · simp only [minus, decide_true, if_true] at parsed
    split at parsed
    · cases parsed
    · cases (parseValue_string parsed).1
  · simp only [minus, decide_false, if_false] at parsed
    split at parsed
    · cases parsed
    next first rest =>
      obtain ⟨_, isQuoted | ⟨notLiteral, same⟩⟩ := parseValue_string parsed
      · exact absurd (congrArg some isQuoted) notQuoted
      · have notMinus : first.kind ≠ .minus := fun same => minus (congrArg some same)
        exact ⟨first, rest, rfl, by simp [beginsDefault, notLiteral, notMinus], same⟩

namespace UnquotedString

variable (unquotedString : UnquotedString)

theorem readExactly_iff (type : StringType) :
    unquotedString.ReadExactly type ↔ unquotedString.Readable := by
  obtain ⟨after, apart, sameBehind, sameText⟩ := unquotedString.lex_text
  constructor
  · rintro ⟨left, read⟩
    rw [readConstant] at read
    split at read
    · cases read
    next tokens lexed =>
      have notQuoted := unquotedString.unquoted tokens lexed
      obtain ⟨first, rest, rfl, isFirst, whole⟩ := parseConstantValue_string notQuoted read
      have plain : ∀ token ∈ first :: rest.takeWhile continuesString,
          token.kind ≠ .stringLiteral := by
        rw [List.forall_mem_cons]
        refine ⟨fun same => notQuoted (congrArg some same), fun token member => ?_⟩
        exact not_literal_of_continues (List.mem_takeWhile_imp member)
      have cut : first :: rest =
          first :: rest.takeWhile continuesString ++ rest.dropWhile continuesString := by
        rw [List.cons_append, List.takeWhile_append_dropWhile]
      rw [sameText, cut] at lexed
      obtain ⟨solid, lexedWord, lexedAfter⟩ := lex_split apart lexed whole.symm plain
      refine ⟨solid, ⟨first, _, lexedWord, isFirst, fun token member =>
        List.mem_takeWhile_imp member⟩, _, sameBehind ▸ lexedAfter, ?_⟩
      intro token head
      have stops := List.head?_dropWhile_not continuesString rest
      rw [head] at stops
      simpa using stops
  · rintro ⟨solid, ⟨first, run, lexedWord, isFirst, continues⟩, later, lexedBehind, stops⟩
    have plain : ∀ token ∈ first :: run, token.kind ≠ .stringLiteral := by
      rw [List.forall_mem_cons]
      refine ⟨fun same => ?_, fun token member => not_literal_of_continues (continues token member)⟩
      rw [same] at isFirst
      cases isFirst
    obtain ⟨lexed, fills⟩ :=
      lex_apart apart solid lexedWord (sameBehind.trans lexedBehind) plain
    have whole : Rosidl.unquoted first (run ++ later) = unquotedString.word := by
      rw [Rosidl.unquoted, takeWhile_exact continues stops]
      exact fills
    refine ⟨(run ++ later).dropWhile continuesString, ?_⟩
    rw [readConstant, sameText, lexed]
    exact (parseConstantValue_unquoted isFirst).mpr ⟨type.2, congrArg _ whole.symm, rfl⟩

end UnquotedString

/-- Integers are read exactly unless they are in `[2^63, 2^64)`, or `-2^63`, in a radix with a
prefix; quoted strings unless a quote stands at an end of them; unquoted ones if the line is one
word of the tokens a string goes on with, and no such token comes next. -/
theorem constant_values (type : FieldType) (stringType : StringType) (integer : WrittenInteger)
    (quoted : QuotedString) (unquotedString : UnquotedString) :
    (integer.ReadExactly type ↔ integer.Readable) ∧ (quoted.ReadExactly type ↔ quoted.Readable) ∧
      (unquotedString.ReadExactly stringType ↔ unquotedString.Readable) :=
  ⟨integer.readExactly_iff type, quoted.readExactly_iff type,
    unquotedString.readExactly_iff stringType⟩

/-- `0x8000000000000000`, which is `2^63`. -/
def hexLiteral : IntegerLiteral where
  radix := .hexadecimal
  upper := false
  digits := "8000000000000000".toList
  nonempty := by decide
  valid := List.all_iff_forall_prop.mp rfl

def hexConstant : WrittenInteger where
  before := []
  beforeGap := .nil
  negative := false
  between := []
  betweenGap := .nil
  literal := hexLiteral
  after := []
  ends := by
    intro c impossible
    cases impossible

/-- `"'a'"` -/
def nestedQuotes : QuotedString where
  before := []
  beforeGap := .nil
  quote := '"'
  isQuote := Or.inl rfl
  body := "'a'".toList
  isBody := .plain (by decide) (by decide) (.plain (by decide) (by decide)
    (.plain (by decide) (by decide) .nil))
  after := []

/-- `hello world` -/
def twoWords : UnquotedString where
  text := "hello world".toList
  unquoted := by
    intro tokens lexed
    have first : (lex "hello world".toList).toOption.bind nextKind = some .identifier := by
      decide +kernel
    rw [lexed] at first
    intro quoted
    have same : nextKind tokens = some .identifier := first
    rw [quoted] at same
    cases same

theorem constant_values_fail :
    (¬ ∀ (type : FieldType) (integer : WrittenInteger), integer.ReadExactly type) ∧
      (¬ ∀ (type : FieldType) (quoted : QuotedString), quoted.ReadExactly type) ∧
        ¬ ∀ (type : StringType) (unquotedString : UnquotedString),
          unquotedString.ReadExactly type := by
  refine ⟨?_, ?_, ?_⟩
  · intro all
    have value : hexLiteral.value = 2 ^ 63 := by decide +kernel
    have inRange : InRange hexConstant.value :=
      (hexLiteral.inRange_signed false).mpr (by rw [value]; decide)
    have readable := (hexConstant.readExactly_iff .string).mp (all .string hexConstant) inRange
    rcases readable.1 with isDecimal | small
    · cases isDecimal
    · exact absurd small (by rw [show hexConstant.literal = hexLiteral from rfl, value]; decide)
  · intro all
    have readable := (nestedQuotes.readExactly_iff .string).mp (all .string nestedQuotes)
    have start := readable.1.1 '\'' rfl
    cases start
  · intro all
    have readable := (twoWords.readExactly_iff ⟨.string, rfl⟩).mp (all ⟨.string, rfl⟩ twoWords)
    have blank : ' ' ∈ twoWords.word := by decide +kernel
    exact readable.1 ' ' blank (by decide)

end NanoRos.Rosidl
