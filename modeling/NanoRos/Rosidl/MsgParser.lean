import NanoRos.Lib.Lookahead
import NanoRos.Rosidl.Lexer

/-! The `.msg` parser that generated code is made with: declarations read off the tokens, wherever
the lines end. -/

namespace NanoRos.Rosidl

/-- What an unexpected token stands in the place of. -/
inductive Expected where
  | kind (k : TokenKind)
  | words (text : Text)
  deriving DecidableEq, Repr

inductive ParseError where
  | unexpectedToken (expected : Expected) (got : Text)
  | unexpectedEof
  | invalidInteger (text : Text)
  | invalidFloat (text : Text)
  | unknownType (text : Text)
  | lexerError (left : Text)
  deriving DecidableEq, Repr

def expect (kind : TokenKind) : List Token → Except ParseError (Text × List Token)
  | [] => .error .unexpectedEof
  | token :: rest =>
    if token.kind = kind then .ok (token.text, rest)
    else .error (.unexpectedToken (.kind kind) token.text)

def digitOf (c : Char) : Option Nat :=
  if c.isDigit then some (c.toNat - 48)
  else if 'a' ≤ c ∧ c ≤ 'f' then some (c.toNat - 87)
  else if 'A' ≤ c ∧ c ≤ 'F' then some (c.toNat - 55)
  else none

/-- The value of digits of a base, `none` for anything else. -/
def radixValue (base : Nat) (text : Text) : Option Nat :=
  if text = [] then none
  else text.foldlM (fun value c => (digitOf c).bind fun digit =>
    if digit < base then some (value * base + digit) else none) 0

/-- `i64::from_str_radix`, negated afterwards. -/
def fromRadix (base : Nat) (text : Text) (isNegative : Bool) : Option Int :=
  (radixValue base text).bind fun value =>
    if value < 2 ^ 63 then some (if isNegative then -value else value) else none

/-- `parse::<i64>` of the digits with their sign. -/
def fromDecimal (text : Text) (isNegative : Bool) : Option Int :=
  (radixValue 10 text).bind fun value =>
    if isNegative then if value ≤ 2 ^ 63 then some (-value) else none
    else if value < 2 ^ 63 then some value else none

def parseInteger (token : Token) (isNegative : Bool) : Except ParseError Int :=
  let result := match token.kind with
    | .hexInteger => fromRadix 16 (token.text.drop 2) isNegative
    | .binaryInteger => fromRadix 2 (token.text.drop 2) isNegative
    | .octalInteger => fromRadix 8 (token.text.drop 2) isNegative
    | .decimalInteger => fromDecimal token.text isNegative
    | _ => none
  match token.kind, result with
  | _, some value => .ok value
  | .hexInteger, none | .binaryInteger, none | .octalInteger, none | .decimalInteger, none =>
    .error (.invalidInteger (if isNegative then '-' :: token.text else token.text))
  | _, none => .error (.invalidInteger token.text)

def primitiveOf : TokenKind → Option PrimitiveType
  | .bool => some .bool
  | .byte => some .byte
  | .char => some .char
  | .int8 => some .int8
  | .uint8 => some .uint8
  | .int16 => some .int16
  | .uint16 => some .uint16
  | .int32 => some .int32
  | .uint32 => some .uint32
  | .int64 => some .int64
  | .uint64 => some .uint64
  | .float32 => some .float32
  | .float64 => some .float64
  | _ => none

def nextKind (tokens : List Token) : Option TokenKind := tokens.head?.map Token.kind

def parseSize : List Token → Except ParseError (Nat × List Token)
  | [] => .error .unexpectedEof
  | token :: rest => do
    let size ← parseInteger token false
    .ok (size.toNat, rest)

/-- `string` or `wstring`, with its bound if `<=` follows. -/
def parseStringType (plain : FieldType) (bounded : Nat → FieldType) (tokens : List Token) :
    Except ParseError (FieldType × List Token) :=
  if nextKind tokens = some .lessEqual then do
    let (size, rest) ← parseSize tokens.tail
    .ok (bounded size, rest)
  else .ok (plain, tokens)

/-- A type's name, with its package if `/` follows. -/
def parseNamespacedType (name : Text) (tokens : List Token) :
    Except ParseError (FieldType × List Token) :=
  if nextKind tokens = some .slash then do
    let (typeName, rest) ← expect .identifier tokens.tail
    .ok (.namespacedType (some name) typeName, rest)
  else .ok (.namespacedType none name, tokens)

def parseBaseType : List Token → Except ParseError (FieldType × List Token)
  | [] => .error .unexpectedEof
  | token :: rest =>
    match primitiveOf token.kind with
    | some p => .ok (.primitive p, rest)
    | none =>
      match token.kind with
      | .string => parseStringType .string .boundedString rest
      | .wstring => parseStringType .wstring .boundedWString rest
      | .identifier => parseNamespacedType token.text rest
      | _ => .error (.unknownType token.text)

def isInteger : TokenKind → Bool
  | .decimalInteger | .hexInteger | .binaryInteger | .octalInteger => true
  | _ => false

/-- A size and the bracket that closes it. -/
def parseClosed (build : Nat → FieldType) (tokens : List Token) :
    Except ParseError (FieldType × List Token) := do
  let (size, rest) ← parseSize tokens
  let (_, rest) ← expect .rBracket rest
  .ok (build size, rest)

/-- The `[]`, `[<=N]` or `[N]` after a type. -/
def parseBrackets (baseType : FieldType) (tokens : List Token) :
    Except ParseError (FieldType × List Token) :=
  match nextKind tokens with
  | some .rBracket => .ok (.sequence baseType, tokens.tail)
  | some .lessEqual => parseClosed (.boundedSequence baseType) tokens.tail
  | kind =>
    if kind.any isInteger then parseClosed (.array baseType) tokens
    else
      .error (.unexpectedToken (.words "array size or ]".toList)
        ((tokens.head?.map Token.text).getD []))

def parseFieldType (tokens : List Token) : Except ParseError (FieldType × List Token) := do
  let (baseType, rest) ← parseBaseType tokens
  if nextKind rest = some .lBracket then parseBrackets baseType rest.tail
  else .ok (baseType, rest)

def isLiteral (kind : TokenKind) : Bool :=
  isInteger kind || kind = .float || kind = .true || kind = .false || kind = .stringLiteral

/-- The tokens a default value can begin with, behind no `=`. -/
def beginsDefault (kind : TokenKind) : Bool := isLiteral kind || kind = .minus

def FieldType.isString : FieldType → Bool
  | .string | .wstring | .boundedString _ | .boundedWString _ => true
  | _ => false

/-- The tokens an unquoted string goes on with. -/
def continuesString (token : Token) : Bool :=
  token.kind = .identifier || token.kind = .slash || token.kind = .minus || isInteger token.kind

/-- `trim_matches` of both kinds of quotes. -/
def trimQuotes (text : Text) : Text :=
  let isQuote := fun c : Char => c = '"' || c = Char.ofNat 39
  ((text.dropWhile isQuote).reverse.dropWhile isQuote).reverse

/-- A token that can be no negative number. -/
def refuseNegative {α : Type} (isNegative : Bool) (expected got : Text)
    (value : Except ParseError (α × List Token)) : Except ParseError (α × List Token) :=
  if isNegative then .error (.unexpectedToken (.words expected) got) else value

/-- A value from its first token on, after a minus or not. -/
def parseValue (type : FieldType) (isNegative : Bool) (token : Token) (rest : List Token) :
    Except ParseError (ConstantValue × List Token) :=
  if isInteger token.kind then
    match parseInteger token isNegative with
    | .ok value => .ok (.integer value, rest)
    | .error e =>
      if isNegative then .error e
      else
        match (radixValue 10 token.text).filter (· < 2 ^ 64) with
        | some value => .ok (.uinteger value, rest)
        | none => .error (.invalidInteger token.text)
  else
    match token.kind with
    | .float => .ok (.float isNegative token.text, rest)
    | .true =>
      refuseNegative isNegative "numeric value".toList "true".toList (.ok (.bool true, rest))
    | .false =>
      refuseNegative isNegative "numeric value".toList "false".toList (.ok (.bool false, rest))
    | .stringLiteral =>
      refuseNegative isNegative "numeric value".toList token.text
        (.ok (.string (trimQuotes token.text), rest))
    | _ =>
      if type.isString then
        refuseNegative isNegative "string value".toList ('-' :: token.text)
          (.ok (.string (token.text ++ ((rest.takeWhile continuesString).map Token.text).flatten),
            rest.dropWhile continuesString))
      else .error (.unexpectedToken (.words "constant value".toList) token.text)

def parseConstantValue (type : FieldType) (tokens : List Token) :
    Except ParseError (ConstantValue × List Token) :=
  let isNegative := nextKind tokens = some .minus
  match if isNegative then tokens.tail else tokens with
  | [] => .error .unexpectedEof
  | token :: rest => parseValue type isNegative token rest

/-! ### What the parts of a declaration take -/

def Token.isStringType (token : Token) : Bool := token.kind = .string || token.kind = .wstring

def Plain (token : Token) : Prop := token.isStringType = false

variable {token : Token} {kind : TokenKind} {tokens left : List Token} {isNegative : Bool}
  {type : FieldType} {value : ConstantValue}

theorem plain_of_kind (ofKind : token.kind = kind) (other : kind ≠ .string ∧ kind ≠ .wstring) :
    Plain token := by
  rw [Plain, Token.isStringType, ofKind]
  simp [other]

theorem plain_of_literal (literal : isLiteral token.kind = true) :
    Plain token := by
  apply plain_of_kind rfl
  constructor <;> (intro same; rw [same] at literal; cases literal)

theorem plain_of_continues (continues : continuesString token = true) :
    Plain token := by
  apply plain_of_kind rfl
  constructor <;> (intro same; simp [continuesString, same, isInteger] at continues)

theorem isLiteral_of_isInteger (number : isInteger kind = true) :
    isLiteral kind = true := by
  simp [isLiteral, number]

theorem expect_ok {text : Text} (parsed : expect kind tokens = .ok (text, left)) :
    ∃ token, tokens = token :: left ∧ token.kind = kind ∧ text = token.text := by
  cases tokens with
  | nil => cases parsed
  | cons token rest =>
    rw [expect] at parsed
    split at parsed
    case isTrue same =>
      cases parsed
      exact ⟨token, rfl, same, rfl⟩
    case isFalse => cases parsed

theorem expect_takes {text : Text} (other : kind ≠ .string ∧ kind ≠ .wstring)
    (parsed : expect kind tokens = .ok (text, left)) :
    Takes (expect kind) Plain (fun _ => True) tokens text left := by
  obtain ⟨token, rfl, ofKind, rfl⟩ := expect_ok parsed
  apply Takes.cons (plain_of_kind ofKind other)
  apply Takes.nothing
  intro more _
  rw [expect, if_pos ofKind]

theorem parseInteger_isInteger {value : Int} (parsed : parseInteger token isNegative = .ok value) :
    isInteger token.kind = true := by
  rw [parseInteger] at parsed
  cases kind : token.kind <;> first | rfl | simp [kind] at parsed

theorem parseSize_takes {size : Nat} (parsed : parseSize tokens = .ok (size, left)) :
    Takes parseSize Plain (fun _ => True) tokens size left := by
  cases tokens with
  | nil => cases parsed
  | cons token rest =>
    obtain ⟨value, number, done⟩ := bind_eq_ok.mp parsed
    cases done
    apply Takes.cons (plain_of_literal (isLiteral_of_isInteger (parseInteger_isInteger number)))
    apply Takes.nothing
    intro more _
    rw [parseSize, number, ok_bind]

theorem refuseNegative_ok {α : Type} {expected got : Text}
    {value : Except ParseError (α × List Token)} {result : α × List Token} :
    refuseNegative isNegative expected got value = .ok result ↔
      isNegative = false ∧ value = .ok result := by
  cases isNegative <;> simp [refuseNegative]

/-- The text of an unquoted string from its first token on. -/
def unquoted (token : Token) (rest : List Token) : Text :=
  token.text ++ ((rest.takeWhile continuesString).map Token.text).flatten

theorem parseValue_literal {rest : List Token} (literal : isLiteral token.kind = true)
    (parsed : parseValue type isNegative token rest = .ok (value, left)) :
    left = rest ∧ ∀ more, parseValue type isNegative token more = .ok (value, more) := by
  rw [parseValue] at parsed
  simp only [parseValue]
  split at parsed
  case isTrue number =>
    simp only [if_pos number]
    split at parsed
    · cases parsed
      exact ⟨rfl, fun _ => rfl⟩
    · split at parsed
      case isTrue => cases parsed
      case isFalse positive =>
        simp only [if_neg positive]
        split at parsed
        · cases parsed
          exact ⟨rfl, fun _ => rfl⟩
        · cases parsed
  case isFalse other =>
    simp only [if_neg other]
    split at parsed
    · cases parsed
      exact ⟨rfl, fun _ => rfl⟩
    · obtain ⟨positive, done⟩ := refuseNegative_ok.mp parsed
      cases done
      exact ⟨rfl, fun _ => refuseNegative_ok.mpr ⟨positive, rfl⟩⟩
    · obtain ⟨positive, done⟩ := refuseNegative_ok.mp parsed
      cases done
      exact ⟨rfl, fun _ => refuseNegative_ok.mpr ⟨positive, rfl⟩⟩
    · obtain ⟨positive, done⟩ := refuseNegative_ok.mp parsed
      cases done
      exact ⟨rfl, fun _ => refuseNegative_ok.mpr ⟨positive, rfl⟩⟩
    case h_5 notFloat notTrue notFalse notQuoted =>
      simp only [isLiteral, other, Bool.or_eq_true, decide_eq_true_eq] at literal
      obtain (((no | no) | no) | no) | no := literal
      · cases no
      · exact (notFloat no).elim
      · exact (notTrue no).elim
      · exact (notFalse no).elim
      · exact (notQuoted no).elim

theorem parseValue_other {rest : List Token} (other : isLiteral token.kind = false) :
    parseValue type isNegative token rest = .ok (value, left) ↔
      type.isString ∧ isNegative = false ∧ value = .string (unquoted token rest) ∧
        left = rest.dropWhile continuesString := by
  simp only [isLiteral, Bool.or_eq_false_iff, decide_eq_false_iff_not] at other
  rw [parseValue, if_neg (by simp [other])]
  split
  · simp_all
  · simp_all
  · simp_all
  · simp_all
  · split
    case isTrue isString =>
      rw [refuseNegative_ok, Except.ok.injEq, Prod.mk.injEq]
      simp [isString, unquoted, eq_comm]
    case isFalse notString => simp [notString]

theorem parseConstantValue_cases (parsed : parseConstantValue type tokens = .ok (value, left)) :
    Takes (parseConstantValue type) Plain (fun _ => True) tokens value left ∨
      type.isString ∧ ∃ token rest, tokens = token :: rest ∧ beginsDefault token.kind = false ∧
        value = .string (unquoted token rest) ∧ left = rest.dropWhile continuesString := by
  rw [parseConstantValue] at parsed
  by_cases minus : nextKind tokens = some .minus
  case pos =>
    simp only [minus, decide_true, if_true] at parsed
    match tokens, minus with
    | [sign], _ => cases parsed
    | sign :: token :: rest, minus =>
    have isMinus : sign.kind = .minus := Option.some.inj minus
    cases literal : isLiteral token.kind with
    | true =>
      obtain ⟨rfl, same⟩ := parseValue_literal literal parsed
      left
      apply Takes.cons (plain_of_kind isMinus (by decide))
      apply Takes.cons (plain_of_literal literal)
      apply Takes.nothing
      intro more _
      simp only [parseConstantValue, nextKind, List.head?_cons, Option.map_some, isMinus,
        decide_true, if_true, List.tail_cons, same]
    | false =>
      obtain ⟨-, negative, -⟩ := (parseValue_other literal).mp parsed
      cases negative
  case neg =>
    simp only [minus, decide_false, if_false] at parsed
    match tokens with
    | [] => cases parsed
    | token :: rest =>
    have notMinus : token.kind ≠ .minus := fun same => minus (congrArg some same)
    cases literal : isLiteral token.kind with
    | true =>
      obtain ⟨rfl, same⟩ := parseValue_literal literal parsed
      left
      apply Takes.cons (plain_of_literal literal)
      apply Takes.nothing
      intro more _
      simp only [parseConstantValue, nextKind, List.head?_cons, Option.map_some,
        Option.some.injEq, notMinus, decide_false, if_false, same]
    | false =>
      obtain ⟨isString, -, rfl, rfl⟩ := (parseValue_other literal).mp parsed
      exact .inr ⟨isString, token, rest, rfl, by simp [beginsDefault, literal, notMinus], rfl, rfl⟩

theorem parseConstantValue_left (parsed : parseConstantValue type tokens = .ok (value, left)) :
    left.length ≤ tokens.length := by
  obtain takes | ⟨-, token, rest, rfl, -, -, rfl⟩ := parseConstantValue_cases parsed
  · exact takes.length_le
  · exact (List.dropWhile_sublist _).length_le.trans (Nat.le_succ _)

/-- The type the elements of an array literal are parsed with. -/
def dummyType : FieldType := .primitive .int32

/-- The values after the first one, each behind a comma. -/
def parseMoreValues (tokens : List Token) :
    Except ParseError (List ConstantValue × List Token) :=
  match tokens with
  | [] => .ok ([], [])
  | token :: rest =>
    if token.kind = .comma then
      match _parsed : parseConstantValue dummyType rest with
      | .error e => .error e
      | .ok (value, left) => do
        let (values, left) ← parseMoreValues left
        .ok (value :: values, left)
    else .ok ([], token :: rest)
termination_by tokens.length
decreasing_by
  have left := parseConstantValue_left _parsed
  rw [List.length_cons]
  omega

def parseArrayLiteral (tokens : List Token) :
    Except ParseError (ConstantValue × List Token) := do
  let (_, rest) ← expect .lBracket tokens
  if nextKind rest = some .rBracket then .ok (.array [], rest.tail)
  else do
    let (first, rest) ← parseConstantValue dummyType rest
    let (more, rest) ← parseMoreValues rest
    let (_, rest) ← expect .rBracket rest
    .ok (.array (first :: more), rest)

def tryParseDefaultValue (type : FieldType) (tokens : List Token) :
    Except ParseError (Option ConstantValue × List Token) :=
  match nextKind tokens with
  | some .equals => do
    let (value, rest) ← parseConstantValue type tokens.tail
    .ok (some value, rest)
  | some .lBracket => do
    let (value, rest) ← parseArrayLiteral tokens
    .ok (some value, rest)
  | kind =>
    if kind.any beginsDefault then do
      let (value, rest) ← parseConstantValue type tokens
      .ok (some value, rest)
    else .ok (none, tokens)

/-- A field, or a constant where `=` follows the name. -/
def parseFieldOrConstant (tokens : List Token) :
    Except ParseError ((Option Field × Option Constant) × List Token) := do
  let (type, rest) ← parseFieldType tokens
  let (name, rest) ← expect .identifier rest
  if nextKind rest = some .equals then do
    let (value, rest) ← parseConstantValue type rest.tail
    .ok ((none, some ⟨type, name, value⟩), rest)
  else do
    let (default, rest) ← tryParseDefaultValue type rest
    .ok ((some ⟨type, name, default⟩, none), rest)


/-- The tokens a declaration can begin with. -/
def beginsType (kind : TokenKind) : Bool :=
  (primitiveOf kind).isSome || kind = .string || kind = .wstring || kind = .identifier

def EndsType (tokens : List Token) : Prop :=
  nextKind tokens = some .identifier ∨ nextKind tokens = some .lBracket

def Follows (tokens : List Token) : Prop := ∀ kind ∈ nextKind tokens, beginsType kind = true

theorem nextKind_eq (next : nextKind tokens = some kind) :
    ∃ token rest, tokens = token :: rest ∧ token.kind = kind := by
  cases tokens with
  | nil => cases next
  | cons token rest => exact ⟨token, rest, rfl, Option.some.inj next⟩

theorem nextKind_cons (token : Token) (rest : List Token) :
    nextKind (token :: rest) = some token.kind := rfl

theorem parseStringType_takes {plain : FieldType} {bounded : Nat → FieldType}
    (parsed : parseStringType plain bounded tokens = .ok (type, left)) :
    Takes (parseStringType plain bounded) Plain EndsType tokens type left := by
  rw [parseStringType] at parsed
  split at parsed
  case isTrue bound =>
    obtain ⟨token, rest, rfl, isBound⟩ := nextKind_eq bound
    obtain ⟨⟨size, rest'⟩, sized, done⟩ := bind_eq_ok.mp parsed
    cases done
    obtain ⟨used, whole, usedPlain, same⟩ := parseSize_takes sized
    apply Takes.cons (plain_of_kind isBound (by decide))
    refine ⟨used, whole, usedPlain, fun more _ => ?_⟩
    dsimp only
    rw [parseStringType, nextKind_cons, isBound, if_pos rfl, List.tail_cons, same more trivial]
    rfl
  case isFalse =>
    cases parsed
    apply Takes.nothing
    intro more ends
    rw [parseStringType, if_neg]
    obtain next | next := ends <;> (rw [next]; decide)

theorem parseNamespacedType_takes {name : Text}
    (parsed : parseNamespacedType name tokens = .ok (type, left)) :
    Takes (parseNamespacedType name) Plain EndsType tokens type left := by
  rw [parseNamespacedType] at parsed
  split at parsed
  case isTrue slash =>
    obtain ⟨token, rest, rfl, isSlash⟩ := nextKind_eq slash
    obtain ⟨⟨typeName, rest'⟩, named, done⟩ := bind_eq_ok.mp parsed
    cases done
    obtain ⟨used, whole, usedPlain, same⟩ := expect_takes (by decide) named
    apply Takes.cons (plain_of_kind isSlash (by decide))
    refine ⟨used, whole, usedPlain, fun more _ => ?_⟩
    dsimp only
    rw [parseNamespacedType, nextKind_cons, isSlash, if_pos rfl, List.tail_cons, same more trivial]
    rfl
  case isFalse =>
    cases parsed
    apply Takes.nothing
    intro more ends
    rw [parseNamespacedType, if_neg]
    obtain next | next := ends <;> (rw [next]; decide)

theorem parseBaseType_takes (parsed : parseBaseType tokens = .ok (type, left)) :
    ∃ head rest, tokens = head :: rest ∧ beginsType head.kind = true ∧
      Takes (fun more => parseBaseType (head :: more)) Plain EndsType rest type left := by
  cases tokens with
  | nil => cases parsed
  | cons head rest =>
    refine ⟨head, rest, rfl, ?_⟩
    rw [parseBaseType] at parsed
    simp only [parseBaseType, beginsType]
    split at parsed
    case h_1 p primitive =>
      cases parsed
      simp only [primitive]
      exact ⟨rfl, Takes.nothing fun _ _ => rfl⟩
    case h_2 primitive =>
      simp only [primitive]
      split at parsed
      case h_1 kind =>
        simp only [kind]
        exact ⟨rfl, parseStringType_takes parsed⟩
      case h_2 kind =>
        simp only [kind]
        exact ⟨rfl, parseStringType_takes parsed⟩
      case h_3 kind =>
        simp only [kind]
        exact ⟨rfl, parseNamespacedType_takes parsed⟩
      case h_4 => cases parsed

theorem parseClosed_takes {build : Nat → FieldType}
    (parsed : parseClosed build tokens = .ok (type, left)) :
    Takes (parseClosed build) Plain (fun _ => True) tokens type left := by
  obtain ⟨⟨size, after⟩, sized, parsed⟩ := bind_eq_ok.mp parsed
  obtain ⟨⟨close, after'⟩, closed, done⟩ := bind_eq_ok.mp parsed
  cases done
  exact Takes.bind (fun size tokens => do
      let (_, rest) ← expect .rBracket tokens
      .ok (build size, rest)) (parseSize_takes sized)
    (Takes.bind (fun _ rest => .ok (build size, rest))
      (expect_takes (by decide) closed) (Takes.nothing fun _ _ => rfl) fun _ _ _ _ => trivial)
    fun _ _ _ _ => trivial

theorem parseBrackets_takes {base : FieldType}
    (parsed : parseBrackets base tokens = .ok (type, left)) :
    Takes (parseBrackets base) Plain (fun _ => True) tokens type left := by
  rw [parseBrackets] at parsed
  split at parsed
  case h_1 close =>
    cases parsed
    obtain ⟨token, rest, rfl, isClose⟩ := nextKind_eq close
    apply Takes.cons (plain_of_kind isClose (by decide))
    apply Takes.nothing
    intro more _
    simp only [parseBrackets, nextKind_cons, isClose, List.tail_cons]
  case h_2 bound =>
    obtain ⟨token, rest, rfl, isBound⟩ := nextKind_eq bound
    obtain ⟨used, whole, usedPlain, same⟩ := parseClosed_takes parsed
    apply Takes.cons (plain_of_kind isBound (by decide))
    refine ⟨used, whole, usedPlain, fun more _ => ?_⟩
    simp only [parseBrackets, nextKind_cons, isBound, List.tail_cons]
    exact same more trivial
  case h_3 _ notClose notBound =>
    split at parsed
    case isTrue number =>
      obtain ⟨used, rfl, usedPlain, same⟩ := parseClosed_takes parsed
      refine ⟨used, rfl, usedPlain, fun more _ => ?_⟩
      cases used with
      | nil => exact absurd (same [] trivial) nofun
      | cons token used =>
        rw [parseBrackets]
        split
        · exact (notClose ‹_›).elim
        · exact (notBound ‹_›).elim
        · exact (if_pos number).trans (same more trivial)
    case isFalse => cases parsed

theorem parseFieldType_takes (parsed : parseFieldType tokens = .ok (type, left)) :
    ∃ head rest, tokens = head :: rest ∧ beginsType head.kind = true ∧
      Takes (fun more => parseFieldType (head :: more)) Plain
        (fun more => nextKind more = some .identifier) rest type left := by
  obtain ⟨⟨base, afterBase⟩, based, closed⟩ := bind_eq_ok.mp parsed
  obtain ⟨head, rest, rfl, begins, used, rfl, usedPlain, same⟩ := parseBaseType_takes based
  refine ⟨head, _, rfl, begins, ?_⟩
  dsimp only at closed
  split at closed
  case isTrue bracket =>
    obtain ⟨token, rest, rfl, isBracket⟩ := nextKind_eq bracket
    obtain ⟨usedToo, rfl, usedPlainToo, sameToo⟩ := parseBrackets_takes closed
    refine ⟨used ++ token :: usedToo, by simp, ?_, fun more _ => ?_⟩
    · intro t member
      obtain first | later := List.mem_append.mp member
      · exact usedPlain t first
      · obtain rfl | later := List.mem_cons.mp later
        · exact plain_of_kind isBracket (by decide)
        · exact usedPlainToo t later
    · have ends : EndsType (token :: (usedToo ++ more)) := .inr (congrArg some isBracket)
      simp only [parseFieldType, List.append_assoc, List.cons_append, same _ ends, ok_bind,
        nextKind_cons, isBracket, if_true, List.tail_cons, sameToo more trivial]
  case isFalse other =>
    cases closed
    refine ⟨used, rfl, usedPlain, fun more next => ?_⟩
    simp only [parseFieldType, same more (.inl next), ok_bind, next]
    rfl

theorem parseConstantValue_takes (notString : type.isString = false)
    (parsed : parseConstantValue type tokens = .ok (value, left)) :
    Takes (parseConstantValue type) Plain (fun _ => True) tokens value left := by
  obtain takes | ⟨isString, -⟩ := parseConstantValue_cases parsed
  · exact takes
  · rw [notString] at isString
    cases isString

theorem parseMoreValues_takes {values : List ConstantValue}
    (parsed : parseMoreValues tokens = .ok (values, left)) :
    Takes parseMoreValues Plain (fun more => nextKind more ≠ some .comma) tokens values left := by
  have stop : ∀ more, nextKind more ≠ some .comma → parseMoreValues more = .ok ([], more) := by
    intro more other
    cases more with
    | nil => rw [parseMoreValues]
    | cons token rest => rw [parseMoreValues, if_neg fun same => other (congrArg some same)]
  induction tokens using parseMoreValues.induct generalizing values left with
  | case1 =>
    rw [parseMoreValues] at parsed
    cases parsed
    exact Takes.nothing stop
  | case2 token rest comma e failed =>
    rw [parseMoreValues, if_pos comma] at parsed
    split at parsed <;> simp_all
  | case3 token rest comma value after valued ih =>
    rw [parseMoreValues, if_pos comma] at parsed
    split at parsed
    case h_1 e failed => simp_all
    case h_2 value' after' valued' =>
      rw [valued] at valued'
      cases valued'
      obtain ⟨⟨more, left'⟩, parsedMore, done⟩ := bind_eq_ok.mp parsed
      cases done
      obtain ⟨used, rfl, usedPlain, same⟩ := parseConstantValue_takes rfl valued
      obtain ⟨usedToo, rfl, usedPlainToo, sameToo⟩ := ih parsedMore
      apply Takes.cons (plain_of_kind comma (by decide))
      refine ⟨used ++ usedToo, (List.append_assoc _ _ _).symm, ?_, fun next other => ?_⟩
      · exact fun t member => (List.mem_append.mp member).elim (usedPlain t) (usedPlainToo t)
      · dsimp only
        rw [parseMoreValues, if_pos comma, List.append_assoc]
        split
        case h_1 e failed =>
          rw [same _ trivial] at failed
          cases failed
        case h_2 value' after' valued' =>
          rw [same _ trivial] at valued'
          cases valued'
          rw [sameToo next other]
          rfl
  | case4 token rest other =>
    rw [parseMoreValues, if_neg other] at parsed
    cases parsed
    exact Takes.nothing stop

theorem parseArrayLiteral_takes (parsed : parseArrayLiteral tokens = .ok (value, left)) :
    Takes parseArrayLiteral Plain (fun _ => True) tokens value left := by
  obtain ⟨⟨bracket, rest⟩, opened, inside⟩ := bind_eq_ok.mp parsed
  obtain ⟨token, rfl, isBracket, -⟩ := expect_ok opened
  apply Takes.cons (plain_of_kind isBracket (by decide))
  dsimp only at inside
  split at inside
  case isTrue close =>
    cases inside
    obtain ⟨token', rest, rfl, isClose⟩ := nextKind_eq close
    apply Takes.cons (plain_of_kind isClose (by decide))
    apply Takes.nothing
    intro more _
    simp only [parseArrayLiteral, expect, isBracket, if_true, ok_bind, nextKind_cons, isClose,
      List.tail_cons]
  case isFalse notClose =>
    obtain ⟨⟨first, afterFirst⟩, valued, inside⟩ := bind_eq_ok.mp inside
    obtain ⟨⟨values, afterMore⟩, parsedMore, inside⟩ := bind_eq_ok.mp inside
    obtain ⟨⟨close, afterClose⟩, closed, done⟩ := bind_eq_ok.mp inside
    cases done
    obtain ⟨used, rfl, usedPlain, same⟩ := parseConstantValue_takes rfl valued
    obtain ⟨usedToo, rfl, usedPlainToo, sameToo⟩ := parseMoreValues_takes parsedMore
    obtain ⟨token', rfl, isClose, -⟩ := expect_ok closed
    refine ⟨used ++ (usedToo ++ [token']), by simp, ?_, fun more _ => ?_⟩
    · intro t member
      simp only [List.mem_append, List.mem_singleton] at member
      obtain first | later | rfl := member
      · exact usedPlain t first
      · exact usedPlainToo t later
      · exact plain_of_kind isClose (by decide)
    · have notClose' : nextKind (used ++ (usedToo ++ token' :: more)) ≠ some .rBracket := by
        cases used with
        | nil => exact absurd (same [] trivial) nofun
        | cons t used => exact notClose
      have ends : nextKind (token' :: more) ≠ some .comma := by
        rw [nextKind_cons, isClose]
        decide
      simp only [parseArrayLiteral, expect, isBracket, if_true, ok_bind, List.append_assoc,
        List.singleton_append, notClose', if_false, same _ trivial, sameToo _ ends, isClose]

/-- No default value goes on here. -/
def Quiet (tokens : List Token) : Prop :=
  ∀ kind ∈ nextKind tokens, kind ≠ .equals ∧ kind ≠ .lBracket ∧ beginsDefault kind = false

theorem Follows.quiet (follows : Follows tokens) : Quiet tokens := by
  intro kind member
  have begins := follows kind member
  revert begins
  cases kind <;> decide

theorem tryParseDefaultValue_quiet {default : Option ConstantValue}
    (noEquals : nextKind tokens ≠ some .equals)
    (parsed : tryParseDefaultValue type tokens = .ok (default, left)) :
    Takes (tryParseDefaultValue type) Plain
      (fun more => Quiet more ∨ nextKind more = nextKind left) tokens default left := by
  rw [tryParseDefaultValue] at parsed
  split at parsed
  case h_1 isEquals => exact absurd isEquals noEquals
  case h_2 bracket =>
    obtain ⟨⟨value, rest⟩, valued, done⟩ := bind_eq_ok.mp parsed
    cases done
    obtain ⟨used, rfl, usedPlain, same⟩ := parseArrayLiteral_takes valued
    refine ⟨used, rfl, usedPlain, fun more _ => ?_⟩
    cases used with
    | nil => exact absurd (same [] trivial) nofun
    | cons t used =>
      have bracket' : nextKind (t :: used ++ more) = some .lBracket := bracket
      simp only [tryParseDefaultValue, bracket', same more trivial, ok_bind]
  case h_3 notEquals notBracket =>
    split at parsed
    case isTrue begins =>
      obtain ⟨⟨value, rest⟩, valued, done⟩ := bind_eq_ok.mp parsed
      cases done
      obtain ⟨used, rfl, usedPlain, same⟩ | ⟨-, token, rest, rfl, none, -⟩ :=
        parseConstantValue_cases valued
      · refine ⟨used, rfl, usedPlain, fun more _ => ?_⟩
        cases used with
        | nil => exact absurd (same [] trivial) nofun
        | cons t used =>
          rw [tryParseDefaultValue]
          split
          · exact (notEquals ‹_›).elim
          · exact (notBracket ‹_›).elim
          · rw [if_pos (by exact begins), same more trivial]
            rfl
      · rw [nextKind_cons, Option.any_some, none] at begins
        cases begins
    case isFalse other =>
      cases parsed
      apply Takes.nothing
      intro more allowed
      have next : Quiet more := by
        obtain quiet | alike := allowed
        · exact quiet
        · intro kind member
          rw [alike] at member
          have shown : nextKind tokens = some kind := member
          rw [shown, Option.any_some] at other
          exact ⟨fun same => notEquals (shown.trans (congrArg some same)),
            fun same => notBracket (shown.trans (congrArg some same)), Bool.not_eq_true _ ▸ other⟩
      cases shown : nextKind more with
      | none => simp [tryParseDefaultValue, shown]
      | some kind =>
        obtain ⟨notEquals, notBracket, noDefault⟩ := next kind shown
        rw [tryParseDefaultValue, shown]
        split
        · exact absurd (Option.some.inj ‹_›) notEquals
        · exact absurd (Option.some.inj ‹_›) notBracket
        · rw [Option.any_some, noDefault, if_neg (by decide)]

theorem tryParseDefaultValue_takes {default : Option ConstantValue}
    (noEquals : nextKind tokens ≠ some .equals)
    (parsed : tryParseDefaultValue type tokens = .ok (default, left)) :
    Takes (tryParseDefaultValue type) Plain Follows tokens default left :=
  (tryParseDefaultValue_quiet noEquals parsed).mono fun _ follows => .inl follows.quiet

theorem parseFieldOrConstant_left {declared : Option Field × Option Constant}
    (parsed : parseFieldOrConstant tokens = .ok (declared, left)) :
    left.length < tokens.length := by
  obtain ⟨⟨type, afterType⟩, typed, named⟩ := bind_eq_ok.mp parsed
  obtain ⟨⟨name, afterName⟩, isName, valued⟩ := bind_eq_ok.mp named
  obtain ⟨head, rest, rfl, -, takesType⟩ := parseFieldType_takes typed
  obtain ⟨token, rfl, -, -⟩ := expect_ok isName
  have short : afterName.length < (head :: rest).length :=
    (Nat.lt_of_succ_le takesType.length_le).trans (Nat.lt_succ_self _)
  apply lt_of_le_of_lt ?_ short
  dsimp only at valued
  split at valued
  case isTrue =>
    obtain ⟨⟨value, rest⟩, constant, done⟩ := bind_eq_ok.mp valued
    cases done
    exact (parseConstantValue_left constant).trans (by rw [List.length_tail]; exact Nat.sub_le _ _)
  case isFalse noEquals =>
    obtain ⟨⟨default, rest⟩, field, done⟩ := bind_eq_ok.mp valued
    cases done
    exact (tryParseDefaultValue_takes noEquals field).length_le

/-- Declarations up to the end, or up to the `---` of a service or an action. -/
def parseMessageImpl (tokens : List Token) : Except ParseError Message :=
  match tokens with
  | [] => .ok ⟨[], []⟩
  | token :: rest =>
    if token.kind = .tripleDash then .ok ⟨[], []⟩
    else
      match _parsed : parseFieldOrConstant (token :: rest) with
      | .error e => .error e
      | .ok ((field, constant), left) => do
        let message ← parseMessageImpl left
        .ok ⟨field.toList ++ message.fields, constant.toList ++ message.constants⟩
termination_by tokens.length
decreasing_by exact parseFieldOrConstant_left _parsed

def parseMessage (input : Text) : Except ParseError Message :=
  match lex input with
  | .error left => .error (.lexerError left)
  | .ok tokens => parseMessageImpl tokens

end NanoRos.Rosidl
