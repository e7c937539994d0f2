import NanoRos.Rosidl.Ast

/-! The tokens of a `.msg` file: the longest match at each position, an earlier pattern before a
later one of the same length. -/

namespace NanoRos.Rosidl

inductive TokenKind where
  | bool
  | byte
  | char
  | int8
  | uint8
  | int16
  | uint16
  | int32
  | uint32
  | int64
  | uint64
  | float32
  | float64
  | string
  | wstring
  | lBracket
  | rBracket
  | lAngle
  | rAngle
  | equals
  | slash
  | tripleDash
  | lessEqual
  | minus
  | comma
  | identifier
  | hexInteger
  | binaryInteger
  | octalInteger
  | decimalInteger
  | float
  | stringLiteral
  | true
  | false
  deriving DecidableEq, Repr

structure Token where
  kind : TokenKind
  text : Text
  deriving DecidableEq, Repr

/-- The `#[token]` patterns. -/
def literals : List (Text × TokenKind) :=
  [("bool".toList, .bool), ("boolean".toList, .bool), ("byte".toList, .byte),
    ("octet".toList, .byte), ("char".toList, .char), ("int8".toList, .int8),
    ("uint8".toList, .uint8), ("int16".toList, .int16), ("short".toList, .int16),
    ("uint16".toList, .uint16), ("int32".toList, .int32), ("long".toList, .int32),
    ("uint32".toList, .uint32), ("int64".toList, .int64), ("uint64".toList, .uint64),
    ("float32".toList, .float32), ("float".toList, .float32), ("float64".toList, .float64),
    ("double".toList, .float64), ("string".toList, .string), ("wstring".toList, .wstring),
    (['['], .lBracket), ([']'], .rBracket), (['<'], .lAngle), (['>'], .rAngle), (['='], .equals),
    (['/'], .slash), (['-', '-', '-'], .tripleDash), (['<', '='], .lessEqual), (['-'], .minus),
    ([','], .comma), ("true".toList, .true), ("TRUE".toList, .true), ("True".toList, .true),
    ("false".toList, .false), ("FALSE".toList, .false), ("False".toList, .false)]

def isWord (c : Char) : Bool := c.isAlphanum || c = '_'

def isHex (c : Char) : Bool :=
  c.isDigit || ('a' ≤ c && c ≤ 'f') || ('A' ≤ c && c ≤ 'F')

/-- The length of a run of such characters, if there is one. -/
def matchRun (p : Char → Bool) (text : Text) : Option Nat :=
  let n := (text.takeWhile p).length
  if n = 0 then none else some n

/-- `[a-zA-Z][a-zA-Z0-9_]*` -/
def matchIdentifier : Text → Option Nat
  | c :: rest => if c.isAlpha then some (1 + (rest.takeWhile isWord).length) else none
  | [] => none

/-- `0[xX]` and digits of the base. -/
def matchPrefixed (lower upper : Char) (p : Char → Bool) : Text → Option Nat
  | zero :: x :: rest =>
    if zero = '0' ∧ (x = lower ∨ x = upper) then (matchRun p rest).map (2 + ·) else none
  | _ => none

def dropSign : Text → Text
  | c :: rest => if c = '+' ∨ c = '-' then rest else c :: rest
  | [] => []

/-- `[eE][+-]?[0-9]+` -/
def matchExponent : Text → Option Nat
  | c :: rest =>
    if c = 'e' ∨ c = 'E' then
      (matchRun Char.isDigit (dropSign rest)).map
        (1 + (rest.length - (dropSign rest).length) + ·)
    else none
  | [] => none

/-- `[0-9]+\.[0-9]+([eE][+-]?[0-9]+)?` -/
def matchFraction (text : Text) : Option Nat := do
  let whole ← matchRun Char.isDigit text
  match text.dropWhile Char.isDigit with
  | point :: rest =>
    if point = '.' then do
      let part ← matchRun Char.isDigit rest
      some (whole + 1 + part + (matchExponent (rest.dropWhile Char.isDigit)).getD 0)
    else none
  | [] => none

/-- `[0-9]+[eE][+-]?[0-9]+` -/
def matchScientific (text : Text) : Option Nat := do
  let whole ← matchRun Char.isDigit text
  let exponent ← matchExponent (text.dropWhile Char.isDigit)
  some (whole + exponent)

/-- Up to the closing quote; a backslash takes any character but a line's end with it. -/
def quotedBody (quote : Char) : Bool → Text → Option Nat
  | _, [] => none
  | true, c :: rest => if c = '\n' then none else (quotedBody quote false rest).map (1 + ·)
  | false, c :: rest =>
    if c = quote then some 1 else (quotedBody quote (c = '\\') rest).map (1 + ·)

def matchQuoted (quote : Char) : Text → Option Nat
  | c :: rest => if c = quote then (quotedBody quote false rest).map (1 + ·) else none
  | [] => none

/-- The `#[regex]` patterns, the two of string literals last. -/
def linePatterns : List (TokenKind × (Text → Option Nat)) :=
  [(.identifier, matchIdentifier), (.hexInteger, matchPrefixed 'x' 'X' isHex),
    (.binaryInteger, matchPrefixed 'b' 'B' fun c => c = '0' || c = '1'),
    (.octalInteger, matchPrefixed 'o' 'O' fun c => '0' ≤ c && c ≤ '7'),
    (.decimalInteger, matchRun Char.isDigit), (.float, matchFraction), (.float, matchScientific)]

def quotePatterns : List (TokenKind × (Text → Option Nat)) :=
  [(.stringLiteral, matchQuoted '"'), (.stringLiteral, matchQuoted '\'')]

def candidates (text : Text) : List (TokenKind × Nat) :=
  (literals.filter fun word => word.1.isPrefixOf text).map (fun word => (word.2, word.1.length)) ++
    (linePatterns ++ quotePatterns).filterMap fun pattern => (pattern.2 text).map (pattern.1, ·)

def longer (best : Option (TokenKind × Nat)) (next : TokenKind × Nat) :
    Option (TokenKind × Nat) :=
  match best with
  | some found => if found.2 < next.2 then some next else best
  | none => some next

def longestMatch (text : Text) : Option (TokenKind × Nat) := (candidates text).foldl longer none

/-- `[ \t\r\n\f]` -/
def isSpace (c : Char) : Bool :=
  c = ' ' || c = '\t' || c = '\r' || c = '\n' || c = Char.ofNat 12

/-- The characters left of the last match are passed by first; spaces and comments are skipped. -/
def lexFrom : Nat → Text → Except Text (List Token)
  | _, [] => .ok []
  | passed + 1, _ :: rest => lexFrom passed rest
  | 0, c :: rest =>
    if isSpace c then lexFrom 0 rest
    else if c = '#' then lexFrom (rest.takeWhile (· ≠ '\n')).length rest
    else
      match longestMatch (c :: rest) with
      | none => .error (c :: rest)
      | some (kind, n) => do
        let tokens ← lexFrom (n - 1) rest
        .ok (⟨kind, (c :: rest).take n⟩ :: tokens)

def lex (input : Text) : Except Text (List Token) := lexFrom 0 input

example : lex "int32[<=3] x 0x1F # y\n'a' 1.5e3".toList = .ok
    [⟨.int32, "int32".toList⟩, ⟨.lBracket, ['[']⟩, ⟨.lessEqual, ['<', '=']⟩, ⟨.decimalInteger, ['3']⟩,
      ⟨.rBracket, [']']⟩, ⟨.identifier, ['x']⟩, ⟨.hexInteger, "0x1F".toList⟩,
      ⟨.stringLiteral, "'a'".toList⟩, ⟨.float, "1.5e3".toList⟩] := by
  decide +kernel

end NanoRos.Rosidl
