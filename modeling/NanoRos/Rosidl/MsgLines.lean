import Mathlib.Data.List.TakeWhile
import NanoRos.Rosidl.LexLines
import NanoRos.Rosidl.MsgParser

/-! A `.msg` file against its lines: an unquoted string constant takes a type's name that begins the
next declaration for its own, and nothing else reaches over a line's end. -/

namespace NanoRos.Rosidl

/-! ### String types -/

/-- `string` or `wstring`, with a bound or without. -/
def SpellsString : List Token → Prop
  | [word] => word.isStringType = true
  | [word, bound, size] =>
    word.isStringType = true ∧ bound.kind = .lessEqual ∧ isInteger size.kind = true
  | _ => False

variable {type : FieldType} {left : List Token} {token : Token} {rest more run : List Token}
  {declared : Option Field × Option Constant} {message : Message} {line : Text}

theorem parseStringType_isString {plain : FieldType} {bounded : Nat → FieldType}
    (strings : plain.isString = true ∧ ∀ n, (bounded n).isString = true) {tokens : List Token}
    (parsed : parseStringType plain bounded tokens = .ok (type, left)) :
    type.isString = true ∧ (tokens = left ∧ nextKind tokens ≠ some .lessEqual ∨
      ∃ bound size, tokens = bound :: size :: left ∧ bound.kind = .lessEqual ∧
        isInteger size.kind = true) := by
  rw [parseStringType] at parsed
  split at parsed
  case isTrue bound =>
    obtain ⟨token, rest, rfl, isBound⟩ := nextKind_eq bound
    obtain ⟨⟨size, rest'⟩, sized, done⟩ := bind_eq_ok.mp parsed
    cases done
    cases rest with
    | nil => cases sized
    | cons number rest =>
      obtain ⟨value, isNumber, done⟩ := bind_eq_ok.mp sized
      cases done
      exact ⟨strings.2 _, .inr ⟨token, number, rfl, isBound, parseInteger_isInteger isNumber⟩⟩
  case isFalse unbounded =>
    cases parsed
    exact ⟨strings.1, .inl ⟨rfl, unbounded⟩⟩

theorem parseBaseType_isString (parsed : parseBaseType (token :: rest) = .ok (type, left)) :
    type.isString = token.isStringType ∧ (type.isString = true →
      rest = left ∧ nextKind rest ≠ some .lessEqual ∨ ∃ bound size, rest = bound :: size :: left ∧
        bound.kind = .lessEqual ∧ isInteger size.kind = true) := by
  rw [parseBaseType] at parsed
  split at parsed
  case h_1 p primitive =>
    cases parsed
    have other : token.isStringType = false := by
      rw [Token.isStringType]
      revert primitive
      cases token.kind <;> simp [primitiveOf]
    exact ⟨other.symm, fun isString => by cases isString⟩
  case h_2 =>
    split at parsed
    case h_1 kind =>
      obtain ⟨isString, shape⟩ := parseStringType_isString ⟨rfl, fun _ => rfl⟩ parsed
      exact ⟨isString.trans (by simp [Token.isStringType, kind]), fun _ => shape⟩
    case h_2 kind =>
      obtain ⟨isString, shape⟩ := parseStringType_isString ⟨rfl, fun _ => rfl⟩ parsed
      exact ⟨isString.trans (by simp [Token.isStringType, kind]), fun _ => shape⟩
    case h_3 kind =>
      have other : type.isString = false := by
        rw [parseNamespacedType] at parsed
        split at parsed
        · obtain ⟨_, -, done⟩ := bind_eq_ok.mp parsed
          cases done
          rfl
        · cases parsed
          rfl
      rw [other]
      exact ⟨by simp [Token.isStringType, kind], fun isString => by cases isString⟩
    case h_4 => cases parsed

theorem parseBrackets_isString {base : FieldType} {tokens : List Token}
    (parsed : parseBrackets base tokens = .ok (type, left)) : type.isString = false := by
  have closed : ∀ {build : Nat → FieldType} {tokens left : List Token},
      (∀ n, (build n).isString = false) → parseClosed build tokens = .ok (type, left) →
        type.isString = false := by
    intro build tokens left none parsed
    obtain ⟨⟨size, after⟩, -, parsed⟩ := bind_eq_ok.mp parsed
    obtain ⟨_, -, done⟩ := bind_eq_ok.mp parsed
    cases done
    exact none size
  rw [parseBrackets] at parsed
  split at parsed
  · cases parsed
    rfl
  · exact closed (fun _ => rfl) parsed
  · split at parsed
    · exact closed (fun _ => rfl) parsed
    · cases parsed

theorem spellsString_of_parse {tokens : List Token}
    (parsed : parseFieldType tokens = .ok (type, left)) (isString : type.isString = true) :
    ∃ spelled, tokens = spelled ++ left ∧ SpellsString spelled := by
  obtain ⟨⟨base, afterBase⟩, based, closed⟩ := bind_eq_ok.mp parsed
  dsimp only at closed
  split at closed
  case isTrue =>
    rw [parseBrackets_isString closed] at isString
    cases isString
  case isFalse =>
    cases closed
    cases tokens with
    | nil => cases based
    | cons word rest =>
      obtain ⟨same, shape⟩ := parseBaseType_isString based
      have isWord := same.symm.trans isString
      obtain ⟨rfl, -⟩ | ⟨bound, size, rfl, isBound, isSize⟩ := shape isString
      · exact ⟨[word], rfl, isWord⟩
      · exact ⟨[word, bound, size], rfl, isWord, isBound, isSize⟩

theorem parse_of_spellsString {spelled : List Token} (spells : SpellsString spelled)
    (named : nextKind more = some .identifier)
    (parsed : parseFieldType (spelled ++ more) = .ok (type, left)) :
    left = more ∧ type.isString = true := by
  obtain ⟨⟨base, afterBase⟩, based, closed⟩ := bind_eq_ok.mp parsed
  have ends : nextKind more ≠ some .lBracket ∧ nextKind more ≠ some .lessEqual := by
    rw [named]
    decide
  have reads : afterBase = more ∧ base.isString = true := by
    match spelled, spells with
    | [word], isWord =>
    obtain ⟨same, shape⟩ := parseBaseType_isString based
    have isString := same.trans isWord
    obtain ⟨whole, -⟩ | ⟨bound, size, whole, isBound, -⟩ := shape isString
    · exact ⟨whole.symm, isString⟩
    · have bounded : nextKind more = some .lessEqual :=
        (congrArg nextKind whole).trans (congrArg some isBound)
      exact absurd bounded ends.2
    | [word, bound, size], ⟨isWord, isBound, isSize⟩ =>
    obtain ⟨same, shape⟩ := parseBaseType_isString based
    have isString := same.trans isWord
    obtain ⟨-, unbounded⟩ | ⟨bound', size', whole, -, -⟩ := shape isString
    · exact absurd (congrArg some isBound) unbounded
    · exact ⟨by simpa using (List.cons.inj (List.cons.inj whole).2).2.symm, isString⟩
  obtain ⟨rfl, isString⟩ := reads
  dsimp only at closed
  rw [if_neg ends.1] at closed
  cases closed
  exact ⟨rfl, isString⟩

/-! ### Unquoted strings -/

/-- A string constant up to the first token of its value, which no literal and no minus is. -/
structure UnquotedConstant where
  spelled : List Token
  name : Token
  equals : Token
  first : Token
  spells : SpellsString spelled
  isName : name.kind = .identifier
  isEquals : equals.kind = .equals
  isFirst : beginsDefault first.kind = false

variable (c : UnquotedConstant)

def UnquotedConstant.tokens (run : List Token) : List Token :=
  c.spelled ++ c.name :: c.equals :: c.first :: run

theorem parseConstantValue_unquoted {first : Token} {value : ConstantValue}
    (isFirst : beginsDefault first.kind = false) :
    parseConstantValue type (first :: run) = .ok (value, left) ↔
      type.isString = true ∧ value = .string (unquoted first run) ∧
        left = run.dropWhile continuesString := by
  rw [beginsDefault, Bool.or_eq_false_iff, decide_eq_false_iff_not] at isFirst
  have value : parseConstantValue type (first :: run) = parseValue type false first run := by
    simp only [parseConstantValue, nextKind_cons, Option.some.injEq, isFirst.2, decide_false,
      if_false]
  rw [value, parseValue_other isFirst.1]
  simp

theorem UnquotedConstant.parses
    (parsed : parseFieldOrConstant (c.tokens run) = .ok (declared, left)) :
    ∃ type, ∀ run', parseFieldOrConstant (c.tokens run') =
      .ok ((none, some ⟨type, c.name.text, .string (unquoted c.first run')⟩),
        run'.dropWhile continuesString) := by
  have named : ∀ run', nextKind (c.name :: c.equals :: c.first :: run') = some .identifier :=
    fun _ => congrArg some c.isName
  obtain ⟨⟨type, afterType⟩, typed, -⟩ := bind_eq_ok.mp parsed
  obtain ⟨rfl, isString⟩ := parse_of_spellsString c.spells (named run) typed
  refine ⟨type, fun run' => ?_⟩
  obtain ⟨head, rest, whole, -, used, rfl, -, same⟩ := parseFieldType_takes typed
  have spelled : c.spelled = head :: used := by
    apply List.append_cancel_right
    rw [List.cons_append]
    exact whole
  have typed' : parseFieldType (c.tokens run') =
      .ok (type, c.name :: c.equals :: c.first :: run') := by
    rw [UnquotedConstant.tokens, spelled]
    exact same _ (named run')
  have valued : parseConstantValue type (c.first :: run') =
      .ok (.string (unquoted c.first run'), run'.dropWhile continuesString) :=
    (parseConstantValue_unquoted c.isFirst).mpr ⟨isString, rfl, rfl⟩
  simp only [parseFieldOrConstant, typed', ok_bind, expect, c.isName, if_true, nextKind_cons,
    c.isEquals, List.tail_cons, valued]

theorem parseFieldOrConstant_quiet {tokens : List Token}
    (parsed : parseFieldOrConstant tokens = .ok (declared, left)) :
    ∃ head rest, tokens = head :: rest ∧ beginsType head.kind = true ∧
      (Takes (fun more => parseFieldOrConstant (head :: more)) Plain
          (fun more => Quiet more ∨ nextKind more = nextKind left) rest declared left ∨
        ∃ (c : UnquotedConstant) (run : List Token), head :: rest = c.tokens run) := by
  obtain ⟨⟨type, afterType⟩, typed, named⟩ := bind_eq_ok.mp parsed
  obtain ⟨⟨name, afterName⟩, isName, valued⟩ := bind_eq_ok.mp named
  obtain ⟨head, rest, rfl, begins, used, rfl, usedPlain, same⟩ := parseFieldType_takes typed
  obtain ⟨token, rfl, isIdentifier, rfl⟩ := expect_ok isName
  refine ⟨head, _, rfl, begins, ?_⟩
  have plainToken : Plain token := plain_of_kind isIdentifier (by decide)
  have next : ∀ more, nextKind (token :: more) = some .identifier :=
    fun _ => congrArg some isIdentifier
  dsimp only at valued
  split at valued
  case isTrue isEquals =>
    obtain ⟨equals, afterEquals, rfl, equalsKind⟩ := nextKind_eq isEquals
    obtain ⟨⟨value, rest⟩, constant, done⟩ := bind_eq_ok.mp valued
    cases done
    obtain ⟨usedToo, rfl, usedPlainToo, sameToo⟩ | ⟨isString, first, run, rfl, isFirst, -⟩ :=
      parseConstantValue_cases constant
    · left
      refine ⟨used ++ token :: equals :: usedToo, by simp, ?_, fun more _ => ?_⟩
      · simp only [List.forall_mem_append, List.forall_mem_cons]
        exact ⟨usedPlain, plainToken, plain_of_kind equalsKind (by decide), usedPlainToo⟩
      · simp only [parseFieldOrConstant, List.append_assoc, List.cons_append, same _ (next _),
          ok_bind, expect, isIdentifier, if_true, nextKind_cons, equalsKind, List.tail_cons,
          sameToo more trivial]
    · right
      obtain ⟨spelled, whole, spells⟩ := spellsString_of_parse typed isString
      exact ⟨⟨spelled, token, equals, first, spells, isIdentifier, equalsKind, isFirst⟩, run, whole⟩
  case isFalse noEquals =>
    obtain ⟨⟨default, rest⟩, field, done⟩ := bind_eq_ok.mp valued
    cases done
    obtain ⟨usedToo, rfl, usedPlainToo, sameToo⟩ := tryParseDefaultValue_quiet noEquals field
    left
    refine ⟨used ++ token :: usedToo, by simp, ?_, fun more allowed => ?_⟩
    · simp only [List.forall_mem_append, List.forall_mem_cons]
      exact ⟨usedPlain, plainToken, usedPlainToo⟩
    · have noEquals' : nextKind (usedToo ++ more) ≠ some .equals := by
        cases usedToo with
        | nil =>
          intro isEquals
          obtain quiet | alike := allowed
          · exact (quiet _ isEquals).1 rfl
          · exact noEquals (alike.symm.trans isEquals)
        | cons t usedToo => exact noEquals
      simp only [parseFieldOrConstant, List.append_assoc, List.cons_append, same _ (next _),
        ok_bind, expect, isIdentifier, if_true, noEquals', if_false, sameToo more allowed]

theorem parseFieldOrConstant_cases {tokens : List Token}
    (parsed : parseFieldOrConstant tokens = .ok (declared, left)) :
    ∃ head rest, tokens = head :: rest ∧ beginsType head.kind = true ∧
      (Takes (fun more => parseFieldOrConstant (head :: more)) Plain Follows rest declared left ∨
        ∃ (c : UnquotedConstant) (run : List Token), head :: rest = c.tokens run) := by
  obtain ⟨head, rest, whole, begins, takes | unquoted⟩ := parseFieldOrConstant_quiet parsed
  · exact ⟨head, rest, whole, begins, .inl (takes.mono fun _ follows => .inl follows.quiet)⟩
  · exact ⟨head, rest, whole, begins, .inr unquoted⟩

theorem parseFieldOrConstant_suffix {tokens : List Token}
    (parsed : parseFieldOrConstant tokens = .ok (declared, left)) :
    left <:+ tokens := by
  obtain ⟨head, rest, rfl, -, takes | ⟨c, run, whole⟩⟩ := parseFieldOrConstant_cases parsed
  · obtain ⟨used, rfl, -⟩ := takes
    exact ⟨head :: used, rfl⟩
  · rw [whole] at parsed ⊢
    obtain ⟨type, same⟩ := c.parses parsed
    have read := (same run).symm.trans parsed
    cases read
    apply (List.dropWhile_suffix _).trans
    exact ⟨c.spelled ++ [c.name, c.equals, c.first], by simp [UnquotedConstant.tokens]⟩

/-! ### Declarations with more lines after them -/

/-- The last declaration's value is an unquoted string, and goes on to the end. -/
def EndsUnquoted (tokens : List Token) : Prop :=
  ∃ (earlier : List Token) (c : UnquotedConstant) (run : List Token),
    tokens = earlier ++ c.tokens run ∧ ∀ token ∈ run, continuesString token = true

/-- What a line leaves open, and a type's name takes up. -/
def RunsInto (line next : List Token) : Prop :=
  EndsUnquoted line ∧ nextKind next = some .identifier

theorem EndsUnquoted.after {tokens : List Token} (ends : EndsUnquoted tokens)
    (before : List Token) : EndsUnquoted (before ++ tokens) := by
  obtain ⟨earlier, c, run, rfl, continues⟩ := ends
  exact ⟨before ++ earlier, c, run, (List.append_assoc _ _ _).symm, continues⟩

theorem UnquotedConstant.tokens_append (run more : List Token) :
    c.tokens run ++ more = c.tokens (run ++ more) := by
  simp [UnquotedConstant.tokens]

theorem dropWhile_all (continues : ∀ token ∈ run, continuesString token = true)
    (more : List Token) :
    (run ++ more).takeWhile continuesString = run ++ more.takeWhile continuesString ∧
      (run ++ more).dropWhile continuesString = more.dropWhile continuesString :=
  ⟨List.takeWhile_append_of_pos continues, List.dropWhile_append_of_pos continues⟩

theorem dropWhile_some (stops : run.dropWhile continuesString ≠ []) (more : List Token) :
    (run ++ more).takeWhile continuesString = run.takeWhile continuesString ∧
      (run ++ more).dropWhile continuesString = run.dropWhile continuesString ++ more := by
  induction run with
  | nil => exact absurd rfl stops
  | cons token run ih =>
    cases continues : continuesString token with
    | true =>
      simp only [List.dropWhile_cons, List.takeWhile_cons, List.cons_append, continues,
        if_true] at stops ⊢
      obtain ⟨taken, left⟩ := ih stops
      exact ⟨congrArg _ taken, left⟩
    | false => simp [continues]

theorem follows_append (leftFollows : Follows left) (moreFollows : Follows more) :
    Follows (left ++ more) := by
  cases left with
  | nil => exact moreFollows
  | cons token left => exact leftFollows

theorem parseFieldOrConstant_append {tokens : List Token}
    (parsed : parseFieldOrConstant tokens = .ok (declared, left)) (leftFollows : Follows left)
    (moreFollows : Follows more) (apart : left = [] → ¬ RunsInto tokens more) :
    parseFieldOrConstant (tokens ++ more) = .ok (declared, left ++ more) := by
  obtain ⟨head, rest, rfl, -, takes | ⟨c, run, whole⟩⟩ := parseFieldOrConstant_cases parsed
  · obtain ⟨used, rfl, -, same⟩ := takes
    rw [List.cons_append, List.append_assoc]
    exact same _ (follows_append leftFollows moreFollows)
  · rw [whole] at parsed apart ⊢
    obtain ⟨type, same⟩ := c.parses parsed
    have read := (same run).symm.trans parsed
    cases read
    have stop : (run ++ more).takeWhile continuesString = run.takeWhile continuesString ∧
        (run ++ more).dropWhile continuesString = run.dropWhile continuesString ++ more := by
      by_cases open_ : run.dropWhile continuesString = []
      · have continues := List.dropWhile_eq_nil_iff.mp open_
        have other : more.takeWhile continuesString = [] ∧
            more.dropWhile continuesString = more := by
          cases more with
          | nil => exact ⟨rfl, rfl⟩
          | cons token more =>
            have stops : continuesString token = false := by
              have begins := moreFollows token.kind rfl
              have notName : token.kind ≠ .identifier := fun named =>
                apart open_ ⟨⟨[], c, run, rfl, continues⟩, congrArg some named⟩
              rw [continuesString]
              revert begins notName
              cases token.kind <;> decide
            simp [stops]
        obtain ⟨taken, dropped⟩ := dropWhile_all continues more
        rw [taken, dropped, other.1, other.2, open_, List.append_nil, List.nil_append,
          List.takeWhile_eq_self_iff.mpr continues]
        exact ⟨rfl, rfl⟩
      · exact dropWhile_some open_ more
    rw [c.tokens_append, same (run ++ more), stop.2, unquoted, stop.1]
    rfl

/-! ### Where an unquoted string begins -/

theorem plain_before {word : Token} (notPlain : ¬ Plain word) {before after used : List Token}
    (usedPlain : ∀ token ∈ used, Plain token) (whole : before ++ word :: after = used ++ left) :
    ∃ more, before = used ++ more ∧ left = more ++ word :: after := by
  obtain ⟨more, rfl, split⟩ | ⟨more, rfl, split⟩ := List.append_eq_append_iff.mp whole
  · cases more with
    | nil => exact ⟨[], by simp, by simpa using split.symm⟩
    | cons token more =>
      obtain ⟨rfl, -⟩ := List.cons.inj split
      exact absurd (usedPlain word (by simp)) notPlain
  · exact ⟨more, rfl, split⟩

theorem SpellsString.starts {spelled : List Token} (spells : SpellsString spelled) :
    ∃ word tail, spelled = word :: tail ∧ ¬ Plain word ∧ (∀ token ∈ tail, Plain token) ∧
      (tail = [] ∨ ∃ bound size, tail = [bound, size] ∧ bound.kind = .lessEqual) := by
  match spelled, spells with
  | [word], isWord =>
  refine ⟨word, [], rfl, ?_, List.forall_mem_nil _, .inl rfl⟩
  rw [Plain, show word.isStringType = true from isWord]
  decide
  | [word, bound, size], ⟨isWord, isBound, isSize⟩ =>
  refine ⟨word, [bound, size], rfl, ?_, ?_, .inr ⟨bound, size, rfl, isBound⟩⟩
  · rw [Plain, isWord]
    decide
  · simp only [List.forall_mem_cons]
    exact ⟨plain_of_kind isBound (by decide),
      plain_of_literal (isLiteral_of_isInteger isSize), List.forall_mem_nil _⟩

theorem unquoted_left {earlier : List Token} (begun : earlier ≠ [])
    (parsed : parseFieldOrConstant (earlier ++ c.tokens run) = .ok (declared, left))
    (leftFollows : Follows left) : ∃ more, left = more ++ c.tokens run := by
  obtain ⟨word, tail, spelled, notPlain, -, shape⟩ := c.spells.starts
  have constant : c.tokens run = word :: (tail ++ c.name :: c.equals :: c.first :: run) := by
    rw [UnquotedConstant.tokens, spelled, List.cons_append]
  obtain ⟨head, rest, whole, -, takes | ⟨c', run', whole'⟩⟩ := parseFieldOrConstant_cases parsed
  · obtain ⟨used, rfl, usedPlain, -⟩ := takes
    cases earlier with
    | nil => exact absurd rfl begun
    | cons first before =>
      rw [constant] at whole ⊢
      obtain ⟨more, -, split⟩ := plain_before notPlain usedPlain (List.cons.inj whole).2
      exact ⟨more, split⟩
  · rw [whole, whole'] at parsed
    obtain ⟨type, same⟩ := c'.parses parsed
    have read := (same run').symm.trans parsed
    cases read
    obtain ⟨word', tail', spelled', -, tailPlain, -⟩ := c'.spells.starts
    have begins : earlier ++ c.tokens run =
        word' :: ((tail' ++ [c'.name, c'.equals]) ++ c'.first :: run') := by
      rw [whole, whole', UnquotedConstant.tokens, spelled']
      simp
    cases earlier with
    | nil => exact absurd rfl begun
    | cons first before =>
      rw [constant] at begins ⊢
      have usedPlain : ∀ token ∈ tail' ++ [c'.name, c'.equals], Plain token := by
        simp only [List.forall_mem_append, List.forall_mem_cons]
        exact ⟨tailPlain, plain_of_kind c'.isName (by decide),
          plain_of_kind c'.isEquals (by decide), List.forall_mem_nil _⟩
      obtain ⟨more, -, split⟩ := plain_before notPlain usedPlain (List.cons.inj begins).2
      cases more with
      | nil =>
        -- the string type's word would be the value, and `<=` or `=` begin a declaration
        obtain ⟨-, rfl⟩ := List.cons.inj split
        obtain rfl | ⟨bound, size, rfl, isBound⟩ := shape
        · have isEquals : continuesString c.equals = false := by
            simp [continuesString, c.isEquals, isInteger]
          have isName : continuesString c.name = true := by
            simp [continuesString, c.isName]
          simp only [List.nil_append, List.dropWhile_cons, isName, isEquals, if_true] at leftFollows
          have begins := leftFollows c.equals.kind rfl
          rw [c.isEquals] at begins
          cases begins
        · have isBound' : continuesString bound = false := by
            simp [continuesString, isBound, isInteger]
          simp only [List.cons_append, List.dropWhile_cons, isBound'] at leftFollows
          have begins := leftFollows bound.kind rfl
          rw [isBound] at begins
          cases begins
      | cons token more =>
        obtain ⟨-, split⟩ := List.cons.inj split
        have runPlain : ∀ token ∈ run'.takeWhile continuesString, Plain token :=
          fun token member => plain_of_continues (List.mem_takeWhile_imp member)
        rw [← List.takeWhile_append_dropWhile (p := continuesString) (l := run')] at split
        obtain ⟨last, -, split⟩ := plain_before notPlain runPlain split.symm
        exact ⟨last, split⟩

/-! ### Messages -/

def Message.append (first second : Message) : Message :=
  ⟨first.fields ++ second.fields, first.constants ++ second.constants⟩

def NoSeparator (tokens : List Token) : Prop := ∀ token ∈ tokens, token.kind ≠ .tripleDash

theorem parseMessageImpl_step (noSeparator : token.kind ≠ .tripleDash)
    (parsed : parseFieldOrConstant (token :: rest) = .ok (declared, left)) :
    parseMessageImpl (token :: rest) = (parseMessageImpl left).map
      (Message.append ⟨declared.1.toList, declared.2.toList⟩) := by
  rw [parseMessageImpl, if_neg noSeparator]
  split
  case h_1 e failed =>
    rw [parsed] at failed
    cases failed
  case h_2 field constant left' read =>
    rw [parsed] at read
    cases read
    cases parseMessageImpl left <;> rfl

theorem parseMessageImpl_ok (noSeparator : NoSeparator (token :: rest))
    (parsed : parseMessageImpl (token :: rest) = .ok message) :
    ∃ declared left messageLeft, parseFieldOrConstant (token :: rest) = .ok (declared, left) ∧
      parseMessageImpl left = .ok messageLeft ∧
      message = Message.append ⟨declared.1.toList, declared.2.toList⟩ messageLeft ∧
      NoSeparator left := by
  have first := noSeparator token List.mem_cons_self
  cases read : parseFieldOrConstant (token :: rest) with
  | error e =>
    rw [parseMessageImpl, if_neg first] at parsed
    split at parsed
    · cases parsed
    · simp_all
  | ok result =>
    obtain ⟨declared, left⟩ := result
    rw [parseMessageImpl_step first read] at parsed
    cases readLeft : parseMessageImpl left with
    | error e =>
      rw [readLeft] at parsed
      cases parsed
    | ok messageLeft =>
      rw [readLeft] at parsed
      cases parsed
      refine ⟨declared, left, messageLeft, rfl, readLeft, rfl, fun t member => ?_⟩
      exact noSeparator t ((parseFieldOrConstant_suffix read).subset member)

theorem follows_of_parse {tokens : List Token} (noSeparator : NoSeparator tokens)
    (parsed : parseMessageImpl tokens = .ok message) :
    Follows tokens := by
  cases tokens with
  | nil => exact nofun
  | cons token rest =>
    obtain ⟨declared, left, _, read, -⟩ := parseMessageImpl_ok noSeparator parsed
    obtain ⟨head, tail, same, begins, -⟩ := parseFieldOrConstant_cases read
    obtain ⟨rfl, rfl⟩ := List.cons.inj same
    intro kind isKind
    cases isKind
    exact begins

theorem parseMessageImpl_append {tokens : List Token} (noSeparator : NoSeparator tokens)
    (parsed : parseMessageImpl tokens = .ok message) (moreFollows : Follows more)
    (apart : ¬ RunsInto tokens more) :
    parseMessageImpl (tokens ++ more) = (parseMessageImpl more).map message.append := by
  induction tokens using parseMessageImpl.induct generalizing message with
  | case1 =>
    rw [parseMessageImpl] at parsed
    cases parsed
    rw [List.nil_append]
    cases parseMessageImpl more <;> rfl
  | case2 token rest separator => exact absurd separator (noSeparator token List.mem_cons_self)
  | case3 token rest _ e failed =>
    obtain ⟨_, _, _, read, -⟩ := parseMessageImpl_ok noSeparator parsed
    rw [failed] at read
    cases read
  | case4 token rest first field constant left read ih =>
    obtain ⟨declared, left', messageLeft, read', parsedLeft, rfl, noSeparatorLeft⟩ :=
      parseMessageImpl_ok noSeparator parsed
    rw [read] at read'
    cases read'
    have leftFollows := follows_of_parse noSeparatorLeft parsedLeft
    obtain ⟨before, whole⟩ := parseFieldOrConstant_suffix read
    have readMore : parseFieldOrConstant (token :: (rest ++ more)) = _ :=
      parseFieldOrConstant_append read leftFollows moreFollows fun _ => apart
    have parsedMore := ih noSeparatorLeft parsedLeft fun runs =>
      apart ⟨whole ▸ runs.1.after before, runs.2⟩
    rw [List.cons_append, parseMessageImpl_step first readMore, parsedMore]
    cases parseMessageImpl more <;> simp [Except.map, Message.append]

theorem parseMessageImpl_runsInto {tokens : List Token} {whole : Message}
    (noSeparator : NoSeparator tokens) (parsed : parseMessageImpl tokens = .ok message)
    (moreFollows : Follows more) (texts : ∀ token ∈ more, token.text ≠ [])
    (runs : RunsInto tokens more) (parsedWhole : parseMessageImpl (tokens ++ more) = .ok whole) :
    ¬ message.constants <+: whole.constants := by
  induction tokens using parseMessageImpl.induct generalizing message whole with
  | case1 =>
    obtain ⟨⟨earlier, c, run, none, -⟩, -⟩ := runs
    simp [UnquotedConstant.tokens] at none
  | case2 token rest separator => exact absurd separator (noSeparator token List.mem_cons_self)
  | case3 token rest _ e failed =>
    obtain ⟨_, _, _, read, -⟩ := parseMessageImpl_ok noSeparator parsed
    rw [failed] at read
    cases read
  | case4 token rest first field constant left read ih =>
    obtain ⟨declared, left', messageLeft, read', parsedLeft, rfl, noSeparatorLeft⟩ :=
      parseMessageImpl_ok noSeparator parsed
    rw [read] at read'
    cases read'
    have leftFollows := follows_of_parse noSeparatorLeft parsedLeft
    obtain ⟨⟨earlier, c, run, split, continues⟩, named⟩ := runs
    cases earlier with
    | nil =>
      rw [List.nil_append] at split
      rw [split] at read
      obtain ⟨type, same⟩ := c.parses read
      have alone := (same run).symm.trans read
      cases alone
      have joined : token :: (rest ++ more) = c.tokens (run ++ more) := by
        rw [← List.cons_append, split, c.tokens_append]
      have readMore := same (run ++ more)
      rw [← joined] at readMore
      rw [List.cons_append, parseMessageImpl_step first readMore] at parsedWhole
      cases later : parseMessageImpl ((run ++ more).dropWhile continuesString) with
      | error e =>
        rw [later] at parsedWhole
        cases parsedWhole
      | ok messageLater =>
        rw [later] at parsedWhole
        cases parsedWhole
        rintro ⟨others, prefixed⟩
        have value : unquoted c.first run = unquoted c.first (run ++ more) := by
          have constants := (List.cons.inj prefixed).1
          simpa using constants
        obtain ⟨next, more, rfl, isName⟩ := nextKind_eq named
        have taken : continuesString next = true := by simp [continuesString, isName]
        obtain ⟨taking, -⟩ := dropWhile_all continues (next :: more)
        rw [unquoted, unquoted, taking, List.takeWhile_eq_self_iff.mpr continues,
          List.takeWhile_cons_of_pos taken] at value
        have lengths := congrArg List.length (List.append_cancel_left value)
        have text := List.length_pos_iff.mpr (texts next List.mem_cons_self)
        simp only [List.map_append, List.flatten_append, List.map_cons, List.flatten_cons,
          List.length_append] at lengths
        omega
    | cons head earlier =>
      rw [split] at read
      obtain ⟨before, rfl⟩ := unquoted_left c (List.cons_ne_nil _ _) read leftFollows
      have notEmpty : before ++ c.tokens run ≠ [] := by
        simp [UnquotedConstant.tokens]
      rw [← split] at read
      have readMore : parseFieldOrConstant (token :: (rest ++ more)) = _ :=
        parseFieldOrConstant_append read leftFollows moreFollows fun empty =>
          absurd empty notEmpty
      rw [List.cons_append, parseMessageImpl_step first readMore] at parsedWhole
      cases later : parseMessageImpl (before ++ c.tokens run ++ more) with
      | error e =>
        rw [later] at parsedWhole
        cases parsedWhole
      | ok messageLater =>
        rw [later] at parsedWhole
        cases parsedWhole
        intro prefixed
        apply ih noSeparatorLeft parsedLeft ⟨⟨before, c, run, rfl, continues⟩, named⟩ later
        exact (List.prefix_append_right_inj _).mp prefixed

/-! ### Lines -/

theorem candidates_separator {text : Text} {n : Nat}
    (found : (TokenKind.tripleDash, n) ∈ candidates text) : ['-', '-', '-'] <+: text := by
  have spelled : ∀ word ∈ literals, word.2 = .tripleDash → word.1 = ['-', '-', '-'] := by decide
  have other : ∀ pattern ∈ linePatterns ++ quotePatterns, pattern.1 ≠ .tripleDash := by
    simp [linePatterns, quotePatterns]
  obtain literal | regex := List.mem_append.mp found
  · obtain ⟨word, kept, same⟩ := List.mem_map.mp literal
    obtain ⟨listed, begins⟩ := List.mem_filter.mp kept
    rw [← spelled word listed (congrArg Prod.fst same)]
    exact List.isPrefixOf_iff_prefix.mp begins
  · obtain ⟨pattern, listed, shown⟩ := List.mem_filterMap.mp regex
    obtain ⟨m, -, same⟩ := Option.map_eq_some_iff.mp shown
    exact absurd (congrArg Prod.fst same) (other pattern listed)

theorem lexFrom_tokens {passed : Nat} {text : Text} {tokens : List Token}
    (lexed : lexFrom passed text = .ok tokens) :
    ∀ token ∈ tokens, token.text ≠ [] ∧ (token.kind = .tripleDash → ['-', '-', '-'] <:+: text) := by
  induction text generalizing passed tokens with
  | nil =>
    cases lexed
    exact List.forall_mem_nil _
  | cons c rest ih =>
    have later : ∀ {passed : Nat} {tokens : List Token}, lexFrom passed rest = .ok tokens →
        ∀ token ∈ tokens, token.text ≠ [] ∧
          (token.kind = .tripleDash → ['-', '-', '-'] <:+: c :: rest) := by
      intro passed tokens lexed token member
      obtain ⟨text, dashes⟩ := ih lexed token member
      exact ⟨text, fun kind => List.infix_cons (dashes kind)⟩
    cases passed with
    | succ passed => exact later lexed
    | zero =>
      rw [lexFrom] at lexed
      split at lexed
      · exact later lexed
      · split at lexed
        · exact later lexed
        · split at lexed
          case h_1 => cases lexed
          case h_2 kind n longest =>
            obtain ⟨more, lexedMore, done⟩ := bind_eq_ok.mp lexed
            cases done
            have found := longestMatch_mem longest
            rw [List.forall_mem_cons]
            refine ⟨⟨?_, ?_⟩, later lexedMore⟩
            · have positive := (candidates_fit _ found).1
              intro empty
              have length := congrArg List.length empty
              rw [List.length_take, List.length_cons, List.length_nil] at length
              dsimp only at positive
              omega
            · rintro rfl
              exact (candidates_separator found).isInfix

/-- The tokens of a line, none where it does not lex. -/
def lineTokens (line : Text) : List Token := (lex line).toOption.getD []

theorem lex_of_parse (parsed : parseMessage line = .ok message) :
    lex line = .ok (lineTokens line) ∧ parseMessageImpl (lineTokens line) = .ok message := by
  rw [parseMessage] at parsed
  split at parsed
  case h_1 => cases parsed
  case h_2 tokens lexed =>
    have same : lineTokens line = tokens := by
      rw [lineTokens, lexed]
      rfl
    rw [same]
    exact ⟨lexed, parsed⟩

theorem parse_of_lex {tokens : List Token} (lexed : lex line = .ok tokens) :
    parseMessage line = parseMessageImpl tokens := by
  rw [parseMessage, lexed]

theorem lex_join {lines : List Text} (oneLine : ∀ line ∈ lines, '\n' ∉ line)
    (lexed : ∀ line ∈ lines, lex line = .ok (lineTokens line)) :
    lex (List.intercalate ['\n'] lines) = .ok (lines.map lineTokens).flatten := by
  induction lines with
  | nil => rfl
  | cons line lines ih =>
    rw [List.forall_mem_cons] at oneLine lexed
    cases lines with
    | nil => simpa [List.intercalate] using lexed.1
    | cons next lines =>
      have joined : List.intercalate ['\n'] (line :: next :: lines) =
          line ++ '\n' :: List.intercalate ['\n'] (next :: lines) := by
        simp [List.intercalate]
      rw [joined, lex_line _ oneLine.1 lexed.1, ih oneLine.2 lexed.2]
      rfl

/-! ### The whole file -/

theorem follows_flatten {tokens : List (List Token)} (follows : ∀ line ∈ tokens, Follows line) :
    Follows tokens.flatten := by
  induction tokens with
  | nil => exact nofun
  | cons line tokens ih =>
    rw [List.forall_mem_cons] at follows
    exact follows_append follows.1 (ih follows.2)

theorem nextKind_flatten (tokens : List (List Token)) :
    nextKind tokens.flatten = (tokens.filter (· ≠ [])).head?.bind nextKind := by
  induction tokens with
  | nil => rfl
  | cons line tokens ih =>
    cases line with
    | nil => simpa using ih
    | cons token line => rfl

theorem isChain_cons_head {α : Type} {R : α → α → Prop} {a : α} {items : List α} :
    (a :: items).IsChain R ↔ (∀ b ∈ items.head?, R a b) ∧ items.IsChain R := by
  cases items with
  | nil => simp
  | cons b items => simp [List.isChain_cons_cons]

theorem exists_of_forall₂ {α β : Type} {R : α → β → Prop} {items : List α} {others : List β}
    (all : List.Forall₂ R items others) : ∀ a ∈ items, ∃ b, R a b := by
  induction all with
  | nil => exact List.forall_mem_nil _
  | cons first _ ih => exact List.forall_mem_cons.mpr ⟨⟨_, first⟩, ih⟩

theorem parse_flatten {tokens : List (List Token)} {messages : List Message}
    (noSeparator : ∀ line ∈ tokens, NoSeparator line)
    (texts : ∀ line ∈ tokens, ∀ token ∈ line, token.text ≠ [])
    (parsed : List.Forall₂ (fun line message => parseMessageImpl line = .ok message) tokens
      messages) :
    parseMessageImpl tokens.flatten =
        .ok ⟨messages.flatMap Message.fields, messages.flatMap Message.constants⟩ ↔
      (tokens.filter (· ≠ [])).IsChain fun line next => ¬ RunsInto line next := by
  induction parsed with
  | nil => simp [parseMessageImpl]
  | @cons line message tokens messages read parsed ih =>
    rw [List.forall_mem_cons] at noSeparator texts
    have rest := ih noSeparator.2 texts.2
    have follows : Follows tokens.flatten := by
      apply follows_flatten
      intro next member
      obtain ⟨message', read'⟩ := exists_of_forall₂ parsed next member
      exact follows_of_parse (noSeparator.2 next member) read'
    cases line with
    | nil =>
      rw [parseMessageImpl] at read
      cases read
      simpa using rest
    | cons token line =>
      have kept : ((token :: line) :: tokens).filter (· ≠ []) =
          (token :: line) :: tokens.filter (· ≠ []) := rfl
      rw [kept, isChain_cons_head, ← rest, List.flatten_cons, List.flatMap_cons, List.flatMap_cons]
      by_cases runs : RunsInto (token :: line) tokens.flatten
      · have texts' : ∀ t ∈ tokens.flatten, t.text ≠ [] := by
          intro t member
          obtain ⟨next, listed, inside⟩ := List.mem_flatten.mp member
          exact texts.2 next listed t inside
        constructor
        · intro whole
          have lost := parseMessageImpl_runsInto noSeparator.1 read follows texts' runs whole
          exact absurd (List.prefix_append _ _) lost
        · rintro ⟨apart, -⟩
          have next := runs.2
          rw [nextKind_flatten] at next
          obtain ⟨line', first, named⟩ := Option.bind_eq_some_iff.mp next
          exact absurd ⟨runs.1, named⟩ (apart line' first)
      · rw [parseMessageImpl_append noSeparator.1 read follows runs]
        have apart : ∀ next ∈ (tokens.filter (· ≠ [])).head?, ¬ RunsInto (token :: line) next := by
          rintro next first ⟨ends, named⟩
          apply runs
          refine ⟨ends, ?_⟩
          rw [nextKind_flatten]
          exact Option.bind_eq_some_iff.mpr ⟨next, first, named⟩
        rw [and_iff_right apart]
        cases parseMessageImpl tokens.flatten with
        | error e => simp [Except.map]
        | ok whole =>
          obtain ⟨fields, constants⟩ := whole
          simp [Except.map, Message.append]

/-- Joining lines keeps the declarations of each exactly where no unquoted string constant ends a
line and the next line with tokens begins with a name. -/
theorem joined_iff {lines : List Text} {messages : List Message}
    (oneLine : ∀ line ∈ lines, '\n' ∉ line)
    (noSeparator : ∀ line ∈ lines, ¬ ['-', '-', '-'] <:+: line)
    (accepted : List.Forall₂ (fun line message => parseMessage line = .ok message) lines
      messages) :
    parseMessage (List.intercalate ['\n'] lines) =
        .ok ⟨messages.flatMap Message.fields, messages.flatMap Message.constants⟩ ↔
      ((lines.map lineTokens).filter (· ≠ [])).IsChain fun line next => ¬ RunsInto line next := by
  have lexed : ∀ line ∈ lines, lex line = .ok (lineTokens line) := by
    intro line member
    obtain ⟨message, parsed⟩ := exists_of_forall₂ accepted line member
    exact (lex_of_parse parsed).1
  rw [parse_of_lex (lex_join oneLine lexed)]
  apply parse_flatten
  · simp only [List.forall_mem_map]
    intro line member token inside separator
    exact noSeparator line member ((lexFrom_tokens (lexed line member) token inside).2 separator)
  · simp only [List.forall_mem_map]
    exact fun line member token inside => (lexFrom_tokens (lexed line member) token inside).1
  · rw [List.forall₂_map_left_iff]
    exact accepted.imp fun line message parsed => (lex_of_parse parsed).2

theorem parseMessage_one (lexed : lex line = .ok (token :: rest))
    (noSeparator : token.kind ≠ .tripleDash)
    (parsed : parseFieldOrConstant (token :: rest) = .ok (declared, [])) :
    parseMessage line = .ok ⟨declared.1.toList, declared.2.toList⟩ := by
  rw [parse_of_lex lexed, parseMessageImpl_step noSeparator parsed, parseMessageImpl]
  simp [Except.map, Message.append]

def pathLine : Text := "string PARAM=/path".toList

def pathConstant : Constant := ⟨.string, "PARAM".toList, .string "/path".toList⟩

theorem pathLine_parses : parseMessage pathLine = .ok ⟨[], [pathConstant]⟩ :=
  parseMessage_one (show lex pathLine = .ok [⟨.string, "string".toList⟩,
      ⟨.identifier, "PARAM".toList⟩, ⟨.equals, ['=']⟩, ⟨.slash, ['/']⟩,
      ⟨.identifier, "path".toList⟩] by decide +kernel) (by decide) rfl

def countLine : Text := "int32 x".toList

def countField : Field := ⟨.primitive .int32, ['x'], none⟩

theorem countLine_parses : parseMessage countLine = .ok ⟨[countField], []⟩ :=
  parseMessage_one (show lex countLine = .ok [⟨.int32, "int32".toList⟩, ⟨.identifier, ['x']⟩] by
    decide +kernel) (by decide) rfl

theorem joined_count : parseMessage (List.intercalate ['\n'] [pathLine, countLine]) =
    .ok ⟨[countField], [pathConstant]⟩ := by
  apply (joined_iff (by decide +kernel) (by decide +kernel)
    (.cons pathLine_parses (.cons countLine_parses .nil))).mpr
  have tokens : ([pathLine, countLine].map lineTokens).filter (· ≠ []) =
      [lineTokens pathLine, lineTokens countLine] := by
    decide +kernel
  rw [tokens, List.isChain_cons_cons]
  refine ⟨fun runs => ?_, List.IsChain.singleton _⟩
  have named : nextKind (lineTokens countLine) ≠ some .identifier := by decide +kernel
  exact named runs.2

def pointLine : Text := "geometry_msgs/Point p".toList

def pointField : Field :=
  ⟨.namespacedType (some "geometry_msgs".toList) "Point".toList, ['p'], none⟩

theorem pointLine_parses : parseMessage pointLine = .ok ⟨[pointField], []⟩ :=
  parseMessage_one (show lex pointLine = .ok [⟨.identifier, "geometry_msgs".toList⟩,
      ⟨.slash, ['/']⟩, ⟨.identifier, "Point".toList⟩, ⟨.identifier, ['p']⟩] by decide +kernel)
    (by decide) rfl

/-- The field of the second line ends up in the constant's value. -/
theorem lines_claim_fails : ¬ ∀ (lines : List Text) (messages : List Message),
    (∀ line ∈ lines, '\n' ∉ line) → (∀ line ∈ lines, ¬ ['-', '-', '-'] <:+: line) →
    List.Forall₂ (fun line message => parseMessage line = .ok message) lines messages →
    parseMessage (List.intercalate ['\n'] lines) =
      .ok ⟨messages.flatMap Message.fields, messages.flatMap Message.constants⟩ := by
  intro stated
  have joined := stated [pathLine, pointLine] _ (by decide +kernel) (by decide +kernel)
    (.cons pathLine_parses (.cons pointLine_parses .nil))
  have swallowed : parseMessage (List.intercalate ['\n'] [pathLine, pointLine]) =
      .ok ⟨[], [⟨.string, "PARAM".toList, .string "/pathgeometry_msgs/Pointp".toList⟩]⟩ :=
    parseMessage_one (show lex (List.intercalate ['\n'] [pathLine, pointLine]) =
      .ok [⟨.string, "string".toList⟩, ⟨.identifier, "PARAM".toList⟩, ⟨.equals, ['=']⟩,
        ⟨.slash, ['/']⟩, ⟨.identifier, "path".toList⟩, ⟨.identifier, "geometry_msgs".toList⟩,
        ⟨.slash, ['/']⟩, ⟨.identifier, "Point".toList⟩, ⟨.identifier, ['p']⟩] by decide +kernel)
      (by decide) rfl
  rw [swallowed] at joined
  cases joined

end NanoRos.Rosidl
