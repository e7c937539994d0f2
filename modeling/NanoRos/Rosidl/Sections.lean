import NanoRos.Rosidl.MsgLines

/-! The `.msg`, `.srv` and `.action` parsers against the whole file: a section's parser stops at the
first `---`, and the last one of a file may stop before the end. -/

namespace NanoRos.Rosidl

structure Service where
  request : Message
  response : Message

structure ActionSpec where
  goal : Message
  result : Message
  feedback : Message

structure Action where
  spec : ActionSpec

/-- `parse_message_impl` and the tokens it leaves. -/
def parseSection (tokens : List Token) : Except ParseError (Message × List Token) :=
  match tokens with
  | [] => .ok (⟨[], []⟩, [])
  | token :: rest =>
    if token.kind = .tripleDash then .ok (⟨[], []⟩, token :: rest)
    else
      match _parsed : parseFieldOrConstant (token :: rest) with
      | .error e => .error e
      | .ok ((field, constant), left) => do
        let (message, left) ← parseSection left
        .ok (⟨field.toList ++ message.fields, constant.toList ++ message.constants⟩, left)
termination_by tokens.length
decreasing_by exact parseFieldOrConstant_left _parsed

theorem parseSection_failed {token : Token} {rest : List Token}
    (noSeparator : token.kind ≠ .tripleDash) {e : ParseError}
    (failed : parseFieldOrConstant (token :: rest) = .error e) :
    parseSection (token :: rest) = .error e ∧ parseMessageImpl (token :: rest) = .error e := by
  rw [parseSection, if_neg noSeparator, parseMessageImpl, if_neg noSeparator]
  constructor
  · split <;> simp_all
  · split <;> simp_all

variable {declared : Option Field × Option Constant} {left tokens : List Token} {k : Nat}

theorem parseSection_step {token : Token} {rest : List Token}
    (noSeparator : token.kind ≠ .tripleDash)
    (parsed : parseFieldOrConstant (token :: rest) = .ok (declared, left)) :
    parseSection (token :: rest) = (parseSection left).map fun read =>
      (Message.append ⟨declared.1.toList, declared.2.toList⟩ read.1, read.2) := by
  rw [parseSection, if_neg noSeparator]
  split
  case h_1 e failed =>
    rw [parsed] at failed
    cases failed
  case h_2 field constant left' read =>
    rw [parsed] at read
    cases read
    cases parseSection left <;> rfl

theorem parseMessageImpl_eq (tokens : List Token) :
    parseMessageImpl tokens = (parseSection tokens).map Prod.fst := by
  induction tokens using parseSection.induct with
  | case1 =>
    rw [parseSection, parseMessageImpl]
    rfl
  | case2 token rest separator =>
    rw [parseSection, parseMessageImpl, if_pos separator, if_pos separator]
    rfl
  | case3 token rest other e failed =>
    rw [(parseSection_failed other failed).1, (parseSection_failed other failed).2]
    rfl
  | case4 token rest other field constant left read ih =>
    rw [parseMessageImpl_step other read, parseSection_step other read, ih]
    cases parseSection left <;> rfl

def parseService (input : Text) : Except ParseError Service :=
  match lex input with
  | .error left => .error (.lexerError left)
  | .ok tokens => do
    let (request, rest) ← parseSection tokens
    let (_, rest) ← expect .tripleDash rest
    let (response, _) ← parseSection rest
    .ok ⟨request, response⟩

def parseAction (input : Text) : Except ParseError Action :=
  match lex input with
  | .error left => .error (.lexerError left)
  | .ok tokens => do
    let (goal, rest) ← parseSection tokens
    let (_, rest) ← expect .tripleDash rest
    let (result, rest) ← parseSection rest
    let (_, rest) ← expect .tripleDash rest
    let (feedback, _) ← parseSection rest
    .ok ⟨goal, result, feedback⟩

/-! ### Sections -/

/-- The tokens of a section are its declarations, one after the other. -/
inductive Declares : List Token → Message → Prop where
  | nothing : Declares [] ⟨[], []⟩
  | declaration {block rest : List Token} {declared : Option Field × Option Constant}
      {message : Message} (read : parseFieldOrConstant (block ++ rest) = .ok (declared, rest))
      (more : Declares rest message) :
      Declares (block ++ rest) (Message.append ⟨declared.1.toList, declared.2.toList⟩ message)

/-- Sections with that many separators between them, and nothing else. -/
inductive Divided : Nat → List Token → List Message → Prop where
  | last {section_ : List Token} {message : Message} (declares : Declares section_ message) :
      Divided 0 section_ [message]
  | separated {k : Nat} {section_ rest : List Token} {separator : Token} {message : Message}
      {messages : List Message} (declares : Declares section_ message)
      (isSeparator : separator.kind = .tripleDash) (more : Divided k rest messages) :
      Divided (k + 1) (section_ ++ separator :: rest) (message :: messages)

/-- Where a section ends: at the end of the file, or before a separator. -/
def Closes (tokens : List Token) : Prop := ∀ kind ∈ nextKind tokens, kind = .tripleDash

theorem closes_iff (tokens : List Token) :
    Closes tokens ↔ tokens = [] ∨
      ∃ separator rest, tokens = separator :: rest ∧ separator.kind = .tripleDash := by
  cases tokens with
  | nil => exact ⟨fun _ => .inl rfl, fun _ _ member => by cases member⟩
  | cons token rest =>
    constructor
    · intro closes
      exact .inr ⟨token, rest, rfl, closes token.kind rfl⟩
    · rintro (none_ | ⟨separator, rest', same, isSeparator⟩) kind member
      · cases none_
      · cases same
        cases member
        exact isSeparator

theorem Closes.quiet (closes : Closes tokens) : Quiet tokens := by
  intro kind member
  rw [closes kind member]
  decide

theorem parseFieldOrConstant_alike {block other : List Token}
    (parsed : parseFieldOrConstant (block ++ left) = .ok (declared, left))
    (alike : Closes other ∨ nextKind other = nextKind left) :
    parseFieldOrConstant (block ++ other) = .ok (declared, other) := by
  obtain ⟨head, rest, whole, -, takes | ⟨c, run, isConstant⟩⟩ := parseFieldOrConstant_quiet parsed
  · obtain ⟨used, rfl, -, same⟩ := takes
    rw [← List.cons_append] at whole
    rw [List.append_cancel_right whole, List.cons_append]
    exact same other (alike.imp Closes.quiet id)
  · rw [isConstant] at whole
    rw [whole] at parsed
    obtain ⟨type, same⟩ := c.parses parsed
    have read := (same run).symm.trans parsed
    cases read
    have split := List.takeWhile_append_dropWhile (p := continuesString) (l := run)
    have taken : block = c.tokens (run.takeWhile continuesString) := by
      apply (List.append_left_inj (run.dropWhile continuesString)).mp
      rw [whole, c.tokens_append, split]
    have stops : other.takeWhile continuesString = [] ∧
        other.dropWhile continuesString = other := by
      cases other with
      | nil => exact ⟨rfl, rfl⟩
      | cons token more =>
        have stop : continuesString token = false := by
          obtain closes | alike := alike
          · have isSeparator := closes token.kind rfl
            simp [continuesString, isSeparator, isInteger]
          · have next := List.head?_dropWhile_not continuesString run
            cases left : run.dropWhile continuesString with
            | nil =>
              rw [left] at alike
              cases alike
            | cons first rest =>
              rw [left] at alike next
              have sameKind : token.kind = first.kind := Option.some.inj alike
              rw [continuesString, sameKind, ← continuesString]
              simpa using next
        simp [stop]
    have continues : ∀ token ∈ run.takeWhile continuesString, continuesString token = true :=
      fun token member => List.mem_takeWhile_imp member
    obtain ⟨takes, drops⟩ := dropWhile_all continues other
    rw [stops.1, List.append_nil] at takes
    rw [stops.2] at drops
    rw [taken, c.tokens_append, same, drops, unquoted, takes]
    rfl

theorem begins_no_separator (parsed : parseFieldOrConstant tokens = .ok (declared, left)) :
    ∃ token rest, tokens = token :: rest ∧ token.kind ≠ .tripleDash := by
  obtain ⟨token, rest, whole, begins, -⟩ := parseFieldOrConstant_cases parsed
  refine ⟨token, rest, whole, fun same => ?_⟩
  rw [same] at begins
  cases begins

theorem declares_of_parseSection {message : Message}
    (parsed : parseSection tokens = .ok (message, left)) :
    ∃ section_, tokens = section_ ++ left ∧ Declares section_ message ∧ Closes left := by
  induction tokens using parseSection.induct generalizing message left with
  | case1 =>
    rw [parseSection] at parsed
    cases parsed
    exact ⟨[], rfl, .nothing, (closes_iff []).mpr (.inl rfl)⟩
  | case2 token rest separator =>
    rw [parseSection, if_pos separator] at parsed
    cases parsed
    exact ⟨[], rfl, .nothing, (closes_iff _).mpr (.inr ⟨token, rest, rfl, separator⟩)⟩
  | case3 token rest other e failed =>
    rw [(parseSection_failed other failed).1] at parsed
    cases parsed
  | case4 token rest other field constant after read ih =>
    rw [parseSection_step other read] at parsed
    cases onward : parseSection after with
    | error e =>
      rw [onward] at parsed
      cases parsed
    | ok result =>
      rw [onward] at parsed
      cases parsed
      obtain ⟨section_, rfl, declares, closes⟩ := ih onward
      obtain ⟨block, whole⟩ := parseFieldOrConstant_suffix read
      refine ⟨block ++ section_, ?_, .declaration ?_ declares, closes⟩
      · rw [List.append_assoc, whole]
      · refine parseFieldOrConstant_alike
          (show parseFieldOrConstant (block ++ (section_ ++ result.2)) = _ from ?_) ?_
        · rw [whole]
          exact read
        · cases section_ with
          | nil => exact .inl ((closes_iff []).mpr (.inl rfl))
          | cons first more => exact .inr rfl

theorem parseSection_of_declares {section_ : List Token} {message : Message}
    (declares : Declares section_ message) (closes : Closes left) :
    parseSection (section_ ++ left) = .ok (message, left) := by
  induction declares with
  | nothing =>
    rw [List.nil_append]
    obtain rfl | ⟨separator, rest, rfl, isSeparator⟩ := (closes_iff left).mp closes
    · rw [parseSection]
    · rw [parseSection, if_pos isSeparator]
  | @declaration block rest declared message read more ih =>
    have whole : parseFieldOrConstant (block ++ (rest ++ left)) = .ok (declared, rest ++ left) := by
      apply parseFieldOrConstant_alike read
      cases rest with
      | nil => exact .inl closes
      | cons first rest => exact .inr rfl
    obtain ⟨token, tail, begins, other⟩ := begins_no_separator whole
    rw [List.append_assoc, begins]
    rw [begins] at whole
    rw [parseSection_step other whole, ih]
    rfl

/-! ### Files -/

/-- The parsers of this module: sections with that many separators between them. -/
def parseSections : Nat → List Token → Except ParseError (List Message × List Token)
  | 0, tokens => do
    let (message, rest) ← parseSection tokens
    .ok ([message], rest)
  | k + 1, tokens => do
    let (message, rest) ← parseSection tokens
    let (_, rest) ← expect .tripleDash rest
    let (messages, rest) ← parseSections k rest
    .ok (message :: messages, rest)

theorem parseSections_iff (k : Nat) (tokens left : List Token) (messages : List Message) :
    parseSections k tokens = .ok (messages, left) ↔
      ∃ front, tokens = front ++ left ∧ Divided k front messages ∧ Closes left := by
  induction k generalizing tokens messages with
  | zero =>
    constructor
    · intro parsed
      obtain ⟨⟨message, rest⟩, read, done⟩ := bind_eq_ok.mp parsed
      cases done
      obtain ⟨section_, whole, declares, closes⟩ := declares_of_parseSection read
      exact ⟨section_, whole, .last declares, closes⟩
    · rintro ⟨front, rfl, divided, closes⟩
      cases divided with
      | last declares =>
        rw [parseSections, parseSection_of_declares declares closes]
        rfl
  | succ k ih =>
    constructor
    · intro parsed
      obtain ⟨⟨message, rest⟩, read, parsed⟩ := bind_eq_ok.mp parsed
      obtain ⟨⟨text, rest'⟩, expected, parsed⟩ := bind_eq_ok.mp parsed
      obtain ⟨⟨more, rest''⟩, onward, done⟩ := bind_eq_ok.mp parsed
      cases done
      obtain ⟨section_, rfl, declares, -⟩ := declares_of_parseSection read
      obtain ⟨separator, rfl, isSeparator, -⟩ := expect_ok expected
      obtain ⟨front, rfl, divided, closes⟩ := (ih _ _).mp onward
      exact ⟨section_ ++ separator :: front, by simp, .separated declares isSeparator divided,
        closes⟩
    · rintro ⟨front, rfl, divided, closes⟩
      cases divided with
      | @separated _ section_ rest separator message more declares isSeparator divided =>
        have closed : Closes (separator :: (rest ++ left)) :=
          (closes_iff _).mpr (.inr ⟨separator, _, rfl, isSeparator⟩)
        have onward := (ih (rest ++ left) more).mpr ⟨rest, rfl, divided, closes⟩
        rw [parseSections, List.append_assoc, List.cons_append,
          parseSection_of_declares declares closed, ok_bind]
        simp only [expect, isSeparator, if_true, ok_bind, onward]

def separators (tokens : List Token) : Nat := tokens.countP fun token => token.kind = .tripleDash

theorem Divided.le_separators {messages : List Message} (divided : Divided k tokens messages) :
    k ≤ separators tokens := by
  induction divided with
  | last => exact Nat.zero_le _
  | separated _ isSeparator _ ih =>
    rw [separators, List.countP_append, List.countP_cons_of_pos (by simpa using isSeparator)]
    rw [separators] at ih
    omega

/-- The file is these sections and that many separators, and nothing else. -/
def Accounted (k : Nat) (input : Text) (messages : List Message) : Prop :=
  ∃ tokens, lex input = .ok tokens ∧ separators tokens = k ∧ Divided k tokens messages

/-- The file begins with one section more than that, up to its end or a further separator. -/
def Begins (k : Nat) (tokens : List Token) : Prop :=
  ∃ front left messages, tokens = front ++ left ∧ Divided k front messages ∧ Closes left

/-- The file has that many separators, or a section with an error before it has too many. -/
def SeparatedOrFaulty (k : Nat) (input : Text) : Prop :=
  ∀ tokens, lex input = .ok tokens → separators tokens = k ∨ ¬ Begins k tokens

/-- A parser of sections accounts for the file exactly if the separators are as many as it expects,
or it refuses the file. -/
theorem accounted_iff {α : Type} {parse : Text → Except ParseError α} {sections : α → List Message}
    (parses : ∀ input value, parse input = .ok value → ∃ tokens left, lex input = .ok tokens ∧
      parseSections k tokens = .ok (sections value, left))
    (accepts : ∀ input tokens messages left, lex input = .ok tokens →
      parseSections k tokens = .ok (messages, left) →
      ∃ value, parse input = .ok value ∧ sections value = messages) (input : Text) :
    (∀ value, parse input = .ok value → Accounted k input (sections value)) ↔
      SeparatedOrFaulty k input := by
  constructor
  · intro accounts tokens lexed
    by_cases begins : Begins k tokens
    · obtain ⟨front, left, messages, whole, divided, closes⟩ := begins
      have read := (parseSections_iff k tokens left messages).mpr ⟨front, whole, divided, closes⟩
      obtain ⟨value, parsed, -⟩ := accepts input tokens messages left lexed read
      obtain ⟨tokens', lexed', count, -⟩ := accounts value parsed
      cases lexed.symm.trans lexed'
      exact .inl count
    · exact .inr begins
  · intro meets value parsed
    obtain ⟨tokens, left, lexed, read⟩ := parses input value parsed
    obtain ⟨front, whole, divided, closes⟩ := (parseSections_iff k tokens left _).mp read
    have count := (meets tokens lexed).resolve_right
      fun none_ => none_ ⟨front, left, _, whole, divided, closes⟩
    refine ⟨tokens, lexed, count, ?_⟩
    have enough := divided.le_separators
    obtain rfl | ⟨separator, rest, rfl, isSeparator⟩ := (closes_iff left).mp closes
    · rw [whole, List.append_nil]
      exact divided
    · rw [whole, separators, List.countP_append,
        List.countP_cons_of_pos (by simpa using isSeparator)] at count
      rw [separators] at enough
      omega

theorem accounted_iff_of_tokens {α : Type} {parse : Text → Except ParseError α}
    {parseTokens : List Token → Except ParseError α} {sections : α → List Message}
    (lexes : ∀ input, parse input =
      match lex input with
      | .error left => .error (.lexerError left)
      | .ok tokens => parseTokens tokens) (reads : ∀ tokens value, parseTokens tokens = .ok value →
      ∃ left, parseSections k tokens = .ok (sections value, left))
    (accepts : ∀ tokens messages left, parseSections k tokens = .ok (messages, left) →
      ∃ value, parseTokens tokens = .ok value ∧ sections value = messages) (input : Text) :
    (∀ value, parse input = .ok value → Accounted k input (sections value)) ↔
      SeparatedOrFaulty k input := by
  apply accounted_iff
  · intro input value parsed
    rw [lexes] at parsed
    cases lexed : lex input with
    | error left =>
      rw [lexed] at parsed
      cases parsed
    | ok tokens =>
      rw [lexed] at parsed
      obtain ⟨left, read⟩ := reads tokens value parsed
      exact ⟨tokens, left, rfl, read⟩
  · intro input tokens messages left lexed read
    obtain ⟨value, parsed, same⟩ := accepts tokens messages left read
    refine ⟨value, ?_, same⟩
    rw [lexes, lexed]
    exact parsed

theorem parseMessage_accounted_iff (input : Text) :
    (∀ message, parseMessage input = .ok message → Accounted 0 input [message]) ↔
      SeparatedOrFaulty 0 input := by
  apply accounted_iff_of_tokens (fun input => rfl)
  · intro tokens message parsed
    rw [parseMessageImpl_eq] at parsed
    cases read : parseSection tokens with
    | error e =>
      rw [read] at parsed
      cases parsed
    | ok result =>
      rw [read] at parsed
      cases parsed
      exact ⟨result.2, by rw [parseSections, read]; rfl⟩
  · intro tokens messages left parsed
    obtain ⟨⟨message, rest⟩, read, done⟩ := bind_eq_ok.mp parsed
    cases done
    refine ⟨message, ?_, rfl⟩
    rw [parseMessageImpl_eq, read]
    rfl

theorem parseService_accounted_iff (input : Text) : (∀ service, parseService input = .ok service →
      Accounted 1 input [service.request, service.response]) ↔ SeparatedOrFaulty 1 input := by
  apply accounted_iff_of_tokens (fun input => rfl)
  · intro tokens service parsed
    obtain ⟨⟨request, rest⟩, read, parsed⟩ := bind_eq_ok.mp parsed
    obtain ⟨⟨dash, rest'⟩, expected, parsed⟩ := bind_eq_ok.mp parsed
    obtain ⟨⟨response, left⟩, read', done⟩ := bind_eq_ok.mp parsed
    cases done
    refine ⟨left, ?_⟩
    simp only [parseSections, read, ok_bind, expected, read']
  · intro tokens messages left parsed
    obtain ⟨⟨request, rest⟩, read, parsed⟩ := bind_eq_ok.mp parsed
    obtain ⟨⟨dash, rest'⟩, expected, parsed⟩ := bind_eq_ok.mp parsed
    obtain ⟨⟨more, left'⟩, onward, done⟩ := bind_eq_ok.mp parsed
    obtain ⟨⟨response, _⟩, read', done'⟩ := bind_eq_ok.mp onward
    cases done
    cases done'
    refine ⟨⟨request, response⟩, ?_, rfl⟩
    simp only [read, ok_bind, expected, read']

theorem parseAction_accounted_iff (input : Text) : (∀ action, parseAction input = .ok action →
      Accounted 2 input [action.spec.goal, action.spec.result, action.spec.feedback]) ↔
      SeparatedOrFaulty 2 input := by
  apply accounted_iff_of_tokens (fun input => rfl)
  · intro tokens action parsed
    obtain ⟨⟨goal, rest⟩, read, parsed⟩ := bind_eq_ok.mp parsed
    obtain ⟨⟨dash, rest'⟩, expected, parsed⟩ := bind_eq_ok.mp parsed
    obtain ⟨⟨result, after⟩, read', parsed⟩ := bind_eq_ok.mp parsed
    obtain ⟨⟨dash', after'⟩, expected', parsed⟩ := bind_eq_ok.mp parsed
    obtain ⟨⟨feedback, left⟩, read'', done⟩ := bind_eq_ok.mp parsed
    cases done
    refine ⟨left, ?_⟩
    simp only [parseSections, read, ok_bind, expected, read', expected', read'']
  · intro tokens messages left parsed
    obtain ⟨⟨goal, rest⟩, read, parsed⟩ := bind_eq_ok.mp parsed
    obtain ⟨⟨dash, rest'⟩, expected, parsed⟩ := bind_eq_ok.mp parsed
    obtain ⟨⟨more, left'⟩, onward, done⟩ := bind_eq_ok.mp parsed
    obtain ⟨⟨result, after⟩, read', onward⟩ := bind_eq_ok.mp onward
    obtain ⟨⟨dash', after'⟩, expected', onward⟩ := bind_eq_ok.mp onward
    obtain ⟨⟨last, left''⟩, onward', done'⟩ := bind_eq_ok.mp onward
    obtain ⟨⟨feedback, _⟩, read'', done''⟩ := bind_eq_ok.mp onward'
    cases done
    cases done'
    cases done''
    refine ⟨⟨goal, result, feedback⟩, ?_, rfl⟩
    simp only [read, ok_bind, expected, read', expected', read'']

/-- Each parser accounts for the whole of a file exactly if the file has as many separators as it
expects, or does not begin with sections that it could accept. -/
theorem files_accounted_iff (input : Text) :
    ((∀ message, parseMessage input = .ok message → Accounted 0 input [message]) ↔
      SeparatedOrFaulty 0 input) ∧
    ((∀ service, parseService input = .ok service →
      Accounted 1 input [service.request, service.response]) ↔ SeparatedOrFaulty 1 input) ∧
    ((∀ action, parseAction input = .ok action →
      Accounted 2 input [action.spec.goal, action.spec.result, action.spec.feedback]) ↔
      SeparatedOrFaulty 2 input) :=
  ⟨parseMessage_accounted_iff input, parseService_accounted_iff input,
    parseAction_accounted_iff input⟩

/-- A second separator and what follows it are left out of a service. -/
def threeSections : Text := "int32 a\n---\nint32 b\n---\nint32 c\n".toList

theorem threeSections_ignored : ∃ service, parseService threeSections = .ok service ∧
    service.request.fields.map Field.name = [['a']] ∧
    service.response.fields.map Field.name = [['b']] ∧
    ¬ Accounted 1 threeSections [service.request, service.response] := by
  have named : (parseService threeSections).toOption.map (fun service =>
      (service.request.fields.map Field.name, service.response.fields.map Field.name)) =
      some ([['a']], [['b']]) := by decide +kernel
  have count : (lex threeSections).toOption.map separators = some 2 := by decide +kernel
  cases parsed : parseService threeSections with
  | error e =>
    rw [parsed] at named
    cases named
  | ok service =>
    rw [parsed] at named
    have names := Prod.mk.inj (Option.some.inj named)
    refine ⟨service, rfl, names.1, names.2, ?_⟩
    rintro ⟨tokens, lexed, one, -⟩
    rw [lexed] at count
    have two : separators tokens = 2 := Option.some.inj count
    rw [one] at two
    cases two

end NanoRos.Rosidl
