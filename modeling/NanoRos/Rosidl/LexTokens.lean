import NanoRos.Rosidl.MsgLines

/-! Lexing goes token by token: what stands where decides what is lexed there, and a word of tokens
is lexed alike whatever blank or comment comes behind it. -/

namespace NanoRos.Rosidl

theorem lexFrom_drop (passed : Nat) (text : Text) : lexFrom passed text = lex (text.drop passed) := by
  induction text generalizing passed with
  | nil =>
    rw [List.drop_nil, lex, lexFrom, lexFrom]
  | cons c rest ih =>
    cases passed with
    | zero => rfl
    | succ passed => rw [lexFrom, List.drop_succ_cons, ih]

theorem lex_blank {blank : Text} (blanks : ∀ c ∈ blank, isSpace c = true) (text : Text) :
    lex (blank ++ text) = lex text := by
  induction blank with
  | nil => rfl
  | cons c blank ih =>
    obtain ⟨space, blanks⟩ := List.forall_mem_cons.mp blanks
    rw [List.cons_append, lex, lexFrom, if_pos space]
    exact ih blanks

variable {c : Char} {rest : Text} {kind : TokenKind} {n : Nat} {tokens : List Token}
  {text word after : Text} {later : List Token} {quote : Char}

theorem lex_token (begins : c ∉ stopChars) (longest : longestMatch (c :: rest) = some (kind, n)) :
    lex (c :: rest) = (lex ((c :: rest).drop n)).map (⟨kind, (c :: rest).take n⟩ :: ·) := by
  rw [mem_stopChars, not_or] at begins
  have positive : 0 < n := (candidates_fit _ (longestMatch_mem longest)).1
  obtain ⟨m, rfl⟩ : ∃ m, n = m + 1 := ⟨n - 1, by omega⟩
  rw [lex, lexFrom, if_neg begins.1, if_neg begins.2, longest]
  dsimp only
  rw [Nat.add_sub_cancel, lexFrom_drop, List.drop_succ_cons]
  cases lex (rest.drop m) <;> rfl

theorem lex_cons_ok (begins : c ∉ stopChars) (lexed : lex (c :: rest) = .ok tokens) :
    ∃ kind n later, longestMatch (c :: rest) = some (kind, n) ∧
      tokens = ⟨kind, (c :: rest).take n⟩ :: later ∧ lex ((c :: rest).drop n) = .ok later := by
  cases longest : longestMatch (c :: rest) with
  | none =>
    rw [mem_stopChars, not_or] at begins
    rw [lex, lexFrom, if_neg begins.1, if_neg begins.2, longest] at lexed
    cases lexed
  | some found =>
    obtain ⟨kind, n⟩ := found
    rw [lex_token begins longest] at lexed
    cases later : lex ((c :: rest).drop n) with
    | error e =>
      rw [later] at lexed
      cases lexed
    | ok tokens =>
      rw [later] at lexed
      cases lexed
      exact ⟨kind, n, tokens, rfl, rfl, later⟩

theorem lexFrom_starts {passed : Nat} (lexed : lexFrom passed text = .ok tokens) :
    ∀ token ∈ tokens, ∃ c rest, token.text = c :: rest ∧ c ∉ stopChars := by
  fun_induction lexFrom passed text generalizing tokens with
  | case1 passed =>
    cases lexed
    exact List.forall_mem_nil _
  | case2 passed c rest ih => exact ih lexed
  | case3 c rest space ih => exact ih lexed
  | case4 rest space ih => exact ih lexed
  | case5 c rest space comment none => cases lexed
  | case6 c rest space comment kind n longest ih =>
    obtain ⟨later, lexedLater, done⟩ := bind_eq_ok.mp lexed
    cases done
    rw [List.forall_mem_cons]
    refine ⟨⟨c, rest.take (n - 1), ?_, ?_⟩, ih lexedLater⟩
    · have positive : 0 < n := (candidates_fit _ (longestMatch_mem longest)).1
      obtain ⟨m, rfl⟩ : ∃ m, n = m + 1 := ⟨n - 1, by omega⟩
      rfl
    · rw [mem_stopChars, not_or]
      exact ⟨space, comment⟩

/-! ### Words -/

/-- Blanks, a comment or nothing: what keeps a word apart from the text behind it. -/
def Apart (after : Text) : Prop := ∀ c ∈ after.head?, c ∈ stopChars

/-- A text of tokens side by side. -/
def Solid (word : Text) : Prop := ∀ c ∈ word, c ∉ stopChars

theorem candidates_apart (unquoted : c ≠ '"' ∧ c ≠ '\'') (apart : Apart after) :
    candidates (c :: word ++ after) = candidates (c :: word) := by
  cases after with
  | nil => rw [List.append_nil]
  | cons stop rest =>
    have ends : stop ∈ stopChars := apart stop rfl
    apply candidates_congr
    · intro literal listed
      exact isPrefixOf_stop ((literals_clear literal listed).1 stop ends) _ rest
    · intro pattern plain
      exact linePatterns_stop ends pattern plain _ rest
    · intro quote isQuote
      have other : c ≠ quote := by
        rintro rfl
        exact not_or.mpr unquoted isQuote
      rw [List.cons_append, matchQuoted, matchQuoted, if_neg other, if_neg other]

theorem longestMatch_apart (unquoted : c ≠ '"' ∧ c ≠ '\'') (apart : Apart after) :
    longestMatch (c :: (word ++ after)) = longestMatch (c :: word) := by
  have same : candidates (c :: word ++ after) = _ := candidates_apart unquoted apart
  rw [List.cons_append] at same
  rw [longestMatch, longestMatch, same]

theorem longestMatch_le (longest : longestMatch text = some (kind, n)) : n ≤ text.length :=
  (candidates_fit _ (longestMatch_mem longest)).2

theorem unquoted_of_kind (longest : longestMatch (c :: rest) = some (kind, n))
    (plain : kind ≠ .stringLiteral) :
    c ≠ '"' ∧ c ≠ '\'' := by
  rw [← not_or]
  intro isQuote
  exact plain (mem_candidates_quote isQuote (longestMatch_mem longest)).1

theorem solid_take (begins : c ∉ stopChars) (longest : longestMatch (c :: rest) = some (kind, n))
    (plain : kind ≠ .stringLiteral) :
    Solid ((c :: rest).take n) := by
  have unquoted := unquoted_of_kind longest plain
  generalize split : rest.takeWhile (fun d => decide (d ∉ stopChars)) = word
  generalize behind : rest.dropWhile (fun d => decide (d ∉ stopChars)) = after
  have whole : rest = word ++ after := by
    rw [← split, ← behind, List.takeWhile_append_dropWhile]
  have apart : Apart after := by
    intro d head
    rw [← behind] at head
    have stops := List.head?_dropWhile_not (fun d => decide (d ∉ stopChars)) rest
    rw [head] at stops
    simpa using stops
  rw [whole] at longest ⊢
  rw [longestMatch_apart unquoted apart] at longest
  rw [← List.cons_append, List.take_append_of_le_length (longestMatch_le longest)]
  intro d member
  rcases List.mem_cons.mp (List.mem_of_mem_take member) with rfl | inside
  · exact begins
  · rw [← split] at inside
    simpa using List.mem_takeWhile_imp inside

theorem lex_split {used : List Token} (apart : Apart after)
    (lexed : lex (word ++ after) = .ok (used ++ later))
    (fills : (used.map Token.text).flatten = word)
    (plain : ∀ token ∈ used, token.kind ≠ .stringLiteral) :
    Solid word ∧ lex word = .ok used ∧ lex after = .ok later := by
  induction used generalizing word with
  | nil =>
    subst fills
    refine ⟨?_, rfl, lexed⟩
    intro c impossible
    cases impossible
  | cons token used ih =>
    obtain ⟨first, plainLater⟩ := List.forall_mem_cons.mp plain
    obtain ⟨c, letters, spelled, begins⟩ := lexFrom_starts lexed token List.mem_cons_self
    rw [List.map_cons, List.flatten_cons] at fills
    obtain ⟨rest, rfl⟩ : ∃ rest, word = c :: rest := by
      rw [← fills, spelled]
      exact ⟨_, rfl⟩
    rw [List.cons_append] at lexed
    obtain ⟨kind, n, others, longest, same, behind⟩ := lex_cons_ok begins lexed
    obtain ⟨rfl, rfl⟩ := List.cons.inj same
    have unquoted := unquoted_of_kind longest first
    rw [longestMatch_apart unquoted apart] at longest
    have bound := longestMatch_le longest
    have taken : (c :: (rest ++ after)).take n = (c :: rest).take n :=
      List.take_append_of_le_length bound
    have dropped : (c :: (rest ++ after)).drop n = (c :: rest).drop n ++ after :=
      List.drop_append_of_le_length bound
    dsimp only at fills
    rw [taken] at fills ⊢
    rw [dropped] at behind
    have left : (used.map Token.text).flatten = (c :: rest).drop n := by
      apply (List.append_right_inj ((c :: rest).take n)).mp
      rw [fills, List.take_append_drop]
    obtain ⟨solid, lexedLeft, lexedAfter⟩ := ih behind left plainLater
    refine ⟨?_, ?_, lexedAfter⟩
    · intro d member
      rw [← List.take_append_drop n (c :: rest)] at member
      rcases List.mem_append.mp member with inFirst | inLater
      · exact solid_take begins longest first d inFirst
      · exact solid d inLater
    · rw [lex_token begins longest, lexedLeft]
      rfl

/-- A word without gaps is lexed alike in front of a blank, a comment or the end; its tokens
fill it. -/
theorem lex_apart {used : List Token} (apart : Apart after) (solid : Solid word)
    (lexed : lex word = .ok used) (behind : lex after = .ok later)
    (plain : ∀ token ∈ used, token.kind ≠ .stringLiteral) :
    lex (word ++ after) = .ok (used ++ later) ∧ (used.map Token.text).flatten = word := by
  induction used generalizing word with
  | nil =>
    cases word with
    | nil => exact ⟨behind, rfl⟩
    | cons c rest =>
      obtain ⟨kind, n, others, _, impossible, _⟩ :=
        lex_cons_ok (solid c List.mem_cons_self) lexed
      cases impossible
  | cons token used ih =>
    obtain ⟨first, plainLater⟩ := List.forall_mem_cons.mp plain
    cases word with
    | nil => cases lexed
    | cons c rest =>
      have begins := solid c List.mem_cons_self
      obtain ⟨kind, n, others, longest, same, lexedLeft⟩ := lex_cons_ok begins lexed
      obtain ⟨rfl, rfl⟩ := List.cons.inj same
      have bound := longestMatch_le longest
      have taken : (c :: (rest ++ after)).take n = (c :: rest).take n :=
        List.take_append_of_le_length bound
      have dropped : (c :: (rest ++ after)).drop n = (c :: rest).drop n ++ after :=
        List.drop_append_of_le_length bound
      obtain ⟨lexedWhole, fills⟩ :=
        ih (fun d member => solid d (List.mem_of_mem_drop member)) lexedLeft plainLater
      have unquoted := unquoted_of_kind longest first
      rw [← longestMatch_apart unquoted apart] at longest
      constructor
      · rw [List.cons_append, lex_token begins longest, taken, dropped, lexedWhole]
        rfl
      · rw [List.map_cons, List.flatten_cons, fills, List.take_append_drop]

/-! ### The longest of several -/

theorem foldl_longer_best {found : TokenKind × Nat} {others : List (TokenKind × Nat)}
    {best : Option (TokenKind × Nat)} (reached : found ∈ others ∨ best = some found)
    (most : ∀ other ∈ others, other.2 < found.2 ∨ other = found)
    (held : ∀ other ∈ best, other.2 < found.2 ∨ other = found) :
    others.foldl longer best = some found := by
  induction others generalizing best with
  | nil =>
    rcases reached with impossible | same
    · cases impossible
    · exact same
  | cons next others ih =>
    obtain ⟨mostNext, most⟩ := List.forall_mem_cons.mp most
    rw [List.foldl_cons]
    apply ih _ most
    · intro other member
      rw [longer.eq_def] at member
      split at member
      next previous =>
        split at member
        · cases member
          exact mostNext
        · exact held other member
      next => 
        cases member
        exact mostNext
    · rcases reached with listed | rfl
      · rcases List.mem_cons.mp listed with rfl | later
        · right
          cases best with
          | none => rfl
          | some previous =>
            rcases held previous rfl with shorter | rfl
            · exact if_pos shorter
            · exact if_neg (Nat.lt_irrefl _)
        · exact Or.inl later
      · right
        apply if_neg
        rcases mostNext with shorter | rfl
        · exact Nat.lt_asymm shorter
        · exact Nat.lt_irrefl _

theorem longestMatch_best {found : TokenKind × Nat} (listed : found ∈ candidates text)
    (most : ∀ other ∈ candidates text, other.2 < found.2 ∨ other = found) :
    longestMatch text = some found := by
  apply foldl_longer_best (Or.inl listed) most
  intro other impossible
  cases impossible

/-! ### Gaps, minus and quotes -/

/-- Blanks, and comments up to the end of their line. -/
inductive Gap : Text → Prop
  | nil : Gap []
  | space {c : Char} {rest : Text} (blank : isSpace c = true) (gap : Gap rest) : Gap (c :: rest)
  | comment {line rest : Text} (oneLine : '\n' ∉ line) (gap : Gap rest) :
      Gap ('#' :: (line ++ '\n' :: rest))

theorem lex_gap {gap : Text} (isGap : Gap gap) (text : Text) : lex (gap ++ text) = lex text := by
  induction isGap with
  | nil => rfl
  | space blank gap ih =>
    rw [List.cons_append, lex, lexFrom, if_pos blank]
    exact ih
  | @comment line rest oneLine gap ih =>
    have skipped : (line ++ '\n' :: (rest ++ text)).takeWhile (fun c => decide (c ≠ '\n')) =
        line := by
      rw [List.takeWhile_append_of_pos, List.takeWhile_cons_of_neg (by simp), List.append_nil]
      intro c member
      exact decide_eq_true fun same => oneLine (same ▸ member)
    rw [List.cons_append, List.append_assoc, List.cons_append, lex, lexFrom,
      if_neg (by decide), if_pos rfl, skipped, lexFrom_drop, List.drop_left, lex, lexFrom,
      if_pos (by decide)]
    exact ih

theorem Gap.starts {gap : Text} (isGap : Gap gap) : ∀ c ∈ gap.head?, c ∈ stopChars := by
  intro c head
  cases isGap with
  | nil => cases head
  | space blank gap =>
    cases head
    exact mem_stopChars.mpr (Or.inl blank)
  | comment oneLine gap =>
    cases head
    exact mem_stopChars.mpr (Or.inr rfl)

theorem longestMatch_minus (single : ∀ c ∈ rest.head?, c ≠ '-') :
    longestMatch ('-' :: rest) = some (.minus, 1) := by
  have spelled : ∀ word ∈ literals, word.1.head? = some '-' →
      word = (['-'], .minus) ∨ word.1 = ['-', '-', '-'] := by decide
  apply longestMatch_best
  · rw [mem_candidates]
    exact Or.inl ⟨(['-'], .minus), by decide, List.prefix_append ['-'] rest, rfl⟩
  · intro other member
    right
    rcases mem_candidates.mp member with ⟨word, listed, begins, rfl⟩ | ⟨pattern, listed, _, matched⟩
    · rcases spelled word listed (literal_head listed begins) with rfl | dashes
      · rfl
      · rw [dashes] at begins
        obtain ⟨tail, same⟩ := begins
        cases same
        exact absurd rfl (single '-' rfl)
    · rcases List.mem_append.mp listed with plain | quoted
      · have letter := linePatterns_start pattern plain matched
        exact absurd letter (by decide)
      · rcases List.mem_pair.mp quoted with rfl | rfl
        · cases matched
        · cases matched

/-- `([^q\\]|\\.)*` for a quote `q`. -/
inductive QuotedBody (quote : Char) : Text → Prop
  | nil : QuotedBody quote []
  | plain {c : Char} {rest : Text} (notQuote : c ≠ quote) (notEscape : c ≠ '\\')
      (body : QuotedBody quote rest) : QuotedBody quote (c :: rest)
  | escaped {c : Char} {rest : Text} (inLine : c ≠ '\n') (body : QuotedBody quote rest) :
      QuotedBody quote ('\\' :: c :: rest)

theorem QuotedBody.closes {body : Text} (isBody : QuotedBody quote body) (notEscape : quote ≠ '\\')
    (after : Text) :
    quotedBody quote false (body ++ quote :: after) = some (body.length + 1) := by
  induction isBody with
  | nil => exact if_pos rfl
  | @plain c rest notQuote plain body ih =>
    rw [List.cons_append, quotedBody, if_neg notQuote, decide_eq_false plain, ih,
      List.length_cons, Option.map_some]
    congr 1
    omega
  | @escaped c rest inLine body ih =>
    rw [List.cons_append, List.cons_append, quotedBody, if_neg notEscape.symm, decide_eq_true rfl,
      quotedBody, if_neg inLine, ih, List.length_cons, List.length_cons, Option.map_some,
      Option.map_some]
    congr 1
    omega

theorem longestMatch_quoted (isQuote : quote = '"' ∨ quote = '\'') {body : Text}
    (isBody : QuotedBody quote body) (after : Text) :
    longestMatch (quote :: (body ++ quote :: after)) = some (.stringLiteral, body.length + 2) := by
  have notEscape : quote ≠ '\\' := by
    rcases isQuote with rfl | rfl
    · decide
    · decide
  have closed := isBody.closes notEscape after
  have matched : matchQuoted quote (quote :: (body ++ quote :: after)) = some (body.length + 2) := by
    rw [matchQuoted, if_pos rfl, closed, Option.map_some]
    congr 1
    omega
  apply longestMatch_best
  · rw [mem_candidates]
    right
    rcases isQuote with rfl | rfl
    · exact ⟨(.stringLiteral, matchQuoted '"'), by simp [quotePatterns], rfl, matched⟩
    · exact ⟨(.stringLiteral, matchQuoted '\''), by simp [quotePatterns], rfl, matched⟩
  · intro other member
    right
    obtain ⟨kind, length⟩ := mem_candidates_quote isQuote member
    rw [closed, Option.map_some] at length
    apply Prod.ext kind
    rw [← Option.some.inj length]
    omega

end NanoRos.Rosidl
