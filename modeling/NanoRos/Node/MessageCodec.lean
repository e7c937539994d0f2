import NanoRos.Node.ParameterMessages

/-! The streaming reads and writes of a parameter value follow the message's codec. -/

namespace NanoRos

variable {α β : Type} {N : Nat}

/-! Reading. -/

/-- `n` elements in a row. -/
def readList (read : CdrReader → Except DeserError (α × CdrReader)) :
    Nat → CdrReader → Except DeserError (List α × CdrReader)
  | 0, r => .ok ([], r)
  | n + 1, r => do
    let (a, r) ← read r
    let (items, r) ← readList read n r
    return (a :: items, r)

variable {read : CdrReader → Except DeserError (α × CdrReader)} {n : Nat} {r last : CdrReader}
  {items : List α} {st : Staging} {convert : α → Option β}

theorem readList_succ :
    readList read (n + 1) r = .ok (items, last) ↔ ∃ a rest next,
      read r = .ok (a, next) ∧ readList read n next = .ok (rest, last) ∧ items = a :: rest := by
  constructor
  · intro done
    rw [readList] at done
    obtain ⟨⟨a, next⟩, first, done⟩ := bind_eq_ok.mp done
    obtain ⟨⟨rest, last'⟩, later, done⟩ := bind_eq_ok.mp done
    cases done
    exact ⟨a, rest, next, first, later, rfl⟩
  · rintro ⟨a, rest, next, first, later, rfl⟩
    rw [readList, first, ok_bind]
    dsimp only
    rw [later]
    rfl

theorem readList_map {read' : CdrReader → Except DeserError (β × CdrReader)} {f : α → β}
    (follows : ∀ {r a r'}, read r = .ok (a, r') → read' r = .ok (f a, r'))
    (done : readList read n r = .ok (items, last)) :
    readList read' n r = .ok (items.map f, last) := by
  induction n generalizing r items with
  | zero =>
    cases done
    rfl
  | succ n ih =>
    obtain ⟨a, rest, next, first, later, rfl⟩ := readList_succ.mp done
    exact readList_succ.mpr ⟨f a, rest.map f, next, follows first, ih later, rfl⟩

theorem deserializeElements_eq_ok {v v' : BoundedVec α N}
    (done : deserializeElements read n v r = .ok (v', last)) :
    ∃ items, readList read n r = .ok (items, last) ∧ v'.items = v.items ++ items ∧
      items.length = n := by
  induction n generalizing v r with
  | zero =>
    cases done
    exact ⟨[], rfl, (List.append_nil _).symm, rfl⟩
  | succ n ih =>
    rw [deserializeElements] at done
    obtain ⟨⟨a, next⟩, first, done⟩ := bind_eq_ok.mp done
    cases pushed : v.push a with
    | none => simp [pushed] at done
    | some grown =>
      simp only [pushed] at done
      obtain ⟨items, later, whole, length⟩ := ih done
      refine ⟨a :: items, readList_succ.mpr ⟨a, items, next, first, later, rfl⟩, ?_, ?_⟩
      · rw [whole, BoundedVec.items_of_push pushed, List.append_assoc]
        rfl
      · rw [List.length_cons, length]

theorem deserializeVec_eq_ok {v : BoundedVec α N} (done : deserializeVec read r = .ok (v, last)) :
    ∃ first, r.readSequenceLen = .ok (v.items.length, first) ∧
      readList read v.items.length first = .ok (v.items, last) := by
  rw [deserializeVec] at done
  obtain ⟨⟨len, first⟩, counted, done⟩ := bind_eq_ok.mp done
  obtain ⟨items, read, whole, length⟩ := deserializeElements_eq_ok done
  have same : v.items = items := whole
  refine ⟨first, ?_, ?_⟩
  · rw [CdrReader.readSequenceLen, counted, same, length]
    rfl
  · rw [same, length]
    exact read

theorem deserializeString_eq_ok {next : CdrReader} {s : WireString}
    (done : deserializeString r = .ok (s, next)) : r.readString = .ok (s.text, next) := by
  rw [deserializeString] at done
  obtain ⟨⟨text, next'⟩, read, done⟩ := bind_eq_ok.mp done
  rw [read]
  by_cases fits : byteLen text ≤ wireStringCap
  · simp only [WireString.ofStr, fits, dif_pos] at done
    cases done
    rfl
  · simp [WireString.ofStr, fits] at done

theorem readWireString_eq_ok {next : CdrReader} {s : WireString}
    (done : deserializeString r = .ok (s, next)) : readWireString r = .ok (s.text, next) := by
  rw [readWireString, deserializeString_eq_ok done, ok_bind]
  dsimp only
  rw [if_neg (Nat.not_lt.mpr s.fits)]
  rfl

theorem pushElements_eq {push : Staging → α → Staging}
    (done : readList read n r = .ok (items, last)) :
    pushElements read push n st r = .ok (items.foldl push st, last) := by
  induction n generalizing r st items with
  | zero =>
    cases done
    rfl
  | succ n ih =>
    obtain ⟨a, rest, next, first, later, rfl⟩ := readList_succ.mp done
    rw [pushElements, first]
    exact ih later

theorem pushSequence_eq {read' : CdrReader → Except DeserError (β × CdrReader)} {f : α → β}
    (follows : ∀ {r a r'}, read r = .ok (a, r') → read' r = .ok (f a, r'))
    {push : Staging → β → Staging} {v : WireVec α} (done : deserializeVec read r = .ok (v, last)) :
    pushSequence read' push st r = .ok ((v.items.map f).foldl push st, last) := by
  obtain ⟨first, counted, elements⟩ := deserializeVec_eq_ok done
  rw [pushSequence, counted, ok_bind]
  dsimp only
  have within : st.exceedIf (decide (wireSeqCap < v.items.length)) = st := by
    rw [decide_eq_false (Nat.not_lt.mpr v.fits)]
    rfl
  rw [within]
  exact pushElements_eq (readList_map follows elements)

/-! Filling the staging slot. -/

/-- What the slot gives once the whole value is read. -/
def Staging.outcome (st : Staging) : Except ConversionError ParameterValue :=
  match st.err with
  | some e => .error e
  | none => .ok st.staged

/-- A sequence member of the value: `kind` holds what was pushed, an element may fail to convert,
and then `blank` is pushed in its place. -/
structure Fills (push : Staging → α → Staging) (kind : List β → ParameterValue)
    (convert : α → Option β) (blank : β) (cap : Nat) : Prop where
  room : ∀ v err a, v.length < cap → push ⟨kind v, err⟩ a = ⟨kind (v ++ [(convert a).getD blank]),
      if (convert a).isSome then err else err.or (some .capacityExceeded)⟩
  full : ∀ v err a, cap ≤ v.length → push ⟨kind v, err⟩ a =
    ⟨kind v, err.or (some .capacityExceeded)⟩

namespace Fills

variable {push : Staging → α → Staging} {kind : List β → ParameterValue}
  {convert : α → Option β} {blank : β}

section

variable (fills : Fills push kind convert blank N)
include fills

theorem outcome_failed (items : List α) (v : List β) (e : ConversionError)
    : (items.foldl push ⟨kind v, some e⟩).err = some e := by
  induction items generalizing v with
  | nil => rfl
  | cons a items ih =>
    rw [List.foldl_cons]
    by_cases room : v.length < N
    · rw [fills.room v _ a room]
      have kept : (if (convert a).isSome then some e else
        (some e).or (some ConversionError.capacityExceeded)) = some e := by
        split <;> rfl
      rw [kept]
      exact ih _
    · rw [fills.full v _ a (Nat.not_lt.mp room)]
      exact ih v

theorem outcome (items : List α) (v : BoundedVec β N) :
    (items.foldl push ⟨kind v.items, none⟩).outcome =
      (fun v : BoundedVec β N => kind v.items) <$> items.foldlM (pushConverted convert) v := by
  induction items generalizing v with
  | nil => rfl
  | cons a items ih =>
    have failed : ∀ w, (items.foldl push ⟨kind w, some .capacityExceeded⟩).outcome =
        .error .capacityExceeded := by
      intro w
      rw [Staging.outcome, fills.outcome_failed]
    rw [List.foldl_cons, List.foldlM_cons]
    by_cases room : v.items.length < N
    · rw [fills.room _ _ a room]
      cases converted : convert a with
      | none =>
        rw [pushConverted, converted]
        exact failed _
      | some b =>
        obtain ⟨grown, pushed, items'⟩ := v.push_of_room b room
        have stepped : pushConverted convert v a = .ok grown := by
          rw [pushConverted, converted, Option.bind_some, pushed]
        rw [stepped, ok_bind, ← ih grown, items']
        rfl
    · rw [fills.full _ _ a (Nat.not_lt.mp room)]
      have pushed : ∀ b, v.push b = none := fun b => dif_neg room
      have dropped : (convert a).bind v.push = none := by
        cases convert a with
        | none => rfl
        | some b => exact pushed b
      rw [pushConverted, dropped]
      exact failed _

theorem staged (items : List α) (v : List β) (err : Option ConversionError) :
    ∃ v' err', items.foldl push ⟨kind v, err⟩ = ⟨kind v', err'⟩ := by
  induction items generalizing v err with
  | nil => exact ⟨v, err, rfl⟩
  | cons a items ih =>
    rw [List.foldl_cons]
    by_cases room : v.length < N
    · rw [fills.room v err a room]
      exact ih _ _
    · rw [fills.full v err a (Nat.not_lt.mp room)]
      exact ih _ _

end

end Fills

theorem foldl_ignored {push : Staging → α → Staging} (ignores : ∀ a, push st a = st)
    (items : List α) : items.foldl push st = st := by
  induction items with
  | nil => rfl
  | cons a items ih => rw [List.foldl_cons, ignores, ih]

section

variable (caps : ParamCaps)

theorem pushByte_fills :
    Fills (Staging.pushByte caps) .byteArray some 0 caps.maxByteArrayLen where
  room := fun _ _ _ room => if_pos room
  full := fun _ _ _ full => if_neg (Nat.not_lt.mpr full)

theorem pushBool_fills :
    Fills (Staging.pushBool caps) .boolArray some false caps.maxArrayLen where
  room := fun _ _ _ room => if_pos room
  full := fun _ _ _ full => if_neg (Nat.not_lt.mpr full)

theorem pushInteger_fills :
    Fills (Staging.pushInteger caps) .integerArray some 0 caps.maxArrayLen where
  room := fun _ _ _ room => if_pos room
  full := fun _ _ _ full => if_neg (Nat.not_lt.mpr full)

theorem pushDouble_fills :
    Fills (Staging.pushDouble caps) .doubleArray some ⟨0⟩ caps.maxArrayLen where
  room := fun _ _ _ room => if_pos room
  full := fun _ _ _ full => if_neg (Nat.not_lt.mpr full)

def pushWireString (st : Staging) (s : WireString) : Staging := st.pushString caps s.text

theorem pushWireString_eq (st : Staging) (s : WireString) : pushWireString caps st s =
    match st.staged with
    | .stringArray v =>
      if v.length < caps.maxArrayLen then
        if byteLen s.text ≤ caps.maxStringValueLen then
          { st with staged := .stringArray (v ++ [s.text]) }
        else { st.exceed with staged := .stringArray (v ++ [""]) }
      else st.exceed
    | _ => st := by
  rw [pushWireString, Staging.pushString, decide_eq_false (Nat.not_lt.mpr s.fits)]
  rfl

theorem pushString_fills :
    Fills (pushWireString caps) .stringArray (storeString caps) "" caps.maxArrayLen where
  room := by
    intro v err s room
    rw [pushWireString_eq]
    dsimp only
    rw [if_pos room, storeString]
    split <;> rfl
  full := by
    intro v err s full
    rw [pushWireString_eq]
    exact if_neg (Nat.not_lt.mpr full)

variable {caps} {v : ParameterValue} {err : Option ConversionError}

theorem bytes_other (other : ∀ l, v ≠ .byteArray l) (items : List UInt8) :
    items.foldl (Staging.pushByte caps) ⟨v, err⟩ = ⟨v, err⟩ := by
  apply foldl_ignored
  intro b
  rw [Staging.pushByte]
  split
  next l same => exact absurd same (other l)
  next => rfl

theorem bools_other (other : ∀ l, v ≠ .boolArray l) (items : List Bool) :
    items.foldl (Staging.pushBool caps) ⟨v, err⟩ = ⟨v, err⟩ := by
  apply foldl_ignored
  intro b
  rw [Staging.pushBool]
  split
  next l same => exact absurd same (other l)
  next => rfl

theorem integers_other (other : ∀ l, v ≠ .integerArray l) (items : List Int64) :
    items.foldl (Staging.pushInteger caps) ⟨v, err⟩ = ⟨v, err⟩ := by
  apply foldl_ignored
  intro i
  rw [Staging.pushInteger]
  split
  next l same => exact absurd same (other l)
  next => rfl

theorem doubles_other (other : ∀ l, v ≠ .doubleArray l) (items : List F64) :
    items.foldl (Staging.pushDouble caps) ⟨v, err⟩ = ⟨v, err⟩ := by
  apply foldl_ignored
  intro d
  rw [Staging.pushDouble]
  split
  next l same => exact absurd same (other l)
  next => rfl

theorem strings_other (other : ∀ l, v ≠ .stringArray l) (items : List WireString) :
    items.foldl (pushWireString caps) ⟨v, err⟩ = ⟨v, err⟩ := by
  apply foldl_ignored
  intro s
  rw [pushWireString_eq]
  split
  next l same => exact absurd same (other l)
  next => rfl

variable (caps)

/-- The five sequence members, in the order they are read. -/
def RclParameterValue.fill (m : RclParameterValue) (st : Staging) : Staging :=
  let st := m.byteArrayValue.items.foldl (Staging.pushByte caps) st
  let st := m.boolArrayValue.items.foldl (Staging.pushBool caps) st
  let st := m.integerArrayValue.items.foldl (Staging.pushInteger caps) st
  let st := m.doubleArrayValue.items.foldl (Staging.pushDouble caps) st
  m.stringArrayValue.items.foldl (pushWireString caps) st

/-- The values that no sequence member carries. -/
def ParameterValue.scalar : ParameterValue → Bool
  | .byteArray _ | .boolArray _ | .integerArray _ | .doubleArray _ | .stringArray _ => false
  | _ => true

variable {caps} in
theorem RclParameterValue.fill_scalar (m : RclParameterValue) (scalar : v.scalar = true) :
    m.fill caps ⟨v, err⟩ = ⟨v, err⟩ := by
  have other (kind : ParameterValue) (sequence : kind.scalar = false) : v ≠ kind := by
    rintro rfl
    rw [scalar] at sequence
    cases sequence
  rw [fill, bytes_other fun l => other _ rfl, bools_other fun l => other _ rfl,
    integers_other fun l => other _ rfl, doubles_other fun l => other _ rfl,
    strings_other fun l => other _ rfl]

theorem fill_stageScalar (m : RclParameterValue) :
    (m.fill caps (stageScalar caps m.typeCode m.boolValue m.integerValue m.doubleValue
      m.stringValue.text)).outcome = fromRclValue caps m := by
  have fits : ¬ wireStringCap < byteLen m.stringValue.text := Nat.not_lt.mpr m.stringValue.fits
  rw [stageScalar, fromRclValue, if_neg fits]
  by_cases code : m.typeCode = 0
  · rw [if_pos code, if_pos code, m.fill_scalar rfl]
    rfl
  rw [if_neg code, if_neg code]
  by_cases code : m.typeCode = 1
  · rw [if_pos code, if_pos code, m.fill_scalar rfl]
    rfl
  rw [if_neg code, if_neg code]
  by_cases code : m.typeCode = 2
  · rw [if_pos code, if_pos code, m.fill_scalar rfl]
    rfl
  rw [if_neg code, if_neg code]
  by_cases code : m.typeCode = 3
  · rw [if_pos code, if_pos code, m.fill_scalar rfl]
    rfl
  rw [if_neg code, if_neg code]
  by_cases code : m.typeCode = 4
  · rw [if_pos code, if_pos code, storeString]
    split
    · rw [m.fill_scalar rfl]
      rfl
    · rw [m.fill_scalar rfl]
      rfl
  rw [if_neg code, if_neg code]
  by_cases code : m.typeCode = 5
  · rw [if_pos code, if_pos code]
    obtain ⟨v, err, filled⟩ := (pushByte_fills caps).staged m.byteArrayValue.items [] none
    rw [RclParameterValue.fill, filled, bools_other (by simp), integers_other (by simp),
      doubles_other (by simp), strings_other (by simp), ← filled]
    exact (pushByte_fills caps).outcome m.byteArrayValue.items .empty
  rw [if_neg code, if_neg code]
  by_cases code : m.typeCode = 6
  · rw [if_pos code, if_pos code]
    obtain ⟨v, err, filled⟩ := (pushBool_fills caps).staged m.boolArrayValue.items [] none
    rw [RclParameterValue.fill, bytes_other (by simp), filled, integers_other (by simp),
      doubles_other (by simp), strings_other (by simp), ← filled]
    exact (pushBool_fills caps).outcome m.boolArrayValue.items .empty
  rw [if_neg code, if_neg code]
  by_cases code : m.typeCode = 7
  · rw [if_pos code, if_pos code]
    obtain ⟨v, err, filled⟩ := (pushInteger_fills caps).staged m.integerArrayValue.items [] none
    rw [RclParameterValue.fill, bytes_other (by simp), bools_other (by simp), filled,
      doubles_other (by simp), strings_other (by simp), ← filled]
    exact (pushInteger_fills caps).outcome m.integerArrayValue.items .empty
  rw [if_neg code, if_neg code]
  by_cases code : m.typeCode = 8
  · rw [if_pos code, if_pos code]
    obtain ⟨v, err, filled⟩ := (pushDouble_fills caps).staged m.doubleArrayValue.items [] none
    rw [RclParameterValue.fill, bytes_other (by simp), bools_other (by simp),
      integers_other (by simp), filled, strings_other (by simp), ← filled]
    exact (pushDouble_fills caps).outcome m.doubleArrayValue.items .empty
  rw [if_neg code, if_neg code]
  by_cases code : m.typeCode = 9
  · rw [if_pos code, if_pos code, RclParameterValue.fill, bytes_other (by simp), bools_other (by simp),
      integers_other (by simp), doubles_other (by simp)]
    exact (pushString_fills caps).outcome m.stringArrayValue.items .empty
  · rw [if_neg code, if_neg code, m.fill_scalar rfl]
    rfl

theorem readParameterValueInto_eq {r last : CdrReader} {m : RclParameterValue}
    (done : RclParameterValue.deserialize r = .ok (m, last)) :
    readParameterValueInto caps r = .ok (fromRclValue caps m, last) := by
  rw [RclParameterValue.deserialize] at done
  obtain ⟨⟨typeCode, r1⟩, read1, done⟩ := bind_eq_ok.mp done
  obtain ⟨⟨boolValue, r2⟩, read2, done⟩ := bind_eq_ok.mp done
  obtain ⟨⟨integerValue, r3⟩, read3, done⟩ := bind_eq_ok.mp done
  obtain ⟨⟨doubleValue, r4⟩, read4, done⟩ := bind_eq_ok.mp done
  obtain ⟨⟨stringValue, r5⟩, read5, done⟩ := bind_eq_ok.mp done
  obtain ⟨⟨bytes, r6⟩, read6, done⟩ := bind_eq_ok.mp done
  obtain ⟨⟨bools, r7⟩, read7, done⟩ := bind_eq_ok.mp done
  obtain ⟨⟨integers, r8⟩, read8, done⟩ := bind_eq_ok.mp done
  obtain ⟨⟨doubles, r9⟩, read9, done⟩ := bind_eq_ok.mp done
  obtain ⟨⟨strings, r10⟩, read10, done⟩ := bind_eq_ok.mp done
  cases done
  have same {α : Type} {read : CdrReader → Except DeserError (α × CdrReader)} :
      ∀ {r a r'}, read r = .ok (a, r') → read r = .ok (id a, r') := fun read => read
  rw [readParameterValueInto, read1, ok_bind]
  dsimp only
  rw [read2, ok_bind]
  dsimp only
  rw [read3, ok_bind]
  dsimp only
  rw [read4, ok_bind]
  dsimp only
  rw [deserializeString_eq_ok read5, ok_bind]
  dsimp only
  rw [pushSequence_eq same read6, ok_bind]
  dsimp only
  rw [pushSequence_eq same read7, ok_bind]
  dsimp only
  rw [pushSequence_eq same read8, ok_bind]
  dsimp only
  rw [pushSequence_eq same read9, ok_bind]
  dsimp only
  rw [pushSequence_eq deserializeString_eq_ok read10, ok_bind]
  rw [← fill_stageScalar, List.map_id, List.map_id, List.map_id, List.map_id, List.foldl_map]
  rfl

end

/-! Writing. -/

theorem writeSequenceLen_eq {len : Nat} (small : len ≤ u32Max) (w : CdrWriter) :
    w.writeSequenceLen len = w.writeU32 (UInt32.ofNat len) := by
  rw [CdrWriter.writeSequenceLen, if_neg (Nat.not_lt.mpr small)]

variable (write : CdrWriter → α → Except SerError CdrWriter)

theorem serializeVec_eq (v : BoundedVec α N) (small : N ≤ u32Max) (w : CdrWriter) :
    serializeVec write w v = writeSequence write w v.items := by
  rw [writeSequence, writeSequenceLen_eq (Nat.le_trans v.fits small)]
  rfl

theorem writeSequence_map (f : α → β) {write : CdrWriter → β → Except SerError CdrWriter}
    (w : CdrWriter) (items : List α) :
    writeSequence (fun w a => write w (f a)) w items = writeSequence write w (items.map f) := by
  rw [writeSequence, writeSequence, List.length_map]
  congr 1
  funext w
  rw [List.foldlM_map]

theorem wireSeqCap_small : wireSeqCap ≤ u32Max := by decide

theorem foldlM_pushConverted {bs : List β} (converted : items.mapM convert = some bs)
    (v : BoundedVec β N) :
    items.foldlM (pushConverted convert) v =
      if fits : (v.items ++ bs).length ≤ N then .ok ⟨v.items ++ bs, fits⟩
      else .error .capacityExceeded := by
  induction items generalizing v bs with
  | nil =>
    rw [List.mapM_nil] at converted
    cases converted
    obtain ⟨items, fits⟩ := v
    simp [fits]
  | cons a items ih =>
    rw [List.mapM_cons] at converted
    obtain ⟨b, first, converted⟩ := Option.bind_eq_some_iff.mp converted
    obtain ⟨rest, later, same⟩ := Option.bind_eq_some_iff.mp converted
    cases same
    rw [List.foldlM_cons, pushConverted, first, Option.bind_some]
    by_cases room : v.items.length < N
    · obtain ⟨grown, pushed, items'⟩ := v.push_of_room b room
      have whole : v.items ++ b :: rest = grown.items ++ rest := by
        rw [items', List.append_assoc]
        rfl
      rw [pushed]
      dsimp only
      rw [ok_bind, ih later grown]
      simp only [whole]
    · have full : v.push b = none := dif_neg room
      have long : ¬ (v.items ++ b :: rest).length ≤ N := by
        rw [List.length_append, List.length_cons]
        omega
      rw [full, dif_neg long]
      rfl

theorem pushAll_eq {bs : List β} (converted : items.mapM convert = some bs) :
    (pushAll convert items : Except ConversionError (BoundedVec β N)) =
      if fits : bs.length ≤ N then .ok ⟨bs, fits⟩ else .error .capacityExceeded :=
  foldlM_pushConverted converted .empty

theorem pushAll_unconverted (unconverted : items.mapM convert = none) (v : BoundedVec β N) :
    items.foldlM (pushConverted convert) v = .error .capacityExceeded := by
  induction items generalizing v with
  | nil => cases unconverted
  | cons a items ih =>
    rw [List.foldlM_cons, pushConverted]
    cases first : convert a with
    | none => rfl
    | some b =>
      rw [Option.bind_some]
      cases pushed : v.push b with
      | none => rfl
      | some grown =>
        dsimp only
        rw [ok_bind]
        apply ih
        rw [List.mapM_cons, first] at unconverted
        cases later : items.mapM convert with
        | none => rfl
        | some rest => simp [later] at unconverted

theorem serializeVec_empty (w : CdrWriter) :
    serializeVec write w (.empty : BoundedVec α N) = w.writeSequenceLen 0 := by
  rw [writeSequenceLen_eq (Nat.zero_le _), serializeVec]
  exact bind_pure _

theorem mapM_ofStr {v : List String} (fits : ∀ s ∈ v, byteLen s ≤ wireStringCap) :
    ∃ bs, v.mapM WireString.ofStr = some bs ∧ bs.map WireString.text = v := by
  induction v with
  | nil => exact ⟨[], rfl, rfl⟩
  | cons s v ih =>
    obtain ⟨bs, later, texts⟩ := ih fun s member => fits s (List.mem_cons_of_mem _ member)
    have first : WireString.ofStr s = some ⟨s, fits s List.mem_cons_self⟩ := dif_pos _
    refine ⟨⟨s, fits s List.mem_cons_self⟩ :: bs, ?_, ?_⟩
    · rw [List.mapM_cons, first, later]
      rfl
    · rw [List.map_cons, texts]

theorem mapM_ofStr_none {v : List String} {s : String} (member : s ∈ v)
    (long : ¬ byteLen s ≤ wireStringCap) : v.mapM WireString.ofStr = none := by
  induction v with
  | nil => cases member
  | cons head v ih =>
    rw [List.mapM_cons]
    cases member with
    | head =>
      have first : WireString.ofStr s = none := dif_neg long
      rw [first]
      rfl
    | tail _ later =>
      rw [ih later]
      cases WireString.ofStr head <;> rfl

theorem mapM_some (v : List α) : v.mapM some = some v := by
  induction v with
  | nil => rfl
  | cons a v ih =>
    rw [List.mapM_cons, ih]
    rfl

theorem pushAll_some (v : List α) (fits : v.length ≤ N) :
    (pushAll some v : Except ConversionError (BoundedVec α N)) = .ok ⟨v, fits⟩ := by
  rw [pushAll_eq (mapM_some v), dif_pos fits]

theorem pushAll_long (v : List α) (long : ¬ v.length ≤ N) :
    (pushAll some v : Except ConversionError (BoundedVec α N)) = .error .capacityExceeded := by
  rw [pushAll_eq (mapM_some v), dif_neg long]

theorem bind_like {x x' : Except SerError α} {next next' : α → Except SerError β}
    (first : x = x') (later : ∀ a, next a = next' a) : x >>= next = x' >>= next' := by
  rw [first, funext later]

theorem toRclValue_fits {value : ParameterValue} (fits : valueFitsWire value = true) :
    ∃ m, toRclValue value = .ok m ∧
      ∀ w, RclParameterValue.serialize w m = writeParameterValue w value := by
  have none {α : Type} (write : CdrWriter → α → Except SerError CdrWriter) (w : CdrWriter) :=
    @serializeVec_empty α wireSeqCap write w
  have some {α : Type} (write : CdrWriter → α → Except SerError CdrWriter) (v : WireVec α)
      (w : CdrWriter) := serializeVec_eq write v wireSeqCap_small w
  cases value with
  | notSet | bool v | integer v | double v =>
    refine ⟨_, rfl, fun w => ?_⟩
    refine bind_like rfl fun w => bind_like rfl fun w => bind_like rfl fun w =>
      bind_like rfl fun w => bind_like rfl fun w => bind_like (none _ w) fun w =>
      bind_like (none _ w) fun w => bind_like (none _ w) fun w =>
      bind_like (none _ w) fun w => none _ w
  | string v =>
    have short : WireString.ofStr v = .some ⟨v, of_decide_eq_true fits⟩ := dif_pos _
    rw [toRclValue, short]
    refine ⟨_, rfl, fun w => ?_⟩
    refine bind_like rfl fun w => bind_like rfl fun w => bind_like rfl fun w =>
      bind_like rfl fun w => bind_like rfl fun w => bind_like (none _ w) fun w =>
      bind_like (none _ w) fun w => bind_like (none _ w) fun w =>
      bind_like (none _ w) fun w => none _ w
  | byteArray v =>
    rw [toRclValue, pushAll_some v (of_decide_eq_true fits)]
    refine ⟨_, rfl, fun w => ?_⟩
    refine bind_like rfl fun w => bind_like rfl fun w => bind_like rfl fun w =>
      bind_like rfl fun w => bind_like rfl fun w => bind_like (some _ ⟨v, _⟩ w) fun w =>
      bind_like (none _ w) fun w => bind_like (none _ w) fun w =>
      bind_like (none _ w) fun w => none _ w
  | boolArray v =>
    rw [toRclValue, pushAll_some v (of_decide_eq_true fits)]
    refine ⟨_, rfl, fun w => ?_⟩
    refine bind_like rfl fun w => bind_like rfl fun w => bind_like rfl fun w =>
      bind_like rfl fun w => bind_like rfl fun w => bind_like (none _ w) fun w =>
      bind_like (some _ ⟨v, _⟩ w) fun w => bind_like (none _ w) fun w =>
      bind_like (none _ w) fun w => none _ w
  | integerArray v =>
    rw [toRclValue, pushAll_some v (of_decide_eq_true fits)]
    refine ⟨_, rfl, fun w => ?_⟩
    refine bind_like rfl fun w => bind_like rfl fun w => bind_like rfl fun w =>
      bind_like rfl fun w => bind_like rfl fun w => bind_like (none _ w) fun w =>
      bind_like (none _ w) fun w => bind_like (some _ ⟨v, _⟩ w) fun w =>
      bind_like (none _ w) fun w => none _ w
  | doubleArray v =>
    rw [toRclValue, pushAll_some v (of_decide_eq_true fits)]
    refine ⟨_, rfl, fun w => ?_⟩
    refine bind_like rfl fun w => bind_like rfl fun w => bind_like rfl fun w =>
      bind_like rfl fun w => bind_like rfl fun w => bind_like (none _ w) fun w =>
      bind_like (none _ w) fun w => bind_like (none _ w) fun w =>
      bind_like (some _ ⟨v, _⟩ w) fun w => none _ w
  | stringArray v =>
    rw [valueFitsWire, Bool.and_eq_true, decide_eq_true_eq, List.all_eq_true] at fits
    obtain ⟨bs, converted, texts⟩ := mapM_ofStr fun s member =>
      of_decide_eq_true (fits.2 s member)
    have short : bs.length ≤ wireSeqCap := by
      rw [← texts, List.length_map] at fits
      exact fits.1
    rw [toRclValue, pushAll_eq converted, dif_pos short]
    have strings (w : CdrWriter) : serializeVec serializeString w (⟨bs, short⟩ : WireVec _) =
        writeSequence CdrWriter.writeString w v := by
      rw [some, ← texts]
      exact writeSequence_map WireString.text w bs
    refine ⟨_, rfl, fun w => ?_⟩
    refine bind_like rfl fun w => bind_like rfl fun w => bind_like rfl fun w =>
      bind_like rfl fun w => bind_like rfl fun w => bind_like (none _ w) fun w =>
      bind_like (none _ w) fun w => bind_like (none _ w) fun w =>
      bind_like (none _ w) fun w => strings w

theorem toRclValue_unfit {value : ParameterValue} (unfit : valueFitsWire value = false) :
    toRclValue value = .error .capacityExceeded := by
  cases value with
  | string v =>
    have long : WireString.ofStr v = none := dif_neg (of_decide_eq_false unfit)
    rw [toRclValue, long]
  | byteArray v | boolArray v | integerArray v | doubleArray v =>
    rw [toRclValue, pushAll_long v (of_decide_eq_false unfit)]
    rfl
  | stringArray v =>
    rw [toRclValue]
    by_cases fits : ∀ s ∈ v, byteLen s ≤ wireStringCap
    · obtain ⟨bs, converted, texts⟩ := mapM_ofStr fits
      have short : v.all (fun s => decide (byteLen s ≤ wireStringCap)) = true :=
        List.all_eq_true.mpr fun s member => decide_eq_true (fits s member)
      rw [valueFitsWire, short, Bool.and_true, decide_eq_false_iff_not, ← texts,
        List.length_map] at unfit
      rw [pushAll_eq converted, dif_neg unfit]
      rfl
    · obtain ⟨s, member, long⟩ : ∃ s, s ∈ v ∧ ¬ byteLen s ≤ wireStringCap := by
        simpa using fits
      rw [pushAll, pushAll_unconverted (mapM_ofStr_none member long)]
      rfl
  | _ => cases unfit

end NanoRos
