import NanoRos.Serdes.Transcode

/-! Whole messages: a value tree written behind an encapsulation header and read back by its own
schema, or by one that knows fewer trailing fields. -/

namespace NanoRos

open LittleEndian Memory

/-- The nodes still to be handed out. -/
structure TreeSource where
  todo : List Value

namespace TreeSource

/-- Hand out the next node, if it is of the expected kind. -/
def take {α : Type} (view : Value → Option α) (s : TreeSource) :
    Except SchemaError (α × TreeSource) :=
  match s.todo with
  | [] => .error .truncated
  | v :: rest =>
    match view v with
    | some value => .ok (value, ⟨rest⟩)
    | none => .error .malformed

/-- Open the next node: its children are handed out in its place. -/
def enter (children : Value → Option (List Value)) (s : TreeSource) :
    Except SchemaError (Nat × TreeSource) := do
  let (inner, s) ← s.take children
  return (inner.length, ⟨inner ++ s.todo⟩)

instance : SchemaSource TreeSource where
  structBegin _ s := Prod.snd <$> s.enter fun | .struct members => some members | _ => none
  arrayBegin _ s := Prod.snd <$> s.enter fun | .array items => some items | _ => none
  seqBegin := enter fun | .seq items => some items | _ => none
  takeBool := take fun | .bool b => some b | _ => none
  takeU8 := take fun | .u8 n => some n | _ => none
  takeI8 := take fun | .i8 n => some n | _ => none
  takeU16 := take fun | .u16 n => some n | _ => none
  takeI16 := take fun | .i16 n => some n | _ => none
  takeU32 := take fun | .u32 n => some n | _ => none
  takeI32 := take fun | .i32 n => some n | _ => none
  takeU64 := take fun | .u64 n => some n | _ => none
  takeI64 := take fun | .i64 n => some n | _ => none
  takeF32 := take fun | .f32 x => some x | _ => none
  takeF64 := take fun | .f64 x => some x | _ => none
  takeStr := take fun | .str s => some s | _ => none

theorem pullItems_todo (pull : TreeSource → Except SchemaError (Value × TreeSource))
    (items rest : List Value)
    (spec : ∀ item ∈ items, ∀ later, pull ⟨item :: later⟩ = .ok (item, ⟨later⟩)) :
    pullItems pull items.length ⟨items ++ rest⟩ = .ok (items, ⟨rest⟩) := by
  induction items with
  | nil => rfl
  | cons item items ih =>
    have first := spec item (by simp) (items ++ rest)
    have others := ih fun later member => spec later (List.mem_cons_of_mem item member)
    simp only [List.length_cons, pullItems, List.cons_append, first, ok_bind, others, pure_eq_ok]

mutual

theorem pullOne_todo : ∀ (ty : FieldType) (v : Value) (rest : List Value), Conforms ty v →
    pullOne ty (⟨v :: rest⟩ : TreeSource) = .ok (v, ⟨rest⟩)
  | .bool | .uint8 | .int8 | .uint16 | .int16 | .uint32 | .int32 | .uint64 | .int64 | .float32
  | .float64 | .string => fun _ _ conforms => by
    obtain ⟨value, rfl⟩ := conforms
    rfl
  | .boundedString n => fun _ rest conforms => by
    obtain ⟨text, rfl, bound⟩ := conforms
    have taken : SchemaSource.takeStr (⟨.str text :: rest⟩ : TreeSource) = .ok (text, ⟨rest⟩) := rfl
    simp only [pullOne, taken, ok_bind, if_neg (Nat.not_lt.mpr bound), pure_eq_ok]
  | .wString => fun _ _ conforms => by cases conforms
  | .boundedWString _ => fun _ _ conforms => by cases conforms
  | .nested ⟨name, fields⟩ => fun _ rest conforms => by
    obtain ⟨members, rfl, inside⟩ := conforms
    have opened : SchemaSource.structBegin name (⟨.struct members :: rest⟩ : TreeSource) =
        .ok ⟨members ++ rest⟩ := rfl
    simp only [pullOne, opened, ok_bind, pullFields_todo fields members rest inside]
    rfl
  | .array n inner => fun _ rest conforms => by
    obtain ⟨items, rfl, rfl, inside⟩ := conforms
    have opened : SchemaSource.arrayBegin items.length (⟨.array items :: rest⟩ : TreeSource) =
        .ok ⟨items ++ rest⟩ := rfl
    have pulled := pullItems_todo (pullOne inner) items rest fun item member later =>
      pullOne_todo inner item later (inside item member)
    simp only [pullOne, opened, ok_bind, pulled]
    rfl
  | .sequence inner => fun _ rest conforms => by
    obtain ⟨items, rfl, inside⟩ := conforms
    have opened : SchemaSource.seqBegin (⟨.seq items :: rest⟩ : TreeSource) =
        .ok (items.length, ⟨items ++ rest⟩) := rfl
    have pulled := pullItems_todo (pullOne inner) items rest fun item member later =>
      pullOne_todo inner item later (inside item member)
    simp only [pullOne, opened, ok_bind, pulled]
    rfl
  | .boundedSequence cap inner => fun _ rest conforms => by
    obtain ⟨items, rfl, bound, inside⟩ := conforms
    have opened : SchemaSource.seqBegin (⟨.seq items :: rest⟩ : TreeSource) =
        .ok (items.length, ⟨items ++ rest⟩) := rfl
    have pulled := pullItems_todo (pullOne inner) items rest fun item member later =>
      pullOne_todo inner item later (inside item member)
    simp only [pullOne, opened, ok_bind, if_neg (Nat.not_lt.mpr bound), pulled]
    rfl

theorem pullFields_todo : ∀ (fields : List Field) (members rest : List Value),
    ConformsFields fields members →
    pullFields fields (⟨members ++ rest⟩ : TreeSource) = .ok (members, ⟨rest⟩)
  | [], _, _, conforms => by
    cases conforms
    rfl
  | ⟨name, ty, offset⟩ :: fields, _, rest, conforms => by
    obtain ⟨v, later, rfl, first, others⟩ := conforms
    have one := pullOne_todo ty v (later ++ rest) first
    have more := pullFields_todo fields later rest others
    simp only [pullFields, List.cons_append]
    change (pullOne ty (⟨v :: (later ++ rest)⟩ : TreeSource) >>= _) = _
    rw [one, ok_bind]
    change (pullFields fields (⟨later ++ rest⟩ : TreeSource) >>= _) = _
    rw [more]
    rfl

end

end TreeSource

/-- The open nodes, innermost first, each with the children it has so far. -/
structure TreeSink where
  frames : List (List Value)

namespace TreeSink

def add (v : Value) (k : TreeSink) : Except SchemaError TreeSink :=
  match k.frames with
  | [] => .error .malformed
  | frame :: frames => .ok ⟨(frame ++ [v]) :: frames⟩

def enter (k : TreeSink) : Except SchemaError TreeSink := .ok ⟨[] :: k.frames⟩

/-- Close the innermost node and add it to the one around it. -/
def leave (wrap : List Value → Value) (k : TreeSink) : Except SchemaError TreeSink :=
  match k.frames with
  | [] => .error .malformed
  | frame :: frames => add (wrap frame) ⟨frames⟩

instance : SchemaSink TreeSink where
  structBegin _ := enter
  structEnd := leave .struct
  arrayBegin _ := enter
  arrayEnd := leave .array
  seqBegin _ := enter
  seqEnd := leave .seq
  putBool b := add (.bool b)
  putU8 n := add (.u8 n)
  putI8 n := add (.i8 n)
  putU16 n := add (.u16 n)
  putI16 n := add (.i16 n)
  putU32 n := add (.u32 n)
  putI32 n := add (.i32 n)
  putU64 n := add (.u64 n)
  putI64 n := add (.i64 n)
  putF32 x := add (.f32 x)
  putF64 x := add (.f64 x)
  putStr s := add (.str s)

theorem foldlM_add (push : Value → TreeSink → Except SchemaError TreeSink) (items : List Value)
    (frame : List Value) (frames : List (List Value))
    (spec : ∀ item ∈ items, ∀ (before : List Value) (around : List (List Value)),
      push item ⟨before :: around⟩ = .ok ⟨(before ++ [item]) :: around⟩) :
    items.foldlM (fun k v => push v k) ⟨frame :: frames⟩ = .ok ⟨(frame ++ items) :: frames⟩ := by
  induction items generalizing frame with
  | nil => rw [List.append_nil]; rfl
  | cons item items ih =>
    have others := ih (frame ++ [item]) fun later member =>
      spec later (List.mem_cons_of_mem item member)
    rw [List.foldlM_cons, spec item (by simp), ok_bind, others, List.append_assoc]
    rfl

mutual

theorem pushOne_frame : ∀ (ty : FieldType) (v : Value) (frame : List Value)
    (frames : List (List Value)), Conforms ty v →
    pushOne ty v (⟨frame :: frames⟩ : TreeSink) = .ok ⟨(frame ++ [v]) :: frames⟩
  | .bool | .uint8 | .int8 | .uint16 | .int16 | .uint32 | .int32 | .uint64 | .int64 | .float32
  | .float64 | .string => fun _ _ _ conforms => by
    obtain ⟨value, rfl⟩ := conforms
    rfl
  | .boundedString n => fun _ _ _ conforms => by
    obtain ⟨text, rfl, _⟩ := conforms
    rfl
  | .wString => fun _ _ _ conforms => by cases conforms
  | .boundedWString _ => fun _ _ _ conforms => by cases conforms
  | .nested ⟨name, fields⟩ => fun _ frame frames conforms => by
    obtain ⟨members, rfl, inside⟩ := conforms
    have opened : SchemaSink.structBegin name (⟨frame :: frames⟩ : TreeSink) =
        .ok ⟨[] :: frame :: frames⟩ := rfl
    have filled := pushFields_frame fields members [] (frame :: frames) inside
    simp only [pushOne, opened, ok_bind, filled]
    rfl
  | .array n inner => fun _ frame frames conforms => by
    obtain ⟨items, rfl, rfl, inside⟩ := conforms
    have opened : SchemaSink.arrayBegin items.length (⟨frame :: frames⟩ : TreeSink) =
        .ok ⟨[] :: frame :: frames⟩ := rfl
    have filled := foldlM_add (pushOne inner) items [] (frame :: frames)
      fun item member before around => pushOne_frame inner item before around (inside item member)
    simp only [pushOne, opened, ok_bind, filled]
    rfl
  | .sequence inner => fun _ frame frames conforms => by
    obtain ⟨items, rfl, inside⟩ := conforms
    have opened : SchemaSink.seqBegin items.length (⟨frame :: frames⟩ : TreeSink) =
        .ok ⟨[] :: frame :: frames⟩ := rfl
    have filled := foldlM_add (pushOne inner) items [] (frame :: frames)
      fun item member before around => pushOne_frame inner item before around (inside item member)
    simp only [pushOne, opened, ok_bind, filled]
    rfl
  | .boundedSequence cap inner => fun _ frame frames conforms => by
    obtain ⟨items, rfl, _, inside⟩ := conforms
    have opened : SchemaSink.seqBegin items.length (⟨frame :: frames⟩ : TreeSink) =
        .ok ⟨[] :: frame :: frames⟩ := rfl
    have filled := foldlM_add (pushOne inner) items [] (frame :: frames)
      fun item member before around => pushOne_frame inner item before around (inside item member)
    simp only [pushOne, opened, ok_bind, filled]
    rfl

theorem pushFields_frame : ∀ (fields : List Field) (members frame : List Value)
    (frames : List (List Value)), ConformsFields fields members →
    pushFields fields members (⟨frame :: frames⟩ : TreeSink) = .ok ⟨(frame ++ members) :: frames⟩
  | [], _, frame, frames, conforms => by
    cases conforms
    rw [List.append_nil]
    rfl
  | ⟨name, ty, offset⟩ :: fields, _, frame, frames, conforms => by
    obtain ⟨v, later, rfl, first, others⟩ := conforms
    have one := pushOne_frame ty v frame frames first
    have more := pushFields_frame fields later (frame ++ [v]) frames others
    simp only [pushFields]
    change (pushOne ty v (⟨frame :: frames⟩ : TreeSink) >>= _) = _
    rw [one, ok_bind]
    change pushFields fields later (⟨(frame ++ [v]) :: frames⟩ : TreeSink) = _
    rw [more, List.append_assoc]
    rfl

end

end TreeSink

mutual

theorem conforms_project : ∀ (ty ty' : FieldType) (v : Value), DropsTrailing ty ty' →
    Conforms ty v → Conforms ty' (project ty' v)
  | .bool | .uint8 | .int8 | .uint16 | .int16 | .uint32 | .int32 | .uint64 | .int64 | .float32
  | .float64 | .string | .boundedString _ => fun _ _ drops conforms => by
    cases drops
    rwa [project_self _ _ conforms]
  | .wString => fun _ _ _ conforms => by cases conforms
  | .boundedWString _ => fun _ _ _ conforms => by cases conforms
  | .nested ⟨name, fields⟩ => fun _ _ drops conforms => by
    obtain ⟨fields', rfl, shorter⟩ := drops
    obtain ⟨members, rfl, inside⟩ := conforms
    exact ⟨_, rfl, conformsFields_project fields fields' members shorter inside⟩
  | .array n inner => fun _ _ drops conforms => by
    obtain ⟨inner', rfl, shorter⟩ := drops
    obtain ⟨items, rfl, count, inside⟩ := conforms
    refine ⟨_, rfl, by rw [List.length_map, count], ?_⟩
    intro item member
    obtain ⟨original, source, rfl⟩ := List.mem_map.mp member
    exact conforms_project inner inner' original shorter (inside original source)
  | .sequence inner => fun _ _ drops conforms => by
    obtain ⟨inner', rfl, shorter⟩ := drops
    obtain ⟨items, rfl, inside⟩ := conforms
    refine ⟨_, rfl, ?_⟩
    intro item member
    obtain ⟨original, source, rfl⟩ := List.mem_map.mp member
    exact conforms_project inner inner' original shorter (inside original source)
  | .boundedSequence cap inner => fun _ _ drops conforms => by
    obtain ⟨inner', rfl, shorter⟩ := drops
    obtain ⟨items, rfl, bound, inside⟩ := conforms
    refine ⟨_, rfl, by rw [List.length_map]; exact bound, ?_⟩
    intro item member
    obtain ⟨original, source, rfl⟩ := List.mem_map.mp member
    exact conforms_project inner inner' original shorter (inside original source)

theorem conformsFields_project : ∀ (fields fields' : List Field) (members : List Value),
    DropsTrailingFields fields fields' → ConformsFields fields members →
    ConformsFields fields' (projectFields fields' members)
  | [], _, _, drops, conforms => by
    cases drops
    cases conforms
    rfl
  | ⟨name, ty, offset⟩ :: fields, _, _, drops, conforms => by
    obtain ⟨v, rest, rfl, first, others⟩ := conforms
    rcases drops with rfl | ⟨ty', rest', rfl, shorter, tail⟩
    · rfl
    · exact ⟨_, _, rfl, conforms_project ty ty' v shorter first,
        conformsFields_project fields rest' rest tail others⟩

end

theorem encodeNested_stop {σ : Type} [SchemaSink σ] (r last : CdrReader) (ready : r.Ready)
    (kind : r.version = .xcdr2) (size : Nat) (word : r.Holds (cdrWord .xcdr2 4 size))
    (typeName : String) (fields : List Field) (k k' : σ)
    (walked : encodeOne (.nested ⟨typeName, fields⟩) (r, k) = .ok (last, k')) :
    last.pos = (r.skip (cdrWord .xcdr2 4 size)).pos + size % 2 ^ 32 := by
  let opened := r.skip (cdrWord .xcdr2 4 size)
  have small : size % 2 ^ 32 ≤ u32Max := Nat.le_pred_of_lt (Nat.mod_lt _ (Nat.two_pow_pos 32))
  have sized := r.readCast_of_holds ready size (by rw [kind]; exact word)
  rw [kind] at sized
  simp only [encodeOne, CdrReader.beginDheader, kind, sized, ok_bind,
    toNat_ofNat_u32 _ small] at walked
  obtain ⟨⟨scope, inner⟩, begun, inside⟩ := bind_eq_ok.mp walked
  have target : scope = some (opened.pos + size % 2 ^ 32) := by
    split at begun
    · cases begun
    · cases begun
      rfl
  obtain ⟨entered, _, members⟩ := bind_eq_ok.mp inside
  obtain ⟨⟨stopped, filled⟩, _, closing⟩ := bind_eq_ok.mp members
  obtain ⟨left, _, ending⟩ := bind_eq_ok.mp closing
  obtain ⟨landed, closed, same⟩ := bind_eq_ok.mp ending
  cases same
  rw [target] at closed
  simp only [CdrReader.endDheader] at closed
  split at closed
  · cases closed
  · cases closed
    rfl

section Stops

variable {σ : Type} [SchemaSink σ]

omit [SchemaSink σ] in
theorem skip_of_transfer {α : Type} {read : CdrReader → Except DeserError (α × CdrReader)}
    {put : α → σ → Except SchemaError σ} {r : CdrReader} {value : α} {wire : Wire UInt8}
    {k : σ} {out : CdrReader × σ} (found : read r = .ok (value, r.skip wire))
    (done : transfer read put (r, k) = .ok out) : out.1 = r.skip wire := by
  simp only [transfer, found, cdrRead_ok, ok_bind] at done
  rcases bind_eq_ok.mp done with ⟨sink, _, same⟩
  cases same
  rfl

variable (item : CdrReader × σ → Except SchemaError (CdrReader × σ))

variable (wire : EncodingVersion → Value → Wire UInt8)

omit [SchemaSink σ] in
theorem skip_of_repeatM (items : List Value)
    (spec : ∀ v ∈ items, ∀ (r : CdrReader) (k : σ) out, r.Ready → r.Holds (wire r.version v) →
      item (r, k) = .ok out → out.1 = r.skip (wire r.version v)) (r : CdrReader) (k : σ)
    (out : CdrReader × σ) (ready : r.Ready) (holds : r.Holds (Wire.many (wire r.version) items))
    (done : repeatM items.length item (r, k) = .ok out) :
    out.1 = r.skip (Wire.many (wire r.version) items) := by
  induction items generalizing r k with
  | nil =>
    cases done
    rfl
  | cons v items ih =>
    rcases (r.holds_andThen ready _ _).mp holds with ⟨first, others⟩
    rcases bind_eq_ok.mp done with ⟨⟨reached, sink⟩, step, later⟩
    have moved := spec v List.mem_cons_self r k _ ready first step
    simp only at moved
    subst moved
    have last := ih (fun item member => spec item (List.mem_cons_of_mem v member))
      (r.skip (wire r.version v)) sink (ready.skip first) others later
    rw [last, r.skip_andThen ready]
    rfl

theorem skip_of_encodeItems (items : List Value)
    (spec : ∀ v ∈ items, ∀ (r : CdrReader) (k : σ) out, r.Ready → r.Holds (wire r.version v) →
      item (r, k) = .ok out → out.1 = r.skip (wire r.version v)) (r : CdrReader) (ready : r.Ready)
    (holds : r.Holds
      ((cdrWord r.version 4 items.length).andThen (Wire.many (wire r.version) items))) (k : σ)
    (out : CdrReader × σ)
    (done : encodeItems items.length item (r.skip (cdrWord r.version 4 items.length), k) =
      .ok out) :
    out.1 = r.skip
      ((cdrWord r.version 4 items.length).andThen (Wire.many (wire r.version) items)) := by
  rcases (r.holds_andThen ready _ _).mp holds with ⟨counted, elements⟩
  rcases bind_eq_ok.mp done with ⟨entered, _, walked⟩
  rcases bind_eq_ok.mp walked with ⟨⟨reached, filled⟩, repeated, closing⟩
  rcases bind_eq_ok.mp closing with ⟨left, _, same⟩
  cases same
  have last := skip_of_repeatM item wire items spec (r.skip (cdrWord r.version 4 items.length))
    entered (reached, filled) (ready.skip counted) elements repeated
  rw [← r.skip_andThen ready]
  exact last

/-- Members that were read to their end under a size field that is smaller than they are stop the
reader: a struct the reader gets through ends where its wire does. -/
theorem skip_of_struct (r : CdrReader) (ready : r.Ready) (body : Wire UInt8)
    (holds : r.Holds (delimited r.version body)) (scope : Option Nat) (opened last : CdrReader)
    (begun : r.beginDheader = .ok (scope, opened))
    (ended : (opened.skip body).endDheader scope = .ok last) :
    last = r.skip (delimited r.version body) := by
  cases kind : r.version with
  | xcdr1 =>
    simp only [CdrReader.beginDheader, kind] at begun
    cases begun
    cases ended
    rfl
  | xcdr2 =>
    rw [kind] at holds
    have same := CdrReader.delimited_xcdr2_apply body r.offset
    let size := (body (r.offset + padding 4 r.offset + 4)).length
    have parts : r.Holds ((cdrWord .xcdr2 4 size).andThen body) := by
      rw [CdrReader.Holds, ← same]
      exact holds
    have word := ((r.holds_andThen ready _ _).mp parts).1
    have sized := r.readCast_of_holds ready size (by rw [kind]; exact word)
    have small : size % 2 ^ 32 ≤ u32Max := Nat.le_pred_of_lt (Nat.mod_lt _ (Nat.two_pow_pos 32))
    have start : (r.skip (cdrWord .xcdr2 4 size)).offset = r.offset + padding 4 r.offset + 4 := by
      rw [CdrReader.offset_skip r ready]
      simp [cdrWord, alignCap]
    rw [kind] at sized
    simp only [CdrReader.beginDheader, kind, sized, ok_bind, toNat_ofNat_u32 _ small] at begun
    split at begun
    case isTrue => cases begun
    case isFalse =>
      cases begun
      simp only [CdrReader.endDheader] at ended
      split at ended
      case isTrue => cases ended
      case isFalse inside =>
        cases ended
        have whole : size % 2 ^ 32 = size := by
          have below := Nat.mod_le size (2 ^ 32)
          simp only [CdrReader.skip] at inside start
          rw [start] at inside
          simp only [size] at inside below ⊢
          omega
        rw [CdrReader.skip_delimited r ready, whole]
        simp only [CdrReader.skip] at start ⊢
        rw [start]

mutual

theorem skip_of_encodeOne : ∀ (ty : FieldType) (v : Value) (r : CdrReader) (k : σ)
    (out : CdrReader × σ), Conforms ty v → LengthsFit ty v → r.Ready →
    r.Holds (cdrWire r.version ty v) → encodeOne ty (r, k) = .ok out →
    out.1 = r.skip (cdrWire r.version ty v)
  | .bool | .uint8 | .int8 | .uint16 | .int16 | .uint32 | .int32 | .uint64 | .int64 | .float32
  | .float64 => fun _ r _ _ conforms _ ready holds done => by
    rcases ScalarCodec.read_of_holds (by constructor) conforms ready holds with ⟨value, rfl, found⟩
    exact skip_of_transfer found done
  | .string => fun _ r _ _ conforms lengths ready holds done => by
    rcases conforms with ⟨text, rfl⟩
    exact skip_of_transfer (r.readString_of_holds ready text lengths holds) done
  | .boundedString n => fun _ r _ _ conforms lengths ready holds done => by
    rcases conforms with ⟨text, rfl, bound⟩
    have found := r.readString_of_holds ready text lengths holds
    simp only [encodeOne, found, cdrRead_ok, ok_bind, if_neg (Nat.not_lt.mpr bound)] at done
    rcases bind_eq_ok.mp done with ⟨sink, _, same⟩
    cases same
    rfl
  | .wString => fun _ _ _ _ conforms _ _ _ _ => by cases conforms
  | .boundedWString _ => fun _ _ _ _ conforms _ _ _ _ => by cases conforms
  | .nested ⟨name, fields⟩ => fun _ r k out conforms lengths ready holds done => by
    rcases conforms with ⟨members, rfl, inside⟩
    simp only [encodeOne] at done
    rcases bind_eq_ok.mp done with ⟨⟨scope, opened⟩, begun, entering⟩
    rcases bind_eq_ok.mp entering with ⟨entered, _, walking⟩
    rcases bind_eq_ok.mp walking with ⟨⟨reached, filled⟩, walked, closing⟩
    rcases bind_eq_ok.mp closing with ⟨left, _, ending⟩
    rcases bind_eq_ok.mp ending with ⟨last, ended, same⟩
    cases same
    have begins := cdrRead_eq_ok.mp begun
    rcases r.beginDheader_holds ready _ holds begins with ⟨kind, ready', body⟩
    have moved := skip_of_encodeFields fields members opened entered (reached, filled) inside
      lengths ready' (by rw [kind]; exact body) walked
    simp only at moved
    subst moved
    rw [kind] at ended
    exact skip_of_struct r ready _ holds scope opened last begins (cdrRead_eq_ok.mp ended)
  | .array _ inner => fun _ r k out conforms lengths ready holds done => by
    rcases conforms with ⟨items, rfl, rfl, inside⟩
    simp only [encodeOne] at done
    rcases bind_eq_ok.mp done with ⟨entered, _, walking⟩
    rcases bind_eq_ok.mp walking with ⟨⟨reached, filled⟩, walked, closing⟩
    rcases bind_eq_ok.mp closing with ⟨left, _, same⟩
    cases same
    exact skip_of_repeatM (encodeOne inner) (cdrWire · inner) items
      (fun v member next k out =>
        skip_of_encodeOne inner v next k out (inside v member) (lengths v member))
      r entered (reached, filled) ready holds walked
  | .sequence inner => fun _ r k out conforms lengths ready holds done => by
    rcases conforms with ⟨items, rfl, inside⟩
    have counted := ((r.holds_andThen ready _ _).mp holds).1
    have length := r.readSequenceLen_of_holds ready _ lengths.1 counted
    simp only [encodeOne, length, cdrRead_ok, ok_bind] at done
    exact skip_of_encodeItems (encodeOne inner) (cdrWire · inner) items
      (fun v member next k out =>
        skip_of_encodeOne inner v next k out (inside v member) (lengths.2 v member))
      r ready holds k out done
  | .boundedSequence cap inner => fun _ r k out conforms lengths ready holds done => by
    rcases conforms with ⟨items, rfl, bound, inside⟩
    have counted := ((r.holds_andThen ready _ _).mp holds).1
    have length := r.readSequenceLen_of_holds ready _ lengths.1 counted
    simp only [encodeOne, length, cdrRead_ok, ok_bind, if_neg (Nat.not_lt.mpr bound)] at done
    exact skip_of_encodeItems (encodeOne inner) (cdrWire · inner) items
      (fun v member next k out =>
        skip_of_encodeOne inner v next k out (inside v member) (lengths.2 v member))
      r ready holds k out done

theorem skip_of_encodeFields : ∀ (fields : List Field) (members : List Value) (r : CdrReader)
    (k : σ) (out : CdrReader × σ), ConformsFields fields members →
    LengthsFitFields fields members → r.Ready → r.Holds (cdrWireFields r.version fields members) →
    encodeFields fields (r, k) = .ok out → out.1 = r.skip (cdrWireFields r.version fields members)
  | [], _, _, _, _, conforms, _, _, _, done => by
    cases conforms
    cases done
    rfl
  | ⟨name, ty, offset⟩ :: fields, _, r, k, out, conforms, lengths, ready, holds, done => by
    rcases conforms with ⟨v, rest, rfl, first, others⟩
    rcases (r.holds_andThen ready _ _).mp holds with ⟨head, behind⟩
    simp only [encodeFields] at done
    rcases bind_eq_ok.mp done with ⟨entered, _, walking⟩
    rcases bind_eq_ok.mp walking with ⟨⟨reached, filled⟩, step, closing⟩
    rcases bind_eq_ok.mp closing with ⟨left, _, later⟩
    have moved := skip_of_encodeOne ty v r entered (reached, filled) first lengths.1 ready head step
    simp only at moved
    subst moved
    have last := skip_of_encodeFields fields rest (r.skip (cdrWire r.version ty v)) left out others
      lengths.2 (ready.skip head) behind later
    rw [last, CdrReader.skip_version, r.skip_andThen ready]
    rfl

end

end Stops

def messageHeader : EncodingVersion → List UInt8
  | .xcdr1 => cdrLeHeader
  | .xcdr2 => cdr2DelimitedLeHeader

/-- `new_with_header` or `new_with_header_xcdr2`. -/
def messageWriter : EncodingVersion → List UInt8 → Except SerError CdrWriter
  | .xcdr1 => CdrWriter.newWithHeader
  | .xcdr2 => CdrWriter.newWithHeaderXcdr2

/-- A value tree behind its encapsulation header; the message is the written part of `buf`. -/
def writeMessage (version : EncodingVersion) (typeName : String) (schema : List Field) (v : Value)
    (buf : List UInt8) : Except SchemaError (List UInt8) := do
  let w ← cdrWrite (messageWriter version buf)
  let (_, w) ← decodeToCdr (⟨[v]⟩ : TreeSource) typeName schema w
  return w.asSlice

/-- The value tree of a message and the position the reader ends at. -/
def readMessage (bytes : List UInt8) (typeName : String) (schema : List Field) :
    Except SchemaError (Value × Nat) := do
  let r ← cdrRead (CdrReader.newWithHeader bytes)
  let (r, sink) ← encodeFromCdr r typeName schema (⟨[[]]⟩ : TreeSink)
  match sink.frames with
  | [[v]] => return (v, r.position)
  | _ => throw .malformed

/-- The bytes a message needs, header included. -/
def messageSize (version : EncodingVersion) (typeName : String) (schema : List Field)
    (v : Value) : Nat :=
  4 + (cdrWire version (.nested ⟨typeName, schema⟩) v 0).length

/-- The size of the message's own member block under XCDR2: what its size field has to hold. -/
def memberBlockSize (schema : List Field) : Value → Nat
  | .struct members => (cdrWireFields .xcdr2 schema members 4).length
  | _ => 0

section Message

variable (version : EncodingVersion) (typeName : String) (schema : List Field) (v : Value)

theorem length_messageHeader : (messageHeader version).length = 4 := by cases version <;> rfl

theorem messageWriter_eq_ok (buf : List UInt8) (room : 4 ≤ buf.length) :
    messageWriter version buf =
      .ok ⟨overwrite buf 0 (messageHeader version), 4, 4, version, false⟩ := by
  cases version with
  | xcdr1 | xcdr2 => exact if_neg (Nat.not_lt.mpr room)

theorem writeMessage_eq_ok (buf : List UInt8) (conforms : Conforms (.nested ⟨typeName, schema⟩) v)
    (lengths : LengthsFit (.nested ⟨typeName, schema⟩) v)
    (room : messageSize version typeName schema v ≤ buf.length) :
    writeMessage version typeName schema v buf =
      .ok (messageHeader version ++ cdrWire version (.nested ⟨typeName, schema⟩) v 0) := by
  rw [messageSize] at room
  let body := cdrWire version (.nested ⟨typeName, schema⟩) v 0
  let w : CdrWriter := ⟨overwrite buf 0 (messageHeader version), 4, 4, version, false⟩
  have header := length_messageHeader version
  have same : w.buf.length = buf.length := length_overwrite _ _ _ (by rw [header]; omega)
  have ready : w.Ready := ⟨Nat.le_refl 4, by rw [same]; exact (by omega : 4 ≤ buf.length), rfl⟩
  have pulled := TreeSource.pullOne_todo _ v [] conforms
  have walked := decodeOne_of_pull _ _ _ v w pulled lengths ready
  have stored : w.emit (cdrWire w.version (.nested ⟨typeName, schema⟩) v) = .ok (w.after body) :=
    w.put_eq_ok ready body (by rw [same]; exact room)
  have written : (w.after body).asSlice = messageHeader version ++ body := by
    have front := take_overwrite buf 0 (messageHeader version) (Nat.zero_le _)
    rw [header] at front
    have whole := take_overwrite w.buf 4 body ready.within
    rw [front] at whole
    exact whole
  simp only [writeMessage, messageWriter_eq_ok version buf (by omega), cdrWrite_ok, ok_bind,
    decodeToCdr]
  change (decodeOne (.nested ⟨typeName, schema⟩) ((⟨[v]⟩ : TreeSource), w) >>= _) = _
  rw [walked, emits, stored]
  simp only [cdrWrite_ok, ok_map, ok_bind, pure_eq_ok, written]
  rfl

theorem writeMessage_eq_ok_iff (buf bytes : List UInt8)
    (conforms : Conforms (.nested ⟨typeName, schema⟩) v) :
    writeMessage version typeName schema v buf = .ok bytes ↔
      LengthsFit (.nested ⟨typeName, schema⟩) v ∧
      messageSize version typeName schema v ≤ buf.length ∧
      bytes = messageHeader version ++ cdrWire version (.nested ⟨typeName, schema⟩) v 0 := by
  constructor
  · intro done
    by_cases header : 4 ≤ buf.length
    · let w : CdrWriter := ⟨overwrite buf 0 (messageHeader version), 4, 4, version, false⟩
      have same : w.buf.length = buf.length :=
        length_overwrite _ _ _ (by rw [length_messageHeader]; omega)
      have ready : w.Ready := ⟨Nat.le_refl 4, by rw [same]; exact header, rfl⟩
      have pulled := TreeSource.pullOne_todo _ v [] conforms
      have again := done
      simp only [writeMessage, messageWriter_eq_ok version buf header, cdrWrite_ok, ok_bind,
        decodeToCdr] at again
      rcases bind_eq_ok.mp again with ⟨⟨rest, w'⟩, walked, _⟩
      have lengths := lengthsFit_of_decodeOne _ _ _ v w _ pulled ready walked
      rw [decodeOne_of_pull _ _ _ v w pulled lengths ready] at walked
      have room : messageSize version typeName schema v ≤ buf.length := by
        rcases emits_cases _ w ready (cdrWire w.version (.nested ⟨typeName, schema⟩) v) with
          ⟨e, _, failed⟩ | ⟨next, stored, _⟩
        · rw [failed] at walked
          cases walked
        · have fits := (CdrWriter.emit_eq_ok ready stored).2.1
          rw [same] at fits
          exact fits
      rw [writeMessage_eq_ok version typeName schema v buf conforms lengths room] at done
      cases done
      exact ⟨lengths, room, rfl⟩
    · have small : messageWriter version buf = .error .bufferTooSmall := by
        cases version with
        | xcdr1 | xcdr2 => exact if_pos (Nat.not_le.mp header)
      rw [writeMessage, small] at done
      cases done
  · rintro ⟨lengths, room, rfl⟩
    exact writeMessage_eq_ok version typeName schema v buf conforms lengths room

theorem newWithHeader_messageHeader (body : List UInt8) :
    CdrReader.newWithHeader (messageHeader version ++ body) =
      .ok ⟨messageHeader version ++ body, 4, 4, version⟩ := by
  cases version <;> simp [CdrReader.newWithHeader, messageHeader, cdrLeHeader, cdr2DelimitedLeHeader]

theorem holds_messageBody (wire : Wire UInt8) :
    (⟨messageHeader version ++ wire 0, 4, 4, version⟩ : CdrReader).Holds wire := by
  have header := length_messageHeader version
  refine ⟨[], ?_⟩
  simp only [CdrReader.offset, Nat.sub_self, List.append_nil]
  rw [← header, List.drop_left]

theorem ready_message (body : List UInt8) :
    (⟨messageHeader version ++ body, 4, 4, version⟩ : CdrReader).Ready := by
  have header := length_messageHeader version
  exact ⟨Nat.le_refl 4, by simp [header]⟩

theorem readMessage_eq_ok (schema' : List Field) (drops : DropsTrailingFields schema schema')
    (whole : version = .xcdr1 → schema' = schema)
    (conforms : Conforms (.nested ⟨typeName, schema⟩) v)
    (lengths : LengthsFit (.nested ⟨typeName, schema⟩) v) (short : version = .xcdr2 →
      (cdrWire version (.nested ⟨typeName, schema⟩) v 0).length < 2 ^ 32 + 4) :
    readMessage (messageHeader version ++ cdrWire version (.nested ⟨typeName, schema⟩) v 0)
        typeName schema' =
      .ok (project (.nested ⟨typeName, schema'⟩) v, messageSize version typeName schema v) := by
  let wire := cdrWire version (.nested ⟨typeName, schema⟩) v
  let r : CdrReader := ⟨messageHeader version ++ wire 0, 4, 4, version⟩
  have shorter : DropsTrailing (.nested ⟨typeName, schema⟩) (.nested ⟨typeName, schema'⟩) :=
    ⟨schema', rfl, drops⟩
  have carried : r.Carries wire :=
    ⟨ready_message version _, holds_messageBody version wire, short⟩
  have walked := encodeOne_of_carries _ _ v r (⟨[[]]⟩ : TreeSink) shorter
    (fun kind => by rw [whole kind]) conforms lengths carried
  have pushed := TreeSink.pushOne_frame _ _ [] [] (conforms_project _ _ v shorter conforms)
  rw [pushed] at walked
  simp only [readMessage, newWithHeader_messageHeader, cdrRead_ok, ok_bind, encodeFromCdr]
  change (encodeOne (.nested ⟨typeName, schema'⟩) (r, (⟨[[]]⟩ : TreeSink)) >>= _) = _
  rw [walked]
  rfl

theorem encodeMessage_stop {σ : Type} [SchemaSink σ] (body : Wire UInt8) (schema' : List Field)
    (k : σ) (out : CdrReader × σ) (walked : encodeOne (.nested ⟨typeName, schema'⟩)
      ((⟨messageHeader .xcdr2 ++ delimited .xcdr2 body 0, 4, 4, .xcdr2⟩ : CdrReader), k) =
        .ok out) :
    out.1.pos = 8 + (body 4).length % 2 ^ 32 := by
  let r : CdrReader := ⟨messageHeader .xcdr2 ++ delimited .xcdr2 body 0, 4, 4, .xcdr2⟩
  have ready : r.Ready := ready_message .xcdr2 _
  have parts : r.Holds ((cdrWord .xcdr2 4 (body 4).length).andThen body) := by
    have start : r.offset = 0 := rfl
    have seen := CdrReader.delimited_xcdr2_apply body 0
    rw [show 0 + padding 4 0 + 4 = 4 from rfl] at seen
    rw [CdrReader.Holds, start, ← seen]
    exact holds_messageBody .xcdr2 (delimited .xcdr2 body)
  have word := ((r.holds_andThen ready _ _).mp parts).1
  have members : (r.skip (cdrWord .xcdr2 4 (body 4).length)).pos = 8 := by
    simp [CdrReader.skip, CdrReader.offset, r, cdrWord, Wire.andThen, Wire.align, Wire.lit, padding]
  rw [← members]
  exact encodeNested_stop r out.1 ready rfl _ word typeName schema' k out.2 walked

theorem readMessage_stop (body : Wire UInt8) (schema' : List Field) (outcome : Value × Nat)
    (accepted : readMessage (messageHeader .xcdr2 ++ delimited .xcdr2 body 0) typeName schema' =
      .ok outcome) :
    outcome.2 = 8 + (body 4).length % 2 ^ 32 := by
  simp only [readMessage, newWithHeader_messageHeader, cdrRead_ok, ok_bind, encodeFromCdr]
    at accepted
  rcases bind_eq_ok.mp accepted with ⟨⟨last, sink⟩, walked, finished⟩
  have stop := encodeMessage_stop typeName body schema' _ (last, sink) walked
  simp only at finished
  split at finished
  · cases finished
    exact stop
  · cases finished

end Message

theorem length_message_xcdr2 (version : EncodingVersion) (typeName : String) (schema : List Field)
    (members : List Value) (kind : version = .xcdr2) :
    (cdrWire version (.nested ⟨typeName, schema⟩) (.struct members) 0).length =
      4 + memberBlockSize schema (.struct members) := by
  subst kind
  simp [cdrWire, delimited, Wire.andThen, Wire.align, padding, memberBlockSize]

theorem readMessage_iff (version : EncodingVersion) (typeName : String)
    (schema schema' : List Field) (v : Value) (buf bytes : List UInt8)
    (drops : DropsTrailingFields schema schema') (whole : version = .xcdr1 → schema' = schema)
    (conforms : Conforms (.nested ⟨typeName, schema⟩) v)
    (written : writeMessage version typeName schema v buf = .ok bytes) :
    readMessage bytes typeName schema' =
        .ok (project (.nested ⟨typeName, schema'⟩) v, bytes.length) ↔
      (version = .xcdr2 → memberBlockSize schema v < 2 ^ 32) := by
  rcases (writeMessage_eq_ok_iff version typeName schema v buf bytes conforms).mp written with
    ⟨lengths, _, rfl⟩
  have size : (messageHeader version ++ cdrWire version (.nested ⟨typeName, schema⟩) v 0).length =
      messageSize version typeName schema v := by
    rw [List.length_append, length_messageHeader, messageSize]
  rcases id conforms with ⟨members, rfl, _⟩
  have block := length_message_xcdr2 version typeName schema members
  rw [size]
  constructor
  · intro accepted kind
    have total := block kind
    subst kind
    have stop := readMessage_stop typeName (cdrWireFields .xcdr2 schema members) schema' _ accepted
    simp only [messageSize, total] at stop
    change 4 + (4 + memberBlockSize schema (.struct members)) =
      8 + memberBlockSize schema (.struct members) % 2 ^ 32 at stop
    have small := Nat.mod_lt (memberBlockSize schema (.struct members)) (Nat.two_pow_pos 32)
    omega
  · intro fits
    apply readMessage_eq_ok version typeName schema _ schema' drops whole conforms lengths
    intro kind
    have bound := fits kind
    rw [block kind]
    omega

section Blob

/-! A type with one byte array, the plainest message whose member block can outgrow its size field:
the array carries no length prefix for the writer to check. -/

def blobSchema (n : Nat) : List Field := [⟨"data", .array n .uint8, 0⟩]

def blob (n : Nat) : Value := .struct [.array (List.replicate n (.u8 0))]

variable (n : Nat)

theorem conforms_blob : Conforms (.nested ⟨"Blob", blobSchema n⟩) (blob n) := by
  refine ⟨_, rfl, _, _, rfl, ⟨_, rfl, List.length_replicate, ?_⟩, rfl⟩
  intro item member
  exact ⟨0, List.eq_of_mem_replicate member⟩

theorem lengthsFit_blob : LengthsFit (.nested ⟨"Blob", blobSchema n⟩) (blob n) := by
  simp [blob, blobSchema, LengthsFit, LengthsFitFields]

theorem memberBlockSize_blob : memberBlockSize (blobSchema n) (blob n) = n := by
  have bytes (offset : Nat) :
      (Wire.many (cdrWire .xcdr2 .uint8) (List.replicate n (.u8 0)) offset).length = n := by
    induction n generalizing offset with
    | zero => rfl
    | succ n ih =>
      simp only [List.replicate_succ, Wire.many, Wire.andThen, List.length_append, ih]
      simp only [cdrWire, Wire.lit, List.length_singleton]
      omega
  simp only [memberBlockSize, blobSchema, blob, cdrWireFields, Wire.andThen_empty, cdrWire, bytes]

theorem messageSize_blob : messageSize .xcdr2 "Blob" (blobSchema n) (blob n) = n + 8 := by
  have block := memberBlockSize_blob n
  simp only [memberBlockSize, blob] at block
  simp only [messageSize, blob, cdrWire, delimited, Wire.andThen, Wire.align, padding,
    List.length_append, List.length_replicate, length_leBytes]
  simp only [Nat.zero_mod, Nat.sub_zero, Nat.mod_self, Nat.zero_add, block]
  omega

theorem writeMessage_blob :
    ∃ bytes, writeMessage .xcdr2 "Blob" (blobSchema n) (blob n) (List.replicate (n + 8) 0) =
      .ok bytes :=
  ⟨_, writeMessage_eq_ok .xcdr2 "Blob" _ _ _ (conforms_blob n) (lengthsFit_blob n)
    (by rw [messageSize_blob, List.length_replicate])⟩

theorem blob_lost (schema' : List Field) (drops : DropsTrailingFields (blobSchema n) schema')
    (large : 2 ^ 32 ≤ n) (bytes : List UInt8)
    (written : writeMessage .xcdr2 "Blob" (blobSchema n) (blob n) (List.replicate (n + 8) 0) =
      .ok bytes) :
    readMessage bytes "Blob" schema' ≠
      .ok (project (.nested ⟨"Blob", schema'⟩) (blob n), bytes.length) := by
  intro accepted
  have fits := (readMessage_iff .xcdr2 "Blob" (blobSchema n) schema' (blob n) _ bytes drops
    (fun kind => by cases kind) (conforms_blob n) written).mp accepted rfl
  rw [memberBlockSize_blob] at fits
  exact Nat.not_lt.mpr large fits

end Blob

/-! A small type with a sequence of structs in it, and an older version of that type. -/

def taggedSchema : List Field :=
  [⟨"tags", .sequence (.nested ⟨"Tag", [⟨"kind", .uint8, 0⟩, ⟨"weight", .uint64, 8⟩]⟩), 0⟩,
    ⟨"count", .uint16, 24⟩]

def untaggedSchema : List Field :=
  [⟨"tags", .sequence (.nested ⟨"Tag", [⟨"kind", .uint8, 0⟩]⟩), 0⟩]

def tagged : Value := .struct [.seq [.struct [.u8 1, .u64 2], .struct [.u8 3, .u64 4]], .u16 5]

theorem conforms_tagged : Conforms (.nested ⟨"Tagged", taggedSchema⟩) tagged := by
  refine ⟨_, rfl, _, _, rfl, ⟨_, rfl, ?_⟩, _, _, rfl, ⟨5, rfl⟩, rfl⟩
  intro item member
  simp only [List.mem_cons, List.not_mem_nil, or_false] at member
  rcases member with rfl | rfl
  · exact ⟨_, rfl, _, _, rfl, ⟨1, rfl⟩, _, _, rfl, ⟨2, rfl⟩, rfl⟩
  · exact ⟨_, rfl, _, _, rfl, ⟨3, rfl⟩, _, _, rfl, ⟨4, rfl⟩, rfl⟩

theorem lengthsFit_tagged : LengthsFit (.nested ⟨"Tagged", taggedSchema⟩) tagged := by
  simp [tagged, taggedSchema, LengthsFit, LengthsFitFields, u32Max]

/-- A reader that knows fewer trailing fields, anywhere in the type, still sees its own part of
the value. -/
theorem forward_compatible_iff (typeName : String) (schema schema' : List Field) (v : Value)
    (buf bytes : List UInt8) (drops : DropsTrailingFields schema schema')
    (conforms : Conforms (.nested ⟨typeName, schema⟩) v)
    (written : writeMessage .xcdr2 typeName schema v buf = .ok bytes) :
    readMessage bytes typeName schema' =
        .ok (project (.nested ⟨typeName, schema'⟩) v, bytes.length) ↔
      memberBlockSize schema v < 2 ^ 32 := by
  rw [readMessage_iff .xcdr2 typeName schema schema' v buf bytes drops
    (fun kind => by cases kind) conforms written]
  exact ⟨fun fits => fits rfl, fun fits _ => fits⟩

theorem forward_compatible_tagged :
    ∃ bytes, writeMessage .xcdr2 "Tagged" taggedSchema tagged (List.replicate 64 0) = .ok bytes ∧
      readMessage bytes "Tagged" untaggedSchema =
        .ok (project (.nested ⟨"Tagged", untaggedSchema⟩) tagged, bytes.length) := by
  have written := writeMessage_eq_ok .xcdr2 "Tagged" taggedSchema tagged (List.replicate 64 0)
    conforms_tagged lengthsFit_tagged (by decide)
  exact ⟨_, written, (forward_compatible_iff "Tagged" taggedSchema untaggedSchema tagged
    (List.replicate 64 0) _
    (.inr ⟨_, _, rfl, ⟨_, rfl, _, rfl, .inr ⟨_, _, rfl, rfl, .inl rfl⟩⟩, .inl rfl⟩)
    conforms_tagged written).mpr (by decide)⟩

theorem forward_compatible_lost :
    DropsTrailingFields (blobSchema (2 ^ 32)) [] ∧
    Conforms (.nested ⟨"Blob", blobSchema (2 ^ 32)⟩) (blob (2 ^ 32)) ∧ ∃ bytes,
      writeMessage .xcdr2 "Blob" (blobSchema (2 ^ 32)) (blob (2 ^ 32))
        (List.replicate (2 ^ 32 + 8) 0) = .ok bytes ∧
      readMessage bytes "Blob" [] ≠
        .ok (project (.nested ⟨"Blob", []⟩) (blob (2 ^ 32)), bytes.length) := by
  rcases writeMessage_blob (2 ^ 32) with ⟨bytes, written⟩
  exact ⟨.inl rfl, conforms_blob _, bytes, written,
    blob_lost (2 ^ 32) [] (.inl rfl) (Nat.le_refl _) bytes written⟩

end NanoRos
