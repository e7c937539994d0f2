import NanoRos.Serdes.Size

/-! The walk that names the members without a bound (`visit_unbounded`), beside the walk that
computes the bound (`size_bound`). -/

namespace NanoRos

def maxFieldPathDepth : Nat := 8

inductive UnboundedKind where
  | string
  | wString
  | sequence
  deriving DecidableEq

/-- `path` has `maxFieldPathDepth` entries, of which the first `depth` are meaningful. -/
structure UnboundedField where
  path : List String
  depth : Nat
  truncated : Bool
  kind : UnboundedKind
  deriving DecidableEq

/-- The name of the next member at its place in the prefix, if there is one. -/
def entered (names : List String) (depth : Nat) (name : String) : List String :=
  if maxFieldPathDepth ≤ depth then names else names.set depth name

/-- What the walk reports of a member at this depth, with its name in the prefix already. -/
def unboundedHere (names : List String) (depth : Nat) (kind : UnboundedKind) : UnboundedField where
  path := names
  depth := if maxFieldPathDepth ≤ depth then maxFieldPathDepth else depth + 1
  truncated := decide (maxFieldPathDepth ≤ depth)
  kind := kind

mutual

/-- The reports that the walk hands to the visitor one by one, and the prefix it leaves behind. -/
def walkFields : List Field → List String → Nat → List String × List UnboundedField
  | [], names, _ => (names, [])
  | ⟨name, ty, _⟩ :: fields, names, depth =>
    let names := entered names depth name
    let first := walkField ty names depth
    let rest := walkFields fields first.1 depth
    (rest.1, first.2 ++ rest.2)

def walkField : FieldType → List String → Nat → List String × List UnboundedField
  | .string, names, depth => (names, [unboundedHere names depth .string])
  | .wString, names, depth => (names, [unboundedHere names depth .wString])
  | .sequence _, names, depth => (names, [unboundedHere names depth .sequence])
  | .array _ inner, names, depth | .boundedSequence _ inner, names, depth =>
    (names, ((elementUnbounded inner).map (unboundedHere names depth)).toList)
  | .nested ⟨_, fields⟩, names, depth =>
    if maxFieldPathDepth ≤ depth then
      let inner := walkFields fields names depth
      (inner.1, inner.2.map fun u => { u with truncated := true })
    else walkFields fields names (depth + 1)
  | _, names, _ => (names, [])

def elementUnbounded : FieldType → Option UnboundedKind
  | .string => some .string
  | .wString => some .wString
  | .sequence _ => some .sequence
  | .array _ inner | .boundedSequence _ inner => elementUnbounded inner
  | .nested ⟨_, fields⟩ =>
    (walkFields fields (List.replicate maxFieldPathDepth "") 0).2.head?.map UnboundedField.kind
  | _ => none

end

/-- A visitor takes a report and its own state, and says whether it breaks the walk off. -/
def feed {σ : Type} (visit : σ → UnboundedField → σ × Bool) : List UnboundedField → σ → σ × Bool
  | [], s => (s, false)
  | u :: reports, s =>
    let visited := visit s u
    if visited.2 then visited else feed visit reports visited.1

def visitUnbounded {σ : Type} (fields : List Field) (visit : σ → UnboundedField → σ × Bool)
    (s : σ) : σ × Bool :=
  feed visit (walkFields fields (List.replicate maxFieldPathDepth "") 0).2 s

def firstUnbounded (fields : List Field) : Option UnboundedField :=
  (visitUnbounded fields (fun _ u => (some u, true)) none).1

/-! ### What is unbounded -/

mutual

/-- A string or sequence without a bound, or one in an element or a nested member. -/
def Unbounded : FieldType → Bool
  | .string | .wString | .sequence _ => true
  | .array _ inner | .boundedSequence _ inner => Unbounded inner
  | .nested ⟨_, fields⟩ => UnboundedIn fields
  | _ => false

def UnboundedIn : List Field → Bool
  | [] => false
  | ⟨_, ty, _⟩ :: fields => Unbounded ty || UnboundedIn fields

end

mutual

/-- The same outside the elements of arrays of length zero and sequences of capacity zero. -/
def Present : FieldType → Bool
  | .string | .wString | .sequence _ => true
  | .array n inner | .boundedSequence n inner => decide (0 < n) && Present inner
  | .nested ⟨_, fields⟩ => PresentIn fields
  | _ => false

def PresentIn : List Field → Bool
  | [] => false
  | ⟨_, ty, _⟩ :: fields => Present ty || PresentIn fields

end

mutual

/-- The names from the root of each unbounded member that is no struct, in declaration order. -/
def offenders : List String → List Field → List (List String)
  | _, [] => []
  | outer, ⟨name, ty, _⟩ :: fields =>
    offendersAt (outer ++ [name]) ty ++ offenders outer fields

def offendersAt : List String → FieldType → List (List String)
  | path, .nested ⟨_, fields⟩ => offenders path fields
  | path, ty => if Unbounded ty then [path] else []

end

mutual

theorem offenders_eq_nil_iff : ∀ (fields : List Field) (outer : List String),
    offenders outer fields = [] ↔ UnboundedIn fields = false
  | [], _ => iff_of_true rfl rfl
  | ⟨name, ty, _⟩ :: fields, outer => by
    rw [offenders, UnboundedIn, List.append_eq_nil_iff, Bool.or_eq_false_iff,
      offendersAt_eq_nil_iff ty, offenders_eq_nil_iff fields]

theorem offendersAt_eq_nil_iff : ∀ (ty : FieldType) (path : List String),
    offendersAt path ty = [] ↔ Unbounded ty = false
  | .nested ⟨_, fields⟩ => fun path => offenders_eq_nil_iff fields path
  | .array _ inner | .boundedSequence _ inner => fun path => by
    change (if Unbounded inner then [path] else []) = [] ↔ Unbounded inner = false
    split
    case isTrue unbounded => exact iff_of_false (List.cons_ne_nil _ _) (by rw [unbounded]; decide)
    case isFalse bounded => exact iff_of_true rfl (Bool.eq_false_iff.mpr bounded)
  | .string | .wString | .sequence _ => fun _ =>
    iff_of_false (List.cons_ne_nil _ _) Bool.noConfusion
  | .bool | .uint8 | .int8 | .uint16 | .int16 | .uint32 | .int32 | .uint64 | .int64 | .float32
  | .float64 | .boundedString _ | .boundedWString _ => fun _ => iff_of_true rfl rfl

end

mutual

theorem offenders_longer : ∀ (fields : List Field) (outer : List String),
    ∀ path ∈ offenders outer fields, outer.length < path.length
  | [], _, _, member => by cases member
  | ⟨name, ty, _⟩ :: fields, outer, path, member => by
    rw [offenders] at member
    rcases List.mem_append.mp member with here | later
    · have longer := offendersAt_longer ty (outer ++ [name]) path here
      rw [List.length_append, List.length_singleton] at longer
      omega
    · exact offenders_longer fields outer path later

theorem offendersAt_longer : ∀ (ty : FieldType) (outer : List String),
    ∀ path ∈ offendersAt outer ty, outer.length ≤ path.length
  | .nested ⟨_, fields⟩, outer, path, member => (offenders_longer fields outer path member).le
  | .array _ inner, outer, path, member | .boundedSequence _ inner, outer, path, member => by
    change path ∈ if Unbounded inner then [outer] else [] at member
    split at member
    · rw [List.mem_singleton.mp member]
    · cases member
  | .string, _, _, member | .wString, _, _, member | .sequence _, _, _, member => by
    rw [List.mem_singleton.mp member]

end

/-! ### What the walk reports -/

/-- The meaningful part of a report's path, and whether it is cut. -/
def UnboundedField.named (u : UnboundedField) : List String × Bool :=
  (u.path.take u.depth, u.truncated)

/-- The path the walk can hold of this one. -/
def pathLabel (path : List String) : List String × Bool :=
  (path.take maxFieldPathDepth, decide (maxFieldPathDepth < path.length))

/-- The prefix at this depth holds what it can of the names around. -/
structure Prefixes (names : List String) (depth : Nat) (outer : List String) : Prop where
  length : names.length = maxFieldPathDepth
  level : depth = min outer.length maxFieldPathDepth
  names : names.take depth = outer.take maxFieldPathDepth

/-- A walk that reports these members and leaves the names around in place. -/
structure Reports (walked : List String × List UnboundedField) (names : List String) (depth : Nat)
    (paths : List (List String)) : Prop where
  length : walked.1.length = maxFieldPathDepth
  kept : walked.1.take depth = names.take depth
  reports : walked.2.map UnboundedField.named = paths.map pathLabel

variable {names : List String} {depth : Nat}

theorem named_unboundedHere {path : List String} (last : String)
    (prefixes : Prefixes names (min (path.length + 1) maxFieldPathDepth) (path ++ [last]))
    (level : depth = min path.length maxFieldPathDepth) (kind : UnboundedKind) :
    (unboundedHere names depth kind).named = pathLabel (path ++ [last]) := by
  have inside := prefixes.names
  rw [UnboundedField.named, unboundedHere, pathLabel, ← inside, List.length_append,
    List.length_singleton, level]
  by_cases deep : maxFieldPathDepth ≤ path.length
  · rw [Nat.min_eq_right deep, Nat.min_eq_right (Nat.le_succ_of_le deep), if_pos le_rfl,
      decide_eq_true le_rfl, decide_eq_true (Nat.lt_succ_of_le deep)]
  · have shallow : path.length < maxFieldPathDepth := Nat.not_le.mp deep
    rw [Nat.min_eq_left shallow.le, Nat.min_eq_left shallow, if_neg deep, decide_eq_false deep,
      decide_eq_false (Nat.not_lt.mpr shallow)]

theorem Reports.nothing (length : names.length = maxFieldPathDepth) :
    Reports (names, []) names depth [] :=
  ⟨length, rfl, rfl⟩

theorem Reports.cut {walked : List String × List UnboundedField} {paths : List (List String)}
    (walk : Reports walked names depth paths)
    (deep : ∀ path ∈ paths, maxFieldPathDepth < path.length) :
    Reports (walked.1, walked.2.map fun u => { u with truncated := true }) names depth paths := by
  refine ⟨walk.length, walk.kept, ?_⟩
  have cut : (walked.2.map fun u => { u with truncated := true }).map UnboundedField.named =
      (walked.2.map UnboundedField.named).map fun label => (label.1, true) := by
    rw [List.map_map, List.map_map]
    rfl
  rw [cut, walk.reports, List.map_map]
  apply List.map_congr_left
  intro path member
  exact Prod.ext rfl (decide_eq_true (deep path member)).symm

theorem take_entered (names : List String) (depth : Nat) (name : String) :
    (entered names depth name).take depth = names.take depth := by
  rw [entered]
  split
  · rfl
  · rw [List.take_set]
    exact List.set_eq_of_length_le (List.length_take_le _ _)

theorem Prefixes.enter {outer : List String} (prefixes : Prefixes names depth outer)
    (name : String) :
    Prefixes (entered names depth name) (min (outer.length + 1) maxFieldPathDepth)
      (outer ++ [name]) := by
  have level := prefixes.level
  have inside := prefixes.names
  by_cases deep : maxFieldPathDepth ≤ depth
  · have long : maxFieldPathDepth ≤ outer.length := by omega
    have stays : depth = maxFieldPathDepth := by omega
    rw [entered, if_pos deep]
    refine ⟨prefixes.length, by rw [List.length_append, List.length_singleton], ?_⟩
    rw [Nat.min_eq_right (Nat.le_succ_of_le long), List.take_append_of_le_length long, ← inside,
      stays]
  · have short : outer.length < maxFieldPathDepth := by omega
    have here : depth = outer.length := by omega
    have room : outer.length < names.length := prefixes.length ▸ short
    rw [entered, if_neg deep]
    refine ⟨List.length_set.trans prefixes.length, ?_, ?_⟩
    · rw [List.length_append, List.length_singleton]
    · rw [List.take_of_length_le short.le, here] at inside
      rw [Nat.min_eq_left short, here, List.take_add_one, List.getElem?_set_self room, List.take_set,
        List.set_eq_of_length_le (List.length_take_le _ _), inside]
      apply (List.take_of_length_le _).symm
      rw [List.length_append]
      exact short

theorem Reports.element {outer : List String} {last : String} {inner : FieldType}
    (found : (elementUnbounded inner).isSome = Unbounded inner)
    (prefixes : Prefixes names (min (outer.length + 1) maxFieldPathDepth) (outer ++ [last]))
    (level : depth = min outer.length maxFieldPathDepth) :
    Reports (names, ((elementUnbounded inner).map (unboundedHere names depth)).toList) names depth
      (if Unbounded inner then [outer ++ [last]] else []) := by
  rw [← found]
  cases elementUnbounded inner with
  | none => exact Reports.nothing prefixes.length
  | some kind =>
    exact ⟨prefixes.length, rfl, congrArg (· :: []) (named_unboundedHere last prefixes level kind)⟩

mutual

theorem walkFields_reports : ∀ (fields : List Field) (names : List String) (depth : Nat)
    (outer : List String), Prefixes names depth outer →
    Reports (walkFields fields names depth) names depth (offenders outer fields)
  | [], names, _, _, prefixes => Reports.nothing prefixes.length
  | ⟨name, ty, _⟩ :: fields, names, depth, outer, prefixes => by
    have path := prefixes.enter name
    have kept := take_entered names depth name
    have first := walkField_reports ty _ depth outer name path prefixes.level
    have between : Prefixes (walkField ty (entered names depth name) depth).1 depth outer :=
      ⟨first.length, prefixes.level, first.kept.trans (kept.trans prefixes.names)⟩
    have rest := walkFields_reports fields _ depth outer between
    refine ⟨rest.length, rest.kept.trans (first.kept.trans kept), ?_⟩
    rw [walkFields, offenders, List.map_append, List.map_append, first.reports, rest.reports]

theorem walkField_reports : ∀ (ty : FieldType) (names : List String) (depth : Nat)
    (outer : List String) (last : String),
    Prefixes names (min (outer.length + 1) maxFieldPathDepth) (outer ++ [last]) →
    depth = min outer.length maxFieldPathDepth →
    Reports (walkField ty names depth) names depth (offendersAt (outer ++ [last]) ty)
  | .string | .wString | .sequence _ => fun names _ _ last prefixes level =>
    ⟨prefixes.length, rfl, congrArg (· :: []) (named_unboundedHere last prefixes level _)⟩
  | .array _ inner | .boundedSequence _ inner => fun names depth outer last prefixes level =>
    Reports.element (elementUnbounded_isSome inner) prefixes level
  | .nested ⟨_, fields⟩ => fun names depth outer last prefixes level => by
    by_cases deep : maxFieldPathDepth ≤ depth
    · have long : maxFieldPathDepth ≤ outer.length := by omega
      have same : depth = min (outer ++ [last]).length maxFieldPathDepth := by
        rw [List.length_append, List.length_singleton]
        omega
      have around : Prefixes names depth (outer ++ [last]) :=
        ⟨prefixes.length, same, by rw [same]; exact prefixes.level ▸ prefixes.names⟩
      have walk := walkFields_reports fields names depth _ around
      rw [walkField, if_pos deep]
      apply walk.cut
      intro path member
      have longer := offenders_longer fields _ path member
      rw [List.length_append, List.length_singleton] at longer
      omega
    · have next : depth + 1 = min (outer.length + 1) maxFieldPathDepth := by omega
      have walk := walkFields_reports fields names (depth + 1) _ (next ▸ prefixes)
      rw [walkField, if_neg deep]
      refine ⟨walk.length, ?_, walk.reports⟩
      have shorter (l : List String) : l.take depth = (l.take (depth + 1)).take depth := by
        rw [List.take_take, Nat.min_eq_left (Nat.le_succ depth)]
      rw [shorter, walk.kept, ← shorter]
  | .bool | .uint8 | .int8 | .uint16 | .int16 | .uint32 | .int32 | .uint64 | .int64 | .float32
  | .float64 | .boundedString _ | .boundedWString _ =>
    fun _ _ _ _ prefixes _ => Reports.nothing prefixes.length

theorem elementUnbounded_isSome : ∀ ty : FieldType, (elementUnbounded ty).isSome = Unbounded ty
  | .string | .wString | .sequence _ => rfl
  | .array _ inner | .boundedSequence _ inner => elementUnbounded_isSome inner
  | .nested ⟨_, fields⟩ => by
    have root : Prefixes (List.replicate maxFieldPathDepth "") 0 [] := ⟨rfl, rfl, rfl⟩
    have walk := (walkFields_reports fields _ 0 [] root).reports
    have empty := offenders_eq_nil_iff fields []
    rw [elementUnbounded, Option.isSome_map, Unbounded]
    cases reports : (walkFields fields (List.replicate maxFieldPathDepth "") 0).2 with
    | nil =>
      rw [reports] at walk
      rw [empty.mp (List.map_eq_nil_iff.mp walk.symm)]
      rfl
    | cons u rest =>
      rw [reports] at walk
      cases members : UnboundedIn fields with
      | true => rfl
      | false =>
        rw [empty.mpr members] at walk
        cases walk
  | .bool | .uint8 | .int8 | .uint16 | .int16 | .uint32 | .int32 | .uint64 | .int64 | .float32
  | .float64 | .boundedString _ | .boundedWString _ => rfl

end

/-! ### The two walks -/

theorem firstUnbounded_eq_none_iff (fields : List Field) :
    firstUnbounded fields = none ↔ UnboundedIn fields = false := by
  have root : Prefixes (List.replicate maxFieldPathDepth "") 0 [] := ⟨rfl, rfl, rfl⟩
  have walk := (walkFields_reports fields _ 0 [] root).reports
  rw [← offenders_eq_nil_iff fields [], firstUnbounded, visitUnbounded]
  cases reports : (walkFields fields (List.replicate maxFieldPathDepth "") 0).2 with
  | nil =>
    rw [reports] at walk
    exact iff_of_true rfl (List.map_eq_nil_iff.mp walk.symm)
  | cons u rest =>
    rw [reports] at walk
    refine iff_of_false nofun fun empty => ?_
    rw [empty] at walk
    cases walk

theorem foldItems_bounded {member : Nat → Option (Nat × Bool × Bool)} {flag : Bool}
    (flags : ∀ offset next, member offset = some next → next.2.1 = flag) (n : Nat)
    (s t : Nat × Bool × Bool) (computed : foldItems member n s = some t) :
    t.2.1 = (s.2.1 && !(decide (0 < n) && !flag)) := by
  induction n generalizing s with
  | zero =>
    cases computed
    exact (Bool.and_true _).symm
  | succ n ih =>
    rcases Option.bind_eq_some_iff.mp computed with ⟨mid, here, rest⟩
    rcases Option.bind_eq_some_iff.mp here with ⟨next, inside, same⟩
    cases same
    rw [ih _ rest, flags _ _ inside, decide_eq_true (Nat.succ_pos n)]
    cases s.2.1 <;> cases flag <;> simp

mutual

theorem fieldBound_bounded (version : EncodingVersion) : ∀ (ty : FieldType) (offset : Nat)
    (next : Nat × Bool × Bool), fieldBound version ty offset = some next → next.2.1 = !Present ty
  | .bool | .uint8 | .int8 | .uint16 | .int16 | .uint32 | .int32 | .float32 | .uint64 | .int64
  | .float64 | .string | .wString | .sequence _ => fun _ _ computed => by
    rcases Option.bind_eq_some_iff.mp computed with ⟨_, _, same⟩
    cases same
    rfl
  | .boundedString _ | .boundedWString _ => fun _ _ computed => by
    rcases Option.bind_eq_some_iff.mp computed with ⟨_, _, more⟩
    rcases Option.bind_eq_some_iff.mp more with ⟨_, _, last⟩
    rcases Option.bind_eq_some_iff.mp last with ⟨_, _, same⟩
    cases same
    rfl
  | .array n inner => fun offset next computed => by
    have items := foldItems_bounded (fieldBound_bounded version inner) n _ next computed
    rw [items, Bool.not_not, Bool.true_and]
    rfl
  | .boundedSequence n inner => fun offset next computed => by
    rcases Option.bind_eq_some_iff.mp computed with ⟨o, _, more⟩
    rcases Option.bind_eq_some_iff.mp more with ⟨last, folded, same⟩
    cases same
    have items := foldItems_bounded (fieldBound_bounded version inner) n _ last folded
    change last.2.1 = _
    rw [items, Bool.not_not, Bool.true_and]
    rfl
  | .nested ⟨_, fields⟩ => fun offset next computed => by
    rcases Option.bind_eq_some_iff.mp computed with ⟨o, _, body⟩
    have members := fieldsBound_bounded version fields _ next body
    rw [members, Bool.true_and]
    rfl

theorem fieldsBound_bounded (version : EncodingVersion) : ∀ (fields : List Field)
    (s t : Nat × Bool × Bool), fieldsBound version fields s = some t →
    t.2.1 = (s.2.1 && !PresentIn fields)
  | [], s, _, computed => by
    cases computed
    exact (Bool.and_true _).symm
  | ⟨_, ty, _⟩ :: fields, s, t, computed => by
    rcases Option.bind_eq_some_iff.mp computed with ⟨mid, here, rest⟩
    rcases Option.bind_eq_some_iff.mp here with ⟨next, inside, same⟩
    cases same
    rw [fieldsBound_bounded version fields _ t rest, PresentIn, Bool.not_or, ← Bool.and_assoc,
      ← fieldBound_bounded version ty _ next inside]

end

theorem sizeBound_bounded {fields : List Field} {version : EncodingVersion} {offset : Nat}
    {bound : SizeBound} (computed : sizeBound fields version offset = some bound) :
    bound.bounded = !PresentIn fields := by
  rcases Option.bind_eq_some_iff.mp computed with ⟨start, _, body⟩
  rcases Option.bind_eq_some_iff.mp body with ⟨last, walked, same⟩
  cases same
  change last.2.1 = _
  rw [fieldsBound_bounded version fields _ last walked, Bool.true_and]

mutual

theorem unbounded_of_present : ∀ ty : FieldType, Present ty = true → Unbounded ty = true
  | .array _ inner, present | .boundedSequence _ inner, present =>
    unbounded_of_present inner (Bool.and_eq_true_iff.mp present).2
  | .nested ⟨_, fields⟩, present => unboundedIn_of_presentIn fields present
  | .string, _ | .wString, _ | .sequence _, _ => rfl

theorem unboundedIn_of_presentIn : ∀ fields : List Field, PresentIn fields = true →
    UnboundedIn fields = true
  | ⟨_, ty, _⟩ :: fields, present => by
    rw [UnboundedIn, Bool.or_eq_true]
    rcases Bool.or_eq_true_iff.mp present with here | later
    · exact .inl (unbounded_of_present ty here)
    · exact .inr (unboundedIn_of_presentIn fields later)

end

theorem feed_eq_foldl {σ : Type} {visit : σ → UnboundedField → σ × Bool}
    (goesOn : ∀ s u, (visit s u).2 = false) (reports : List UnboundedField) (s : σ) :
    feed visit reports s = (reports.foldl (fun s u => (visit s u).1) s, false) := by
  induction reports generalizing s with
  | nil => rfl
  | cons u reports ih =>
    rw [feed, goesOn, if_neg Bool.false_ne_true]
    exact ih _

/-- A visitor that never breaks sees each unbounded member once, in declaration order. -/
def VisitsEach (fields : List Field) : Prop :=
  ∃ reports : List UnboundedField,
    reports.map UnboundedField.named = (offenders [] fields).map pathLabel ∧
    ∀ (σ : Type) (visit : σ → UnboundedField → σ × Bool) (s : σ), (∀ s u, (visit s u).2 = false) →
      visitUnbounded fields visit s = (reports.foldl (fun s u => (visit s u).1) s, false)

theorem visitsEach (fields : List Field) : VisitsEach fields :=
  ⟨_, (walkFields_reports fields _ 0 [] ⟨rfl, rfl, rfl⟩).reports,
    fun _ _ s goesOn => feed_eq_foldl goesOn _ s⟩

/-- The walks agree on a schema, unless its unbounded members are all in elements that no value
has. -/
theorem walks_agree_iff (fields : List Field) (version : EncodingVersion) (bound : SizeBound)
    (computed : sizeBound fields version 0 = some bound) :
    ((firstUnbounded fields = none ↔ bound.bounded = true) ∧ VisitsEach fields) ↔
      (UnboundedIn fields = true → PresentIn fields = true) := by
  rw [and_iff_left (visitsEach fields), firstUnbounded_eq_none_iff, sizeBound_bounded computed,
    Bool.not_eq_true']
  have smaller := unboundedIn_of_presentIn fields
  constructor
  · intro same unbounded
    by_contra absent
    rw [same.mpr (Bool.eq_false_iff.mpr absent)] at unbounded
    cases unbounded
  · intro shown
    constructor
    · intro bounded
      exact Bool.eq_false_iff.mpr fun present => Bool.eq_false_iff.mp bounded (smaller present)
    · intro absent
      exact Bool.eq_false_iff.mpr fun unbounded => Bool.eq_false_iff.mp absent (shown unbounded)

theorem walks_agree_header : sizeBound [⟨"frame_id", .string, 0⟩] .xcdr1 0 =
      some ⟨4, false, false⟩ ∧
    ((firstUnbounded [⟨"frame_id", .string, 0⟩] = none ↔ false = true) ∧
      VisitsEach [⟨"frame_id", .string, 0⟩]) := by
  have computed : sizeBound [⟨"frame_id", .string, 0⟩] .xcdr1 0 = some ⟨4, false, false⟩ := by
    decide +kernel
  exact ⟨computed, (walks_agree_iff _ .xcdr1 _ computed).mpr fun _ => rfl⟩

/-- An array of no strings has a bound, and is named as the member that has none. -/
theorem walks_disagree : ∃ bound, sizeBound [⟨"names", .array 0 .string, 0⟩] .xcdr1 0 =
      some bound ∧ bound.bounded = true ∧
    firstUnbounded [⟨"names", .array 0 .string, 0⟩] =
      some ⟨["names", "", "", "", "", "", "", ""], 1, false, .string⟩ ∧
    ¬ (firstUnbounded [⟨"names", .array 0 .string, 0⟩] = none ↔ bound.bounded = true) := by
  have computed : sizeBound [⟨"names", .array 0 .string, 0⟩] .xcdr1 0 = some ⟨0, true, true⟩ := by
    decide +kernel
  refine ⟨_, computed, rfl, rfl, fun same => ?_⟩
  cases same.mpr rfl

end NanoRos
