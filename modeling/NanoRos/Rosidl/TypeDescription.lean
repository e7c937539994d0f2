import NanoRos.Rosidl.Hashable

/-! From a parsed message to the description its hash is taken of, with every type it refers to. -/

namespace NanoRos.Rosidl

namespace TypeId

def nestedType := 1
def int8 := 2
def uint8 := 3
def int16 := 4
def uint16 := 5
def int32 := 6
def uint32 := 7
def int64 := 8
def uint64 := 9
def float := 10
def double := 11
def boolean := 15
def byte := 16
def string := 17
def wstring := 18
def boundedString := 21
def arrayOffset := 48
def boundedSequenceOffset := 96
def unboundedSequenceOffset := 144

end TypeId

/-- A `.msg` `char` is a `uint8` here. -/
def primitiveId : PrimitiveType → Nat
  | .bool => TypeId.boolean
  | .byte => TypeId.byte
  | .char => TypeId.uint8
  | .int8 => TypeId.int8
  | .uint8 => TypeId.uint8
  | .int16 => TypeId.int16
  | .uint16 => TypeId.uint16
  | .int32 => TypeId.int32
  | .uint32 => TypeId.uint32
  | .int64 => TypeId.int64
  | .uint64 => TypeId.uint64
  | .float32 => TypeId.float
  | .float64 => TypeId.double

def namespacedFqn (package : Option Text) (name samePkg : Text) : Text :=
  if '/' ∈ name then name else package.getD samePkg ++ "/msg/".toList ++ name

def elementBase (samePkg : Text) : FieldType → Nat × Nat × Text
  | .primitive p => (primitiveId p, 0, [])
  | .string => (TypeId.string, 0, [])
  | .boundedString n => (TypeId.string, n, [])
  | .wstring => (TypeId.wstring, 0, [])
  | .boundedWString n => (TypeId.wstring, n, [])
  | .namespacedType package name => (TypeId.nestedType, 0, namespacedFqn package name samePkg)
  | .array element _ | .sequence element | .boundedSequence element _ =>
    elementBase samePkg element

def fieldTypeDesc (samePkg : Text) (ft : FieldType) : FieldTypeDesc :=
  match ft with
  | .boundedString n => ⟨TypeId.boundedString, 0, n, []⟩
  | .array element size =>
    let (base, strCap, nested) := elementBase samePkg element
    ⟨base + TypeId.arrayOffset, size, strCap, nested⟩
  | .boundedSequence element maxSize =>
    let (base, strCap, nested) := elementBase samePkg element
    ⟨base + TypeId.boundedSequenceOffset, maxSize, strCap, nested⟩
  | .sequence element =>
    let (base, strCap, nested) := elementBase samePkg element
    ⟨base + TypeId.unboundedSequenceOffset, 0, strCap, nested⟩
  | _ =>
    let (id, strCap, nested) := elementBase samePkg ft
    ⟨id, 0, strCap, nested⟩

/-- The package of a qualified type name. -/
def ownPackage (typeName : Text) : Text := typeName.takeWhile (· ≠ '/')

def structureNeedsAtLeastOneMember : Text := "structure_needs_at_least_one_member".toList

/-- A message without fields has the one member that is generated for it. -/
def messageToIndividual (typeName : Text) (msg : Message) : IndividualTypeDescription :=
  let fields := msg.fields.map fun f => ⟨f.name, fieldTypeDesc (ownPackage typeName) f.fieldType⟩
  ⟨typeName,
    if fields = [] then [⟨structureNeedsAtLeastOneMember, .scalar TypeId.uint8⟩] else fields⟩

def nestedRefs (itd : IndividualTypeDescription) : List Text :=
  (itd.fields.filter (·.ty.nestedTypeName ≠ [])).map (·.ty.nestedTypeName)

/-- The messages a finite package index resolves. -/
abbrev Index := List (Text × Message)

def resolve (index : Index) (fqn : Text) : Option Message :=
  (index.find? (·.1 = fqn)).map Prod.snd

def unresolved (fqn typeName : Text) : Text :=
  "RIHS: cannot resolve nested type '".toList ++ fqn ++ "' referenced from '".toList ++ typeName ++
    "'".toList

variable {index : Index} {fqn typeName : Text} {seen queue : List Text}
  {referenced : List IndividualTypeDescription}

theorem resolve_mem {msg : Message} (resolved : resolve index fqn = some msg) :
    (fqn, msg) ∈ index := by
  obtain ⟨entry, found, rfl⟩ := Option.map_eq_some_iff.mp resolved
  have named := List.find?_some found
  rw [decide_eq_true_iff] at named
  rw [← named]
  exact List.mem_of_find?_eq_some found

scoped instance decidableMem (name : Text) (names : List Text) : Decidable (name ∈ names) :=
  inferInstance

/-- The loop of `build_type_description`: each round takes a queued name off, or resolves one that
was not seen. -/
def collect (index : Index) (typeName : Text) (seen queue : List Text)
    (referenced : List IndividualTypeDescription) :
    Except Text (List IndividualTypeDescription) :=
  match queue with
  | [] => .ok referenced
  | fqn :: queue =>
    if fqn ∈ seen then collect index typeName seen queue referenced
    else
      match resolved : resolve index fqn with
      | none => .error (unresolved fqn typeName)
      | some nestedMsg =>
        let itd := messageToIndividual fqn nestedMsg
        collect index typeName (fqn :: seen)
          (queue ++ (nestedRefs itd).filter (· ∉ fqn :: seen)) (referenced ++ [itd])
termination_by ((index.filter (·.1 ∉ seen)).length, queue.length)
decreasing_by
  · apply Prod.Lex.right
    exact Nat.lt_succ_self _
  · rename_i fresh
    apply Prod.Lex.left
    have smaller : (index.filter (·.1 ∉ fqn :: seen)) =
        (index.filter (·.1 ∉ seen)).filter (·.1 ≠ fqn) := by
      rw [List.filter_filter]
      simp
    rw [smaller]
    apply List.length_filter_lt_length_iff_exists.mpr
    exact ⟨(fqn, nestedMsg), List.mem_filter.mpr ⟨resolve_mem resolved, decide_eq_true fresh⟩,
      by simp⟩

theorem collect_seen (known : fqn ∈ seen) :
    collect index typeName seen (fqn :: queue) referenced =
      collect index typeName seen queue referenced := by
  rw [collect, if_pos known]

theorem collect_unresolved (fresh : fqn ∉ seen) (nothing : resolve index fqn = none) :
    collect index typeName seen (fqn :: queue) referenced = .error (unresolved fqn typeName) := by
  rw [collect, if_neg fresh]
  split
  case h_1 => rfl
  case h_2 found => simp [nothing] at found

theorem collect_resolved {msg : Message} (fresh : fqn ∉ seen)
    (resolved : resolve index fqn = some msg) :
    let itd := messageToIndividual fqn msg
    collect index typeName seen (fqn :: queue) referenced = collect index typeName (fqn :: seen)
        (queue ++ (nestedRefs itd).filter (· ∉ fqn :: seen)) (referenced ++ [itd]) := by
  rw [collect, if_neg fresh]
  split
  case h_1 nothing => simp [resolved] at nothing
  case h_2 other found =>
    cases resolved.symm.trans found
    rfl

def buildTypeDescription (typeName : Text) (msg : Message) (index : Index) :
    Except Text TypeDescription :=
  let top := messageToIndividual typeName msg
  (collect index typeName [typeName] (nestedRefs top) []).map fun referenced => ⟨top, referenced⟩

end NanoRos.Rosidl
