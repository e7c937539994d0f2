import NanoRos.Rosidl.TypeDescription

/-! When two families of messages are hashed alike. -/

namespace NanoRos.Rosidl

/-- A message, and the index its references are resolved in. -/
structure Family where
  typeName : Text
  msg : Message
  index : Index

namespace FieldType

/-- What a collection is of, in the end. -/
def element : FieldType → FieldType
  | .array element _ | .sequence element | .boundedSequence element _ => element.element
  | scalar => scalar

/-- The full name of the type a field refers to. -/
def refersTo (own : Text) : FieldType → Option Text
  | .namespacedType package name => some (namespacedFqn package name own)
  | .array element _ | .sequence element | .boundedSequence element _ => element.refersTo own
  | _ => none

/-- Every bound is at least one. -/
def Bounded : FieldType → Prop
  | .boundedString n | .boundedWString n => 1 ≤ n
  | .array element n | .boundedSequence element n => 1 ≤ n ∧ element.Bounded
  | .sequence element => element.Bounded
  | _ => True

end FieldType

def PrimitiveType.charAsUint8 : PrimitiveType → PrimitiveType
  | .char => .uint8
  | p => p

/-- The same type that is no collection, up to `char` and `uint8`; a reference is its full name. -/
def SameScalar (own own' : Text) : FieldType → FieldType → Prop
  | .primitive p, .primitive q => p.charAsUint8 = q.charAsUint8
  | .string, .string | .wstring, .wstring => True
  | .boundedString m, .boundedString n | .boundedWString m, .boundedWString n => m = n
  | .namespacedType package name, .namespacedType package' name' =>
    namespacedFqn package name own = namespacedFqn package' name' own'
  | _, _ => False

/-- The same collection of the same elements; a collection of a collection is one of its
elements. -/
def SameType (own own' : Text) : FieldType → FieldType → Prop
  | .array a m, .array b n | .boundedSequence a m, .boundedSequence b n =>
    m = n ∧ SameScalar own own' a.element b.element
  | .sequence a, .sequence b => SameScalar own own' a.element b.element
  | a, b => SameScalar own own' a b

/-- The fields a message is hashed with: an empty one has its generated member. -/
def Message.members (msg : Message) : List Field :=
  if msg.fields = [] then [⟨.primitive .uint8, structureNeedsAtLeastOneMember, none⟩]
  else msg.fields

def SameFields (own own' : Text) (msg msg' : Message) : Prop :=
  List.Forall₂ (fun f g => f.name = g.name ∧ SameType own own' f.fieldType g.fieldType)
    msg.members msg'.members

namespace Family

def message (family : Family) (name : Text) : Option Message :=
  if name = family.typeName then some family.msg else resolve family.index name

/-- The types a family's message is made of, itself included. -/
inductive Reaches (family : Family) : Text → Prop where
  | top : Reaches family family.typeName
  | nested {name ref : Text} {msg : Message} {field : Field} (reached : Reaches family name)
      (found : family.message name = some msg) (member : field ∈ msg.fields)
      (refers : field.fieldType.refersTo (ownPackage name) = some ref) : Reaches family ref

def Bounded (family : Family) : Prop :=
  ∀ name msg, family.message name = some msg → ∀ field ∈ msg.fields, field.fieldType.Bounded

def build (family : Family) : Except Text TypeDescription :=
  buildTypeDescription family.typeName family.msg family.index

end Family

/-- The same name on top, the same types reached, and each with the same fields in order. -/
structure SameFamily (A B : Family) : Prop where
  name : A.typeName = B.typeName
  reaches : ∀ name, A.Reaches name ↔ B.Reaches name
  fields : ∀ name, A.Reaches name → ∀ msg msg', A.message name = some msg →
    B.message name = some msg' → SameFields (ownPackage name) (ownPackage name) msg msg'

/-! ### Field types -/

theorem elementBase_element (own : Text) (ft : FieldType) :
    elementBase own ft.element = elementBase own ft := by
  induction ft with
  | array element _ ih => exact ih
  | sequence element ih => exact ih
  | boundedSequence element _ ih => exact ih
  | _ => rfl

theorem bounded_element {ft : FieldType} (bounded : ft.Bounded) : ft.element.Bounded := by
  induction ft with
  | array element _ ih => exact ih bounded.2
  | sequence element ih => exact ih bounded
  | boundedSequence element _ ih => exact ih bounded.2
  | _ => exact bounded

def FieldType.IsScalar : FieldType → Prop
  | .array _ _ | .sequence _ | .boundedSequence _ _ => False
  | _ => True

theorem isScalar_element (ft : FieldType) : ft.element.IsScalar := by
  induction ft with
  | array element _ ih => exact ih
  | sequence element ih => exact ih
  | boundedSequence element _ ih => exact ih
  | _ => trivial

theorem primitiveId_eq_iff (p q : PrimitiveType) :
    primitiveId p = primitiveId q ↔ p.charAsUint8 = q.charAsUint8 := by
  cases p <;> cases q <;> decide

theorem primitiveId_range (p : PrimitiveType) : 2 ≤ primitiveId p ∧ primitiveId p ≤ 16 := by
  cases p <;> decide

theorem primitiveId_ne (p : PrimitiveType) : primitiveId p ≠ TypeId.nestedType ∧
    primitiveId p ≠ TypeId.string ∧ primitiveId p ≠ TypeId.wstring ∧
    primitiveId p ≠ TypeId.boundedString := by
  cases p <;> decide

theorem otherIds_ne : TypeId.nestedType ≠ TypeId.string ∧ TypeId.nestedType ≠ TypeId.wstring ∧
    TypeId.nestedType ≠ TypeId.boundedString ∧ TypeId.string ≠ TypeId.wstring ∧
    TypeId.string ≠ TypeId.boundedString ∧ TypeId.wstring ≠ TypeId.boundedString := by
  decide

variable {own own' : Text} {a b : FieldType} {msg : Message}
  {refs refs' : List IndividualTypeDescription} {fields : List Field}

theorem elementBase_eq_iff (scalarA : a.IsScalar) (scalarB : b.IsScalar) (boundedA : a.Bounded)
    (boundedB : b.Bounded) :
    elementBase own a = elementBase own' b ↔ SameScalar own own' a b := by
  obtain ⟨nestedString, nestedWString, -, strings, -, -⟩ := otherIds_ne
  cases a <;> cases b <;>
    simp only [FieldType.IsScalar, FieldType.Bounded] at scalarA scalarB boundedA boundedB <;>
    simp [elementBase, SameScalar, primitiveId_eq_iff, primitiveId_ne, (primitiveId_ne _).1.symm,
      (primitiveId_ne _).2.1.symm, (primitiveId_ne _).2.2.1.symm, nestedString, nestedString.symm,
      nestedWString, nestedWString.symm, strings, strings.symm] <;> omega

theorem elementBase_le (own : Text) (ft : FieldType) : (elementBase own ft).1 ≤ TypeId.wstring := by
  induction ft with
  | primitive p => exact (primitiveId_range p).2.trans (by decide)
  | array element _ ih => exact ih
  | sequence element ih => exact ih
  | boundedSequence element _ ih => exact ih
  | _ => simp [elementBase, TypeId.string, TypeId.wstring, TypeId.nestedType]

theorem elements_eq_iff (boundedA : a.Bounded) (boundedB : b.Bounded) :
    elementBase own a = elementBase own' b ↔ SameScalar own own' a.element b.element := by
  rw [← elementBase_element own a, ← elementBase_element own' b]
  exact elementBase_eq_iff (isScalar_element a) (isScalar_element b) (bounded_element boundedA)
    (bounded_element boundedB)

/-- Scalar, array, bounded or unbounded sequence: the band of 48 ids a field type is in. -/
def FieldType.band : FieldType → Nat
  | .array _ _ => 1
  | .boundedSequence _ _ => 2
  | .sequence _ => 3
  | _ => 0

theorem typeId_band (own : Text) (ft : FieldType) :
    (fieldTypeDesc own ft).typeId / 48 = ft.band := by
  have small : ∀ element, (elementBase own element).1 < 48 := fun element =>
    (elementBase_le own element).trans_lt (by decide)
  cases ft with
  | array element n =>
    change ((elementBase own element).1 + 1 * 48) / 48 = 1
    rw [Nat.add_mul_div_right _ _ (by decide), Nat.div_eq_of_lt (small element)]
  | boundedSequence element n =>
    change ((elementBase own element).1 + 2 * 48) / 48 = 2
    rw [Nat.add_mul_div_right _ _ (by decide), Nat.div_eq_of_lt (small element)]
  | sequence element =>
    change ((elementBase own element).1 + 3 * 48) / 48 = 3
    rw [Nat.add_mul_div_right _ _ (by decide), Nat.div_eq_of_lt (small element)]
  | boundedString n => exact Nat.div_eq_of_lt (show TypeId.boundedString < 48 by decide)
  | primitive p => exact Nat.div_eq_of_lt (small (.primitive p))
  | string => exact Nat.div_eq_of_lt (small .string)
  | wstring => exact Nat.div_eq_of_lt (small .wstring)
  | boundedWString n => exact Nat.div_eq_of_lt (small (.boundedWString n))
  | namespacedType package name => exact Nat.div_eq_of_lt (small (.namespacedType package name))

theorem band_of_same (same : SameType own own' a b) :
    a.band = b.band := by
  cases a <;> cases b <;> first | rfl | exact absurd same (by simp [SameType, SameScalar])

theorem scalarDesc_eq_iff (scalarA : a.IsScalar) (scalarB : b.IsScalar) (boundedA : a.Bounded)
    (boundedB : b.Bounded) :
    fieldTypeDesc own a = fieldTypeDesc own' b ↔ SameScalar own own' a b := by
  obtain ⟨nestedString, nestedWString, nestedBounded, strings, stringBounded, wstringBounded⟩ :=
    otherIds_ne
  cases a <;> cases b <;>
    simp only [FieldType.IsScalar, FieldType.Bounded] at scalarA scalarB boundedA boundedB <;>
    simp [fieldTypeDesc, elementBase, SameScalar, primitiveId_eq_iff, primitiveId_ne,
      (primitiveId_ne _).1.symm, (primitiveId_ne _).2.1.symm, (primitiveId_ne _).2.2.1.symm,
      (primitiveId_ne _).2.2.2.symm, nestedString, nestedString.symm, nestedWString,
      nestedWString.symm, nestedBounded, nestedBounded.symm, strings, strings.symm, stringBounded,
      stringBounded.symm, wstringBounded, wstringBounded.symm] <;> omega

theorem collectionDesc_eq_iff (x y : Nat × Nat × Text) (offset m n : Nat) :
    (⟨x.1 + offset, m, x.2.1, x.2.2⟩ : FieldTypeDesc) = ⟨y.1 + offset, n, y.2.1, y.2.2⟩ ↔
      m = n ∧ x = y := by
  rw [FieldTypeDesc.mk.injEq, Prod.ext_iff, Prod.ext_iff, Nat.add_left_inj]
  tauto

theorem fieldTypeDesc_eq_iff (boundedA : a.Bounded) (boundedB : b.Bounded) :
    fieldTypeDesc own a = fieldTypeDesc own' b ↔ SameType own own' a b := by
  by_cases band : a.band = b.band
  · cases a with
    | array element n =>
      cases b with
      | array element' n' =>
        exact (collectionDesc_eq_iff _ _ TypeId.arrayOffset n n').trans
          (and_congr_right fun _ => elements_eq_iff boundedA.2 boundedB.2)
      | _ => cases band
    | boundedSequence element n =>
      cases b with
      | boundedSequence element' n' =>
        exact (collectionDesc_eq_iff _ _ TypeId.boundedSequenceOffset n n').trans
          (and_congr_right fun _ => elements_eq_iff boundedA.2 boundedB.2)
      | _ => cases band
    | sequence element =>
      cases b with
      | sequence element' =>
        exact (collectionDesc_eq_iff _ _ TypeId.unboundedSequenceOffset 0 0).trans
          ((and_iff_right rfl).trans (elements_eq_iff boundedA boundedB))
      | _ => cases band
    | _ =>
      cases b <;> first
        | exact scalarDesc_eq_iff trivial trivial boundedA boundedB
        | cases band
  · constructor
    · intro same
      exact absurd (by rw [← typeId_band own a, same, typeId_band own' b]) band
    · exact fun same => absurd (band_of_same same) band

/-! ### Messages -/

def describe (own : Text) (field : Field) : FieldDesc :=
  ⟨field.name, fieldTypeDesc own field.fieldType⟩

theorem individual_members (name : Text) (msg : Message) :
    messageToIndividual name msg = ⟨name, msg.members.map (describe (ownPackage name))⟩ := by
  rw [messageToIndividual, Message.members]
  by_cases empty : msg.fields = []
  · rw [if_pos empty, if_pos (List.map_eq_nil_iff.mpr empty)]
    rfl
  · rw [if_neg empty, if_neg (mt List.map_eq_nil_iff.mp empty)]
    rfl

theorem bounded_members (bounded : ∀ field ∈ msg.fields, field.fieldType.Bounded) :
    ∀ field ∈ msg.members, field.fieldType.Bounded := by
  rw [Message.members]
  split
  · intro field member
    rw [List.mem_singleton.mp member]
    trivial
  · exact bounded

theorem describe_eq_iff {f g : Field} (bounded : f.fieldType.Bounded)
    (bounded' : g.fieldType.Bounded) : describe own f = describe own' g ↔
      f.name = g.name ∧ SameType own own' f.fieldType g.fieldType := by
  rw [describe, describe, FieldDesc.mk.injEq, fieldTypeDesc_eq_iff bounded bounded']

theorem individual_eq_iff {name name' : Text} {msg' : Message}
    (bounded : ∀ field ∈ msg.fields, field.fieldType.Bounded)
    (bounded' : ∀ field ∈ msg'.fields, field.fieldType.Bounded) :
    messageToIndividual name msg = messageToIndividual name' msg' ↔
      name = name' ∧ SameFields (ownPackage name) (ownPackage name') msg msg' := by
  have described : ∀ fs gs : List Field,
      fs.map (describe (ownPackage name)) = gs.map (describe (ownPackage name')) ↔
        List.Forall₂ (fun f g => describe (ownPackage name) f = describe (ownPackage name') g)
          fs gs := by
    intro fs gs
    rw [← List.forall₂_eq_eq_eq, List.forall₂_map_left_iff, List.forall₂_map_right_iff]
  rw [individual_members, individual_members, IndividualTypeDescription.mk.injEq, described,
    SameFields, List.forall₂_iff_zip, List.forall₂_iff_zip]
  apply and_congr_right
  intro _
  apply and_congr_right
  intro _
  apply forall₃_congr
  intro f g zipped
  obtain ⟨left, right⟩ := List.of_mem_zip zipped
  exact describe_eq_iff (bounded_members bounded f left) (bounded_members bounded' g right)

theorem namespacedFqn_ne_nil (package : Option Text) (name own : Text) :
    namespacedFqn package name own ≠ [] := by
  rw [namespacedFqn]
  split
  case isTrue slash => exact List.ne_nil_of_mem slash
  case isFalse => simp

theorem nestedTypeName_eq (own : Text) (ft : FieldType) :
    (fieldTypeDesc own ft).nestedTypeName = (elementBase own ft).2.2 := by
  cases ft <;> rfl

theorem refersTo_eq (own : Text) (ft : FieldType) :
    ft.refersTo own =
      if (elementBase own ft).2.2 = [] then none else some (elementBase own ft).2.2 := by
  induction ft with
  | namespacedType package name => exact (if_neg (namespacedFqn_ne_nil package name own)).symm
  | array element _ ih => exact ih
  | sequence element ih => exact ih
  | boundedSequence element _ ih => exact ih
  | _ => rfl

theorem mem_nestedRefs_iff {name ref : Text} :
    ref ∈ nestedRefs (messageToIndividual name msg) ↔
      ∃ field ∈ msg.fields, field.fieldType.refersTo (ownPackage name) = some ref := by
  have members : ref ∈ nestedRefs (messageToIndividual name msg) ↔
      ∃ field ∈ msg.members, field.fieldType.refersTo (ownPackage name) = some ref := by
    rw [individual_members, nestedRefs]
    constructor
    · intro nestedRef
      obtain ⟨desc, kept, rfl⟩ := List.mem_map.mp nestedRef
      obtain ⟨listed, nested⟩ := List.mem_filter.mp kept
      obtain ⟨field, member, rfl⟩ := List.mem_map.mp listed
      rw [decide_eq_true_iff] at nested
      rw [describe, nestedTypeName_eq] at nested ⊢
      exact ⟨field, member, by rw [refersTo_eq, if_neg nested]⟩
    · rintro ⟨field, member, refers⟩
      rw [refersTo_eq] at refers
      split at refers
      case isTrue => cases refers
      case isFalse nested =>
        cases refers
        rw [← nestedTypeName_eq] at nested ⊢
        apply List.mem_map.mpr ⟨describe (ownPackage name) field, ?_, rfl⟩
        exact List.mem_filter.mpr ⟨List.mem_map_of_mem member, decide_eq_true nested⟩
  rw [members, Message.members]
  split
  case isTrue empty => simp [empty, FieldType.refersTo]
  case isFalse => rfl

/-! ### The traversal -/

namespace Family

variable {family : Family}

/-- Where the loop stands: what it has seen is the top type and the types it has described, and
what these refer to is seen or queued. -/
structure Collected (family : Family) (seen queue : List Text)
    (referenced : List IndividualTypeDescription) : Prop where
  marks : ∀ name, name ∈ seen ↔
    name = family.typeName ∨ name ∈ referenced.map IndividualTypeDescription.typeName
  apart : family.typeName ∉ referenced.map IndividualTypeDescription.typeName
  nodup : (referenced.map IndividualTypeDescription.typeName).Nodup
  described : ∀ itd ∈ referenced, ∃ msg, family.message itd.typeName = some msg ∧
    itd = messageToIndividual itd.typeName msg
  reached : ∀ name, name ∈ seen ∨ name ∈ queue → family.Reaches name
  closed : ∀ name ∈ seen, ∀ msg, family.message name = some msg →
    ∀ ref ∈ nestedRefs (messageToIndividual name msg), ref ∈ seen ∨ ref ∈ queue

/-- What the description of a family holds beside its top type. -/
structure Described (family : Family) (referenced : List IndividualTypeDescription) : Prop where
  apart : family.typeName ∉ referenced.map IndividualTypeDescription.typeName
  nodup : (referenced.map IndividualTypeDescription.typeName).Nodup
  described : ∀ itd ∈ referenced, ∃ msg, family.message itd.typeName = some msg ∧
    itd = messageToIndividual itd.typeName msg
  reaches : ∀ name, family.Reaches name ↔
    name = family.typeName ∨ name ∈ referenced.map IndividualTypeDescription.typeName

variable {seen : List Text} {referenced : List IndividualTypeDescription} {queue : List Text}

theorem Collected.finished (collected : family.Collected seen [] referenced) :
    family.Described referenced where
  apart := collected.apart
  nodup := collected.nodup
  described := collected.described
  reaches := by
    intro name
    rw [← collected.marks name]
    constructor
    · intro reached
      induction reached with
      | top => exact (collected.marks _).mpr (.inl rfl)
      | nested _ found member refers seen =>
        obtain inside | queued := collected.closed _ seen _ found _
          (mem_nestedRefs_iff.mpr ⟨_, member, refers⟩)
        · exact inside
        · exact absurd queued List.not_mem_nil
    · exact fun inside => collected.reached name (.inl inside)

theorem Collected.skip {fqn : Text} (collected : family.Collected seen (fqn :: queue) referenced)
    (known : fqn ∈ seen) : family.Collected seen queue referenced :=
  { collected with
    reached := fun name inside =>
      collected.reached name (inside.imp_right (List.mem_cons_of_mem _))
    closed := by
      intro name inside msg found ref refers
      obtain marked | queued := collected.closed name inside msg found ref refers
      · exact .inl marked
      · obtain rfl | later := List.mem_cons.mp queued
        · exact .inl known
        · exact .inr later }

theorem Collected.visit {fqn : Text} {msg : Message}
    (collected : family.Collected seen (fqn :: queue) referenced) (fresh : fqn ∉ seen)
    (resolved : resolve family.index fqn = some msg) :
    let itd := messageToIndividual fqn msg
    family.Collected (fqn :: seen) (queue ++ (nestedRefs itd).filter (· ∉ fqn :: seen))
      (referenced ++ [itd]) := by
  intro itd
  have unmarked := (not_congr (collected.marks fqn)).mp fresh
  rw [not_or] at unmarked
  have found : family.message fqn = some msg := by
    rw [message, if_neg unmarked.1, resolved]
  have reachedHere := collected.reached fqn (.inr List.mem_cons_self)
  have names : (referenced ++ [itd]).map IndividualTypeDescription.typeName =
      referenced.map IndividualTypeDescription.typeName ++ [fqn] := List.map_append
  have spread : ∀ ref ∈ nestedRefs itd, ref ∈ fqn :: seen ∨
      ref ∈ queue ++ (nestedRefs itd).filter (· ∉ fqn :: seen) := by
    intro ref refers
    by_cases marked : ref ∈ fqn :: seen
    · exact .inl marked
    · exact .inr (List.mem_append_right _ (List.mem_filter.mpr ⟨refers, decide_eq_true marked⟩))
  exact {
    marks := by
      intro name
      rw [names, List.mem_cons, collected.marks name, List.mem_append, List.mem_singleton]
      tauto
    apart := by
      rw [names, List.mem_append, List.mem_singleton, not_or]
      exact ⟨collected.apart, fun same => unmarked.1 same.symm⟩
    nodup := by
      rw [names]
      exact collected.nodup.append (List.nodup_singleton _)
        (List.disjoint_singleton.mpr unmarked.2)
    described := by
      intro other listed
      obtain earlier | here := List.mem_append.mp listed
      · exact collected.described other earlier
      · rw [List.mem_singleton.mp here]
        exact ⟨msg, found, rfl⟩
    reached := by
      rintro name (inside | queued)
      · obtain rfl | marked := List.mem_cons.mp inside
        · exact reachedHere
        · exact collected.reached name (.inl marked)
      · obtain waiting | added := List.mem_append.mp queued
        · exact collected.reached name (.inr (List.mem_cons_of_mem _ waiting))
        · obtain ⟨field, member, refers⟩ :=
            mem_nestedRefs_iff.mp (List.mem_filter.mp added).1
          exact .nested reachedHere found member refers
    closed := by
      intro name inside other foundToo ref refers
      obtain rfl | marked := List.mem_cons.mp inside
      · rw [found] at foundToo
        cases foundToo
        exact spread ref refers
      · obtain known | queued := collected.closed name marked other foundToo ref refers
        · exact .inl (List.mem_cons_of_mem _ known)
        · obtain rfl | waiting := List.mem_cons.mp queued
          · exact .inl List.mem_cons_self
          · exact .inr (List.mem_append_left _ waiting) }

theorem Collected.collect {out : List IndividualTypeDescription}
    (collected : family.Collected seen queue referenced)
    (done : Rosidl.collect family.index family.typeName seen queue referenced = .ok out) :
    family.Described out := by
  induction seen, queue, referenced using Rosidl.collect.induct family.index with
  | case1 seen referenced =>
    rw [Rosidl.collect] at done
    cases done
    exact collected.finished
  | case2 seen referenced fqn queue known ih =>
    rw [collect_seen known] at done
    exact ih (collected.skip known) done
  | case3 seen referenced fqn queue fresh nothing =>
    rw [collect_unresolved fresh nothing] at done
    cases done
  | case4 seen referenced fqn queue fresh msg resolved itd ih =>
    rw [collect_resolved fresh resolved] at done
    exact ih (collected.visit fresh resolved) done

theorem collected_start (family : Family) :
    family.Collected [family.typeName]
      (nestedRefs (messageToIndividual family.typeName family.msg)) [] where
  marks := by simp
  apart := List.not_mem_nil
  nodup := List.nodup_nil
  described := fun _ listed => absurd listed List.not_mem_nil
  reached := by
    rintro name (inside | queued)
    · rw [List.mem_singleton.mp inside]
      exact .top
    · obtain ⟨field, member, refers⟩ := mem_nestedRefs_iff.mp queued
      exact .nested .top (if_pos rfl) member refers
  closed := by
    intro name inside msg found ref refers
    rw [List.mem_singleton.mp inside, message, if_pos rfl] at found
    cases found
    rw [List.mem_singleton.mp inside] at refers
    exact .inr refers

theorem build_ok {family : Family} {desc : TypeDescription} (built : family.build = .ok desc) :
    desc.typeDescription = messageToIndividual family.typeName family.msg ∧
      family.Described desc.referencedTypeDescriptions := by
  rw [build, buildTypeDescription] at built
  cases done : Rosidl.collect family.index family.typeName [family.typeName]
      (nestedRefs (messageToIndividual family.typeName family.msg)) [] with
  | error e =>
    rw [done] at built
    cases built
  | ok referenced =>
    rw [done] at built
    cases built
    exact ⟨rfl, (collected_start family).collect done⟩

end Family

/-! ### The text and the types -/

theorem sortRefs_eq_of_perm (perm : refs.Perm refs')
    (nodup : (refs.map IndividualTypeDescription.typeName).Nodup) :
    sortRefs refs = sortRefs refs' := by
  have trans : ∀ a b c : IndividualTypeDescription, decide (a.typeName ≤ b.typeName) = true →
      decide (b.typeName ≤ c.typeName) = true → decide (a.typeName ≤ c.typeName) = true := by
    intro a b c first second
    exact decide_eq_true (le_trans (of_decide_eq_true first) (of_decide_eq_true second))
  have total : ∀ a b : IndividualTypeDescription,
      (decide (a.typeName ≤ b.typeName) || decide (b.typeName ≤ a.typeName)) = true := by
    intro a b
    rw [Bool.or_eq_true, decide_eq_true_iff, decide_eq_true_iff]
    exact le_total _ _
  have sorted : ∀ refs : List IndividualTypeDescription,
      (sortRefs refs).Pairwise fun a b => decide (a.typeName ≤ b.typeName) = true :=
    List.pairwise_mergeSort trans total
  have sortPerm : ∀ refs : List IndividualTypeDescription, (sortRefs refs).Perm refs :=
    fun refs => List.mergeSort_perm refs _
  apply List.Perm.eq_of_pairwise ?_ (sorted refs) (sorted refs')
    ((sortPerm refs).trans (perm.trans (sortPerm refs').symm))
  intro a b left right le ge
  apply List.inj_on_of_nodup_map nodup ((sortPerm refs).mem_iff.mp left)
    (perm.mem_iff.mpr ((sortPerm refs').mem_iff.mp right))
  exact le_antisymm (of_decide_eq_true le) (of_decide_eq_true ge)

theorem perm_of_sortRefs_eq (same : sortRefs refs = sortRefs refs') : refs.Perm refs' := by
  have perm : (sortRefs refs').Perm refs := same ▸ List.mergeSort_perm refs _
  exact perm.symm.trans (List.mergeSort_perm refs' _)

theorem toHashableJson_eq_iff {a b : TypeDescription}
    (nodup : (a.referencedTypeDescriptions.map IndividualTypeDescription.typeName).Nodup) :
    toHashableJson a = toHashableJson b ↔ a.typeDescription = b.typeDescription ∧
      a.referencedTypeDescriptions.Perm b.referencedTypeDescriptions := by
  constructor
  · intro same
    obtain ⟨top, refs⟩ := toHashableJson_inj same
    exact ⟨top, perm_of_sortRefs_eq refs⟩
  · rintro ⟨top, perm⟩
    rw [toHashableJson, toHashableJson, top, sortRefs_eq_of_perm perm nodup]

namespace Family

theorem Described.exists_of_reaches {family : Family} {refs : List IndividualTypeDescription}
    (described : family.Described refs) {name : Text} (reached : family.Reaches name)
    (nested : name ≠ family.typeName) : ∃ itd ∈ refs, itd.typeName = name := by
  obtain top | inside := (described.reaches name).mp reached
  · exact absurd top nested
  · exact List.mem_map.mp inside

/-- A described type of one family is one of the other's, if that reaches it and describes it
alike. -/
theorem Described.mem_of_alike {A B : Family} {refs refs' : List IndividualTypeDescription}
    (left : A.Described refs) (right : B.Described refs') (name : A.typeName = B.typeName)
    (reaches : ∀ name, A.Reaches name → B.Reaches name)
    (alike : ∀ name, A.Reaches name → ∀ msg msg', A.message name = some msg →
      B.message name = some msg' → messageToIndividual name msg = messageToIndividual name msg')
    (itd : IndividualTypeDescription) (listed : itd ∈ refs) : itd ∈ refs' := by
  have named := List.mem_map_of_mem (f := IndividualTypeDescription.typeName) listed
  have reached := (left.reaches itd.typeName).mpr (.inr named)
  have nested : itd.typeName ≠ B.typeName := by
    intro top
    rw [top, ← name] at named
    exact left.apart named
  obtain ⟨other, listedToo, same⟩ := right.exists_of_reaches (reaches _ reached) nested
  obtain ⟨msg, found, shape⟩ := left.described itd listed
  obtain ⟨msg', found', shape'⟩ := right.described other listedToo
  rw [same] at found' shape'
  rw [shape, alike _ reached msg msg' found found', ← shape']
  exact listedToo

end Family

theorem alike_iff_sameFamily {A B : Family} (boundsA : A.Bounded) (boundsB : B.Bounded)
    (describedA : A.Described refs) (describedB : B.Described refs') :
    messageToIndividual A.typeName A.msg = messageToIndividual B.typeName B.msg ∧
      refs.Perm refs' ↔ SameFamily A B := by
  have topA : A.message A.typeName = some A.msg := if_pos rfl
  have topB : B.message B.typeName = some B.msg := if_pos rfl
  constructor
  · rintro ⟨top, perm⟩
    have tops := (individual_eq_iff (boundsA _ _ topA) (boundsB _ _ topB)).mp top
    have names := perm.map IndividualTypeDescription.typeName
    refine ⟨tops.1, fun name => ?_, fun name reached msg msg' found found' => ?_⟩
    · rw [describedA.reaches, describedB.reaches, tops.1, names.mem_iff]
    · by_cases nested : name = A.typeName
      · subst nested
        rw [topA] at found
        rw [tops.1, topB] at found'
        cases found
        cases found'
        have fields := tops.2
        rwa [← tops.1] at fields
      · obtain ⟨itd, listed, rfl⟩ := describedA.exists_of_reaches reached nested
        obtain ⟨other, foundA, shapeA⟩ := describedA.described itd listed
        obtain ⟨other', foundB, shapeB⟩ := describedB.described itd (perm.mem_iff.mp listed)
        rw [foundA] at found
        rw [foundB] at found'
        cases found
        cases found'
        exact ((individual_eq_iff (boundsA _ _ foundA) (boundsB _ _ foundB)).mp
          (shapeA.symm.trans shapeB)).2
  · intro same
    have alike : ∀ name, A.Reaches name → ∀ msg msg', A.message name = some msg →
        B.message name = some msg' →
        messageToIndividual name msg = messageToIndividual name msg' := by
      intro name reached msg msg' found found'
      exact (individual_eq_iff (boundsA _ _ found) (boundsB _ _ found')).mpr
        ⟨rfl, same.fields name reached msg msg' found found'⟩
    constructor
    · have top := alike _ .top A.msg B.msg topA (by rw [same.name, topB])
      rwa [same.name] at top ⊢
    · apply (List.perm_ext_iff_of_nodup describedA.nodup.of_map describedB.nodup.of_map).mpr
      intro itd
      constructor
      · exact describedA.mem_of_alike describedB same.name (fun name => (same.reaches name).mp)
          alike itd
      · apply describedB.mem_of_alike describedA same.name.symm
          (fun name => (same.reaches name).mpr)
        intro name reached msg msg' found found'
        exact (alike name ((same.reaches name).mpr reached) msg' msg found' found).symm

/-- Two built families are hashed alike exactly when they are the same types, and the order in
which a family's types were found does not matter. -/
theorem hashed_alike_iff (A B : Family) (boundsA : A.Bounded) (boundsB : B.Bounded)
    {a b : TypeDescription} (builtA : A.build = .ok a) (builtB : B.build = .ok b) :
    (toHashableJson a = toHashableJson b ↔ SameFamily A B) ∧
      ∀ refs : List IndividualTypeDescription, refs.Perm a.referencedTypeDescriptions →
        toHashableJson ⟨a.typeDescription, refs⟩ = toHashableJson a := by
  obtain ⟨topA, describedA⟩ := Family.build_ok builtA
  obtain ⟨topB, describedB⟩ := Family.build_ok builtB
  constructor
  · rw [toHashableJson_eq_iff describedA.nodup, topA, topB]
    exact alike_iff_sameFamily boundsA boundsB describedA describedB
  · intro refs perm
    have same := (toHashableJson_eq_iff (b := ⟨a.typeDescription, refs⟩) describedA.nodup).mpr
      ⟨rfl, perm.symm⟩
    exact same.symm

/-! ### The types as they are written -/

/-- The same type as written, up to `char` and `uint8` and to the own package left out. -/
def SameAsWritten (own own' : Text) : FieldType → FieldType → Prop
  | .primitive p, .primitive q => p.charAsUint8 = q.charAsUint8
  | .string, .string | .wstring, .wstring => True
  | .boundedString m, .boundedString n | .boundedWString m, .boundedWString n => m = n
  | .namespacedType package name, .namespacedType package' name' =>
    name = name' ∧ package.getD own = package'.getD own'
  | .array a m, .array b n | .boundedSequence a m, .boundedSequence b n =>
    m = n ∧ SameAsWritten own own' a b
  | .sequence a, .sequence b => SameAsWritten own own' a b
  | _, _ => False

structure SameFamilyAsWritten (A B : Family) : Prop where
  name : A.typeName = B.typeName
  reaches : ∀ name, A.Reaches name ↔ B.Reaches name
  fields : ∀ name, A.Reaches name → ∀ msg msg', A.message name = some msg →
    B.message name = some msg' → List.Forall₂ (fun f g => f.name = g.name ∧
      SameAsWritten (ownPackage name) (ownPackage name) f.fieldType g.fieldType)
      msg.fields msg'.fields

def ClaimedAt (A B : Family) : Prop :=
  A.Bounded → B.Bounded → ∀ a b, A.build = .ok a → B.build = .ok b →
    (toHashableJson a = toHashableJson b ↔ SameFamilyAsWritten A B)

/-- A message `p/msg/M` beside an empty message `q/msg/T`. -/
def single (fields : List Field) : Family :=
  ⟨"p/msg/M".toList, ⟨fields, []⟩, [("q/msg/T".toList, ⟨[], []⟩)]⟩

theorem single_build (fields : List Field) : (single fields).build =
    (collect (single fields).index "p/msg/M".toList ["p/msg/M".toList]
        (nestedRefs (messageToIndividual "p/msg/M".toList ⟨fields, []⟩)) []).map
      fun referenced => ⟨messageToIndividual "p/msg/M".toList ⟨fields, []⟩, referenced⟩ := rfl

theorem single_bounded (bounded : ∀ field ∈ fields, field.fieldType.Bounded) :
    (single fields).Bounded := by
  intro name msg found field member
  rw [Family.message] at found
  split at found
  · cases found
    exact bounded field member
  · obtain ⟨-, rfl⟩ := Prod.mk.inj (List.mem_singleton.mp (resolve_mem found))
    cases member

theorem single_built {described : IndividualTypeDescription}
    (top : messageToIndividual "p/msg/M".toList ⟨fields, []⟩ = described)
    (plain : nestedRefs described = []) : (single fields).build = .ok ⟨described, []⟩ := by
  rw [single_build, top, plain, collect]
  rfl

theorem referring_built {described : IndividualTypeDescription}
    (top : messageToIndividual "p/msg/M".toList ⟨fields, []⟩ = described)
    (refers : nestedRefs described = ["q/msg/T".toList]) : (single fields).build =
      .ok ⟨described, [messageToIndividual "q/msg/T".toList ⟨[], []⟩]⟩ := by
  rw [single_build, top, refers, collect, if_neg (by decide)]
  split
  case h_1 nothing =>
    exact absurd nothing
      (show ¬ resolve [("q/msg/T".toList, (⟨[], []⟩ : Message))] "q/msg/T".toList = none by decide)
  case h_2 msg found =>
    obtain ⟨-, rfl⟩ := Prod.mk.inj (List.mem_singleton.mp (resolve_mem found))
    have leaf : nestedRefs (messageToIndividual "q/msg/T".toList ⟨[], []⟩) = [] := by decide
    simp only [leaf, List.filter_nil, List.append_nil, List.nil_append]
    rw [collect]
    rfl

theorem not_claimed {fields' : List Field} {desc : TypeDescription}
    (bounded : ∀ field ∈ fields ++ fields', field.fieldType.Bounded)
    (built : (single fields).build = .ok desc) (built' : (single fields').build = .ok desc)
    (differ : ¬ List.Forall₂ (fun f g => f.name = g.name ∧
      SameAsWritten ['p'] ['p'] f.fieldType g.fieldType) fields fields') :
    ¬ ClaimedAt (single fields) (single fields') := by
  intro stated
  rw [List.forall_mem_append] at bounded
  have same := (stated (single_bounded bounded.1) (single_bounded bounded.2) desc desc built
    built').mp rfl
  exact differ (same.fields _ .top _ _ (if_pos rfl) (if_pos rfl))

/-- An empty message is hashed as one with the generated member, a reference by its full name as
the one by package and name, an array of arrays as the array of the inner one's elements. -/
theorem hash_claim_fails :
    ¬ ClaimedAt (single []) (single [⟨.primitive .uint8, structureNeedsAtLeastOneMember, none⟩]) ∧
    ¬ ClaimedAt (single [⟨.namespacedType none "q/msg/T".toList, ['t'], none⟩])
      (single [⟨.namespacedType (some ['q']) ['T'], ['t'], none⟩]) ∧
    ¬ ClaimedAt (single [⟨.array (.array (.primitive .int32) 2) 3, ['t'], none⟩])
      (single [⟨.array (.primitive .int32) 3, ['t'], none⟩]) := by
  refine ⟨?_, ?_, ?_⟩
  · refine not_claimed ?_ (single_built rfl ?_) (single_built ?_ ?_) ?_
    · simp [FieldType.Bounded]
    · decide
    · decide
    · decide
    · intro same
      cases same
  · refine not_claimed ?_ (referring_built rfl ?_) (referring_built ?_ ?_) ?_
    · simp [FieldType.Bounded]
    · decide
    · decide
    · decide
    · simp [SameAsWritten]
  · refine not_claimed ?_ (single_built rfl ?_) (single_built ?_ ?_) ?_
    · simp [FieldType.Bounded]
    · decide
    · decide
    · decide
    · simp [SameAsWritten]

/-- Messages `p/msg/M` with a `char` and with a `uint8`. -/
theorem hashed_alike_char : ∃ a b, (single [⟨.primitive .char, ['c'], none⟩]).build = .ok a ∧
    (single [⟨.primitive .uint8, ['c'], none⟩]).build = .ok b ∧
    (toHashableJson a = toHashableJson b ↔ SameFamily (single [⟨.primitive .char, ['c'], none⟩])
      (single [⟨.primitive .uint8, ['c'], none⟩])) := by
  have char : (single [⟨.primitive .char, ['c'], none⟩]).build = .ok _ :=
    single_built rfl (by decide)
  have uint8 : (single [⟨.primitive .uint8, ['c'], none⟩]).build = .ok _ :=
    single_built rfl (by decide)
  refine ⟨_, _, char, uint8, (hashed_alike_iff _ _ ?_ ?_ char uint8).1⟩
  · exact single_bounded (by simp [FieldType.Bounded])
  · exact single_bounded (by simp [FieldType.Bounded])

end NanoRos.Rosidl
