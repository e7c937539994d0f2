import Mathlib
import NanoRos.Rosidl.TypeHash

/-! The types a description refers to, over any resolver: for a message, a service, an action. -/

namespace NanoRos.Rosidl

/-- The callback that finds the message of a type. -/
abbrev Resolver := Text → Option Message

namespace Resolver

/-- The loop of `build_type_description`; `none` where the fuel runs out first. -/
def collect (resolve : Resolver) (typeName : Text) :
    Nat → List Text → List Text → List IndividualTypeDescription →
      Option (Except Text (List IndividualTypeDescription))
  | 0, _, _, _ => none
  | _ + 1, _, [], referenced => some (.ok referenced)
  | fuel + 1, seen, fqn :: queue, referenced =>
    if fqn ∈ seen then collect resolve typeName fuel seen queue referenced
    else
      match resolve fqn with
      | none => some (.error (unresolved fqn typeName))
      | some nestedMsg =>
        let itd := messageToIndividual fqn nestedMsg
        collect resolve typeName fuel (fqn :: seen)
          (queue ++ (nestedRefs itd).filter (· ∉ fqn :: seen)) (referenced ++ [itd])

def buildTypeDescription (resolve : Resolver) (typeName : Text) (msg : Message) (fuel : Nat) :
    Option (Except Text TypeDescription) :=
  let top := messageToIndividual typeName msg
  (collect resolve typeName fuel [typeName] (nestedRefs top) []).map fun out =>
    out.map fun referenced => ⟨top, referenced⟩

end Resolver

/-- What a description is built of. -/
structure Subject where
  typeName : Text
  msg : Message
  resolve : Resolver

namespace Subject

def message (subject : Subject) (name : Text) : Option Message :=
  if name = subject.typeName then some subject.msg else subject.resolve name

/-- The types the subject is made of, itself included: a field refers to one also from inside an
array or a sequence. -/
inductive Reaches (subject : Subject) : Text → Prop where
  | top : Reaches subject subject.typeName
  | nested {name ref : Text} {msg : Message} {field : Field} (reached : Reaches subject name)
      (found : subject.message name = some msg) (member : field ∈ msg.fields)
      (refers : field.fieldType.refersTo (ownPackage name) = some ref) : Reaches subject ref

/-- A type the subject is made of that the resolver does not know. -/
def Missing (subject : Subject) (name : Text) : Prop :=
  subject.Reaches name ∧ name ≠ subject.typeName ∧ subject.resolve name = none

/-- What the building of the description must come to. -/
structure Describes (subject : Subject) (result : Except Text TypeDescription) : Prop where
  fails : (∃ e, result = .error e) ↔ ∃ name, subject.Missing name
  names : ∀ e, result = .error e →
    ∃ name, subject.Missing name ∧ e = unresolved name subject.typeName
  top : ∀ desc, result = .ok desc →
    desc.typeDescription = messageToIndividual subject.typeName subject.msg
  once : ∀ desc, result = .ok desc →
    (desc.referencedTypeDescriptions.map IndividualTypeDescription.typeName).Nodup
  lists : ∀ desc, result = .ok desc → ∀ itd, itd ∈ desc.referencedTypeDescriptions ↔
    ∃ name msg, subject.Reaches name ∧ name ≠ subject.typeName ∧
      subject.resolve name = some msg ∧ itd = messageToIndividual name msg

/-- From some fuel on there is one result. -/
def EndsIn (build : Nat → Option (Except Text TypeDescription))
    (result : Except Text TypeDescription) : Prop :=
  ∃ rounds, ∀ fuel, rounds ≤ fuel → build fuel = some result

end Subject

/-! ### The resolver on the types reached -/

/-- The part of a resolver that a list of names asks for. -/
def Resolver.index (resolve : Resolver) (names : List Text) : Index :=
  names.filterMap fun name => (resolve name).map fun msg => (name, msg)

theorem Resolver.mem_index {resolve : Resolver} {names : List Text} {name : Text} {msg : Message} :
    (name, msg) ∈ resolve.index names ↔ name ∈ names ∧ resolve name = some msg := by
  rw [index, List.mem_filterMap]
  constructor
  · rintro ⟨other, asked, made⟩
    obtain ⟨found, known, same⟩ := Option.map_eq_some_iff.mp made
    cases same
    exact ⟨asked, known⟩
  · rintro ⟨asked, known⟩
    exact ⟨name, asked, by rw [known, Option.map_some]⟩

theorem Resolver.resolve_index {resolve : Resolver} {names : List Text} {name : Text}
    (asked : name ∈ names) : Rosidl.resolve (resolve.index names) name = resolve name := by
  cases found : Rosidl.resolve (resolve.index names) name with
  | some msg => exact (mem_index.mp (resolve_mem found)).2.symm
  | none =>
    cases known : resolve name with
    | none => rfl
    | some msg =>
      rw [Rosidl.resolve, Option.map_eq_none_iff, List.find?_eq_none] at found
      exact absurd (decide_eq_true rfl) (found _ (mem_index.mpr ⟨asked, known⟩))

namespace Subject

variable {subject : Subject}

theorem message_of_ne {name : Text} (apart : name ≠ subject.typeName) :
    subject.message name = subject.resolve name := if_neg apart

/-- The loop over the resolver is the one over an index that answers as it does on the types
reached; every name it asks for is one of them. -/
theorem collect_indexed {index : Index}
    (agree : ∀ name, subject.Reaches name → Rosidl.resolve index name = subject.resolve name)
    (seen queue : List Text) (referenced : List IndividualTypeDescription)
    (top : subject.typeName ∈ seen) (reached : ∀ name ∈ queue, subject.Reaches name) :
    ∃ rounds, ∀ fuel, rounds ≤ fuel →
      subject.resolve.collect subject.typeName fuel seen queue referenced =
        some (collect index subject.typeName seen queue referenced) := by
  induction seen, queue, referenced using Rosidl.collect.induct index with
  | case1 seen referenced =>
    refine ⟨1, fun fuel enough => ?_⟩
    obtain ⟨fuel, rfl⟩ := Nat.exists_eq_add_of_le' enough
    rw [Rosidl.collect, Resolver.collect]
  | case2 seen referenced fqn queue known ih =>
    obtain ⟨rounds, stays⟩ := ih top fun name queued => reached name (.tail _ queued)
    refine ⟨rounds + 1, fun fuel enough => ?_⟩
    obtain ⟨fuel, rfl⟩ := Nat.exists_eq_add_of_le' enough
    rw [collect_seen known, ← Nat.add_assoc, Resolver.collect, if_pos known]
    exact stays _ (by omega)
  | case3 seen referenced fqn queue fresh nothing =>
    refine ⟨1, fun fuel enough => ?_⟩
    obtain ⟨fuel, rfl⟩ := Nat.exists_eq_add_of_le' enough
    have unknown := (agree fqn (reached fqn List.mem_cons_self)).symm.trans nothing
    rw [collect_unresolved fresh nothing, Resolver.collect, if_neg fresh, unknown]
  | case4 seen referenced fqn queue fresh msg resolved itd ih =>
    have here := reached fqn List.mem_cons_self
    have found : subject.resolve fqn = some msg := (agree fqn here).symm.trans resolved
    have apart : fqn ≠ subject.typeName := by
      rintro rfl
      exact fresh top
    have more : ∀ name ∈ queue ++ (nestedRefs itd).filter (· ∉ fqn :: seen),
        subject.Reaches name := by
      intro name queued
      obtain waiting | added := List.mem_append.mp queued
      · exact reached name (.tail _ waiting)
      · obtain ⟨field, member, refers⟩ := mem_nestedRefs_iff.mp (List.mem_filter.mp added).1
        exact .nested here ((message_of_ne apart).trans found) member refers
    obtain ⟨rounds, stays⟩ := ih (.tail _ top) more
    refine ⟨rounds + 1, fun fuel enough => ?_⟩
    obtain ⟨fuel, rfl⟩ := Nat.exists_eq_add_of_le' enough
    rw [collect_resolved fresh resolved, ← Nat.add_assoc, Resolver.collect, if_neg fresh, found]
    exact stays _ (by omega)

/-- The subject with an index in place of its resolver. -/
def family (subject : Subject) (index : Index) : Family :=
  ⟨subject.typeName, subject.msg, index⟩

theorem family_message (index : Index) (name : Text) : (subject.family index).message name =
      if name = subject.typeName then some subject.msg else Rosidl.resolve index name := rfl

theorem reaches_family {index : Index}
    (agree : ∀ name, subject.Reaches name → Rosidl.resolve index name = subject.resolve name)
    {name : Text} : (subject.family index).Reaches name ↔ subject.Reaches name := by
  have same : ∀ name, subject.Reaches name →
      (subject.family index).message name = subject.message name := by
    intro name reached
    rw [family_message, message, agree name reached]
  constructor
  · intro reached
    induction reached with
    | top => exact .top
    | nested _ found member refers ih => exact .nested ih (same _ ih ▸ found) member refers
  · intro reached
    induction reached with
    | top => exact .top
    | nested earlier found member refers ih =>
      exact .nested ih ((same _ earlier).trans found) member refers

end Subject

theorem Family.Collected.stopped {family : Family} {seen queue : List Text}
    {referenced : List IndividualTypeDescription} {e : Text}
    (collected : family.Collected seen queue referenced)
    (failed : Rosidl.collect family.index family.typeName seen queue referenced = .error e) :
    ∃ name, family.Reaches name ∧ name ≠ family.typeName ∧
      Rosidl.resolve family.index name = none ∧ e = unresolved name family.typeName := by
  induction seen, queue, referenced using Rosidl.collect.induct family.index with
  | case1 seen referenced =>
    rw [Rosidl.collect] at failed
    cases failed
  | case2 seen referenced fqn queue known ih =>
    rw [collect_seen known] at failed
    exact ih (collected.skip known) failed
  | case3 seen referenced fqn queue fresh nothing =>
    rw [collect_unresolved fresh nothing] at failed
    cases failed
    have apart : fqn ≠ family.typeName := fun same => fresh ((collected.marks fqn).mpr (.inl same))
    exact ⟨fqn, collected.reached fqn (.inr List.mem_cons_self), apart, nothing, rfl⟩
  | case4 seen referenced fqn queue fresh msg resolved itd ih =>
    rw [collect_resolved fresh resolved] at failed
    exact ih (collected.visit fresh resolved) failed

theorem Family.build_error {family : Family} {e : Text} (built : family.build = .error e) :
    ∃ name, family.Reaches name ∧ name ≠ family.typeName ∧
      Rosidl.resolve family.index name = none ∧ e = unresolved name family.typeName := by
  rw [build, buildTypeDescription] at built
  cases done : Rosidl.collect family.index family.typeName [family.typeName]
      (nestedRefs (messageToIndividual family.typeName family.msg)) [] with
  | ok referenced =>
    rw [done] at built
    cases built
  | error other =>
    rw [done] at built
    cases built
    exact (collected_start family).stopped done

namespace Subject

variable {subject : Subject}

theorem describes_ok {index : Index} {referenced : List IndividualTypeDescription}
    (agree : ∀ name, subject.Reaches name → Rosidl.resolve index name = subject.resolve name)
    (described : (subject.family index).Described referenced) :
    subject.Describes
      (.ok ⟨messageToIndividual subject.typeName subject.msg, referenced⟩) := by
  have reaches := fun name => (reaches_family agree).symm.trans (described.reaches name)
  have known : ∀ itd ∈ referenced, subject.Reaches itd.typeName ∧
      itd.typeName ≠ subject.typeName ∧ ∃ msg, subject.resolve itd.typeName = some msg ∧
        itd = messageToIndividual itd.typeName msg := by
    intro itd listed
    have inside := List.mem_map_of_mem (f := IndividualTypeDescription.typeName) listed
    have reached := (reaches itd.typeName).mpr (.inr inside)
    have apart : itd.typeName ≠ subject.typeName := by
      intro same
      rw [same] at inside
      exact described.apart inside
    obtain ⟨msg, found, made⟩ := described.described itd listed
    rw [family_message, if_neg apart] at found
    exact ⟨reached, apart, msg, (agree _ reached).symm.trans found, made⟩
  exact {
    fails := by
      constructor
      · rintro ⟨e, failed⟩
        cases failed
      · rintro ⟨name, reached, apart, nothing⟩
        obtain ⟨itd, listed, rfl⟩ := List.mem_map.mp (((reaches name).mp reached).resolve_left apart)
        obtain ⟨_, _, msg, found, _⟩ := known itd listed
        rw [nothing] at found
        cases found
    names := by
      intro e failed
      cases failed
    top := by
      rintro desc ⟨⟩
      rfl
    once := by
      rintro desc ⟨⟩
      exact described.nodup
    lists := by
      rintro desc ⟨⟩ itd
      constructor
      · intro listed
        obtain ⟨reached, apart, msg, found, made⟩ := known itd listed
        exact ⟨itd.typeName, msg, reached, apart, found, made⟩
      · rintro ⟨name, msg, reached, apart, found, rfl⟩
        obtain ⟨itd, listed, rfl⟩ := List.mem_map.mp (((reaches name).mp reached).resolve_left apart)
        obtain ⟨_, _, other, again, made⟩ := known itd listed
        cases found.symm.trans again
        rwa [← made] }

theorem describes_error {e : Text}
    (missing : ∃ name, subject.Missing name ∧ e = unresolved name subject.typeName) :
    subject.Describes (.error e) where
  fails := by
    obtain ⟨name, unknown, _⟩ := missing
    exact ⟨fun _ => ⟨name, unknown⟩, fun _ => ⟨e, rfl⟩⟩
  names := by
    rintro other ⟨⟩
    exact missing
  top := by
    intro desc made
    cases made
  once := by
    intro desc made
    cases made
  lists := by
    intro desc made
    cases made

theorem build_ends (finite : {name | subject.Reaches name}.Finite) :
    ∃ result, EndsIn (subject.resolve.buildTypeDescription subject.typeName subject.msg) result ∧
      subject.Describes result := by
  let index := subject.resolve.index finite.toFinset.toList
  have agree : ∀ name, subject.Reaches name → Rosidl.resolve index name = subject.resolve name := by
    intro name reached
    apply Resolver.resolve_index
    rw [Finset.mem_toList, Set.Finite.mem_toFinset]
    exact reached
  have start := (subject.family index).collected_start
  have queued : ∀ name ∈ nestedRefs (messageToIndividual subject.typeName subject.msg),
      subject.Reaches name := by
    intro name listed
    exact (reaches_family agree).mp (start.reached name (.inr listed))
  obtain ⟨rounds, stays⟩ := collect_indexed agree [subject.typeName] _ []
    List.mem_cons_self queued
  have ends : EndsIn (subject.resolve.buildTypeDescription subject.typeName subject.msg)
      ((subject.family index).build) := by
    refine ⟨rounds, fun fuel enough => ?_⟩
    rw [Resolver.buildTypeDescription, stays fuel enough]
    rfl
  refine ⟨_, ends, ?_⟩
  cases built : (subject.family index).build with
  | ok desc =>
    obtain ⟨top, described⟩ := Family.build_ok built
    have parts : desc = ⟨messageToIndividual subject.typeName subject.msg,
        desc.referencedTypeDescriptions⟩ := by
      cases desc
      cases top
      rfl
    rw [parts]
    exact describes_ok agree described
  | error e =>
    apply describes_error
    obtain ⟨name, reached, apart, nothing, text⟩ := Family.build_error built
    have known := (reaches_family agree).mp reached
    exact ⟨name, ⟨known, apart, (agree name known).symm.trans nothing⟩, text⟩

/-- The names hold the top type and all that the messages of the names refer to. -/
def closes (subject : Subject) (names : List Text) : Bool :=
  decide (subject.typeName ∈ names) && names.all fun name =>
    ((subject.message name).map (messageToIndividual name)).all fun itd =>
      (nestedRefs itd).all (· ∈ names)

theorem finite_of_closes {names : List Text} (closed : subject.closes names) :
    {name | subject.Reaches name}.Finite := by
  simp only [closes, Bool.and_eq_true, decide_eq_true_eq, List.all_eq_true] at closed
  obtain ⟨top, refs⟩ := closed
  apply (List.finite_toSet names).subset
  intro name reached
  induction reached with
  | top => exact top
  | @nested name ref msg field _ found member refers ih =>
    have inside := refs name ih
    rw [found, Option.map_some, Option.all_some, List.all_eq_true] at inside
    exact of_decide_eq_true (inside ref (mem_nestedRefs_iff.mpr ⟨field, member, refers⟩))

end Subject

end NanoRos.Rosidl
