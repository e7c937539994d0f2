import NanoRos.Rosidl.ReferencedTypes

/-! The members generated for a service and an action, and the descriptions built with them. -/

namespace NanoRos.Rosidl

def mkField (name : Text) (ft : FieldType) : Field := ⟨ft, name, none⟩

def nestedField (name fqn : Text) : Field := mkField name (.namespacedType none fqn)

def bounded1NestedField (name fqn : Text) : Field :=
  mkField name (.boundedSequence (.namespacedType none fqn) 1)

def synthMsg (fields : List Field) : Message := ⟨fields, []⟩

/-! ### The built-in messages -/

def timeFqn : Text := "builtin_interfaces/msg/Time".toList
def serviceEventInfoFqn : Text := "service_msgs/msg/ServiceEventInfo".toList
def uuidFqn : Text := "unique_identifier_msgs/msg/UUID".toList
def goalInfoFqn : Text := "action_msgs/msg/GoalInfo".toList
def goalStatusFqn : Text := "action_msgs/msg/GoalStatus".toList

def builtinTimeMsg : Message := synthMsg
  [mkField "sec".toList (.primitive .int32), mkField "nanosec".toList (.primitive .uint32)]

def serviceEventInfoMsg : Message := synthMsg
  [mkField "event_type".toList (.primitive .uint8), nestedField "stamp".toList timeFqn,
    mkField "client_gid".toList (.array (.primitive .uint8) 16),
    mkField "sequence_number".toList (.primitive .int64)]

def uuidMsg : Message := synthMsg [mkField "uuid".toList (.array (.primitive .uint8) 16)]

def goalInfoMsg : Message := synthMsg
  [nestedField "goal_id".toList uuidFqn, nestedField "stamp".toList timeFqn]

def goalStatusMsg : Message := synthMsg
  [nestedField "goal_info".toList goalInfoFqn, mkField "status".toList (.primitive .int8)]

/-- The built-in messages first, then the caller's resolver. -/
def withBuiltins (resolve : Resolver) : Resolver := fun fqn =>
  if fqn = serviceEventInfoFqn then some serviceEventInfoMsg
  else if fqn = timeFqn then some builtinTimeMsg
  else if fqn = uuidFqn then some uuidMsg
  else if fqn = goalInfoFqn then some goalInfoMsg
  else if fqn = goalStatusFqn then some goalStatusMsg
  else resolve fqn

/-! ### Services -/

def serviceEventMsg (reqFqn respFqn : Text) : Message := synthMsg
  [nestedField "info".toList serviceEventInfoFqn, bounded1NestedField "request".toList reqFqn,
    bounded1NestedField "response".toList respFqn]

def svcTop (req resp event : Text) : Message := synthMsg
  [nestedField "request_message".toList req, nestedField "response_message".toList resp,
    nestedField "event_message".toList event]

/-- What `build_service_type_description` builds the description of. -/
def serviceSubject (package srvName : Text) (request response : Message) (resolve : Resolver) :
    Subject :=
  let base := package ++ "/srv/".toList ++ srvName
  let reqFqn := base ++ "_Request".toList
  let respFqn := base ++ "_Response".toList
  let eventFqn := base ++ "_Event".toList
  { typeName := base
    msg := svcTop reqFqn respFqn eventFqn
    resolve := fun fqn =>
      if fqn = reqFqn then some request
      else if fqn = respFqn then some response
      else if fqn = eventFqn then some (serviceEventMsg reqFqn respFqn)
      else withBuiltins resolve fqn }

def Resolver.buildServiceTypeDescription (resolve : Resolver) (package srvName : Text)
    (request response : Message) : Nat → Option (Except Text TypeDescription) :=
  let subject := serviceSubject package srvName request response resolve
  subject.resolve.buildTypeDescription subject.typeName subject.msg

/-! ### Actions -/

def actionMembers (package actionName : Text) (goal result feedback : Message) :
    Message × List (Text × Message) :=
  let base := package ++ "/action/".toList ++ actionName
  let goalFqn := base ++ "_Goal".toList
  let resultFqn := base ++ "_Result".toList
  let feedbackFqn := base ++ "_Feedback".toList
  let sendGoalFqn := base ++ "_SendGoal".toList
  let getResultFqn := base ++ "_GetResult".toList
  let feedbackMsgFqn := base ++ "_FeedbackMessage".toList
  let sendGoalReqFqn := sendGoalFqn ++ "_Request".toList
  let sendGoalRespFqn := sendGoalFqn ++ "_Response".toList
  let getResultReqFqn := getResultFqn ++ "_Request".toList
  let getResultRespFqn := getResultFqn ++ "_Response".toList
  let sendGoalReq := synthMsg
    [nestedField "goal_id".toList uuidFqn, nestedField "goal".toList goalFqn]
  let sendGoalResp := synthMsg
    [mkField "accepted".toList (.primitive .bool), nestedField "stamp".toList timeFqn]
  let getResultReq := synthMsg [nestedField "goal_id".toList uuidFqn]
  let getResultResp := synthMsg
    [mkField "status".toList (.primitive .int8), nestedField "result".toList resultFqn]
  let feedbackMessage := synthMsg
    [nestedField "goal_id".toList uuidFqn, nestedField "feedback".toList feedbackFqn]
  let sendGoalService := svcTop sendGoalReqFqn sendGoalRespFqn (sendGoalFqn ++ "_Event".toList)
  let getResultService :=
    svcTop getResultReqFqn getResultRespFqn (getResultFqn ++ "_Event".toList)
  let top := synthMsg
    [nestedField "goal".toList goalFqn, nestedField "result".toList resultFqn,
      nestedField "feedback".toList feedbackFqn, nestedField "send_goal_service".toList sendGoalFqn,
      nestedField "get_result_service".toList getResultFqn,
      nestedField "feedback_message".toList feedbackMsgFqn]
  let members :=
    [(goalFqn, goal), (resultFqn, result), (feedbackFqn, feedback),
      (sendGoalFqn, sendGoalService), (getResultFqn, getResultService),
      (feedbackMsgFqn, feedbackMessage),
      (sendGoalFqn ++ "_Event".toList, serviceEventMsg sendGoalReqFqn sendGoalRespFqn),
      (sendGoalReqFqn, sendGoalReq), (sendGoalRespFqn, sendGoalResp),
      (getResultFqn ++ "_Event".toList, serviceEventMsg getResultReqFqn getResultRespFqn),
      (getResultReqFqn, getResultReq), (getResultRespFqn, getResultResp)]
  (top, members)

/-- What `build_action_type_description` builds the description of. -/
def actionSubject (package actionName : Text) (goal result feedback : Message)
    (resolve : Resolver) : Subject :=
  let base := package ++ "/action/".toList ++ actionName
  let (top, members) := actionMembers package actionName goal result feedback
  { typeName := base
    msg := top
    resolve := fun fqn => (Rosidl.resolve members fqn).or (withBuiltins resolve fqn) }

def Resolver.buildActionTypeDescription (resolve : Resolver) (package actionName : Text)
    (goal result feedback : Message) : Nat → Option (Except Text TypeDescription) :=
  let subject := actionSubject package actionName goal result feedback resolve
  subject.resolve.buildTypeDescription subject.typeName subject.msg

/-! ### What the generated members refer to -/

/-- A message that is made with another, found under its name. -/
def Subject.Serves (subject : Subject) (name : Text) (msg : Message) : Prop :=
  subject.Reaches name ∧ name ≠ subject.typeName ∧ subject.resolve name = some msg

variable {name fqn part : Text}

theorem nestedField_refersTo (slash : '/' ∈ fqn) (own : Text) :
    (nestedField name fqn).fieldType.refersTo own = some fqn := by
  simp [nestedField, mkField, FieldType.refersTo, namespacedFqn, slash]

namespace Subject

variable {subject : Subject}

theorem reaches_of_top {name fqn : Text} (slash : '/' ∈ fqn)
    (member : nestedField name fqn ∈ subject.msg.fields) : subject.Reaches fqn :=
  .nested .top (if_pos rfl) member (nestedField_refersTo slash _)

theorem Serves.nested {parent name fqn : Text} {msg : Message} (served : subject.Serves parent msg)
    (slash : '/' ∈ fqn) (member : nestedField name fqn ∈ msg.fields) : subject.Reaches fqn := by
  obtain ⟨reached, apart, found⟩ := served
  exact .nested reached ((message_of_ne apart).trans found) member (nestedField_refersTo slash _)

theorem Describes.serves {result : Except Text TypeDescription} {desc : TypeDescription}
    {name : Text} {msg : Message} (describes : subject.Describes result)
    (built : result = .ok desc) (served : subject.Serves name msg) :
    messageToIndividual name msg ∈ desc.referencedTypeDescriptions := by
  obtain ⟨reached, apart, found⟩ := served
  exact (describes.lists desc built _).mpr ⟨name, msg, reached, apart, found, rfl⟩

end Subject

/-! ### The types a service and an action are always made of -/

theorem ne_of_outside {package : Text} (outside : ¬ part <:+: fqn) (suffix : Text) :
    fqn ≠ package ++ part ++ name ++ suffix := by
  rintro rfl
  apply outside
  exact ⟨package, name ++ suffix, by simp only [List.append_assoc]⟩

theorem ne_base {package : Text} (outside : ¬ part <:+: fqn) :
    fqn ≠ package ++ part ++ name := by
  simpa using @ne_of_outside name _ _ package outside []

theorem slash_mem (slash : '/' ∈ part) (package name suffix : Text) :
    '/' ∈ package ++ part ++ name ++ suffix := by
  simp [slash]

theorem resolve_of_mem {index : Index} {msg : Message} (apart : (index.map Prod.fst).Nodup)
    (member : (name, msg) ∈ index) :
    resolve index name = some msg := by
  cases found : resolve index name with
  | none =>
    rw [resolve, Option.map_eq_none_iff, List.find?_eq_none] at found
    exact absurd (decide_eq_true rfl) (found _ member)
  | some other =>
    cases List.inj_on_of_nodup_map apart (resolve_mem found) member rfl
    rfl

theorem resolve_eq_none {index : Index} (absent : name ∉ index.map Prod.fst) :
    resolve index name = none := by
  cases found : resolve index name with
  | none => rfl
  | some msg => exact absurd (List.mem_map_of_mem (resolve_mem found)) absent

section Service

variable {package srvName : Text} {request response : Message} {resolve : Resolver}

def serviceServed (package srvName : Text) (request response : Message) : List (Text × Message) :=
  let base := package ++ "/srv/".toList ++ srvName
  [(base ++ "_Request".toList, request), (base ++ "_Response".toList, response),
    (base ++ "_Event".toList,
      serviceEventMsg (base ++ "_Request".toList) (base ++ "_Response".toList)),
    (serviceEventInfoFqn, serviceEventInfoMsg), (timeFqn, builtinTimeMsg)]

theorem service_builtin {fqn : Text} {msg : Message} (outside : ¬ "/srv/".toList <:+: fqn)
    (found : withBuiltins resolve fqn = some msg)
    (reached : (serviceSubject package srvName request response resolve).Reaches fqn) :
    (serviceSubject package srvName request response resolve).Serves fqn msg := by
  refine ⟨reached, ne_base outside, ?_⟩
  simp only [serviceSubject]
  rw [if_neg (ne_of_outside outside _), if_neg (ne_of_outside outside _),
    if_neg (ne_of_outside outside _), found]

theorem service_serves :
    ∀ member ∈ serviceServed package srvName request response,
      (serviceSubject package srvName request response resolve).Serves member.1 member.2 := by
  have slash := @slash_mem "/srv/".toList (by decide) package srvName
  have requested : (serviceSubject package srvName request response resolve).Serves
      (package ++ "/srv/".toList ++ srvName ++ "_Request".toList) request :=
    ⟨Subject.reaches_of_top (slash _) (.head _), by simp [serviceSubject], by simp [serviceSubject]⟩
  have responded : (serviceSubject package srvName request response resolve).Serves
      (package ++ "/srv/".toList ++ srvName ++ "_Response".toList) response :=
    ⟨Subject.reaches_of_top (slash _) (.tail _ (.head _)), by simp [serviceSubject],
      by simp [serviceSubject]⟩
  have event : (serviceSubject package srvName request response resolve).Serves
      (package ++ "/srv/".toList ++ srvName ++ "_Event".toList)
      (serviceEventMsg (package ++ "/srv/".toList ++ srvName ++ "_Request".toList)
        (package ++ "/srv/".toList ++ srvName ++ "_Response".toList)) :=
    ⟨Subject.reaches_of_top (slash _) (.tail _ (.tail _ (.head _))), by simp [serviceSubject],
      by simp [serviceSubject]⟩
  have info := @service_builtin _ _ _ _ resolve _ _ (by decide) rfl
    (event.nested (show '/' ∈ serviceEventInfoFqn by decide) (.head _))
  have time := @service_builtin _ _ _ _ resolve _ _ (by decide) rfl
    (info.nested (show '/' ∈ timeFqn by decide) (.tail _ (.head _)))
  simp only [serviceServed, List.forall_mem_cons]
  exact ⟨requested, responded, event, info, time, List.forall_mem_nil _⟩

end Service

section Action

variable {package actionName : Text} {goal result feedback : Message} {resolve : Resolver}

def actionServed (package actionName : Text) (goal result feedback : Message) :
    List (Text × Message) :=
  (actionMembers package actionName goal result feedback).2 ++
    [(uuidFqn, uuidMsg), (timeFqn, builtinTimeMsg), (serviceEventInfoFqn, serviceEventInfoMsg)]

/-- What the names of an action's members end in. -/
def actionSuffixes : List Text :=
  ["_Goal".toList, "_Result".toList, "_Feedback".toList, "_SendGoal".toList, "_GetResult".toList,
    "_FeedbackMessage".toList, "_SendGoal".toList ++ "_Event".toList,
    "_SendGoal".toList ++ "_Request".toList, "_SendGoal".toList ++ "_Response".toList,
    "_GetResult".toList ++ "_Event".toList, "_GetResult".toList ++ "_Request".toList,
    "_GetResult".toList ++ "_Response".toList]

theorem actionMembers_names :
    (actionMembers package actionName goal result feedback).2.map Prod.fst =
      actionSuffixes.map (package ++ "/action/".toList ++ actionName ++ ·) := by
  simp only [actionMembers, actionSuffixes, List.map_cons, List.map_nil, List.append_assoc]

theorem actionMembers_nodup :
    ((actionMembers package actionName goal result feedback).2.map Prod.fst).Nodup := by
  rw [actionMembers_names]
  exact List.Nodup.map (fun _ _ => List.append_cancel_left) (by decide)

theorem action_member {fqn : Text} {msg : Message}
    (member : (fqn, msg) ∈ (actionMembers package actionName goal result feedback).2)
    (reached : (actionSubject package actionName goal result feedback resolve).Reaches fqn) :
    (actionSubject package actionName goal result feedback resolve).Serves fqn msg := by
  have named : fqn ∈ (actionMembers package actionName goal result feedback).2.map Prod.fst :=
    List.mem_map_of_mem member
  rw [actionMembers_names] at named
  obtain ⟨suffix, listed, rfl⟩ := List.mem_map.mp named
  have more : suffix ≠ [] := by
    rintro rfl
    exact absurd listed (by decide)
  refine ⟨reached, by simp [actionSubject, more], ?_⟩
  simp only [actionSubject]
  rw [resolve_of_mem actionMembers_nodup member, Option.some_or]

theorem action_builtin {fqn : Text} {msg : Message} (outside : ¬ "/action/".toList <:+: fqn)
    (found : withBuiltins resolve fqn = some msg)
    (reached : (actionSubject package actionName goal result feedback resolve).Reaches fqn) :
    (actionSubject package actionName goal result feedback resolve).Serves fqn msg := by
  refine ⟨reached, ne_base outside, ?_⟩
  have absent : fqn ∉ (actionMembers package actionName goal result feedback).2.map Prod.fst := by
    rw [actionMembers_names]
    intro named
    obtain ⟨suffix, _, same⟩ := List.mem_map.mp named
    exact ne_of_outside outside suffix same.symm
  simp only [actionSubject]
  rw [resolve_eq_none absent, Option.none_or, found]

theorem action_serves :
    ∀ member ∈ actionServed package actionName goal result feedback,
      (actionSubject package actionName goal result feedback resolve).Serves
        member.1 member.2 := by
  have slash := @slash_mem "/action/".toList (by decide) package actionName
  have top : ∀ {i : Nat} {name fqn : Text} {msg : Message},
      (actionMembers package actionName goal result feedback).1.fields[i]? =
        some (nestedField name fqn) →
      (actionMembers package actionName goal result feedback).2[i]? = some (fqn, msg) → '/' ∈ fqn →
      (actionSubject package actionName goal result feedback resolve).Serves fqn msg := by
    intro i name fqn msg field member inside
    exact action_member (List.mem_of_getElem? member)
      (Subject.reaches_of_top inside (List.mem_of_getElem? field))
  have below : ∀ {i j : Nat} {parent name fqn : Text} {outer msg : Message},
      (actionSubject package actionName goal result feedback resolve).Serves parent outer →
      outer.fields[j]? = some (nestedField name fqn) →
      (actionMembers package actionName goal result feedback).2[i]? = some (fqn, msg) → '/' ∈ fqn →
      (actionSubject package actionName goal result feedback resolve).Serves fqn msg := by
    intro i j parent name fqn outer msg served field member inside
    exact action_member (List.mem_of_getElem? member)
      (served.nested inside (List.mem_of_getElem? field))
  have goalServed := top (i := 0) rfl rfl (slash _)
  have resultServed := top (i := 1) rfl rfl (slash _)
  have feedbackServed := top (i := 2) rfl rfl (slash _)
  have sendGoal := top (i := 3) rfl rfl (slash _)
  have getResult := top (i := 4) rfl rfl (slash _)
  have feedbackMessage := top (i := 5) rfl rfl (slash _)
  have sendGoalReq := below (i := 7) (j := 0) sendGoal rfl rfl (List.mem_append_left _ (slash _))
  have sendGoalResp := below (i := 8) (j := 1) sendGoal rfl rfl (List.mem_append_left _ (slash _))
  have sendGoalEvent := below (i := 6) (j := 2) sendGoal rfl rfl
    (List.mem_append_left _ (slash _))
  have getResultReq := below (i := 10) (j := 0) getResult rfl rfl
    (List.mem_append_left _ (slash _))
  have getResultResp := below (i := 11) (j := 1) getResult rfl rfl
    (List.mem_append_left _ (slash _))
  have getResultEvent := below (i := 9) (j := 2) getResult rfl rfl
    (List.mem_append_left _ (slash _))
  have uuid := @action_builtin _ _ _ _ _ resolve _ _ (by decide) rfl
    (sendGoalReq.nested (show '/' ∈ uuidFqn by decide) (.head _))
  have info := @action_builtin _ _ _ _ _ resolve _ _ (by decide) rfl
    (sendGoalEvent.nested (show '/' ∈ serviceEventInfoFqn by decide) (.head _))
  have time := @action_builtin _ _ _ _ _ resolve _ _ (by decide) rfl
    (info.nested (show '/' ∈ timeFqn by decide) (.tail _ (.head _)))
  simp only [actionServed, actionMembers, List.cons_append, List.nil_append, List.forall_mem_cons]
  exact ⟨goalServed, resultServed, feedbackServed, sendGoal, getResult, feedbackMessage,
    sendGoalEvent, sendGoalReq, sendGoalResp, getResultEvent, getResultReq, getResultResp, uuid,
    time, info, List.forall_mem_nil _⟩

end Action

/-- The building ends, in an error exactly where a type that is reached is not known, and else with
every type reached but the top one described once; for a service and an action the generated
members and the built-in messages are among them. -/
theorem describes_all_reached : (∀ subject : Subject, {name | subject.Reaches name}.Finite →
      ∃ result,
        Subject.EndsIn (subject.resolve.buildTypeDescription subject.typeName subject.msg) result ∧
          subject.Describes result) ∧
      (∀ (resolve : Resolver) (package srvName : Text) (request response : Message),
        {name | (serviceSubject package srvName request response resolve).Reaches name}.Finite →
        ∃ result, Subject.EndsIn
              (resolve.buildServiceTypeDescription package srvName request response) result ∧
            (serviceSubject package srvName request response resolve).Describes result ∧
            ∀ desc, result = .ok desc → ∀ member ∈ serviceServed package srvName request response,
                messageToIndividual member.1 member.2 ∈ desc.referencedTypeDescriptions) ∧
      ∀ (resolve : Resolver) (package actionName : Text) (goal result feedback : Message),
        {name | (actionSubject package actionName goal result feedback resolve).Reaches
          name}.Finite →
        ∃ out, Subject.EndsIn
              (resolve.buildActionTypeDescription package actionName goal result feedback) out ∧
            (actionSubject package actionName goal result feedback resolve).Describes out ∧
            ∀ desc, out = .ok desc →
              ∀ member ∈ actionServed package actionName goal result feedback,
                messageToIndividual member.1 member.2 ∈ desc.referencedTypeDescriptions := by
  refine ⟨fun subject finite => subject.build_ends finite, ?_, ?_⟩
  · intro resolve package srvName request response finite
    obtain ⟨result, ends, describes⟩ := Subject.build_ends finite
    refine ⟨result, ends, describes, fun desc built member listed => ?_⟩
    exact describes.serves built (service_serves member listed)
  · intro resolve package actionName goal result feedback finite
    obtain ⟨out, ends, describes⟩ := Subject.build_ends finite
    refine ⟨out, ends, describes, fun desc built member listed => ?_⟩
    exact describes.serves built (action_serves member listed)

/-- A tree whose nodes hold their children and themselves again. -/
def treeMsg : Message := synthMsg
  [nestedField "self".toList "Tree".toList,
    mkField "children".toList (.sequence (.namespacedType none "Node".toList))]

def nodeMsg : Message := synthMsg [bounded1NestedField "parent".toList "Tree".toList]

def treeResolver : Resolver := fun fqn =>
  if fqn = "pkg/msg/Tree".toList then some treeMsg
  else if fqn = "pkg/msg/Node".toList then some nodeMsg
  else none

def treeNames : List Text := ["pkg/msg/Tree".toList, "pkg/msg/Node".toList]

def holdsTree : Message := synthMsg [nestedField "tree".toList "pkg/msg/Tree".toList]

theorem describes_all_reached_tree : (∃ result,
      Subject.EndsIn (treeResolver.buildTypeDescription "pkg/msg/Tree".toList treeMsg) result ∧
        Subject.Describes ⟨"pkg/msg/Tree".toList, treeMsg, treeResolver⟩ result) ∧
      (∃ result, Subject.EndsIn (treeResolver.buildServiceTypeDescription "pkg".toList "Get".toList
          holdsTree (synthMsg [])) result) ∧
      ∃ out, Subject.EndsIn (treeResolver.buildActionTypeDescription "pkg".toList "Do".toList
          holdsTree (synthMsg []) (synthMsg [])) out := by
  obtain ⟨messages, services, actions⟩ := describes_all_reached
  have tree : Subject.closes ⟨"pkg/msg/Tree".toList, treeMsg, treeResolver⟩ treeNames := by
    decide +kernel
  have service : (serviceSubject "pkg".toList "Get".toList holdsTree (synthMsg [])
      treeResolver).closes ("pkg/srv/Get".toList ::
        ((serviceServed "pkg".toList "Get".toList holdsTree (synthMsg [])).map Prod.fst ++
          treeNames)) := by
    decide +kernel
  have action : (actionSubject "pkg".toList "Do".toList holdsTree (synthMsg []) (synthMsg [])
      treeResolver).closes ("pkg/action/Do".toList ::
        ((actionServed "pkg".toList "Do".toList holdsTree (synthMsg []) (synthMsg [])).map
          Prod.fst ++ treeNames)) := by
    decide +kernel
  obtain ⟨served, servedEnds, _⟩ := services treeResolver "pkg".toList "Get".toList holdsTree
    (synthMsg []) (Subject.finite_of_closes service)
  obtain ⟨acted, actedEnds, _⟩ := actions treeResolver "pkg".toList "Do".toList holdsTree
    (synthMsg []) (synthMsg []) (Subject.finite_of_closes action)
  exact ⟨messages _ (Subject.finite_of_closes tree), ⟨served, servedEnds⟩, ⟨acted, actedEnds⟩⟩

end NanoRos.Rosidl
