import NanoRos.Node.ActionPromises

/-! Runs of a service client and of an action client. -/

namespace NanoRos

instance {K T : Type} {N size : Nat} (parse : List UInt8 → Except NodeError T)
    (promise : Promise K N size) : Decidable (promise.Decodes parse) :=
  match awaited : promise.awaited with
  | none => isTrue fun _ found => by
    rw [awaited] at found
    cases found
  | some payload => decidable_of_iff ((parse payload).isOk = true) (by
      simp [Promise.Decodes, awaited])

instance {K : Type} {N : Nat} (c : RequestChannel K N) : Decidable c.Agrees :=
  inferInstanceAs (Decidable (_ ↔ _))

namespace EmbeddedServiceClient

variable {ω ρ : Type} {replyBuf : Nat}

/-- The flag says what the correlator holds, and where it holds nothing no call is refused for a
request in flight. -/
structure Unwedged (svc : RosService ω ρ) (client : EmbeddedServiceClient replyBuf) : Prop where
  agrees : client.channel.Agrees
  admitted : client.channel.holdsPending = false →
    ∀ request, (client.call svc request).1 ≠ .error .requestInFlight

theorem unwedged_iff {svc : RosService ω ρ} {client : EmbeddedServiceClient replyBuf}
    (known : client.channel.Known) : client.Unwedged svc ↔ ¬ client.channel.Lost := by
  constructor
  · intro unwedged
    exact known.agrees_iff.mp unwedged.agrees
  · intro found
    refine ⟨known.agrees_iff.mpr found, fun gone request => ?_⟩
    rcases known.idle_of found gone with ⟨flag, live⟩
    exact (client.call_sends svc request).admitted Nat.zero_lt_one flag live

end EmbeddedServiceClient

structure ServiceClientRun (replyBuf : Nat) where
  client : EmbeddedServiceClient replyBuf
  /-- Whether a promise is out. -/
  promised : Bool

inductive ServiceClientEvent (ω : Type) (replyBuf : Nat) where
  | call (request : ω)
  | take
  | dropPromise
  | resetInFlight
  | arrive (answer : ReplyAnswer replyBuf)

namespace ServiceClientRun

variable {ω ρ : Type} {replyBuf : Nat}

def init (handle : RmwServiceClient) (reqBuf replyBuf : Nat) : ServiceClientRun replyBuf :=
  ⟨.new handle reqBuf, false⟩

def step (svc : RosService ω ρ) (s : ServiceClientRun replyBuf) :
    ServiceClientEvent ω replyBuf → Option (ServiceClientRun replyBuf)
  | .call request =>
    if s.promised then none
    else some ⟨(s.client.call svc request).2, (s.client.call svc request).1.isOk⟩
  | .take =>
    if s.promised then some { s with
      client := s.client.after (s.client.promise.take (cdrDeserializeReply svc)).2 }
    else none
  | .dropPromise => if s.promised then some { s with promised := false } else none
  | .resetInFlight =>
    if s.promised then none else some { s with client := s.client.resetInFlight }
  | .arrive answer =>
    some { s with client := { s.client with replies := s.client.replies.arrive answer } }

/-- The reply that the poll comes to, if it comes to one, decodes. -/
def Decodes (svc : RosService ω ρ) (s : ServiceClientRun replyBuf) :
    ServiceClientEvent ω replyBuf → Prop
  | .take => s.client.promise.Decodes (cdrDeserializeReply svc)
  | _ => True

instance (svc : RosService ω ρ) (s : ServiceClientRun replyBuf) :
    ∀ e : ServiceClientEvent ω replyBuf, Decidable (s.Decodes svc e)
  | .take =>
    inferInstanceAs (Decidable (s.client.promise.Decodes (cdrDeserializeReply svc)))
  | .call _ | .dropPromise | .resetInFlight | .arrive _ => inferInstanceAs (Decidable True)

variable {svc : RosService ω ρ} {s next : ServiceClientRun replyBuf}

theorem step_lost_iff {e : ServiceClientEvent ω replyBuf} (known : s.client.channel.Known)
    (stepped : s.step svc e = some next) :
    next.client.channel.Known ∧
      (¬ s.client.channel.Lost → (next.client.channel.Lost ↔ ¬ s.Decodes svc e)) := by
  cases e with
  | call request =>
    rw [step] at stepped
    split at stepped
    case isTrue => cases stepped
    case isFalse =>
      cases stepped
      have sends := s.client.call_sends svc request
      refine ⟨sends.known known, fun found => ?_⟩
      rw [sends.lost_iff known]
      simp [found, Decodes]
  | take =>
    rw [step] at stepped
    split at stepped
    case isTrue =>
      cases stepped
      have polled := @RequestChannel.polled_cases _ _ _ _ s.client.replies s.client.replyBuffer
        (cdrDeserializeReply svc) s.client.channel known
      exact ⟨polled.1, fun found => polled.2.trans (or_iff_right found)⟩
    case isFalse => cases stepped
  | dropPromise =>
    rw [step] at stepped
    split at stepped
    case isTrue =>
      cases stepped
      exact ⟨known, fun found => by simp [found, Decodes]⟩
    case isFalse => cases stepped
  | resetInFlight =>
    rw [step] at stepped
    split at stepped
    case isTrue => cases stepped
    case isFalse =>
      cases stepped
      have found := s.client.channel.reset_found
      exact ⟨s.client.channel.reset_known, fun _ =>
        ⟨fun lost => absurd lost found, fun fails => absurd trivial fails⟩⟩
  | arrive answer =>
    cases stepped
    exact ⟨known, fun found => by
      change s.client.channel.Lost ↔ _
      simp [found, Decodes]⟩

theorem service_client_throughout_iff (svc : RosService ω ρ) (handle : RmwServiceClient)
    (reqBuf : Nat) (events : List (ServiceClientEvent ω replyBuf)) (s : ServiceClientRun replyBuf)
    (reached : run (step svc) (init handle reqBuf replyBuf) events = some s) :
    (∀ before, before <+: events → ∀ mid,
      run (step svc) (init handle reqBuf replyBuf) before = some mid → mid.client.Unwedged svc) ↔
      Along (step svc) (Decodes svc) (init handle reqBuf replyBuf) events := by
  have start : (init handle reqBuf replyBuf).client.channel.Known := .idle rfl rfl
  apply @run_throughout_iff _ _ (step svc) (Decodes svc) (fun s => s.client.channel.Known)
    (fun s => s.client.Unwedged svc) _ _ _ s events start _ reached
  · intro s e next known stepped
    exact (step_lost_iff known stepped).1
  · intro s e next known unwedged stepped
    rcases step_lost_iff known stepped with ⟨known', moved⟩
    rw [EmbeddedServiceClient.unwedged_iff known',
      moved ((EmbeddedServiceClient.unwedged_iff known).mp unwedged), not_not]
  · exact (EmbeddedServiceClient.unwedged_iff start).mpr fun lost => by cases lost.1

end ServiceClientRun

namespace TypedActionClient

variable {γ ρ : Type} {goalBuf resultBuf : Nat}

/-- No call on the channel is refused for a request in flight. -/
def Admits (action : RosAction γ ρ) (client : TypedActionClient goalBuf resultBuf) :
    ActionRpc → Prop
  | .sendGoal => ∀ goal, (client.sendGoal action goal).1 ≠ .error .requestInFlight
  | .cancelGoal => ∀ goalId, (client.cancelGoal goalId).1 ≠ .error .requestInFlight
  | .getResult => ∀ goalId, (client.getResult goalId).1 ≠ .error .requestInFlight

structure Unwedged (action : RosAction γ ρ) (client : TypedActionClient goalBuf resultBuf) :
    Prop where
  agrees : ∀ rpc, (client.channel rpc).Agrees
  admitted : ∀ rpc, (client.channel rpc).holdsPending = false → client.Admits action rpc

theorem unwedged_iff {action : RosAction γ ρ} {client : TypedActionClient goalBuf resultBuf}
    (known : ∀ rpc, (client.channel rpc).Known) :
    client.Unwedged action ↔ ∀ rpc, ¬ (client.channel rpc).Lost := by
  constructor
  · intro unwedged rpc
    exact (known rpc).agrees_iff.mp (unwedged.agrees rpc)
  · intro found
    refine ⟨fun rpc => (known rpc).agrees_iff.mpr (found rpc), fun rpc gone => ?_⟩
    rcases (known rpc).idle_of (found rpc) gone with ⟨flag, live⟩
    have room : 0 < maxConcurrentGoals := by decide
    cases rpc with
    | sendGoal =>
      exact fun goal => (client.sendGoal_asks action goal).sends.admitted room flag live
    | cancelGoal =>
      exact fun goalId => (client.cancelGoal_asks goalId).sends.admitted room flag live
    | getResult =>
      exact fun goalId => (client.getResult_asks goalId).sends.admitted room flag live

def take {rpc : ActionRpc} (parse : List UInt8 → Except NodeError (rpc.Reply ρ))
    (client : TypedActionClient goalBuf resultBuf) : TypedActionClient goalBuf resultBuf :=
  client.after rpc ((client.promise rpc).take parse).2

end TypedActionClient

structure ActionClientRun (goalBuf resultBuf : Nat) where
  client : TypedActionClient goalBuf resultBuf
  /-- The call whose promise is out. -/
  promised : Option ActionRpc

inductive ActionClientEvent (γ : Type) (resultBuf : Nat) where
  | sendGoal (goal : γ)
  | cancelGoal (goalId : GoalUuid)
  | getResult (goalId : GoalUuid)
  | take
  | dropPromise
  | resetInFlight (rpc : ActionRpc)
  | arrive (rpc : ActionRpc) (answer : ReplyAnswer resultBuf)

namespace ActionClientRun

variable {γ ρ α : Type} {goalBuf resultBuf : Nat}

def init (sendGoalClient cancelGoalClient getResultClient : RmwServiceClient)
    (goalBuf resultBuf : Nat) : ActionClientRun goalBuf resultBuf :=
  ⟨.new sendGoalClient cancelGoalClient getResultClient, none⟩

/-- The promise of a call goes out if the call is `.ok`. -/
def asked (rpc : ActionRpc) (outcome : Except NodeError α × TypedActionClient goalBuf resultBuf) :
    ActionClientRun goalBuf resultBuf :=
  ⟨outcome.2, if outcome.1.isOk then some rpc else none⟩

def step (action : RosAction γ ρ) (s : ActionClientRun goalBuf resultBuf) :
    ActionClientEvent γ resultBuf → Option (ActionClientRun goalBuf resultBuf)
  | .sendGoal goal =>
    if s.promised.isSome then none else some (asked .sendGoal (s.client.sendGoal action goal))
  | .cancelGoal goalId =>
    if s.promised.isSome then none else some (asked .cancelGoal (s.client.cancelGoal goalId))
  | .getResult goalId =>
    if s.promised.isSome then none else some (asked .getResult (s.client.getResult goalId))
  | .take => s.promised.map fun rpc => { s with client := s.client.take (action.parse rpc) }
  | .dropPromise => s.promised.map fun _ => { s with promised := none }
  | .resetInFlight rpc =>
    if s.promised.isSome then none else some { s with client := s.client.reset rpc }
  | .arrive rpc answer => some { s with client := s.client.arrive rpc answer }

/-- The reply that the poll comes to, if it comes to one, parses. -/
def Decodes (action : RosAction γ ρ) (s : ActionClientRun goalBuf resultBuf) :
    ActionClientEvent γ resultBuf → Prop
  | .take => ∀ rpc ∈ s.promised, (s.client.promise rpc).Decodes (action.parse rpc)
  | _ => True

instance (action : RosAction γ ρ) (s : ActionClientRun goalBuf resultBuf) :
    ∀ e : ActionClientEvent γ resultBuf, Decidable (s.Decodes action e)
  | .take => inferInstanceAs (Decidable (∀ rpc ∈ s.promised,
      (s.client.promise rpc).Decodes (action.parse rpc)))
  | .sendGoal _ | .cancelGoal _ | .getResult _ | .dropPromise | .resetInFlight _ | .arrive _ _ =>
    inferInstanceAs (Decidable True)

/-- Every channel is in a state there can be. -/
def Known (s : ActionClientRun goalBuf resultBuf) : Prop := ∀ rpc, (s.client.channel rpc).Known

/-- What an event does to one channel, the others being left alone. -/
structure Moves (s next : ActionClientRun goalBuf resultBuf) (rpc : ActionRpc) (decodes : Prop) :
    Prop where
  known : (next.client.channel rpc).Known
  lost : ¬ (s.client.channel rpc).Lost → ((next.client.channel rpc).Lost ↔ ¬ decodes)
  others : ∀ other, other ≠ rpc → next.client.channel other = s.client.channel other

variable {action : RosAction γ ρ} {s next : ActionClientRun goalBuf resultBuf}

theorem asked_moves {rpc : ActionRpc} {result : Except NodeError α}
    {client : TypedActionClient goalBuf resultBuf} (known : s.Known)
    (asks : s.client.Asks client rpc result) : s.Moves (asked rpc (result, client)) rpc True where
  known := asks.sends.known (known rpc)
  lost := fun found => (asks.sends.lost_iff (known rpc)).trans (by simp [found])
  others := asks.others

theorem unmoved (known : s.Known) (same : next.client.channel = s.client.channel)
    (rpc : ActionRpc) : s.Moves next rpc True where
  known := by
    rw [same]
    exact known rpc
  lost := fun found => by simp [same, found]
  others := fun other _ => by rw [same]

theorem take_moves (known : s.Known) (rpc : ActionRpc) :
    s.Moves { s with client := s.client.take (action.parse rpc) } rpc
      ((s.client.promise rpc).Decodes (action.parse rpc)) := by
  have polled := @RequestChannel.polled_cases _ _ _ _ (s.client.replies rpc)
    s.client.resultBuffer (action.parse rpc) (s.client.channel rpc) (known rpc)
  constructor
  · dsimp only
    rw [TypedActionClient.take, TypedActionClient.channel_after, if_pos rfl]
    exact polled.1
  · intro found
    dsimp only
    rw [TypedActionClient.take, TypedActionClient.channel_after, if_pos rfl]
    exact polled.2.trans (or_iff_right found)
  · intro other different
    dsimp only
    rw [TypedActionClient.take, TypedActionClient.channel_after, if_neg different]

theorem reset_moves (s : ActionClientRun goalBuf resultBuf) (rpc : ActionRpc) :
    s.Moves { s with client := s.client.reset rpc } rpc True := by
  constructor
  · dsimp only
    rw [TypedActionClient.channel_reset, if_pos rfl]
    exact RequestChannel.reset_known _
  · intro _
    dsimp only
    rw [TypedActionClient.channel_reset, if_pos rfl]
    simp [RequestChannel.reset_found]
  · intro other different
    dsimp only
    rw [TypedActionClient.channel_reset, if_neg different]

theorem step_moves {e : ActionClientEvent γ resultBuf} (known : s.Known)
    (stepped : s.step action e = some next) : ∃ rpc, s.Moves next rpc (s.Decodes action e) := by
  cases e with
  | sendGoal goal =>
    rw [step] at stepped
    split at stepped
    case isTrue => cases stepped
    case isFalse =>
      cases stepped
      exact ⟨_, asked_moves known (s.client.sendGoal_asks action goal)⟩
  | cancelGoal goalId =>
    rw [step] at stepped
    split at stepped
    case isTrue => cases stepped
    case isFalse =>
      cases stepped
      exact ⟨_, asked_moves known (s.client.cancelGoal_asks goalId)⟩
  | getResult goalId =>
    rw [step] at stepped
    split at stepped
    case isTrue => cases stepped
    case isFalse =>
      cases stepped
      exact ⟨_, asked_moves known (s.client.getResult_asks goalId)⟩
  | take =>
    rcases Option.map_eq_some_iff.mp stepped with ⟨rpc, lent, rfl⟩
    have decodes : s.Decodes action .take ↔ (s.client.promise rpc).Decodes (action.parse rpc) := by
      simp [Decodes, lent]
    rw [decodes]
    exact ⟨rpc, take_moves known rpc⟩
  | dropPromise =>
    rcases Option.map_eq_some_iff.mp stepped with ⟨rpc, _, rfl⟩
    have moves : s.Moves { s with promised := none } rpc True := unmoved known (by rfl) rpc
    exact ⟨rpc, moves⟩
  | resetInFlight rpc =>
    rw [step] at stepped
    split at stepped
    case isTrue => cases stepped
    case isFalse =>
      cases stepped
      exact ⟨rpc, s.reset_moves rpc⟩
  | arrive rpc answer =>
    cases stepped
    exact ⟨rpc, unmoved known (by funext other; cases other <;> rfl) rpc⟩

theorem Moves.known_all {rpc : ActionRpc} {decodes : Prop} (moves : s.Moves next rpc decodes)
    (known : s.Known) : next.Known := by
  intro other
  by_cases same : other = rpc
  · rw [same]
    exact moves.known
  · rw [moves.others other same]
    exact known other

theorem Moves.lost_iff {rpc : ActionRpc} {decodes : Prop} (moves : s.Moves next rpc decodes)
    (found : ∀ rpc, ¬ (s.client.channel rpc).Lost) :
    (∀ rpc, ¬ (next.client.channel rpc).Lost) ↔ decodes := by
  have here := moves.lost (found rpc)
  constructor
  · intro all
    exact not_not.mp fun fails => all rpc (here.mpr fails)
  · intro holds other lost
    by_cases same : other = rpc
    · rw [same] at lost
      exact here.mp lost holds
    · rw [moves.others other same] at lost
      exact found other lost

theorem action_client_throughout_iff (action : RosAction γ ρ)
    (sendGoalClient cancelGoalClient getResultClient : RmwServiceClient)
    (events : List (ActionClientEvent γ resultBuf)) (s : ActionClientRun goalBuf resultBuf)
    (reached : run (step action) (init sendGoalClient cancelGoalClient getResultClient goalBuf
      resultBuf) events = some s) :
    (∀ before, before <+: events → ∀ mid, run (step action) (init sendGoalClient cancelGoalClient
      getResultClient goalBuf resultBuf) before = some mid → mid.client.Unwedged action) ↔
      Along (step action) (Decodes action) (init sendGoalClient cancelGoalClient getResultClient
        goalBuf resultBuf) events := by
  have start : (init sendGoalClient cancelGoalClient getResultClient goalBuf resultBuf).Known := by
    intro rpc
    cases rpc <;> exact .idle rfl rfl
  apply @run_throughout_iff _ _ (step action) (Decodes action) Known
    (fun s => s.client.Unwedged action) _ _ _ s events start _ reached
  · intro s e next known stepped
    rcases step_moves known stepped with ⟨rpc, moves⟩
    exact moves.known_all known
  · intro s e next known unwedged stepped
    rcases step_moves known stepped with ⟨rpc, moves⟩
    rw [TypedActionClient.unwedged_iff (moves.known_all known)]
    exact moves.lost_iff ((TypedActionClient.unwedged_iff known).mp unwedged)
  · rw [TypedActionClient.unwedged_iff start]
    intro rpc lost
    cases rpc <;> cases lost.1

end ActionClientRun

/-- A service client is not wedged in any state of a run, and an action client in none of another,
exactly if every reply that their polls come to decodes. -/
theorem clients_unwedged_iff {ω ρ γ δ : Type} {replyBuf goalBuf resultBuf : Nat}
    (svc : RosService ω ρ) (handle : RmwServiceClient) (reqBuf : Nat)
    (calls : List (ServiceClientEvent ω replyBuf)) (s : ServiceClientRun replyBuf)
    (called : run (ServiceClientRun.step svc) (.init handle reqBuf replyBuf) calls = some s)
    (action : RosAction γ δ) (sendGoalClient cancelGoalClient getResultClient : RmwServiceClient)
    (goals : List (ActionClientEvent γ resultBuf)) (t : ActionClientRun goalBuf resultBuf)
    (pursued : run (ActionClientRun.step action)
      (.init sendGoalClient cancelGoalClient getResultClient goalBuf resultBuf) goals = some t) :
    ((∀ before, before <+: calls → ∀ mid,
      run (ServiceClientRun.step svc) (.init handle reqBuf replyBuf) before = some mid →
      mid.client.Unwedged svc) ↔ Along (ServiceClientRun.step svc) (ServiceClientRun.Decodes svc)
        (.init handle reqBuf replyBuf) calls) ∧
    ((∀ before, before <+: goals → ∀ mid, run (ActionClientRun.step action)
        (.init sendGoalClient cancelGoalClient getResultClient goalBuf resultBuf) before =
        some mid → mid.client.Unwedged action) ↔
      Along (ActionClientRun.step action) (ActionClientRun.Decodes action)
        (.init sendGoalClient cancelGoalClient getResultClient goalBuf resultBuf) goals) :=
  ⟨ServiceClientRun.service_client_throughout_iff svc handle reqBuf calls s called,
    ActionClientRun.action_client_throughout_iff action sendGoalClient cancelGoalClient
      getResultClient goals t pursued⟩

def byteService : RosService UInt8 UInt8 where
  serialize := fun request writer => writer.writeU8 request
  deserialize := CdrReader.readU8

def byteAction : RosAction UInt8 UInt8 where
  serializeGoal := fun goal writer => writer.writeU8 goal
  deserializeResult := CdrReader.readU8

/-- A backend that numbers its requests from 1 on. -/
def numberedClient : RmwServiceClient := ⟨fun n => .ok (Int64.ofNat (n + 1)), 0, []⟩

/-- A reply to request `seq`: the encapsulation header and `bytes`. -/
def replyTo (seq : Int64) (bytes : List UInt8) (fits : bytes.length ≤ 4) : ReplyAnswer 8 :=
  .reply seq (cdrLeHeader ++ bytes) .notReported (by
    rw [List.length_append]
    exact Nat.add_le_add_left fits 4)

/-- A call whose reply comes; a second one that is abandoned, and whose reply comes to a third. -/
def answeredCalls : List (ServiceClientEvent UInt8 8) :=
  [.call 5, .take, .arrive (replyTo 1 [7] (by decide)), .take, .dropPromise, .call 6, .dropPromise,
    .resetInFlight, .call 6, .arrive (replyTo 2 [8] (by decide)),
    .arrive (replyTo 3 [9] (by decide)), .take]

/-- A goal that is rejected, and a result. -/
def answeredGoals : List (ActionClientEvent UInt8 8) :=
  [.sendGoal 5, .arrive .sendGoal (replyTo 1 [0] (by decide)), .take, .dropPromise,
    .getResult default, .arrive .getResult (replyTo 1 [4, 9] (by decide)), .take]

theorem clients_unwedged_answered :
    (∃ s, run (ServiceClientRun.step byteService) (.init numberedClient 8 8) answeredCalls =
        some s ∧ s.client.Unwedged byteService) ∧
    (∃ t, run (ActionClientRun.step byteAction)
        (.init numberedClient numberedClient numberedClient 32 8) answeredGoals = some t ∧
      t.client.Unwedged byteAction) := by
  rcases Option.isSome_iff_exists.mp (by decide +kernel : (run (ServiceClientRun.step byteService)
    (.init numberedClient 8 8) answeredCalls).isSome = true) with ⟨s, called⟩
  rcases Option.isSome_iff_exists.mp (by decide +kernel : (run (ActionClientRun.step byteAction)
    (.init numberedClient numberedClient numberedClient 32 8) answeredGoals).isSome = true) with
    ⟨t, pursued⟩
  rcases clients_unwedged_iff byteService numberedClient 8 answeredCalls s called byteAction
    numberedClient numberedClient numberedClient answeredGoals t pursued with ⟨services, actions⟩
  constructor
  · exact ⟨s, called, services.mpr (by decide +kernel) _ (List.prefix_refl _) s called⟩
  · exact ⟨t, pursued, actions.mpr (by decide +kernel) _ (List.prefix_refl _) t pursued⟩

/-- The reply to the call is a header with nothing behind it. The correlator lets go of the
request, the flag stays up, and no later call goes out. -/
theorem undecoded_reply_wedges :
    (∃ s, run (ServiceClientRun.step byteService) (.init numberedClient 8 8)
        [.call 5, .arrive (replyTo 1 [] (by decide)), .take, .take, .dropPromise] = some s ∧
      s.client.inFlight = true ∧ s.client.pending.live = [] ∧
      (∀ request, (s.client.call byteService request).1 = .error .requestInFlight) ∧
      ¬ s.client.Unwedged byteService) ∧
    (∃ s, run (ActionClientRun.step byteAction)
        (.init numberedClient numberedClient numberedClient 32 8)
        [.sendGoal 5, .arrive .sendGoal (replyTo 1 [] (by decide)), .take, .dropPromise] = some s ∧
      s.client.inFlightSendGoal = true ∧ s.client.core.pendingSendGoal.live = [] ∧
      (∀ goal, (s.client.sendGoal byteAction goal).1 = .error .requestInFlight) ∧
      ¬ s.client.Unwedged byteAction) := by
  constructor
  · refine ⟨_, rfl, by decide +kernel, by decide +kernel, fun request => rfl, ?_⟩
    intro unwedged
    have agrees := unwedged.agrees
    revert agrees
    decide +kernel
  · refine ⟨_, rfl, by decide +kernel, by decide +kernel, fun goal => rfl, ?_⟩
    intro unwedged
    have agrees := unwedged.agrees .sendGoal
    revert agrees
    decide +kernel

end NanoRos
