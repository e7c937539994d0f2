import NanoRos.Node.TypedServer

/-! The tables of a typed action server over its whole life: which acceptance each active goal comes
from, and which completion each completed one. -/

namespace NanoRos

/-- A goal that went into the table, with the id and the stamp it went in with. -/
structure Acceptance (γ : Type) where
  goalId : GoalUuid
  stamp : Time
  goal : γ

/-- The latest completion of a goal; the completions are oldest first. -/
def latestCompletion {ρ : Type} (completions : List (CompletedGoal ρ)) (goalId : GoalUuid) :
    Option (CompletedGoal ρ) :=
  completions.reverse.find? fun c => c.goalId = goalId

theorem latestCompletion_append {ρ : Type} (completions : List (CompletedGoal ρ))
    (c : CompletedGoal ρ) (goalId : GoalUuid) :
    latestCompletion (completions ++ [c]) goalId =
      if c.goalId = goalId then some c else latestCompletion completions goalId := by
  rw [latestCompletion, List.reverse_append, List.reverse_singleton, List.singleton_append,
    List.find?_cons]
  by_cases same : c.goalId = goalId
  · simp [same]
  · simp [same, latestCompletion]

/-- What the core is told of a completion. -/
def CompletedGoal.toCore {ρ : Type} {resultBuf : Nat} (codec : ResultCodec ρ resultBuf)
    (c : CompletedGoal ρ) : Completion :=
  ⟨c.goalId, c.status, codec.payload c.result⟩

theorem mostRecent_toCore {ρ : Type} {resultBuf : Nat} (codec : ResultCodec ρ resultBuf)
    (completions : List (CompletedGoal ρ)) (goalId : GoalUuid) :
    mostRecent (completions.map (CompletedGoal.toCore codec)) goalId =
      (latestCompletion completions goalId).map (CompletedGoal.toCore codec) := by
  rw [mostRecent, ← List.map_reverse, List.find?_map, latestCompletion]
  rfl

/-- A typed server with what happened to it: every acceptance and every completion so far, and
for each place of the core's table which acceptance filled it. -/
structure MirrorRun (γ ρ : Type) (goalBuf resultBuf maxGoals : Nat) where
  server : TypedServer γ ρ goalBuf resultBuf maxGoals
  accepted : List (Acceptance γ)
  origins : BoundedVec Nat maxGoals
  completions : List (CompletedGoal ρ)

inductive MirrorEvent (γ ρ σ : Type) (goalBuf : Nat) where
  | tryAcceptGoal (take : Take goalBuf) (stamp : Time) (goalHandler : GoalUuid → γ → GoalResponse)
  | setGoalStatus (goalId : GoalUuid) (status : GoalStatusCode)
  | completeGoal (c : CompletedGoal ρ)
  | tryHandleCancel (take : Take cancelBuf)
      (cancelHandler : σ → GoalUuid → GoalStatusCode → CancelResponse × σ) (s : σ)
  | tryHandleGetResult (take : Take goalBuf)
  | expireGoals

namespace MirrorRun

variable {γ ρ σ : Type} {goalBuf resultBuf maxGoals : Nat}

def init (sendGoalServer getResultServer cancelGoalServer : ServiceServer) :
    MirrorRun γ ρ goalBuf resultBuf maxGoals where
  server := {
    core := .fromChannels sendGoalServer getResultServer
    typedGoals := .empty
    cancelGoalServer := cancelGoalServer
    completedGoals := .empty }
  accepted := []
  origins := .empty
  completions := []

/-- The server after a request: an acceptance is what made the core's table longer. -/
def after (s : MirrorRun γ ρ goalBuf resultBuf maxGoals) (brought : Option (GoalUuid × γ))
    (stamp : Time) (server : TypedServer γ ρ goalBuf resultBuf maxGoals) :
    MirrorRun γ ρ goalBuf resultBuf maxGoals :=
  match brought with
  | some (goalId, goal) =>
    if s.server.core.activeGoals.len < server.core.activeGoals.len then
      { s with
        server := server
        accepted := s.accepted ++ [⟨goalId, stamp, goal⟩]
        origins := (s.origins.push s.accepted.length).getD s.origins }
    else { s with server := server }
  | none => { s with server := server }

/-- A completion empties the place where the core finds the goal, and the last goal moves there. -/
def step (deserialize : CdrReader → Option γ) (codec : ResultCodec ρ resultBuf) (defaultResult : ρ)
    (s : MirrorRun γ ρ goalBuf resultBuf maxGoals) :
    MirrorEvent γ ρ σ goalBuf → Option (MirrorRun γ ρ goalBuf resultBuf maxGoals)
  | .tryAcceptGoal take stamp goalHandler =>
    some (s.after (s.server.broughtGoal deserialize take) stamp
      (s.server.tryAcceptGoal deserialize goalHandler take stamp).2)
  | .setGoalStatus goalId status =>
    some { s with server := s.server.setGoalStatus goalId status }
  | .completeGoal c =>
    some { s with
      server := (s.server.completeGoal codec c.goalId c.status c.result).2
      origins :=
        match s.server.core.activeGoals.items.findIdx? fun g => g.goalId = c.goalId with
        | some pos => s.origins.swapRemove pos
        | none => s.origins
      completions := s.completions ++ [c] }
  | .tryHandleCancel take cancelHandler s' =>
    some { s with server := (s.server.tryHandleCancel cancelHandler take s').2.1 }
  | .tryHandleGetResult take =>
    some { s with server := (s.server.tryHandleGetResult codec defaultResult take).2 }
  | .expireGoals => some { s with server := s.server.expireGoals.2 }

/-- A goal is completed only while the typed table has no entry for it. -/
def Fresh (s : MirrorRun γ ρ goalBuf resultBuf maxGoals) : MirrorEvent γ ρ σ goalBuf → Prop
  | .completeGoal c => ∀ m ∈ s.server.completedGoals.items, m.goalId ≠ c.goalId
  | _ => True

instance (s : MirrorRun γ ρ goalBuf resultBuf maxGoals) :
    ∀ e : MirrorEvent γ ρ σ goalBuf, Decidable (s.Fresh e)
  | .completeGoal c =>
    inferInstanceAs (Decidable (∀ m ∈ s.server.completedGoals.items, m.goalId ≠ c.goalId))
  | .tryAcceptGoal .. | .setGoalStatus .. | .tryHandleCancel .. | .tryHandleGetResult ..
  | .expireGoals => isTrue trivial

/-- Each active goal of the core has beside it the goal that was accepted in its place. -/
structure Aligned (s : MirrorRun γ ρ goalBuf resultBuf maxGoals) : Prop where
  length : s.server.typedGoals.len = s.server.core.activeGoals.len
  distinct : s.origins.items.Nodup
  created : ∀ (i : Nat) (raw : RawActiveGoal), s.server.core.activeGoals.items[i]? = some raw →
    ∃ (n : Nat) (a : Acceptance γ), s.origins.items[i]? = some n ∧ s.accepted[n]? = some a ∧
      a.goalId = raw.goalId ∧ a.stamp = raw.stamp ∧ s.server.typedGoals.items[i]? = some a.goal
  absent : ∀ goalId, (∀ raw ∈ s.server.core.activeGoals.items, raw.goalId ≠ goalId) →
    s.server.getGoal goalId = some none
  found : ∀ goalId, (∃ raw ∈ s.server.core.activeGoals.items, raw.goalId = goalId) →
    ∃ (i n : Nat) (raw : RawActiveGoal) (a : Acceptance γ),
      s.server.core.activeGoals.items[i]? = some raw ∧ s.origins.items[i]? = some n ∧
      s.accepted[n]? = some a ∧ raw.goalId = goalId ∧ a.goalId = goalId ∧
      s.server.getGoal goalId = some (some ⟨goalId, raw.status, a.goal⟩)

/-- The typed results are those the core retains, each from the latest completion of its goal. -/
structure Mirrored (s : MirrorRun γ ρ goalBuf resultBuf maxGoals) : Prop where
  distinct : (s.server.completedGoals.items.map CompletedGoal.goalId).Nodup
  goals : (s.server.completedGoals.items.map fun m => (m.goalId, m.status)).Perm
    (s.server.core.completedResults.items.map fun e => (e.goalId, e.status))
  latest : ∀ m ∈ s.server.completedGoals.items, latestCompletion s.completions m.goalId = some m

/-- What every run keeps: both tables of active goals tell of the same acceptances. -/
structure Kept (codec : ResultCodec ρ resultBuf) (s : MirrorRun γ ρ goalBuf resultBuf maxGoals) :
    Prop where
  holds : s.server.core.Holds (s.completions.map (CompletedGoal.toCore codec))
  cancel : s.server.core.cancelBuffer.length = cancelBuf
  distinct : s.origins.items.Nodup
  places : s.server.core.places.map some =
    s.origins.items.map fun n => s.accepted[n]?.map fun a => (a.goalId, a.stamp)
  goals : s.server.typedGoals.items.map some =
    s.origins.items.map fun n => s.accepted[n]?.map Acceptance.goal

/-- What a run keeps as long as goals are completed afresh. Results that the core gave up may stay
until the next completion. -/
structure Covers (s : MirrorRun γ ρ goalBuf resultBuf maxGoals) : Prop where
  retained : s.server.core.retained ⊆ s.server.completedGoals.items.map CompletedGoal.goalId
  distinct : (s.server.completedGoals.items.map CompletedGoal.goalId).Nodup
  latest : ∀ m ∈ s.server.completedGoals.items, latestCompletion s.completions m.goalId = some m

section Keeps

variable {codec : ResultCodec ρ resultBuf} {s : MirrorRun γ ρ goalBuf resultBuf maxGoals}

section

variable (kept : s.Kept codec)
include kept

theorem Kept.lengths :
    s.server.typedGoals.len = s.server.core.activeGoals.len ∧
      s.origins.len = s.server.core.activeGoals.len := by
  have places := congrArg List.length kept.places
  have goals := congrArg List.length kept.goals
  simp only [List.length_map, ActionServerCore.places] at places goals
  exact ⟨goals.trans places.symm, places.symm⟩

theorem Kept.origin_lt {n : Nat} (member : n ∈ s.origins.items) :
    n < s.accepted.length := by
  have listed := List.mem_map_of_mem (f := fun n => s.accepted[n]?.map Acceptance.goal) member
  rw [← kept.goals] at listed
  rcases List.mem_map.mp listed with ⟨goal, _, found⟩
  by_contra past
  rw [List.getElem?_eq_none (Nat.not_lt.mp past)] at found
  cases found

theorem Kept.place {i : Nat} {raw : RawActiveGoal}
    (placed : s.server.core.activeGoals.items[i]? = some raw) :
    ∃ (n : Nat) (a : Acceptance γ), s.origins.items[i]? = some n ∧ s.accepted[n]? = some a ∧
      a.goalId = raw.goalId ∧ a.stamp = raw.stamp ∧
      s.server.typedGoals.items[i]? = some a.goal := by
  have places := congrArg (·[i]?) kept.places
  have goals := congrArg (·[i]?) kept.goals
  simp only [ActionServerCore.places, List.getElem?_map, placed, Option.map_some] at places goals
  rcases Option.map_eq_some_iff.mp places.symm with ⟨n, origin, at_⟩
  rcases Option.map_eq_some_iff.mp at_ with ⟨a, acceptance, same⟩
  rw [Prod.mk.injEq] at same
  rw [origin, Option.map_some, acceptance, Option.map_some] at goals
  rcases Option.map_eq_some_iff.mp goals with ⟨goal, typed, own⟩
  cases own
  exact ⟨n, a, origin, acceptance, same.1, same.2, typed⟩

theorem Kept.aligned : s.Aligned where
  length := kept.lengths.1
  distinct := kept.distinct
  created := fun _ _ placed => kept.place placed
  absent := by
    intro goalId others
    have nobody : s.server.core.activeGoals.items.zipIdx.find?
        (fun item => item.1.goalId = goalId) = none := by
      rw [List.find?_eq_none]
      intro item member
      simpa using others item.1 (List.fst_mem_of_mem_zipIdx member)
    rw [TypedServer.getGoal, nobody]
  found := by
    rintro goalId ⟨raw, member, named⟩
    cases first : s.server.core.activeGoals.items.zipIdx.find?
        (fun item => item.1.goalId = goalId) with
    | none =>
      rcases List.mem_iff_getElem?.mp member with ⟨i, placed⟩
      have missed := List.find?_eq_none.mp first (raw, i)
        (List.mem_zipIdx_iff_getElem?.mpr placed)
      simp [named] at missed
    | some item =>
      have own : item.1.goalId = goalId := by simpa using List.find?_some first
      have placed := List.mem_zipIdx_iff_getElem?.mp (List.mem_of_find?_eq_some first)
      rcases kept.place placed with ⟨n, a, origin, acceptance, id, _, typed⟩
      refine ⟨item.2, n, item.1, a, placed, origin, acceptance, own, id.trans own, ?_⟩
      rw [TypedServer.getGoal, first]
      dsimp only
      rw [typed, own]
      rfl

end

variable {server : TypedServer γ ρ goalBuf resultBuf maxGoals}

variable (s)

theorem after_same {brought : Option (GoalUuid × γ)} {stamp : Time}
    (active : server.core.activeGoals.items = s.server.core.activeGoals.items) :
    s.after brought stamp server = { s with server := server } := by
  have same : server.core.activeGoals.len = s.server.core.activeGoals.len :=
    congrArg List.length active
  cases brought with
  | none => rfl
  | some goal => exact if_neg (by omega)

theorem after_server (brought : Option (GoalUuid × γ)) (stamp : Time)
    (server : TypedServer γ ρ goalBuf resultBuf maxGoals) :
    (s.after brought stamp server).server = server ∧
      (s.after brought stamp server).completions = s.completions := by
  cases brought with
  | none => exact ⟨rfl, rfl⟩
  | some goal =>
    dsimp only [after]
    split <;> exact ⟨rfl, rfl⟩

variable {s}

theorem Kept.quiet (kept : s.Kept codec)
    (quiet : s.server.core.Quiet server.core (s.completions.map (CompletedGoal.toCore codec)))
    (same : server.typedGoals = s.server.typedGoals) :
    Kept codec { s with server := server } where
  holds := quiet.holds
  cancel := quiet.cancel
  distinct := kept.distinct
  places := by
    rw [quiet.places]
    exact kept.places
  goals := by
    rw [same]
    exact kept.goals

theorem Covers.quiet (covers : s.Covers) (retained : server.core.retained ⊆ s.server.core.retained)
    (same : server.completedGoals = s.server.completedGoals) :
    Covers { s with server := server } where
  retained := by
    rw [same]
    exact List.Subset.trans retained covers.retained
  distinct := by
    rw [same]
    exact covers.distinct
  latest := by
    rw [same]
    exact covers.latest

theorem Kept.earlier (kept : s.Kept codec) {β : Type} (view : Acceptance γ → β) (a : Acceptance γ) :
    (s.origins.items.map fun n => (s.accepted ++ [a])[n]?.map view) =
      s.origins.items.map fun n => s.accepted[n]?.map view := by
  apply List.map_congr_left
  intro n member
  rw [List.getElem?_append_left (kept.origin_lt member)]

theorem Kept.accept (kept : s.Kept codec) {goalId : GoalUuid} {goal : γ} {stamp : Time}
    (holds : server.core.Holds (s.completions.map (CompletedGoal.toCore codec)))
    (cancel : server.core.cancelBuffer.length = cancelBuf)
    (started : server.core.activeGoals.items =
      s.server.core.activeGoals.items ++ [⟨goalId, .accepted, stamp⟩])
    (typed : server.typedGoals.items = s.server.typedGoals.items ++ [goal]) :
    Kept codec (s.after (some (goalId, goal)) stamp server) := by
  have longer : server.core.activeGoals.len = s.server.core.activeGoals.len + 1 := by
    rw [BoundedVec.len, started, List.length_append]
    rfl
  have room : s.origins.len < maxGoals := by
    have fits := server.core.activeGoals.fits
    change server.core.activeGoals.len ≤ maxGoals at fits
    rw [kept.lengths.2]
    omega
  rcases s.origins.push_of_room s.accepted.length room with ⟨origins, pushed, items⟩
  have next : s.after (some (goalId, goal)) stamp server =
      ⟨server, s.accepted ++ [⟨goalId, stamp, goal⟩], origins, s.completions⟩ := by
    rw [after, if_pos (by omega), pushed, Option.getD_some]
  rw [next]
  constructor
  · exact holds
  · exact cancel
  · rw [items, ← List.concat_eq_append]
    refine List.Nodup.concat ?_ kept.distinct
    exact fun member => Nat.lt_irrefl _ (kept.origin_lt member)
  · rw [items, List.map_append, kept.earlier, ← kept.places, ActionServerCore.places, started,
      List.map_append, List.map_append, ActionServerCore.places]
    simp
  · rw [items, List.map_append, kept.earlier, ← kept.goals, typed, List.map_append]
    simp

theorem Kept.complete (kept : s.Kept codec) (c : CompletedGoal ρ) :
    Kept codec { s with
      server := (s.server.completeGoal codec c.goalId c.status c.result).2
      origins :=
        match s.server.core.activeGoals.items.findIdx? fun g => g.goalId = c.goalId with
        | some pos => s.origins.swapRemove pos
        | none => s.origins
      completions := s.completions ++ [c] } := by
  have core := s.server.completeGoal_core codec c.goalId c.status c.result
  have ended := ActionServerCore.completeGoalRaw_active kept.holds (c.toCore codec)
  have holds := ActionServerCore.completeGoalRaw_holds kept.holds (c.toCore codec)
  have lengths := kept.lengths
  have places := kept.places
  simp only [ActionServerCore.places, List.map_map] at places
  have active : (s.server.completeGoal codec c.goalId c.status c.result).2.core.activeGoals =
      (s.server.core.removeActiveGoal c.goalId).activeGoals := by
    rw [core]
    exact ended.1
  have same : (s.server.completeGoal codec c.goalId c.status c.result).2.core.Holds
        ((s.completions ++ [c]).map (CompletedGoal.toCore codec)) ∧
      (s.server.completeGoal codec c.goalId c.status c.result).2.core.cancelBuffer.length =
        cancelBuf := by
    rw [core, List.map_append]
    refine ⟨holds, ?_⟩
    exact (congrArg List.length ended.2).trans kept.cancel
  cases found : s.server.core.activeGoals.items.findIdx? (fun g => g.goalId = c.goalId) with
  | none =>
    have typed : (s.server.completeGoal codec c.goalId c.status c.result).2.typedGoals =
        s.server.typedGoals := by
      simp only [TypedServer.completeGoal, found]
    rw [ActionServerCore.removeActiveGoal, found] at active
    refine ⟨same.1, same.2, kept.distinct, ?_, ?_⟩
    · rw [ActionServerCore.places, active]
      exact kept.places
    · rw [typed]
      exact kept.goals
  | some pos =>
    have typed : (s.server.completeGoal codec c.goalId c.status c.result).2.typedGoals =
        s.server.typedGoals.swapRemove pos := by
      simp only [TypedServer.completeGoal, found]
    have inside : pos < s.server.core.activeGoals.len :=
      (List.findIdx?_eq_some_iff_getElem.mp found).1
    have fewer := (s.origins.swapRemove_perm pos (lengths.2.symm ▸ inside)).1
    rw [ActionServerCore.removeActiveGoal, found] at active
    refine ⟨same.1, same.2, ?_, ?_, ?_⟩
    · exact fewer.nodup_iff.mpr (kept.distinct.sublist (List.eraseIdx_sublist _ _))
    · rw [ActionServerCore.places, active, List.map_map]
      exact BoundedVec.map_swapRemove places pos inside
    · rw [typed]
      exact BoundedVec.map_swapRemove kept.goals pos (lengths.1.symm ▸ inside)

theorem Covers.mirrored (covers : s.Covers) (kept : s.Kept codec)
    (retained : s.server.completedGoals.items.map CompletedGoal.goalId ⊆ s.server.core.retained) :
    s.Mirrored where
  distinct := covers.distinct
  goals := by
    have agree (m : CompletedGoal ρ) (listed : m ∈ s.server.completedGoals.items)
        (e : CompletedResultEntry) (member : e ∈ s.server.core.completedResults.items)
        (same : m.goalId = e.goalId) : m.status = e.status := by
      have last := kept.holds.latest e member
      rw [mostRecent_toCore, ← same, covers.latest m listed, Option.map_some,
        Option.some.injEq] at last
      exact congrArg Completion.status last
    have left : (s.server.completedGoals.items.map fun m => (m.goalId, m.status)).Nodup := by
      apply List.Nodup.of_map Prod.fst
      rw [List.map_map]
      exact covers.distinct
    have right : (s.server.core.completedResults.items.map
        fun e => (e.goalId, e.status)).Nodup := by
      apply List.Nodup.of_map Prod.fst
      rw [List.map_map]
      exact kept.holds.distinct
    rw [List.perm_ext_iff_of_nodup left right]
    intro pair
    constructor
    · intro member
      rcases List.mem_map.mp member with ⟨m, listed, rfl⟩
      rcases List.mem_map.mp (retained (List.mem_map_of_mem listed)) with ⟨e, there, same⟩
      exact List.mem_map.mpr ⟨e, there, by rw [same, agree m listed e there same.symm]⟩
    · intro member
      rcases List.mem_map.mp member with ⟨e, there, rfl⟩
      rcases List.mem_map.mp (covers.retained (List.mem_map_of_mem there)) with ⟨m, listed, same⟩
      exact List.mem_map.mpr ⟨m, listed, by rw [same, agree m listed e there same]⟩
  latest := covers.latest

/-- The typed results after a completion, for a goal that had none: those of before and the new
one, as far as the core has a result for them. -/
theorem Covers.completed_items (covers : s.Covers) {c : CompletedGoal ρ}
    (fresh : ∀ m ∈ s.server.completedGoals.items, m.goalId ≠ c.goalId) :
    let next := (s.server.completeGoal codec c.goalId c.status c.result).2
    next.completedGoals.items = (s.server.completedGoals.items ++ [c]).filter
      fun m => next.core.hasCompletedResult m.goalId := by
  intro next
  have items := s.server.completeGoal_completedGoals codec c.goalId c.status c.result
  change next.completedGoals = _ at items
  rw [List.filter_append]
  by_cases stored : next.core.hasCompletedResult c.goalId = true
  · -- the entries that stay are as many as the other results of the core, so there is a place
    have room : (s.server.completedGoals.retain
        fun m => next.core.hasCompletedResult m.goalId).len < maxGoals := by
      have apart : c.goalId ∉ (s.server.completedGoals.items.filter
          fun m => next.core.hasCompletedResult m.goalId).map CompletedGoal.goalId := by
        intro member
        rcases List.mem_map.mp member with ⟨m, listed, same⟩
        exact fresh m (List.mem_filter.mp listed).1 same
      have distinct := List.nodup_cons.mpr
        ⟨apart, covers.distinct.sublist (List.filter_sublist.map _)⟩
      have among : c.goalId :: (s.server.completedGoals.items.filter
          fun m => next.core.hasCompletedResult m.goalId).map CompletedGoal.goalId ⊆
          next.core.retained := by
        apply List.cons_subset.mpr
        refine ⟨(ActionServerCore.hasCompletedResult_iff _).mp stored, ?_⟩
        intro id member
        rcases List.mem_map.mp member with ⟨m, listed, rfl⟩
        exact (ActionServerCore.hasCompletedResult_iff _).mp (List.mem_filter.mp listed).2
      have fewer := (List.subperm_of_subset distinct among).length_le
      have fits := next.core.completedResults.fits
      rw [List.length_cons, List.length_map, ActionServerCore.retained, List.length_map] at fewer
      change (List.filter _ _).length < maxGoals
      omega
    rcases BoundedVec.push_of_room _ (⟨c.goalId, c.status, c.result⟩ : CompletedGoal ρ) room with
      ⟨completed, pushed, listed⟩
    have own : [c].filter (fun m => next.core.hasCompletedResult m.goalId) = [c] := by
      simp [stored]
    rw [items, if_pos stored, pushed, own]
    exact listed
  · have own : [c].filter (fun m => next.core.hasCompletedResult m.goalId) = [] := by
      simp [stored]
    rw [items, if_neg stored, own, List.append_nil]
    rfl

/-- After a completion of a goal that had no typed result, exactly what the core retains has one. -/
theorem Covers.complete (covers : s.Covers) (kept : s.Kept codec) {c : CompletedGoal ρ}
    (fresh : ∀ m ∈ s.server.completedGoals.items, m.goalId ≠ c.goalId)
    {next : MirrorRun γ ρ goalBuf resultBuf maxGoals}
    (server : next.server = (s.server.completeGoal codec c.goalId c.status c.result).2)
    (completions : next.completions = s.completions ++ [c]) :
    next.Covers ∧
      next.server.completedGoals.items.map CompletedGoal.goalId ⊆ next.server.core.retained := by
  have items : next.server.completedGoals.items = (s.server.completedGoals.items ++ [c]).filter
      fun m => next.server.core.hasCompletedResult m.goalId := by
    rw [server]
    exact covers.completed_items fresh
  have among : next.server.core.retained ⊆ c.goalId :: s.server.core.retained := by
    rw [server, s.server.completeGoal_core codec]
    exact ActionServerCore.completeGoalRaw_retained kept.holds (c.toCore codec)
  refine ⟨⟨?_, ?_, ?_⟩, ?_⟩
  · intro id member
    have stored := (ActionServerCore.hasCompletedResult_iff id).mpr member
    rw [items]
    rcases List.mem_cons.mp (among member) with rfl | before
    · exact List.mem_map.mpr ⟨c, List.mem_filter.mpr ⟨by simp, stored⟩, rfl⟩
    · rcases List.mem_map.mp (covers.retained before) with ⟨m, listed, rfl⟩
      exact List.mem_map_of_mem (List.mem_filter.mpr ⟨List.mem_append_left _ listed, stored⟩)
  · have distinct : ((s.server.completedGoals.items ++ [c]).map CompletedGoal.goalId).Nodup := by
      rw [List.map_append, List.map_singleton, ← List.concat_eq_append]
      apply List.Nodup.concat _ covers.distinct
      intro member
      rcases List.mem_map.mp member with ⟨m, listed, same⟩
      exact fresh m listed same
    rw [items]
    exact distinct.sublist (List.filter_sublist.map _)
  · intro m listed
    rw [items] at listed
    rw [completions, latestCompletion_append]
    rcases List.mem_append.mp (List.mem_filter.mp listed).1 with before | new
    · rw [if_neg fun same => fresh m before same.symm]
      exact covers.latest m before
    · rw [List.mem_singleton.mp new, if_pos rfl]
  · intro id member
    rcases List.mem_map.mp member with ⟨m, listed, rfl⟩
    rw [items] at listed
    exact (ActionServerCore.hasCompletedResult_iff _).mp (List.mem_filter.mp listed).2

theorem completeGoal_stale (kept : s.Kept codec) (c : CompletedGoal ρ) {m : CompletedGoal ρ}
    (listed : m ∈ s.server.completedGoals.items) (same : m.goalId = c.goalId) :
    m ∈ (s.server.completeGoal codec c.goalId c.status c.result).2.completedGoals.items := by
  have positive : 1 ≤ maxGoals := by
    have fits := s.server.completedGoals.fits
    have some_ := List.length_pos_of_mem listed
    omega
  have stored := (ActionServerCore.completeGoalRaw_retains positive kept.holds (c.toCore codec)
    (codec.length_payload c.result)).2
  change c.goalId ∈ (s.server.core.completeGoalRaw c.goalId c.status
    (codec.payload c.result)).2.retained at stored
  rw [← s.server.completeGoal_core codec, ← ActionServerCore.hasCompletedResult_iff] at stored
  have stays : m ∈ (s.server.completedGoals.retain fun c' => (s.server.completeGoal codec c.goalId
      c.status c.result).2.core.hasCompletedResult c'.goalId).items := by
    apply List.mem_filter.mpr
    rw [same]
    exact ⟨listed, stored⟩
  rw [s.server.completeGoal_completedGoals codec, if_pos stored]
  cases pushed : (s.server.completedGoals.retain fun c' => (s.server.completeGoal codec c.goalId
      c.status c.result).2.core.hasCompletedResult c'.goalId).push
        ⟨c.goalId, c.status, c.result⟩ with
  | none => exact stays
  | some completed =>
    rw [Option.getD_some, BoundedVec.items_of_push pushed]
    exact List.mem_append_left _ stays

end Keeps

section Steps

variable (deserialize : CdrReader → Option γ) (codec : ResultCodec ρ resultBuf) (defaultResult : ρ)

variable (sendGoalServer getResultServer cancelGoalServer : ServiceServer)

theorem kept_init :
    Kept codec (init sendGoalServer getResultServer cancelGoalServer :
      MirrorRun γ ρ goalBuf resultBuf maxGoals) where
  holds := WatchedServer.holds_init sendGoalServer getResultServer
  cancel := List.length_replicate
  distinct := List.nodup_nil
  places := rfl
  goals := rfl

theorem covers_init :
    Covers (init sendGoalServer getResultServer cancelGoalServer :
      MirrorRun γ ρ goalBuf resultBuf maxGoals) where
  retained := List.Subset.refl _
  distinct := List.nodup_nil
  latest := by
    intro m listed
    cases listed

variable (s : MirrorRun γ ρ goalBuf resultBuf maxGoals)

variable (e : MirrorEvent γ ρ σ goalBuf)

section

variable (next : MirrorRun γ ρ goalBuf resultBuf maxGoals)

theorem step_kept (kept : s.Kept codec)
    (stepped : s.step deserialize codec defaultResult e = some next) : next.Kept codec := by
  cases e with
  | tryAcceptGoal take stamp goalHandler =>
    cases stepped
    rcases s.server.tryAcceptGoal_cases deserialize goalHandler take stamp kept.holds kept.cancel
      kept.lengths.1 with
      ⟨_, holds, cancel, retained, ⟨active, typed⟩ | ⟨goalId, goal, brought, active, typed⟩⟩
    · rw [s.after_same active]
      refine kept.quiet ⟨?_, ?_, holds, cancel⟩ typed
      · rw [ActionServerCore.places, active, ActionServerCore.places]
      · rw [retained]
        exact List.Subset.refl _
    · rw [brought]
      exact kept.accept holds cancel active typed
  | setGoalStatus goalId status =>
    cases stepped
    exact kept.quiet (ActionServerCore.setGoalStatus_quiet kept.holds kept.cancel _ _) rfl
  | completeGoal c =>
    cases stepped
    exact kept.complete c
  | tryHandleCancel take cancelHandler s' =>
    cases stepped
    exact kept.quiet (CancelServer.tryHandleCancel_quiet
      ⟨s.server.core, s.server.cancelGoalServer⟩ cancelHandler take s' kept.holds) rfl
  | tryHandleGetResult take =>
    cases stepped
    exact kept.quiet (ActionServerCore.tryHandleGetResultRaw_quiet kept.holds kept.cancel _ _) rfl
  | expireGoals =>
    cases stepped
    exact kept.quiet (ActionServerCore.expireCompletedResults_quiet kept.holds kept.cancel) rfl

theorem step_covers (kept : s.Kept codec) (covers : s.Covers) (fresh : s.Fresh e)
    (stepped : s.step deserialize codec defaultResult e = some next) :
    next.Covers := by
  cases e with
  | tryAcceptGoal take stamp goalHandler =>
    cases stepped
    rcases s.server.tryAcceptGoal_cases deserialize goalHandler take stamp kept.holds kept.cancel
      kept.lengths.1 with ⟨completed, _, _, retained, _⟩
    have quiet := covers.quiet (by rw [retained]; exact List.Subset.refl _) completed
    rcases s.after_server (s.server.broughtGoal deserialize take) stamp
      (s.server.tryAcceptGoal deserialize goalHandler take stamp).2 with ⟨server, completions⟩
    constructor
    · rw [server]
      exact quiet.retained
    · rw [server]
      exact quiet.distinct
    · rw [server, completions]
      exact quiet.latest
  | setGoalStatus goalId status =>
    cases stepped
    have quiet := ActionServerCore.setGoalStatus_quiet kept.holds kept.cancel goalId status
    exact covers.quiet quiet.retained rfl
  | completeGoal c =>
    cases stepped
    exact (covers.complete kept fresh rfl rfl).1
  | tryHandleCancel take cancelHandler s' =>
    cases stepped
    have quiet := CancelServer.tryHandleCancel_quiet ⟨s.server.core, s.server.cancelGoalServer⟩
      cancelHandler take s' kept.holds
    exact covers.quiet quiet.retained rfl
  | tryHandleGetResult take =>
    cases stepped
    have quiet := ActionServerCore.tryHandleGetResultRaw_quiet kept.holds kept.cancel take
      (codec.payload defaultResult)
    exact covers.quiet quiet.retained rfl
  | expireGoals =>
    cases stepped
    have quiet := ActionServerCore.expireCompletedResults_quiet kept.holds kept.cancel
    exact covers.quiet quiet.retained rfl

end

/-- In every run the typed goals go along with those of the core. The typed results do after each
completion, if no goal is completed that still has one; one that is completed with another status
or result while it has an entry leaves the tables apart. -/
theorem typed_mirror_aligned (sendGoalServer getResultServer cancelGoalServer : ServiceServer)
    (events : List (MirrorEvent γ ρ σ goalBuf)) (last : MirrorRun γ ρ goalBuf resultBuf maxGoals)
    (reached : run (step deserialize codec defaultResult)
      (init sendGoalServer getResultServer cancelGoalServer) events = some last) :
    last.Aligned ∧ (Along (step deserialize codec defaultResult) Fresh
        (init sendGoalServer getResultServer cancelGoalServer :
          MirrorRun γ ρ goalBuf resultBuf maxGoals) events →
      (∀ before c, events = before ++ [.completeGoal c] → last.Mirrored) ∧
      ∀ (c : CompletedGoal ρ) (next : MirrorRun γ ρ goalBuf resultBuf maxGoals),
        step deserialize codec defaultResult last
          (.completeGoal c : MirrorEvent γ ρ σ goalBuf) = some next →
        ¬ last.Fresh (.completeGoal c : MirrorEvent γ ρ σ goalBuf) → next.Mirrored →
        c ∈ last.server.completedGoals.items) := by
  have always : ∀ (events : List (MirrorEvent γ ρ σ goalBuf))
      (last : MirrorRun γ ρ goalBuf resultBuf maxGoals), run (step deserialize codec defaultResult)
        (init sendGoalServer getResultServer cancelGoalServer) events = some last →
      last.Kept codec := by
    intro events last
    exact run_invariant (step_kept deserialize codec defaultResult) _ last events
      (kept_init codec sendGoalServer getResultServer cancelGoalServer)
  have kept := always events last reached
  refine ⟨kept.aligned, ?_⟩
  intro fresh
  constructor
  · rintro before c rfl
    rw [run_concat] at reached
    rcases Option.bind_eq_some_iff.mp reached with ⟨mid, passed, stepped⟩
    have covers := (run_invariant_along (fun s e next both here stepped =>
      And.intro (step_kept deserialize codec defaultResult s e next both.1 stepped)
        (step_covers deserialize codec defaultResult s e next both.1 both.2 here stepped))
      _ mid before ⟨kept_init codec sendGoalServer getResultServer cancelGoalServer,
        covers_init sendGoalServer getResultServer cancelGoalServer⟩ (along_left fresh) passed).2
    have done : last.server = (mid.server.completeGoal codec c.goalId c.status c.result).2 ∧
        last.completions = mid.completions ++ [c] := by
      cases stepped
      exact ⟨rfl, rfl⟩
    rcases covers.complete (always before mid passed) (along_at fresh mid passed) done.1 done.2 with
      ⟨covered, retained⟩
    exact covered.mirrored kept retained
  · intro c next stepped again mirrored
    cases stepped
    have again : ∃ m ∈ last.server.completedGoals.items, m.goalId = c.goalId := by
      by_contra none_
      exact again fun m listed same => none_ ⟨m, listed, same⟩
    rcases again with ⟨m, listed, same⟩
    have latest := mirrored.latest m (completeGoal_stale kept c listed same)
    rw [latestCompletion_append, if_pos same.symm, Option.some.injEq] at latest
    rw [latest]
    exact listed

end Steps

/-- A request of goal `[id; 16]`, which is one byte, at the front of a buffer of 64. -/
def requestOf (id goal : UInt8) : Take 64 where
  buf := cdrLeHeader ++ List.replicate 16 id ++ [goal] ++ List.replicate 43 0
  sized := by
    simp only [cdrLeHeader, List.length_append, List.length_replicate, List.length_cons,
      List.length_nil]
  outcome := .ok (some ⟨0, 21, by decide, 1⟩)

def readByte (reader : CdrReader) : Option UInt8 := reader.readU8.toOption.map Prod.fst

def byteCodec : ResultCodec UInt8 16 where
  serialize := fun result => some [result]
  fits := by
    intro result bytes written
    cases written
    exact Nat.succ_le_succ (Nat.zero_le 15)

/-- Two goals, of which the first is completed: the second moves to its place in both tables. -/
def oneOfTwo : List (MirrorEvent UInt8 UInt8 Unit 64) :=
  [.tryAcceptGoal (requestOf 1 10) ⟨0, 0⟩ fun _ _ => .acceptAndExecute,
   .tryAcceptGoal (requestOf 2 20) ⟨1, 0⟩ fun _ _ => .acceptAndExecute,
   .completeGoal ⟨⟨Vector.replicate 16 1⟩, .succeeded, 7⟩]

theorem typed_mirror_aligned_one_of_two :
    ∃ last : MirrorRun UInt8 UInt8 64 16 2, run (step readByte byteCodec 0)
        (init ⟨fun _ => true, 0, []⟩ ⟨fun _ => true, 0, []⟩ ⟨fun _ => true, 0, []⟩) oneOfTwo =
          some last ∧
      last.server.typedGoals.items = [20] ∧
      last.server.completedGoals.items = [⟨⟨Vector.replicate 16 1⟩, .succeeded, 7⟩] ∧
      last.Aligned ∧ last.Mirrored := by
  refine ⟨_, rfl, by decide +kernel, by decide +kernel, ?_⟩
  rcases typed_mirror_aligned readByte byteCodec 0 ⟨fun _ => true, 0, []⟩ ⟨fun _ => true, 0, []⟩
    ⟨fun _ => true, 0, []⟩ oneOfTwo _ rfl with ⟨aligned, mirrored⟩
  refine ⟨aligned, (mirrored ?_).1 oneOfTwo.dropLast ⟨⟨Vector.replicate 16 1⟩, .succeeded, 7⟩ rfl⟩
  decide +kernel

/-- The same goal completed twice: two entries, the first of them with a status and a result that
no longer hold. -/
theorem typed_mirror_stale :
    ∃ last : MirrorRun UInt8 UInt8 64 16 2, run (step readByte byteCodec 0)
        (init ⟨fun _ => true, 0, []⟩ ⟨fun _ => true, 0, []⟩ ⟨fun _ => true, 0, []⟩)
        ([.tryAcceptGoal (requestOf 1 10) ⟨0, 0⟩ fun _ _ => .acceptAndExecute,
          .completeGoal ⟨⟨Vector.replicate 16 1⟩, .succeeded, 7⟩,
          .completeGoal ⟨⟨Vector.replicate 16 1⟩, .aborted, 8⟩] :
            List (MirrorEvent UInt8 UInt8 Unit 64)) = some last ∧
      last.server.completedGoals.items =
        [⟨⟨Vector.replicate 16 1⟩, .succeeded, 7⟩, ⟨⟨Vector.replicate 16 1⟩, .aborted, 8⟩] ∧
      last.server.core.completedResults.items.map (fun e => (e.goalId, e.status)) =
        [(⟨Vector.replicate 16 1⟩, .aborted)] ∧
      ¬ last.Mirrored := by
  refine ⟨_, rfl, by decide +kernel, by decide +kernel, ?_⟩
  intro mirrored
  have distinct := mirrored.distinct
  revert distinct
  decide +kernel

end MirrorRun

end NanoRos
