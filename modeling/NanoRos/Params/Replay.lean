import NanoRos.Lib.Runs
import NanoRos.Params.Outcomes

/-! A subscriber that replays a node's parameter events holds what the store holds, as long as
nothing moves under the start-up drain. -/

namespace NanoRos

open KeyedSlots

/-- The parameters of the node, as the walk over the slots shows them. -/
def ParameterEntry.shown (node : NodeKey) (entry : ParameterEntry) : Option Parameter :=
  if entry.node = node then some entry.param else none

theorem ParameterEntry.shown_eq_some {node : NodeKey} {entry : ParameterEntry} {p : Parameter} :
    entry.shown node = some p ↔ entry.node = node ∧ entry.param = p := by
  rw [shown]
  split <;> simp [*]

namespace ParameterServer

section

variable {s : ParameterServer} {node : NodeKey} {name : String}

theorem iter_eq (s : ParameterServer) (node : NodeKey) :
    s.iter node = listed (ParameterEntry.shown node) s.entries := by
  rw [iter, listed]
  induction s.entries with
  | nil => rfl
  | cons slot slots ih =>
    cases slot with
    | none => exact ih
    | some entry =>
      by_cases here : entry.node = node
      · simpa [here, ParameterEntry.shown] using ih
      · simpa [here, ParameterEntry.shown] using ih

theorem get_iff (distinct : Distinct ParameterEntry.key s.entries) {v : ParameterValue} :
    s.get node name = some v ↔ ∃ p ∈ s.iter node, p.name = name ∧ p.value = v := by
  rw [ParameterServer.get, entryOf, Option.map_eq_some_iff]
  simp only [lookup_eq_some distinct, iter_eq, mem_listed]
  constructor
  · rintro ⟨entry, ⟨i, held, same⟩, rfl⟩
    obtain ⟨here, named⟩ := Prod.mk.inj same
    exact ⟨entry.param, ⟨i, entry, held, ParameterEntry.shown_eq_some.mpr ⟨here, rfl⟩⟩, named, rfl⟩
  · rintro ⟨p, ⟨i, entry, held, shows⟩, named, rfl⟩
    obtain ⟨here, rfl⟩ := ParameterEntry.shown_eq_some.mp shows
    exact ⟨entry, ⟨i, held, Prod.ext here named⟩, rfl⟩

/-- The parameters the node's start-up drain has passed. -/
def passed (s : ParameterServer) (node : NodeKey) : List Parameter :=
  if s.eventsInitial.first = some node then (s.iter node).take s.initialCursor else []

theorem passed_subset (s : ParameterServer) (node : NodeKey) : s.passed node ⊆ s.iter node := by
  rw [passed]
  split
  · exact List.take_subset _ _
  · exact List.nil_subset _

end

end ParameterServer

/-- How the replica stands to the store. -/
structure Replays (node : NodeKey) (s : ParameterServer)
    (replica : String → Option ParameterValue) (lost : Bool) : Prop where
  distinct : Distinct ParameterEntry.key s.entries
  keys : (s.eventLog.map PendingParameterEvent.key).Nodup
  cursor : s.eventsInitial.first = none → s.initialCursor = 0
  idle : s.eventsEnabled.get node = false →
    s.eventsInitial.get node = false ∧ replica = fun _ => none
  quiet : s.eventsEnabled.get node = false ∨ s.eventsInitial.get node = true →
    ∀ e ∈ s.eventLog, e.node ≠ node
  starting : s.eventsInitial.get node = true → ∀ name v,
    replica name = some v ↔ ∃ p ∈ s.passed node, p.name = name ∧ p.value = v
  following : s.eventsEnabled.get node = true → s.eventsInitial.get node = false →
    lost = false → s.eventsDropped = 0 →
    (∀ name, (∀ e ∈ s.eventLog, e.key ≠ (node, name)) → replica name = s.get node name) ∧
    ∀ e ∈ s.eventLog, e.node = node → e.kind ≠ .announce ∧
      (e.kind = .deleted ↔ s.get node e.name = none)

namespace Replays

variable {caps : ParamCaps} {node : NodeKey} {s : ParameterServer}
  {replica : String → Option ParameterValue} {lost : Bool}

theorem enabled (holds : Replays node s replica lost) (pending : s.eventsInitial.get node = true) :
    s.eventsEnabled.get node = true := by
  cases on : s.eventsEnabled.get node with
  | true => rfl
  | false =>
    rw [(holds.idle on).1] at pending
    cases pending

/-! The start-up drain. -/

theorem advance (holds : Replays node s replica lost) {p : Parameter}
    (here : s.eventsInitial.first = some node) (next : (s.iter node)[s.initialCursor]? = some p) :
    Replays node { s with initialCursor := s.initialCursor + 1 }
      (Function.update replica p.name (s.get node p.name)) lost := by
  have pending := (NodeFlags.first_eq_some.mp here).1
  have on := holds.enabled pending
  have listed := List.mem_of_getElem? next
  have value : s.get node p.name = some p.value :=
    (ParameterServer.get_iff holds.distinct).mpr ⟨p, listed, rfl, rfl⟩
  have taken : ParameterServer.passed { s with initialCursor := s.initialCursor + 1 } node =
      s.passed node ++ [p] := by
    rw [ParameterServer.passed, ParameterServer.passed, if_pos here, if_pos here, List.take_add_one]
    exact congrArg _ (congrArg _ next)
  refine ⟨holds.distinct, holds.keys, ?_, ?_, holds.quiet, ?_, ?_⟩
  · intro none
    exact absurd (here.symm.trans none) (by simp)
  · intro off
    exact absurd (on.symm.trans off) (by simp)
  · intro _ name v
    rw [taken, value]
    by_cases named : name = p.name
    · subst named
      rw [Function.update_self]
      constructor
      · intro same
        exact ⟨p, by simp, rfl, Option.some.inj same⟩
      · rintro ⟨q, member, same, rfl⟩
        rw [← value]
        apply (ParameterServer.get_iff holds.distinct).mpr
        obtain old | new := List.mem_append.mp member
        · exact ⟨q, ParameterServer.passed_subset _ _ old, same, rfl⟩
        · rw [List.mem_singleton.mp new]
          exact ⟨p, listed, rfl, rfl⟩
    · rw [Function.update_of_ne named, holds.starting pending]
      constructor
      · rintro ⟨q, member, same⟩
        exact ⟨q, List.mem_append_left _ member, same⟩
      · rintro ⟨q, member, same, rfl⟩
        obtain old | new := List.mem_append.mp member
        · exact ⟨q, old, same, rfl⟩
        · rw [List.mem_singleton.mp new] at same
          exact absurd same.symm named
  · intro _ ended
    exact absurd (pending.symm.trans ended) (by simp)

variable {first m : NodeKey} {name : String}

theorem passed_of_other (here : s.eventsInitial.first = some first) (other : first ≠ node) :
    s.passed node = [] := by
  rw [ParameterServer.passed, if_neg]
  rw [here]
  exact fun same => other (Option.some.inj same)

section

variable (holds : Replays node s replica lost)
include holds

theorem advanceOther (here : s.eventsInitial.first = some first) (other : first ≠ node) :
    Replays node { s with initialCursor := s.initialCursor + 1 } replica lost := by
  have still : ParameterServer.passed { s with initialCursor := s.initialCursor + 1 } node =
      s.passed node := by
    rw [passed_of_other here other]
    exact @passed_of_other node { s with initialCursor := s.initialCursor + 1 } first here other
  refine ⟨holds.distinct, holds.keys, ?_, holds.idle, holds.quiet, ?_, holds.following⟩
  · intro none
    exact absurd (here.symm.trans none) (by simp)
  · rw [still]
    exact holds.starting

theorem finish (here : s.eventsInitial.first = some first)
    (all : (s.iter first)[s.initialCursor]? = none) :
    Replays node (s.endInitial first) replica lost := by
  have pending := (NodeFlags.first_eq_some.mp here).1
  have flag : (s.endInitial first).eventsInitial.get node =
      if node = first then false else s.eventsInitial.get node := NodeFlags.get_set false
  by_cases own : node = first
  · subst own
    have on := holds.enabled pending
    have whole : s.passed node = s.iter node := by
      rw [ParameterServer.passed, if_pos here]
      exact List.take_of_length_le (List.getElem?_eq_none_iff.mp all)
    rw [if_pos rfl] at flag
    refine ⟨holds.distinct, holds.keys, fun _ => rfl, ?_, ?_, ?_, ?_⟩
    · intro off
      exact absurd (on.symm.trans off) (by simp)
    · intro _
      exact holds.quiet (Or.inr pending)
    · intro still
      rw [flag] at still
      cases still
    · intro _ _ _ _
      refine ⟨?_, ?_⟩
      · intro name _
        apply Option.ext
        intro v
        rw [holds.starting pending, whole]
        exact (ParameterServer.get_iff holds.distinct).symm
      · intro e member same
        exact absurd same (holds.quiet (Or.inr pending) e member)
  · rw [if_neg own] at flag
    have none : s.passed node = [] := passed_of_other here (Ne.symm own)
    have still : (s.endInitial first).passed node = [] := by
      rw [ParameterServer.passed]
      split
      · rfl
      · rfl
    refine ⟨holds.distinct, holds.keys, fun _ => rfl, ?_, ?_, ?_, ?_⟩
    · rw [flag]
      exact holds.idle
    · rw [flag]
      exact holds.quiet
    · rw [flag, still, ← none]
      exact holds.starting
    · rw [flag]
      exact holds.following

theorem popInitialLoop (turns : Nat) :
    Replays node (s.popInitialLoop turns).2
      (((s.popInitialLoop turns).1.map (replay node (s.popInitialLoop turns).2 replica)).getD
        replica) lost := by
  induction turns generalizing s with
  | zero => exact holds
  | succ turns ih =>
    rw [ParameterServer.popInitialLoop]
    cases here : s.eventsInitial.first with
    | none => exact holds
    | some first =>
      dsimp only
      cases next : (s.iter first)[s.initialCursor]? with
      | some p =>
        dsimp only
        rw [Option.map_some, Option.getD_some, replay]
        by_cases own : first = node
        · rw [if_pos own]
          subst own
          exact holds.advance here next
        · rw [if_neg own]
          exact holds.advanceOther here own
      | none =>
        dsimp only
        have ended := holds.finish here next
        split
        · rw [Option.map_some, Option.getD_some, replay]
          split <;> exact ended
        · exact ih ended

/-! The log. -/

theorem popLogged {event : PendingParameterEvent} {log : List PendingParameterEvent}
    (front : s.eventLog = event :: log) :
    Replays node { s with eventLog := log } (replay node s replica event) lost := by
  have keys := holds.keys
  rw [front, List.map_cons, List.nodup_cons] at keys
  have later (e : PendingParameterEvent) (member : e ∈ log) : e ∈ s.eventLog := by
    rw [front]
    exact List.mem_cons_of_mem _ member
  have least : event ∈ s.eventLog := by
    rw [front]
    exact List.mem_cons_self
  rw [replay]
  by_cases own : event.node = node
  · have on : s.eventsEnabled.get node = true := by
      cases on : s.eventsEnabled.get node with
      | true => rfl
      | false => exact absurd own (holds.quiet (Or.inl on) event least)
    have started : s.eventsInitial.get node = false := by
      cases pending : s.eventsInitial.get node with
      | false => rfl
      | true => exact absurd own (holds.quiet (Or.inr pending) event least)
    refine ⟨holds.distinct, keys.2, holds.cursor, ?_, ?_, ?_, ?_⟩
    · intro off
      exact absurd (on.symm.trans off) (by simp)
    · rintro silent e member
      exact holds.quiet silent e (later e member)
    · intro pending
      exact absurd (started.symm.trans pending) (by simp)
    · intro _ _ kept counted
      obtain ⟨others, kinds⟩ := holds.following on started kept counted
      refine ⟨?_, fun e member => kinds e (later e member)⟩
      intro name unlogged
      obtain ⟨real, gone⟩ := kinds event least own
      rw [if_pos own]
      by_cases named : name = event.name
      · subst named
        have missing := gone
        cases kind : event.kind with
        | new | changed => exact Function.update_self ..
        | deleted =>
          rw [kind] at gone
          exact (Function.update_self ..).trans (gone.mp rfl).symm
        | announce => exact absurd kind real
      · have old : replica name = s.get node name := by
          apply others name
          intro e member
          rw [front] at member
          obtain rfl | behind := List.mem_cons.mp member
          · intro same
            exact named (congrArg Prod.snd same).symm
          · exact unlogged e behind
        cases kind : event.kind with
        | new | changed | deleted => exact (Function.update_of_ne named ..).trans old
        | announce => exact old
  · rw [if_neg own]
    refine ⟨holds.distinct, keys.2, holds.cursor, holds.idle, ?_, holds.starting, ?_⟩
    · intro silent e member
      exact holds.quiet silent e (later e member)
    · intro on started kept counted
      obtain ⟨others, kinds⟩ := holds.following on started kept counted
      refine ⟨?_, fun e member => kinds e (later e member)⟩
      intro name unlogged
      apply others name
      intro e member
      rw [front] at member
      obtain rfl | behind := List.mem_cons.mp member
      · intro same
        exact own (congrArg Prod.fst same)
      · exact unlogged e behind

theorem takeDropped :
    Replays node { s with eventsDropped := 0 } replica
      (lost || decide (s.eventsDropped ≠ 0)) := by
  refine ⟨holds.distinct, holds.keys, holds.cursor, holds.idle, holds.quiet, holds.starting, ?_⟩
  intro on started kept _
  rw [Bool.or_eq_false_iff, decide_eq_false_iff_not, not_not] at kept
  exact holds.following on started kept.1 kept.2

/-! Switching events on and off. -/

/-- The shared cursor stays with the node whose drain it counts. -/
def KeepsCursor (s : ParameterServer) (m : NodeKey) (on : Bool) : Prop :=
  s.initialCursor = 0 ∨
    if on then s.eventsEnabled.get m = true ∨
      (s.eventsInitial.first.any fun first => decide (first < m)) = true
    else s.eventsInitial.first ≠ some m

/-- Other flags and another cursor make no difference where the node and what it has passed
stay. -/
theorem reflag {enabled initial : NodeFlags} {cursor : Nat}
    (sameEnabled : enabled.get node = s.eventsEnabled.get node)
    (sameInitial : initial.get node = s.eventsInitial.get node)
    (reset : initial.first = none → cursor = 0) (samePassed : s.eventsInitial.get node = true →
      ParameterServer.passed { s with
        eventsEnabled := enabled, eventsInitial := initial, initialCursor := cursor } node =
      s.passed node) :
    Replays node { s with
      eventsEnabled := enabled, eventsInitial := initial, initialCursor := cursor } replica lost where
  distinct := holds.distinct
  keys := holds.keys
  cursor := reset
  idle := by
    dsimp only
    rw [sameEnabled, sameInitial]
    exact holds.idle
  quiet := by
    dsimp only
    rw [sameEnabled, sameInitial]
    exact holds.quiet
  starting := by
    dsimp only
    rw [sameInitial]
    intro pending
    rw [samePassed pending]
    exact holds.starting pending
  following := by
    dsimp only
    rw [sameEnabled, sameInitial]
    exact holds.following

end

theorem passed_reflag {enabled initial : NodeFlags} {cursor : Nat}
    (same : cursor = s.initialCursor) (kept : s.initialCursor = 0 ∨
      initial.first = s.eventsInitial.first) :
    ParameterServer.passed { s with
        eventsEnabled := enabled, eventsInitial := initial, initialCursor := cursor } node =
      s.passed node := by
  subst same
  obtain zero | first := kept
  · rw [ParameterServer.passed, ParameterServer.passed]
    dsimp only
    rw [zero, List.take_zero, List.take_zero, ite_self, ite_self]
  · rw [ParameterServer.passed, ParameterServer.passed]
    dsimp only
    rw [first]
    rfl

theorem first_switchedOn {flags : NodeFlags} (least : flags.first = some first)
    (below : first < m) :
      (flags.set m true).first = some first := by
  obtain ⟨here, before⟩ := NodeFlags.first_eq_some.mp least
  apply NodeFlags.first_eq_some.mpr
  refine ⟨?_, fun lower under => ?_⟩
  · rw [NodeFlags.get_set, here, ite_self]
  · have apart : lower ≠ m := by
      rintro rfl
      exact absurd (UInt8.lt_trans under below) (UInt8.lt_irrefl _)
    rw [NodeFlags.get_set, if_neg apart]
    exact before lower under

theorem first_switchedOff {flags : NodeFlags} (other : flags.first ≠ some m) :
    (flags.set m false).first = flags.first := by
  cases least : flags.first with
  | none =>
    have absent := NodeFlags.first_eq_none.mp least
    apply NodeFlags.first_eq_none.mpr
    intro node
    rw [NodeFlags.get_set, absent node, ite_self]
  | some first =>
    obtain ⟨here, before⟩ := NodeFlags.first_eq_some.mp least
    have apart : first ≠ m := fun same => other (least.trans (congrArg some same))
    apply NodeFlags.first_eq_some.mpr
    refine ⟨?_, fun lower under => ?_⟩
    · rw [NodeFlags.get_set, if_neg apart, here]
    · rw [NodeFlags.get_set, before lower under, ite_self]

section

variable (holds : Replays node s replica lost)
include holds

theorem switchOn (m : NodeKey)
    (keeps : m = node ∨ s.eventsInitial.get node = true → KeepsCursor s m true) :
    Replays node (s.setParameterEvents m true) replica lost := by
  have flagged (flags : NodeFlags) : (flags.set m true).get node =
      if node = m then true else flags.get node := NodeFlags.get_set true
  cases already : s.eventsEnabled.get m with
  | true =>
    have plain : s.setParameterEvents m true = { s with
        eventsEnabled := s.eventsEnabled.set m true, eventsInitial := s.eventsInitial,
        initialCursor := s.initialCursor } := by
      simp [ParameterServer.setParameterEvents, already]
    rw [plain]
    apply holds.reflag
    · rw [flagged]
      split
      next same => rw [same, already]
      next => rfl
    · rfl
    · exact holds.cursor
    · exact fun _ => passed_reflag rfl (Or.inr rfl)
  | false =>
    have started : s.setParameterEvents m true = { s with
        eventsEnabled := s.eventsEnabled.set m true, eventsInitial := s.eventsInitial.set m true,
        initialCursor := s.initialCursor } := by
      simp [ParameterServer.setParameterEvents, already]
    have some' : (s.eventsInitial.set m true).first ≠ none := by
      intro none
      have absent := NodeFlags.first_eq_none.mp none m
      rw [NodeFlags.get_set, if_pos rfl] at absent
      cases absent
    have kept (asked : m = node ∨ s.eventsInitial.get node = true) : s.initialCursor = 0 ∨
        (s.eventsInitial.set m true).first = s.eventsInitial.first := by
      obtain zero | keep := keeps asked
      · exact Or.inl zero
      · rw [if_pos rfl, already] at keep
        obtain ⟨first, least, below⟩ := (Option.any_eq_true _ _).mp (keep.resolve_left (by simp))
        have lower : first < m := of_decide_eq_true below
        exact Or.inr ((first_switchedOn least lower).trans least.symm)
    rw [started]
    by_cases own : node = m
    · subst own
      obtain ⟨waiting, empty⟩ := holds.idle already
      have none : s.passed node = [] := by
        rw [ParameterServer.passed]
        split
        next least =>
          have pending := (NodeFlags.first_eq_some.mp least).1
          rw [waiting] at pending
          cases pending
        next => rfl
      have nothing := @passed_reflag node s (s.eventsEnabled.set node true) _ _ rfl (kept (Or.inl rfl))
      rw [none] at nothing
      refine ⟨holds.distinct, holds.keys, fun absent => absurd absent some', ?_, ?_, ?_, ?_⟩
      · dsimp only
        rw [flagged, if_pos rfl]
        intro off
        cases off
      · intro _
        exact holds.quiet (Or.inl already)
      · intro _ name v
        rw [nothing, empty]
        simp
      · dsimp only
        rw [flagged s.eventsInitial, if_pos rfl]
        intro _ ended
        cases ended
    · apply holds.reflag
      · rw [flagged, if_neg own]
      · rw [flagged, if_neg own]
      · exact fun absent => absurd absent some'
      · exact fun pending => passed_reflag rfl (kept (Or.inr pending))

theorem switchOff (other : m ≠ node)
    (keeps : s.eventsInitial.get node = true → KeepsCursor s m false) :
    Replays node (s.setParameterEvents m false) replica lost := by
  have flagged (flags : NodeFlags) : (flags.set m false).get node = flags.get node := by
    rw [NodeFlags.get_set, if_neg (Ne.symm other)]
  have switched : s.setParameterEvents m false = { s with
      eventsEnabled := s.eventsEnabled.set m false
      eventsInitial := s.eventsInitial.set m false
      initialCursor :=
        if (s.eventsInitial.set m false).first.isNone then 0 else s.initialCursor } := by
    simp [ParameterServer.setParameterEvents]
  rw [switched]
  apply holds.reflag
  · exact flagged _
  · exact flagged _
  · intro none
    rw [none]
    rfl
  · intro pending
    have some' : (s.eventsInitial.set m false).first.isNone = false := by
      rw [Option.isNone_eq_false_iff, Option.isSome_iff_ne_none]
      intro none
      have absent := NodeFlags.first_eq_none.mp none node
      rw [flagged, pending] at absent
      cases absent
    apply passed_reflag
    · rw [some', if_neg Bool.false_ne_true]
    · obtain zero | keep := keeps pending
      · exact Or.inl zero
      · rw [if_neg Bool.false_ne_true] at keep
        exact Or.inr (first_switchedOff keep)

/-! Writes. -/

theorem target_of_lands {slot : Nat} (lands : s.slotOf m name = some slot) :
    Target ParameterEntry.key s.entries (m, name) slot := by
  rw [ParameterServer.slotOf] at lands
  cases found : s.findIndex m name with
  | some idx =>
    rw [found, Option.some_or] at lands
    cases lands
    exact target_of_find holds.distinct found
  | none =>
    rw [found, Option.none_or] at lands
    exact target_of_free found lands

end

section

variable {m : NodeKey} {name : String} {slot count : Nat} {pending : Bool}
  {new : Option ParameterEntry}

theorem get_put (holds : Replays node s replica lost)
    (target : Target ParameterEntry.key s.entries (m, name) slot)
    (keyed : ∀ entry, new = some entry → entry.key = (m, name)) (n : NodeKey) (x : String) :
    ParameterServer.get { s with
        entries := s.entries.set slot new, count := count, truncationPending := pending } n x =
      if (n, x) = (m, name) then new.map fun entry => entry.param.value else s.get n x := by
  have looked := target.lookup_set holds.distinct keyed (n, x)
  rw [ParameterServer.get, ParameterServer.entryOf]
  dsimp only
  rw [looked]
  split <;> rfl

theorem passed_put (target : Target ParameterEntry.key s.entries (m, name) slot)
    (keyed : ∀ entry, new = some entry → entry.key = (m, name))
    (behind : m = node → s.eventsInitial.first = some node →
      s.initialCursor ≤ rank (ParameterEntry.shown node) s.entries slot) :
    ParameterServer.passed { s with
        entries := s.entries.set slot new, count := count, truncationPending := pending } node =
      s.passed node := by
  rw [ParameterServer.passed, ParameterServer.passed]
  dsimp only
  split
  next least =>
    rw [ParameterServer.iter_eq, ParameterServer.iter_eq]
    by_cases own : m = node
    · exact take_listed_set (behind own least) new
    · have hidden (entry : ParameterEntry) (key : entry.key = (m, name)) :
          entry.shown node = none := by
        rw [ParameterEntry.shown, if_neg]
        intro here
        exact own ((congrArg Prod.fst key).symm.trans here)
      dsimp only
      rw [listed_set_hidden target.inside (fun entry held => hidden entry (target.own entry held))
        fun entry is => hidden entry (keyed entry is)]
  next => rfl

end

theorem noted (holds : Replays node s replica lost) {new : Option ParameterEntry}
    {kind : ParameterEventKind} {mid : ParameterServer}
    (still : mid.eventsEnabled = s.eventsEnabled ∧ mid.eventsInitial = s.eventsInitial ∧
      mid.eventLog = s.eventLog ∧ mid.initialCursor = s.initialCursor ∧
      mid.eventsDropped = s.eventsDropped ∧ Distinct ParameterEntry.key mid.entries)
    (get : ∀ n x, mid.get n x =
      if (n, x) = (m, name) then new.map fun entry => entry.param.value else s.get n x)
    (waiting : s.eventsInitial.get node = true → ∀ x v,
      replica x = some v ↔ ∃ p ∈ mid.passed node, p.name = x ∧ p.value = v)
    (deletes : kind = .deleted ↔ new = none) (changes : kind ≠ .announce) :
    Replays node (mid.noteEvent caps m kind name) replica lost := by
  obtain ⟨enabled, initial, sameLog, sameCursor, dropped, distinct⟩ := still
  have others (x : String) (apart : (node, x) ≠ (m, name)) : mid.get node x = s.get node x := by
    rw [get, if_neg apart]
  have reset : mid.eventsInitial.first = none → mid.initialCursor = 0 := by
    rw [initial, sameCursor]
    exact holds.cursor
  have idle : mid.eventsEnabled.get node = false →
      mid.eventsInitial.get node = false ∧ replica = fun _ => none := by
    rw [enabled, initial]
    exact holds.idle
  have starting : mid.eventsInitial.get node = true → ∀ x v,
      replica x = some v ↔ ∃ p ∈ mid.passed node, p.name = x ∧ p.value = v := by
    rw [initial]
    exact waiting
  have quiet : mid.eventsEnabled.get node = false ∨ mid.eventsInitial.get node = true →
      ∀ e ∈ mid.eventLog, e.node ≠ node := by
    rw [enabled, initial, sameLog]
    exact holds.quiet
  have keys : (mid.eventLog.map PendingParameterEvent.key).Nodup := by
    rw [sameLog]
    exact holds.keys
  obtain ⟨same, silent⟩ | ⟨counted, unlogged⟩ | ⟨log, kind', logged, on, started, note, real, gone⟩ :=
    ParameterServer.noteEvent_cases caps mid m kind name changes
  · rw [same]
    refine ⟨distinct, keys, reset, idle, quiet, starting, ?_⟩
    intro on started kept zero
    have apart (x : String) : (node, x) ≠ (m, name) := by
      intro own
      rw [← (Prod.mk.inj own).1] at silent
      obtain off | waits := silent
      · exact absurd (on.symm.trans off) (by simp)
      · exact absurd (started.symm.trans waits) (by simp)
    rw [enabled] at on
    rw [initial] at started
    rw [dropped] at zero
    obtain ⟨agree, kinds⟩ := holds.following on started kept zero
    rw [sameLog]
    refine ⟨fun x none => (agree x none).trans (others x (apart x)).symm, ?_⟩
    intro e member own
    rw [others e.name (apart e.name)]
    exact kinds e member own
  · obtain ⟨log, drops, framed⟩ := ParameterServer.noteEvent_frame caps mid m kind name
    rw [framed] at counted unlogged ⊢
    have sameAgain : log = mid.eventLog := unlogged
    subst sameAgain
    exact ⟨distinct, keys, reset, idle, quiet, starting,
      fun _ _ _ zero => absurd zero counted⟩
  · rw [logged]
    refine ⟨distinct, note.keys keys, reset, idle, ?_, starting, ?_⟩
    · intro silent e member
      obtain ⟨old, _⟩ | rfl := (note.mem keys e).mp member
      · exact quiet silent e old
      · rintro rfl
        obtain off | waits := silent
        · exact absurd (on.symm.trans off) (by simp)
        · exact absurd (started.symm.trans waits) (by simp)
    · intro on' started' kept zero
      have agrees := holds.following
      rw [← enabled, ← initial, ← dropped] at agrees
      obtain ⟨agree, kinds⟩ := agrees on' started' kept zero
      refine ⟨?_, ?_⟩
      · intro x none
        have apart : (node, x) ≠ (m, name) := by
          intro own
          exact none ⟨m, kind', name⟩ ((note.mem keys _).mpr (Or.inr rfl)) own.symm
        have before : replica x = s.get node x := by
          apply agree x
          intro e member same
          rw [← sameLog] at member
          have differs : e.key ≠ (m, name) := by
            rw [same]
            exact apart
          exact none e ((note.mem keys e).mpr (Or.inl ⟨member, differs⟩)) same
        exact before.trans (others x apart).symm
      · intro e member own
        obtain ⟨old, differs⟩ | rfl := (note.mem keys e).mp member
        · have apart : (node, e.name) ≠ (m, name) := by
            rw [← own]
            exact differs
          change _ ∧ (_ ↔ mid.get node e.name = none)
          rw [others e.name apart]
          rw [sameLog] at old
          exact kinds e old own
        · have here : m = node := own
          refine ⟨real, gone.trans (deletes.trans ?_)⟩
          change _ ↔ mid.get node name = none
          rw [get, if_pos (by rw [here]), Option.map_eq_none_iff]

theorem write (holds : Replays node s replica lost) {result : Bool × ParameterServer}
    (outcome : ParameterServer.Outcome caps s m name result)
    (keeps : m = node → s.eventsInitial.first = some node → result.1 = true →
      ∀ slot, s.slotOf m name = some slot →
        s.initialCursor ≤ rank (ParameterEntry.shown node) s.entries slot) :
    Replays node result.2 replica lost := by
  cases outcome with
  | refused => exact holds
  | put slot new count pending kind lands keyed deletes changes =>
    have target := holds.target_of_lands lands
    have distinct := target.distinct_set holds.distinct keyed
    have get := @get_put node s replica lost m name slot count pending new holds target keyed
    have passed := @passed_put node s m name slot count pending new target keyed
      fun own least => keeps own least rfl slot lands
    have waiting (off : s.eventsInitial.get node = true) (x : String) (v : ParameterValue) :
        replica x = some v ↔ ∃ p ∈ ParameterServer.passed { s with
          entries := s.entries.set slot new, count := count, truncationPending := pending } node,
            p.name = x ∧ p.value = v := by
      rw [passed]
      exact holds.starting off x v
    generalize written : ({ s with
      entries := s.entries.set slot new, count := count,
      truncationPending := pending } : ParameterServer) = mid at get waiting ⊢
    have still : mid.eventsEnabled = s.eventsEnabled ∧ mid.eventsInitial = s.eventsInitial ∧
        mid.eventLog = s.eventLog ∧ mid.initialCursor = s.initialCursor ∧
        mid.eventsDropped = s.eventsDropped ∧ Distinct ParameterEntry.key mid.entries := by
      rw [← written]
      exact ⟨rfl, rfl, rfl, rfl, rfl, distinct⟩
    exact noted holds still get waiting deletes changes

end Replays

/-! Runs. -/

/-- Nothing moves under the node's start-up drain: what goes through is written behind what the
drain has passed, and the shared cursor stays with its node. -/
def Undisturbed (caps : ParamCaps) (node : NodeKey) (sys : EventSystem) : ParamCall → Prop
  | .write m name w => m = node → sys.server.eventsInitial.first = some node →
      (w.perform caps sys.server m name).1 = true →
      ((sys.server.slotOf m name).all fun slot => decide (sys.server.initialCursor ≤
        rank (ParameterEntry.shown node) sys.server.entries slot)) = true
  | .events m on => m = node ∨ sys.server.eventsInitial.get node = true →
      Replays.KeepsCursor sys.server m on
  | .popInitial => True
  | .popLogged => True
  | .takeDropped => True

instance (s : ParameterServer) (m : NodeKey) (on : Bool) : Decidable (Replays.KeepsCursor s m on) := by
  unfold Replays.KeepsCursor
  infer_instance

instance (caps : ParamCaps) (node : NodeKey) (sys : EventSystem) :
    DecidablePred (Undisturbed caps node sys) := fun call => by
  cases call <;> (unfold Undisturbed; infer_instance)

def EventSystem.next (caps : ParamCaps) (node : NodeKey) (sys : EventSystem) (call : ParamCall) :
    Option EventSystem := some (sys.step caps node call)

/-- A store before any events are switched on, and a subscriber that has seen none. -/
structure EventSystem.Fresh (sys : EventSystem) : Prop where
  distinct : Distinct ParameterEntry.key sys.server.entries
  enabled : sys.server.eventsEnabled = 0
  initial : sys.server.eventsInitial = 0
  log : sys.server.eventLog = []
  cursor : sys.server.initialCursor = 0
  replica : sys.replica = fun _ => none

section

variable {caps : ParamCaps} {node : NodeKey}

theorem EventSystem.Fresh.replays {sys : EventSystem} (fresh : sys.Fresh) :
    Replays node sys.server sys.replica sys.lost where
  distinct := fresh.distinct
  keys := by
    rw [fresh.log]
    exact List.nodup_nil
  cursor _ := fresh.cursor
  idle _ := by
    rw [fresh.initial]
    exact ⟨Mask.has_zero _, fresh.replica⟩
  quiet _ e member := by
    rw [fresh.log] at member
    cases member
  starting pending := by
    rw [fresh.initial] at pending
    exact absurd (pending.symm.trans (Mask.has_zero node.toNat)) (by simp)
  following on := by
    rw [fresh.enabled] at on
    exact absurd (on.symm.trans (Mask.has_zero node.toNat)) (by simp)

theorem EventSystem.next_replays {sys next : EventSystem} {call : ParamCall}
    (holds : Replays node sys.server sys.replica sys.lost)
    (met : Undisturbed caps node sys call ∧ call ≠ .events node false)
    (stepped : sys.next caps node call = some next) :
    Replays node next.server next.replica next.lost := by
  cases stepped
  cases call with
  | write m name w =>
    apply holds.write (ParameterServer.perform_outcome w)
    intro own least through slot lands
    have behind := met.1 own least through
    rw [lands] at behind
    exact of_decide_eq_true behind
  | events m on =>
    cases on with
    | true => exact holds.switchOn m met.1
    | false =>
      have other : m ≠ node := by
        rintro rfl
        exact met.2 rfl
      exact holds.switchOff other fun pending => met.1 (Or.inr pending)
  | popInitial => exact holds.popInitialLoop 257
  | popLogged =>
    rw [step, popped, ParameterServer.popParameterEvent]
    cases front : sys.server.eventLog with
    | nil => exact holds
    | cons event log => exact holds.popLogged front
  | takeDropped => exact holds.takeDropped

theorem ParameterServer.first_of_popInitial {s : ParameterServer}
    (empty : s.popInitialParameterEvent.1 = none) :
    s.popInitialParameterEvent.2.eventsInitial.first = none := by
  rw [popInitialParameterEvent, popInitialLoop] at empty ⊢
  cases here : s.eventsInitial.first with
  | none => exact here
  | some first =>
    rw [here] at empty
    dsimp only at empty ⊢
    cases next : (s.iter first)[s.initialCursor]? with
    | some p =>
      rw [next] at empty
      cases empty
    | none =>
      rw [next] at empty
      dsimp only at empty ⊢
      by_cases start : s.initialCursor = 0
      · rw [if_pos start] at empty
        cases empty
      · rw [if_neg start] at empty ⊢
        rw [popInitialLoop] at empty ⊢
        cases again : (s.endInitial first).eventsInitial.first with
        | none => exact again
        | some second =>
          rw [again] at empty
          dsimp only at empty
          have reset : (s.endInitial first).initialCursor = 0 := rfl
          rw [reset] at empty
          split at empty
          · cases empty
          · rw [if_pos rfl] at empty
            cases empty

theorem ParameterServer.get_of_popInitial (s : ParameterServer) (turns : Nat) (node : NodeKey)
    (name : String) : (s.popInitialLoop turns).2.get node name = s.get node name ∧
      (s.popInitialLoop turns).2.eventLog = s.eventLog ∧
      (s.popInitialLoop turns).2.eventsDropped = s.eventsDropped ∧
      (s.popInitialLoop turns).2.eventsEnabled = s.eventsEnabled := by
  induction turns generalizing s with
  | zero => exact ⟨rfl, rfl, rfl, rfl⟩
  | succ turns ih =>
    rw [popInitialLoop]
    split
    · exact ⟨rfl, rfl, rfl, rfl⟩
    · split
      · exact ⟨rfl, rfl, rfl, rfl⟩
      · split
        · exact ⟨rfl, rfl, rfl, rfl⟩
        · exact ih (s.endInitial _)

theorem Replays.agrees {s : ParameterServer} {replica : String → Option ParameterValue}
    (holds : Replays node s replica false) (on : s.eventsEnabled.get node = true)
    (counted : s.eventsDropped = 0) (initialEmpty : s.popInitialParameterEvent.1 = none)
    (logEmpty : s.popParameterEvent.1 = none) (name : String) :
    replica name = s.get node name := by
  obtain ⟨sameGet, sameLog, sameDropped, sameEnabled⟩ :=
    ParameterServer.get_of_popInitial s 257 node name
  have popped := holds.popInitialLoop 257
  have none : (s.popInitialLoop 257).1 = none := initialEmpty
  have first := NodeFlags.first_eq_none.mp (ParameterServer.first_of_popInitial initialEmpty) node
  have empty : s.eventLog = [] := by
    rw [ParameterServer.popParameterEvent] at logEmpty
    cases log : s.eventLog with
    | nil => rfl
    | cons event log =>
      rw [log] at logEmpty
      cases logEmpty
  rw [none] at popped
  have agree := (popped.following (by rw [sameEnabled]; exact on) first rfl
    (by rw [sameDropped]; exact counted)).1 name
  rw [sameLog, empty, sameGet] at agree
  exact agree fun e member => nomatch member

/-- In runs in which nothing moves under the node's start-up drain, the replayed events give the
node's parameters and values whenever nothing is left to pop. -/
theorem replay_agrees {start last : EventSystem} {calls : List ParamCall} (fresh : start.Fresh)
    (once : ∀ call ∈ calls, call ≠ .events node false)
    (met : Along (EventSystem.next caps node) (Undisturbed caps node) start calls)
    (reached : run (EventSystem.next caps node) start calls = some last)
    (on : last.server.eventsEnabled.get node = true)
    (kept : last.lost = false ∧ last.server.eventsDropped = 0)
    (initialEmpty : last.server.popInitialParameterEvent.1 = none)
    (logEmpty : last.server.popParameterEvent.1 = none) (name : String) :
    last.replica name = last.server.get node name := by
  have both := along_and met (along_of_always (fun call member _ => once call member) start)
  have holds := run_invariant_along
    (fun sys call next holds met stepped => EventSystem.next_replays holds met stepped)
    start last calls fresh.replays both reached
  rw [kept.1] at holds
  exact holds.agrees on kept.2 initialEmpty logEmpty name

end

/-! A node with one parameter. -/

def oneParameter : EventSystem where
  server := .newIn [some ⟨0, ⟨"a", .integer 1⟩, none⟩, none]
  replica _ := none
  lost := false

theorem oneParameter_fresh : oneParameter.Fresh where
  distinct := by
    intro i j a b first second _
    match i, j with
    | 0, 0 => rfl
    | 0, 1 => cases second
    | 1, _ => cases first
    | i + 2, _ => cases first
    | 0, j + 2 => cases second
  enabled := rfl
  initial := rfl
  log := rfl
  cursor := rfl
  replica := rfl

def paramCaps : ParamCaps := ⟨64, 128, 16, 32⟩

/-- The set comes before the parameter is popped, and another after all is. -/
def setOutside : List ParamCall :=
  [.events 0 true, .write 0 "a" (.set (.integer 2)), .popInitial, .popInitial,
    .write 0 "a" (.set (.integer 3)), .popLogged]

theorem replay_agrees_outside : ∃ last,
    run (EventSystem.next paramCaps 0) oneParameter setOutside = some last ∧
      ∀ name, last.replica name = last.server.get 0 name := by
  refine ⟨_, rfl, ?_⟩
  apply @replay_agrees paramCaps 0 oneParameter _ setOutside oneParameter_fresh
  · decide +kernel
  · decide +kernel
  · rfl
  · decide +kernel
  · decide +kernel
  · decide +kernel
  · decide +kernel

/-- The set comes when the parameter has been popped and the drain is not yet through. -/
def setUnderDrain : List ParamCall :=
  [.events 0 true, .popInitial, .write 0 "a" (.set (.integer 2))]

theorem replay_claim_fails : ¬ ∀ (caps : ParamCaps) (node : NodeKey) (start last : EventSystem)
    (calls : List ParamCall), start.Fresh → (∀ call ∈ calls, call ≠ .events node false) →
    run (EventSystem.next caps node) start calls = some last →
    last.server.eventsEnabled.get node = true → last.lost = false ∧ last.server.eventsDropped = 0 →
    last.server.popInitialParameterEvent.1 = none → last.server.popParameterEvent.1 = none →
    ∀ name, last.replica name = last.server.get node name := by
  intro all
  have same := all paramCaps 0 oneParameter _ setUnderDrain oneParameter_fresh
    (by decide +kernel) rfl (by decide +kernel) (by decide +kernel) (by decide +kernel)
    (by decide +kernel) "a"
  revert same
  decide +kernel

end NanoRos
