import NanoRos.Node.PickSets
import NanoRos.Node.SpinSteps

/-! The order of the picks of a pass. -/

namespace NanoRos

/-- The executor at a scan or a merge: what the callbacks since the last one left of it, and the
buckets of its contexts and the ranks of its slots. -/
structure PassMoment where
  cfg : SpinConfig
  executor : SpinExecutor
  priority : Nat → Priority
  rank : Nat → UInt8

/-- A slot with the binding it has now. A context that is gone is a fifo one in the normal bucket;
one without a deadline has the longest. -/
def PassMoment.binding (now : PassMoment) (slot : Nat) : QueuedSlot :=
  match now.cfg.contexts (now.executor.bindings slot) with
  | some context =>
    { bucket := now.priority (now.executor.bindings slot)
      urgency :=
        if context.schedClass = .edf then
          .edf (if context.deadlineUs = 0 then UInt32.ofNat (2 ^ 32 - 1) else context.deadlineUs)
        else .fifo (now.rank slot)
      slot := slot }
  | none => ⟨.normal, .fifo (now.rank slot), slot⟩

/-- A pass between two picks. `queued` and `picked` are what it was given and what it gave back;
nothing it does depends on them. -/
structure PickLoop where
  band : SlotMask
  sets : ReadySets
  settled : SlotMask
  queued : List QueuedSlot
  picked : List Nat

namespace PickLoop

def enqueue (loop : PickLoop) (joined : List QueuedSlot) : PickLoop :=
  { loop with
    sets := joined.foldl ReadySets.insert loop.sets
    queued := loop.queued ++ joined }

/-- The scan queues the active slots that pass their gates, and settles all of them. -/
def fill (now : PassMoment) (band active : SlotMask) (nowUs : Nat) : PickLoop :=
  PickLoop.enqueue ⟨band, ReadySets.new, active, [], []⟩
    ((now.executor.gatedQueue now.cfg active nowUs).map now.binding)

def merge (loop : PickLoop) (now : PassMoment) : PickLoop :=
  let merged := now.executor.mergeMidPass now.cfg loop.band [] loop.settled
  { loop with settled := merged.2.2 }.enqueue (merged.2.1.map now.binding)

def take (loop : PickLoop) (job : ActiveJob) (sets : ReadySets) : PickLoop :=
  { loop with
    sets := sets
    queued := exceptSlot loop.queued job.descIdx.toNat
    picked := loop.picked ++ [job.descIdx.toNat] }

/-- One turn: a pick, and the merge after it. There is none after a slot whose context was
contained, or in a pass that keeps to its scan; the pass ends when nothing is queued. -/
def turn (loop : PickLoop) (after : Option PassMoment) : Option PickLoop :=
  match loop.sets.pick with
  | (none, _) => none
  | (some job, sets) =>
    some (match after with
      | none => loop.take job sets
      | some now => (loop.take job sets).merge now)

/-- The sets hold what is queued; what was queued or picked has been settled, and goes by a slot
of its own. -/
structure Sound (loop : PickLoop) : Prop where
  represents : Represents loop.sets loop.queued
  once : (loop.picked ++ loop.queued.map QueuedSlot.slot).Nodup
  settled : ∀ slot ∈ loop.picked ++ loop.queued.map QueuedSlot.slot, loop.settled.has slot = true

theorem binding_slot (now : PassMoment) (slot : Nat) : (now.binding slot).slot = slot := by
  rw [PassMoment.binding]
  split
  · rfl
  · rfl

theorem map_binding_slot (now : PassMoment) (slots : List Nat) :
    (slots.map now.binding).map QueuedSlot.slot = slots := by
  rw [List.map_map]
  conv_rhs => rw [← List.map_id slots]
  exact List.map_congr_left fun slot _ => binding_slot now slot

variable {loop next : PickLoop}

theorem sound_enqueue (sound : loop.Sound) (now : PassMoment) {slots : List Nat}
    {settled : SlotMask} (distinct : slots.Nodup)
    (fresh : ∀ slot ∈ slots, loop.settled.has slot = false)
    (grown : ∀ slot, loop.settled.has slot = true ∨ slot ∈ slots → settled.has slot = true) :
    (({ loop with settled := settled } : PickLoop).enqueue (slots.map now.binding)).Sound := by
  have apart : ∀ slot ∈ loop.picked ++ loop.queued.map QueuedSlot.slot, slot ∉ slots := by
    intro slot known joins
    have before := sound.settled slot known
    rw [fresh slot joins] at before
    cases before
  have all : (loop.picked ++ (loop.queued ++ slots.map now.binding).map QueuedSlot.slot).Nodup := by
    rw [List.map_append, map_binding_slot, ← List.append_assoc]
    exact sound.once.append distinct fun slot known joins => apart slot known joins
  refine ⟨?_, all, fun slot member => ?_⟩
  · apply sound.represents.foldl_insert
    · intro q member
      rcases List.mem_map.mp member with ⟨slot, joins, rfl⟩
      rw [binding_slot]
      exact Mask.has_lt (grown slot (.inr joins))
    · exact all.sublist (List.sublist_append_right _ _)
  · apply grown
    simp only [enqueue, List.map_append, map_binding_slot, ← List.append_assoc] at member
    rcases List.mem_append.mp member with known | joins
    · exact .inl (sound.settled slot known)
    · exact .inr joins

theorem joins_spec (now : PassMoment) (band settled : SlotMask) :
    (now.executor.mergeMidPass now.cfg band [] settled).2.1.Nodup ∧
      (∀ slot ∈ (now.executor.mergeMidPass now.cfg band [] settled).2.1,
        settled.has slot = false ∧ slot < 64 ∧ (now.executor.entries slot).isSome = true) ∧
      ∀ slot, settled.has slot = true ∨
          slot ∈ (now.executor.mergeMidPass now.cfg band [] settled).2.1 →
        (now.executor.mergeMidPass now.cfg band [] settled).2.2.has slot = true := by
  rw [SpinExecutor.mergeMidPass]
  simp only [SpinExecutor.deferReady, List.nil_append, List.mem_filter, List.mem_range]
  refine ⟨List.nodup_range.filter _, ?_, ?_⟩
  · rintro slot ⟨inside, joins⟩
    simp only [Bool.and_eq_true, Mask.has_diff, Mask.has_or, Mask.has_collect] at joins
    rcases joins with ⟨⟨⟨⟨⟨arrives, _⟩, live⟩, _⟩, _⟩, _⟩
    refine ⟨?_, inside, live⟩
    cases before : settled.has slot with
    | false => rfl
    | true => simp [before] at arrives
  · rintro slot (before | ⟨inside, joins⟩)
    · rw [Mask.has_or, before, Bool.true_or]
    · rw [Mask.has_or, Mask.has_collect, joins, decide_eq_true inside]
      exact Bool.or_true _

theorem sound_fill (now : PassMoment) (band active : SlotMask) (nowUs : Nat) :
    (fill now band active nowUs).Sound := by
  have empty : Sound ⟨band, ReadySets.new, 0#64, [], []⟩ :=
    ⟨represents_new, List.nodup_nil, fun slot member => absurd member List.not_mem_nil⟩
  apply sound_enqueue empty now
  · exact List.nodup_range.filter _
  · intro slot _
    exact Mask.has_zero slot
  · rintro slot (before | joins)
    · rw [Mask.has_zero] at before
      cases before
    · have passes := (List.mem_filter.mp joins).2
      rw [Bool.and_eq_true, Bool.and_eq_true] at passes
      exact passes.1.1

theorem sound_merge (sound : loop.Sound) (now : PassMoment) : (loop.merge now).Sound := by
  rcases joins_spec now loop.band loop.settled with ⟨distinct, fresh, grown⟩
  exact sound_enqueue sound now distinct (fun slot joins => (fresh slot joins).1) grown

theorem slots_exceptSlot {queued : List QueuedSlot} (once : (queued.map QueuedSlot.slot).Nodup)
    (slot : Nat) :
    (exceptSlot queued slot).map QueuedSlot.slot = (queued.map QueuedSlot.slot).erase slot := by
  rw [once.erase_eq_filter, List.filter_map, exceptSlot]
  congr 1
  apply List.filter_congr
  intro q _
  exact (bne_iff_ne.trans decide_eq_true_iff.symm |> Bool.eq_iff_iff.mpr).symm

theorem sound_take (sound : loop.Sound) {q : QueuedSlot} {job : ActiveJob} {sets : ReadySets}
    (waits : q ∈ loop.queued) (slot : job.descIdx.toNat = q.slot)
    (represents : Represents sets (exceptSlot loop.queued q.slot)) :
    (loop.take job sets).Sound := by
  have moved : (loop.picked ++ loop.queued.map QueuedSlot.slot).Perm
      ((loop.picked ++ [q.slot]) ++ (exceptSlot loop.queued q.slot).map QueuedSlot.slot) := by
    rw [slots_exceptSlot sound.represents.once, List.append_assoc]
    exact (List.perm_cons_erase (List.mem_map_of_mem waits)).append_left _
  rw [take, slot]
  refine ⟨represents, moved.nodup_iff.mp sound.once, fun known member => ?_⟩
  exact sound.settled known (moved.mem_iff.mpr member)

theorem turn_some {after : Option PassMoment} (sound : loop.Sound)
    (turned : loop.turn after = some next) :
    ∃ q taken, Foremost loop.queued q ∧ taken.Sound ∧ taken.band = loop.band ∧
      taken.settled = loop.settled ∧ taken.picked = loop.picked ++ [q.slot] ∧
      taken.queued = exceptSlot loop.queued q.slot ∧ next = (match after with
        | none => taken
        | some now => taken.merge now) := by
  have spec := sound.represents.pick_spec
  rw [turn] at turned
  rcases picked : loop.sets.pick with ⟨_ | job, sets⟩
  · rw [picked] at turned
    cases turned
  · rw [picked] at turned spec
    cases turned
    rcases spec.some_of job rfl with ⟨q, foremost, slot, represents⟩
    refine ⟨q, loop.take job sets, foremost, ?_, rfl, rfl, ?_, ?_, rfl⟩
    · exact sound_take sound foremost.waits slot represents
    · rw [take, slot]
    · rw [take, slot]

/-- The slots of a pass are among these entries. -/
def Inside (entries : Finset Nat) (loop : PickLoop) : Prop :=
  ∀ slot ∈ loop.picked ++ loop.queued.map QueuedSlot.slot, slot ∈ entries

def Finds (entries : Finset Nat) (after : Option PassMoment) : Prop :=
  ∀ now, after = some now → ∀ slot < 64, (now.executor.entries slot).isSome = true → slot ∈ entries

theorem sound_turn (loop : PickLoop) (after : Option PassMoment) (next : PickLoop)
    (sound : loop.Sound) (turned : loop.turn after = some next) : next.Sound := by
  rcases turn_some sound turned with ⟨_, taken, _, kept, _, _, _, _, rfl⟩
  cases after with
  | none => exact kept
  | some now => exact sound_merge kept now

theorem inside_turn {entries : Finset Nat} {after : Option PassMoment} (sound : loop.Sound)
    (inside : loop.Inside entries) (finds : Finds entries after)
    (turned : loop.turn after = some next) : next.Inside entries := by
  rcases turn_some sound turned with ⟨q, taken, foremost, _, _, _, picked, queued, rfl⟩
  have within : taken.Inside entries := by
    intro slot member
    apply inside
    rw [picked, queued, slots_exceptSlot sound.represents.once] at member
    rcases List.mem_append.mp member with before | after
    · rcases List.mem_append.mp before with before | last
      · exact List.mem_append_left _ before
      · rw [List.mem_singleton.mp last]
        exact List.mem_append_right _ (List.mem_map_of_mem foremost.waits)
    · exact List.mem_append_right _ (List.mem_of_mem_erase after)
  cases after with
  | none => exact within
  | some now =>
    intro slot member
    simp only [merge, enqueue, List.map_append, map_binding_slot, ← List.append_assoc] at member
    rcases List.mem_append.mp member with known | joins
    · exact within slot known
    · rcases (joins_spec now taken.band taken.settled).2.1 slot joins with ⟨_, low, live⟩
      exact finds now rfl slot low live

def slots (loop : PickLoop) : List Nat := loop.queued.map QueuedSlot.slot

theorem slots_fill (now : PassMoment) (band active : SlotMask) (nowUs : Nat) :
    (fill now band active nowUs).slots = now.executor.gatedQueue now.cfg active nowUs := by
  rw [slots, fill, enqueue, List.nil_append, map_binding_slot]

/-- A turn that goes by slots alone: any one that is queued may be picked. -/
def anyTurn (band : SlotMask) (state : List Nat × SlotMask) (pick : Nat × Option PassMoment) :
    Option (List Nat × SlotMask) :=
  if pick.1 ∈ state.1 then
    some (match pick.2 with
      | none => (state.1.erase pick.1, state.2)
      | some now =>
        (now.executor.mergeMidPass now.cfg band (state.1.erase pick.1) state.2).2)
  else none

section

variable (sound : loop.Sound)
include sound

theorem turn_refines {after : Option PassMoment} (turned : loop.turn after = some next) :
    ∃ slot, next.picked = loop.picked ++ [slot] ∧ next.band = loop.band ∧
      anyTurn loop.band (loop.slots, loop.settled) (slot, after) = some (next.slots, next.settled) := by
  rcases turn_some sound turned with ⟨q, taken, foremost, _, band, settled, picked, queued, rfl⟩
  have left : taken.slots = loop.slots.erase q.slot := by
    rw [slots, queued, slots_exceptSlot sound.represents.once, slots]
  have waits : q.slot ∈ loop.slots := List.mem_map_of_mem foremost.waits
  refine ⟨q.slot, ?_⟩
  rw [anyTurn, if_pos waits, ← left, ← band, ← settled]
  cases after with
  | none => exact ⟨picked, rfl, rfl⟩
  | some now =>
    refine ⟨picked, rfl, ?_⟩
    simp only [slots, merge, enqueue, List.map_append, map_binding_slot, SpinExecutor.mergeMidPass,
      List.nil_append]

theorem run_refines {afters : List (Option PassMoment)} {last : PickLoop}
    (reached : run turn loop afters = some last) : ∃ picks, last.picked = loop.picked ++ picks ∧
      run (anyTurn loop.band) (loop.slots, loop.settled) (picks.zip afters) =
        some (last.slots, last.settled) := by
  induction afters generalizing loop with
  | nil =>
    cases reached
    exact ⟨[], (List.append_nil _).symm, rfl⟩
  | cons after afters ih =>
    rcases Option.bind_eq_some_iff.mp reached with ⟨next, turned, rest⟩
    rcases turn_refines sound turned with ⟨slot, picked, band, stepped⟩
    rcases ih (sound_turn loop after next sound turned) rest with ⟨picks, more, onward⟩
    refine ⟨slot :: picks, by rw [more, picked, List.append_assoc, List.singleton_append], ?_⟩
    rw [List.zip_cons_cons, run, stepped]
    exact band ▸ onward

/-- The laws of the picks, for a pass in the middle: the next pick is the foremost slot that is
queued, there is one if any is, and no slot is picked again. -/
structure InOrder (loop : PickLoop) : Prop where
  ends : loop.sets.pick.1 = none ↔ loop.queued = []
  foremost : ∀ job, loop.sets.pick.1 = some job →
    ∃ q, Foremost loop.queued q ∧ job.descIdx.toNat = q.slot
  once : (loop.picked ++ loop.queued.map QueuedSlot.slot).Nodup

theorem Sound.inOrder : loop.InOrder where
  ends := sound.represents.pick_spec.none_iff
  foremost job found := by
    rcases sound.represents.pick_spec.some_of job found with ⟨q, foremost, slot, _⟩
    exact ⟨q, foremost, slot⟩
  once := sound.once

theorem Sound.length_le {entries : Finset Nat} (inside : loop.Inside entries) :
    loop.picked.length + loop.queued.length ≤ entries.card := by
  have counted := List.toFinset_card_of_nodup sound.once
  rw [List.length_append, List.length_map] at counted
  rw [← counted]
  apply Finset.card_le_card
  intro slot member
  exact inside slot (List.mem_toFinset.mp member)

theorem length_picked {afters : List (Option PassMoment)} {last : PickLoop}
    (reached : run turn loop afters = some last) :
    last.picked.length = loop.picked.length + afters.length := by
  induction afters generalizing loop with
  | nil =>
    cases reached
    rfl
  | cons after afters ih =>
    rcases Option.bind_eq_some_iff.mp reached with ⟨next, turned, rest⟩
    rcases turn_some sound turned with ⟨q, taken, _, kept, _, _, picked, _, rfl⟩
    have longer : taken.picked.length = loop.picked.length + 1 := by
      rw [picked, List.length_append, List.length_singleton]
    rw [List.length_cons]
    cases after with
    | none => have := ih kept rest; omega
    | some now =>
      have := ih (sound_merge kept now) rest
      simp only [merge, enqueue] at this
      omega

end

/-- Every pass, whatever its callbacks make ready and rebind. -/
theorem picks_in_order (now : PassMoment) (band active : SlotMask) (nowUs : Nat)
    (afters : List (Option PassMoment)) (last : PickLoop)
    (reached : run turn (fill now band active nowUs) afters = some last) :
    last.InOrder ∧ last.picked.length = afters.length ∧
      ∀ entries : Finset Nat, (∀ slot, active.has slot = true → slot ∈ entries) →
        (∀ after ∈ afters, Finds entries after) →
          last.picked.length + last.queued.length ≤ entries.card := by
  have started := sound_fill now band active nowUs
  have sound := run_invariant sound_turn _ last afters started reached
  refine ⟨sound.inOrder, ?_, fun entries within finds => ?_⟩
  · rw [length_picked started reached]
    exact Nat.zero_add _
  · have inside : (fill now band active nowUs).Inside entries := by
      intro slot member
      simp only [fill, enqueue, List.nil_append, map_binding_slot] at member
      have passes := (List.mem_filter.mp member).2
      rw [Bool.and_eq_true, Bool.and_eq_true] at passes
      exact within slot passes.1.1
    have keeps : ∀ (loop : PickLoop) (after : Option PassMoment) (next : PickLoop),
        loop.Sound ∧ loop.Inside entries → Finds entries after → loop.turn after = some next →
          next.Sound ∧ next.Inside entries := by
      rintro loop after next ⟨sound, inside⟩ finds turned
      exact ⟨sound_turn loop after next sound turned, inside_turn sound inside finds turned⟩
    have found : Along turn (fun _ after => Finds entries after) (fill now band active nowUs)
        afters := along_of_always (fun after member _ => finds after member) _
    have kept := run_invariant_along keeps _ last afters ⟨started, inside⟩ found reached
    exact sound.length_le kept.2

/-- The order of the picks is one that a pass over the queue alone may take. -/
theorem pass_refines (now : PassMoment) (band active : SlotMask) (nowUs : Nat)
    (afters : List (Option PassMoment)) (last : PickLoop)
    (reached : run turn (fill now band active nowUs) afters = some last) :
    run (anyTurn band) (now.executor.gatedQueue now.cfg active nowUs, active)
      (last.picked.zip afters) = some (last.slots, last.settled) := by
  rcases run_refines (sound_fill now band active nowUs) reached with ⟨picks, picked, refined⟩
  rw [slots_fill] at refined
  rw [show last.picked = picks from picked]
  exact refined

/-- Slot 1 has a deadline; slot 2, which arrives while a callback runs, is critical. -/
def urgentArrival : PassMoment where
  cfg :=
    { contexts := fun sc =>
        if sc = 1 then some ⟨.edf, 50, .ignore, 0, 0⟩
        else if sc = 2 then some ⟨.fifo, 0, .ignore, 0, 0⟩
        else none
      majorFrameUs := 0
      trigger := .any
      semantics := .rclcppExecutor
      reprobeEachCallback := false }
  executor :=
    { SpinExecutor.fresh (fun _ => none) fun _ => none with
      entries := fun i =>
        if i < 3 then some ⟨.handle ⟨.subscription, false, false, 0, false⟩, .onNewData⟩ else none
      bindings := id
      ready := 4#64
      entityAttributed := 4#64 }
  priority := fun sc => if sc = 2 then .critical else .normal
  rank := fun _ => 0

theorem picks_in_order_urgent : ∃ last,
    run turn (fill urgentArrival (BitVec.allOnes 64) 3#64 0) [some urgentArrival, none] =
        some last ∧
      last.picked = [1, 2] ∧ last.InOrder ∧ last.picked.length + last.queued.length ≤ 3 := by
  have picks : (run turn (fill urgentArrival (BitVec.allOnes 64) 3#64 0)
      [some urgentArrival, none]).map PickLoop.picked = some [1, 2] := by decide +kernel
  rcases Option.map_eq_some_iff.mp picks with ⟨last, reached, picked⟩
  rcases picks_in_order urgentArrival (BitVec.allOnes 64) 3#64 0 [some urgentArrival, none] last
    reached with ⟨order, _, bound⟩
  refine ⟨last, reached, picked, order, bound (Finset.range 3) ?_ ?_⟩
  · intro slot active
    have low : ∀ i, i < 64 → Mask.has 3#64 i = true → i < 3 := by decide
    exact Finset.mem_range.mpr (low slot (Mask.has_lt active) active)
  · intro after member now same slot _ live
    have here : now = urgentArrival := by
      rcases List.mem_cons.mp member with rfl | member
      · exact (Option.some.inj same).symm
      · rw [List.mem_singleton.mp member] at same
        cases same
    subst here
    by_contra outside
    rw [Finset.mem_range] at outside
    simp [urgentArrival, outside] at live

theorem pass_refines_urgent : ∃ state, run (anyTurn (BitVec.allOnes 64))
    (urgentArrival.executor.gatedQueue urgentArrival.cfg 3#64 0, 3#64)
    [(1, some urgentArrival), (2, none)] = some state := by
  have picks : (run turn (fill urgentArrival (BitVec.allOnes 64) 3#64 0)
      [some urgentArrival, none]).map PickLoop.picked = some [1, 2] := by decide +kernel
  rcases Option.map_eq_some_iff.mp picks with ⟨last, reached, picked⟩
  have refined := pass_refines urgentArrival _ _ _ _ last reached
  rw [picked] at refined
  exact ⟨_, refined⟩

end PickLoop

end NanoRos
