import NanoRos.Node.HazardObserver

/-! Runs of the hazard observer: the ticks of one hazard, with arbitrary states, modes, counts and
times. -/

namespace NanoRos

/-! Faults. -/

def HazardMonitorSpec.Faulted (guard : HazardMonitorSpec) (tick : HazardTick) : Prop :=
  if guard.allOf then
    0 < guard.members.length ∧ ∀ m ∈ guard.members, (memberFault tick m).isSome = true
  else ∃ m ∈ guard.members, (memberFault tick m).isSome = true

instance (guard : HazardMonitorSpec) (tick : HazardTick) : Decidable (guard.Faulted tick) :=
  inferInstanceAs (Decidable (if guard.allOf = true then _ else _))

def HazardSpec.Faulted (spec : HazardSpec) (tick : HazardTick) : Prop :=
  ∃ guard ∈ spec.monitors, guard.Faulted tick

instance (spec : HazardSpec) (tick : HazardTick) : Decidable (spec.Faulted tick) :=
  inferInstanceAs (Decidable (∃ guard ∈ spec.monitors, guard.Faulted tick))

section

variable (tick : HazardTick)

theorem noteMember_fst (found : Nat × Option UInt32) (member : HazardMonitorRef) :
    (noteMember tick found member).1 =
      found.1 + if (memberFault tick member).isSome then 1 else 0 := by
  unfold noteMember
  rcases memberFault tick member with _ | _ | time <;> rfl

theorem foldl_noteMember_fst (members : List HazardMonitorRef) (found : Nat × Option UInt32) :
    (members.foldl (noteMember tick) found).1 =
      found.1 + members.countP fun m => (memberFault tick m).isSome := by
  induction members generalizing found with
  | nil => rfl
  | cons m members ih =>
    rw [List.foldl_cons, ih, noteMember_fst, List.countP_cons]
    omega

theorem guardFaulted_iff (guard : HazardMonitorSpec) :
    guardFaulted tick guard = true ↔ guard.Faulted tick := by
  unfold guardFaulted HazardMonitorSpec.Faulted
  rw [guardSeen, foldl_noteMember_fst, Nat.zero_add]
  by_cases allOf : guard.allOf = true
  · rw [if_pos allOf, if_pos allOf, Bool.and_eq_true, decide_eq_true_eq, List.countP_eq_length,
      Bool.not_eq_true', List.isEmpty_eq_false_iff, List.length_pos_iff]
  · rw [if_neg allOf, if_neg allOf, decide_eq_true_eq, List.countP_pos_iff]

theorem noteGuard_fst (found : Bool × Option UInt32) (guard : HazardMonitorSpec) :
    (noteGuard tick found guard).1 = (found.1 || guardFaulted tick guard) := by
  unfold noteGuard
  cases guardFaulted tick guard with
  | false => simp
  | true => rcases (guardSeen tick guard.members).2 with _ | time <;> simp

theorem foldl_noteGuard_fst (guards : List HazardMonitorSpec) (found : Bool × Option UInt32) :
    (guards.foldl (noteGuard tick) found).1 = (found.1 || guards.any (guardFaulted tick)) := by
  induction guards generalizing found with
  | nil => simp
  | cons guard guards ih => rw [List.foldl_cons, ih, noteGuard_fst, List.any_cons, Bool.or_assoc]

end

theorem hazardFault_isSome_iff (spec : HazardSpec) (tick : HazardTick) :
    (hazardFault spec tick).isSome = true ↔ spec.Faulted tick := by
  have found : (hazardFault spec tick).isSome = spec.monitors.any (guardFaulted tick) := by
    simp only [hazardFault, foldl_noteGuard_fst, Bool.false_or]
    cases spec.monitors.any (guardFaulted tick) <;> rfl
  rw [found, List.any_eq_true]
  constructor
  · rintro ⟨guard, member, faulted⟩
    exact ⟨guard, member, (guardFaulted_iff tick guard).mp faulted⟩
  · rintro ⟨guard, member, faulted⟩
    exact ⟨guard, member, (guardFaulted_iff tick guard).mpr faulted⟩

/-! The rungs. -/

/-- The output count of a rung that has a route, when the tick observes it. -/
def rungOutput (spec : HazardSpec) (tick : HazardTick) (index : Nat) :
    Option (RungSpec × UInt32) := do
  let rung ← spec.rungs[index]?
  if rung.routeMs = 0 then none
  else
    let count ← tick.counts[rung.outputRow.toNat]?
    some (rung, count)

theorem checkRung_eq (spec : HazardSpec) (cell : HazardCell) (tick : HazardTick) :
    checkRung spec cell tick =
      if cell.rungState = .idle then ([], cell)
      else
        match rungOutput spec tick (fallen spec cell tick).rungActive with
        | none => ([], fallen spec cell tick)
        | some (rung, count) => judgeRung spec rung count (fallen spec cell tick) tick := by
  unfold checkRung rungOutput
  by_cases idle : cell.rungState = .idle
  · rw [if_pos idle, if_pos idle]
  · rw [if_neg idle, if_neg idle]
    rcases placed : spec.rungs[(fallen spec cell tick).rungActive]? with _ | rung
    · simp [placed]
    · by_cases unrouted : rung.routeMs = 0
      · simp [placed, unrouted]
      · rcases output : tick.counts[rung.outputRow.toNat]? with _ | count <;>
          simp [placed, unrouted, output]

variable {spec : HazardSpec} {tick : HazardTick} {w : RungWatch} {cell : HazardCell}
  {verdicts : List Violation}

theorem lowerRung_spec {active lower : Nat} {mode : UInt16}
    (found : lowerRung spec active mode = some lower) :
    active < lower ∧ lower < spec.rungs.length := by
  obtain ⟨⟨rung, index⟩, hit, rfl⟩ := Option.map_eq_some_iff.mp found
  have member := List.mem_of_find?_eq_some hit
  obtain ⟨k, inside, here⟩ := List.mem_iff_getElem.mp member
  rw [List.getElem_drop, List.getElem_zipIdx] at here
  cases here
  rw [List.length_drop, List.length_zipIdx] at inside
  constructor <;> omega

theorem fallen_cases (spec : HazardSpec) (cell : HazardCell) (tick : HazardTick) :
    fallen spec cell tick = cell ∨ ∃ lower, cell.rungActive < lower ∧ fallen spec cell tick =
          { cell with rungActive := lower, rungArmedMs := tick.nowMs, rungState := .armed } := by
  unfold fallen
  rcases found : lowerRung spec cell.rungActive tick.mode with _ | lower
  · exact Or.inl rfl
  · obtain ⟨below, inside⟩ := lowerRung_spec found
    refine Or.inr ⟨lower, below, ?_⟩
    exact if_neg (Nat.not_le.mpr inside)

/-- What judging does: nothing, start the clock, or close the watch. -/
inductive Judging (spec : HazardSpec) (rung : RungSpec) (count : UInt32) (cell : HazardCell)
    (tick : HazardTick) : List Violation × HazardCell → Prop
  | waits (kept : cell.rungState = .watching →
      count = cell.rungCount ∧ tick.nowMs - cell.rungClockMs ≤ rung.routeMs) :
      Judging spec rung count cell tick ([], cell)
  | starts (clockMs : UInt32) (armed : cell.rungState = .armed) :
      Judging spec rung count cell tick
        ([], { cell with rungClockMs := clockMs, rungCount := count, rungState := .watching })
  | answered (watching : cell.rungState = .watching) (changed : count ≠ cell.rungCount)
      (kept : tick.nowMs - cell.rungClockMs ≤ rung.routeMs) :
      Judging spec rung count cell tick ([], { cell with rungState := .judged })
  | overran (watching : cell.rungState = .watching)
      (passed : rung.routeMs < tick.nowMs - cell.rungClockMs) :
      Judging spec rung count cell tick
        ([⟨"hazard-route-runtime", spec.key, tick.nowMs - cell.rungClockMs, rung.routeMs⟩],
          { cell with rungState := .judged })

variable (spec)

theorem judgeRung_judging (rung : RungSpec) (count : UInt32) (cell : HazardCell)
    (tick : HazardTick) :
    Judging spec rung count cell tick (judgeRung spec rung count cell tick) := by
  unfold judgeRung
  rcases state : cell.rungState with _ | _ | _ | _
  · apply Judging.waits
    simp [state]
  · dsimp only
    split
    · exact Judging.starts _ state
    · apply Judging.waits
      simp [state]
  · dsimp only
    split
    next kept => exact Judging.waits fun _ => kept
    next moved =>
      split
      next passed => exact Judging.overran state passed
      next kept =>
        rw [UInt32.not_lt] at kept
        exact Judging.answered state (fun same => moved ⟨same, kept⟩) kept
  · apply Judging.waits
    simp [state]

def timesReported (rule : String) (verdicts : List Violation) : Nat :=
  (verdicts.map Violation.rule).count rule

theorem judgeRung_rungActive (rung : RungSpec) (count : UInt32) (cell : HazardCell)
    (tick : HazardTick) : (judgeRung spec rung count cell tick).2.rungActive = cell.rungActive := by
  have judging := judgeRung_judging spec rung count cell tick
  generalize judgeRung spec rung count cell tick = result at judging
  cases judging <;> rfl

theorem checkRung_frame (cell : HazardCell) (tick : HazardTick) :
    (checkRung spec cell tick).2.phase = cell.phase ∧
      cell.rungActive ≤ (checkRung spec cell tick).2.rungActive ∧
      ∀ v ∈ (checkRung spec cell tick).1, v.rule = "hazard-route-runtime" := by
  have falls : (fallen spec cell tick).phase = cell.phase ∧
      cell.rungActive ≤ (fallen spec cell tick).rungActive := by
    obtain kept | ⟨lower, below, fell⟩ := fallen_cases spec cell tick
    · rw [kept]
      exact ⟨rfl, Nat.le_refl _⟩
    · rw [fell]
      exact ⟨rfl, Nat.le_of_lt below⟩
  rw [checkRung_eq]
  split
  · exact ⟨rfl, Nat.le_refl _, List.forall_mem_nil _⟩
  · split
    · exact ⟨falls.1, falls.2, List.forall_mem_nil _⟩
    next rung count _ =>
      have judging := judgeRung_judging spec rung count (fallen spec cell tick) tick
      generalize judgeRung spec rung count (fallen spec cell tick) tick = result at judging
      cases judging with
      | waits | starts | answered => exact ⟨falls.1, falls.2, List.forall_mem_nil _⟩
      | overran => exact ⟨falls.1, falls.2, List.forall_mem_singleton.mpr rfl⟩

/-! The record of an episode. -/

variable {spec}

/-- The watch over the output of a rung whose clock has started: whether a tick found the route
passed before the output changed, and what the first tick that saw it change found. -/
structure RungWatch where
  rung : Nat
  clockMs : UInt32
  count : UInt32
  late : Bool
  answer : Option Bool
  deriving DecidableEq

def RungWatch.observe (spec : HazardSpec) (tick : HazardTick) (w : RungWatch) : RungWatch :=
  match w.answer, rungOutput spec tick w.rung with
  | none, some (rung, count) =>
    let kept := decide (tick.nowMs - w.clockMs ≤ rung.routeMs)
    { w with
      late := w.late || !kept
      answer := if count = w.count then none else some kept }
  | _, _ => w

/-- The clock of a rung starts in this tick. -/
def startedWatch (cell next : HazardCell) : List RungWatch :=
  if next.rungState = .watching ∧
      ¬ (cell.rungState = .watching ∧ cell.rungActive = next.rungActive) then
    [⟨next.rungActive, next.rungClockMs, next.rungCount, false, none⟩]
  else []

def RungWatch.Follows (w : RungWatch) (cell : HazardCell) : Prop :=
  cell.rungState = .watching ∧ w.clockMs = cell.rungClockMs ∧ w.count = cell.rungCount ∧
    w.late = false ∧ w.answer = none

/-- How the cell of the rungs stands to the rungs reported and watched in the episode. -/
structure RungRecord (cell : HazardCell) (routed : List Nat) (watches : List RungWatch) :
    Prop where
  once : routed.Nodup
  judged : ∀ r ∈ routed, r ≤ cell.rungActive ∧ (r = cell.rungActive → cell.rungState = .judged)
  watched : ∀ w ∈ watches, w.rung ≤ cell.rungActive ∧
      (w.rung = cell.rungActive → w.Follows cell ∨ cell.rungState = .judged)
  late : ∀ w ∈ watches, w.rung ∈ routed → w.late = true

theorem RungWatch.observe_rung (spec : HazardSpec) (tick : HazardTick) (w : RungWatch) :
    (w.observe spec tick).rung = w.rung := by
  unfold RungWatch.observe
  split <;> rfl

theorem RungWatch.late_observe (spec : HazardSpec) (tick : HazardTick) (w : RungWatch)
    (late : w.late = true) : (w.observe spec tick).late = true := by
  unfold RungWatch.observe
  split
  · simp [late]
  · exact late

theorem RungWatch.observe_of_unobserved (unobserved : rungOutput spec tick w.rung = none) :
    w.observe spec tick = w := by
  unfold RungWatch.observe
  rw [unobserved]
  split
  next hidden => cases hidden
  · rfl

theorem RungWatch.Follows.observe (follows : w.Follows cell)
    (still : ∀ rung count, rungOutput spec tick w.rung = some (rung, count) →
      count = cell.rungCount ∧ tick.nowMs - cell.rungClockMs ≤ rung.routeMs) :
    (w.observe spec tick).Follows cell := by
  obtain ⟨watching, clock, count, late, answer⟩ := follows
  rcases output : rungOutput spec tick w.rung with _ | ⟨rung, seen⟩
  · rw [RungWatch.observe_of_unobserved output]
    exact ⟨watching, clock, count, late, answer⟩
  · obtain ⟨same, kept⟩ := still rung seen output
    rw [← clock] at kept
    unfold RungWatch.observe
    rw [answer, output]
    refine ⟨watching, clock, count, ?_, ?_⟩
    · simp [late, kept]
    · exact if_pos (same.trans count.symm)

theorem RungWatch.Follows.late_of_overran {rung : RungSpec} {count : UInt32}
    (follows : w.Follows cell) (output : rungOutput spec tick w.rung = some (rung, count))
    (passed : rung.routeMs < tick.nowMs - cell.rungClockMs) :
    (w.observe spec tick).late = true := by
  obtain ⟨_, clock, _, _, answer⟩ := follows
  rw [← clock] at passed
  unfold RungWatch.observe
  rw [answer, output]
  simp [passed]

theorem RungRecord.empty (cell : HazardCell) : RungRecord cell [] [] :=
  ⟨List.nodup_nil, List.forall_mem_nil _, List.forall_mem_nil _, List.forall_mem_nil _⟩

section

variable {spec : HazardSpec} {tick : HazardTick} {cell : HazardCell} {routed : List Nat}
  {watches : List RungWatch}

section

variable (record : RungRecord cell routed watches)
include record

theorem RungRecord.routed_above (unjudged : cell.rungState ≠ .judged)
    : ∀ r ∈ routed, r < cell.rungActive := by
  intro r member
  obtain ⟨above, here⟩ := record.judged r member
  exact Nat.lt_of_le_of_ne above fun same => unjudged (here same)

theorem RungRecord.fallen :
    RungRecord (fallen spec cell tick) routed watches := by
  obtain kept | ⟨lower, below, fell⟩ := fallen_cases spec cell tick
  · rw [kept]
    exact record
  · rw [fell]
    refine ⟨record.once, fun r member => ?_, fun w member => ?_, record.late⟩
    · have above := (record.judged r member).1
      exact ⟨above.trans (Nat.le_of_lt below), fun same => absurd same (by dsimp only; omega)⟩
    · have above := (record.watched w member).1
      exact ⟨above.trans (Nat.le_of_lt below), fun same => absurd same (by dsimp only; omega)⟩

theorem RungRecord.late_map :
    ∀ w ∈ watches.map (RungWatch.observe spec tick), w.rung ∈ routed → w.late = true := by
  intro w member reported
  obtain ⟨w, held, rfl⟩ := List.mem_map.mp member
  rw [RungWatch.observe_rung] at reported
  exact RungWatch.late_observe spec tick w (record.late w held reported)

theorem RungRecord.observe (still : cell.rungState = .watching → ∀ rung count,
      rungOutput spec tick cell.rungActive = some (rung, count) →
      count = cell.rungCount ∧ tick.nowMs - cell.rungClockMs ≤ rung.routeMs) :
    RungRecord cell routed (watches.map (RungWatch.observe spec tick)) := by
  refine ⟨record.once, record.judged, fun w member => ?_, record.late_map⟩
  obtain ⟨w, held, rfl⟩ := List.mem_map.mp member
  rw [RungWatch.observe_rung]
  obtain ⟨above, here⟩ := record.watched w held
  refine ⟨above, fun same => ?_⟩
  obtain follows | judged := here same
  · refine Or.inl (follows.observe ?_)
    rw [same]
    exact still follows.1
  · exact Or.inr judged

theorem RungRecord.close (watching : cell.rungState = .watching) (reported : List Nat)
    (once : reported.Nodup) (active : ∀ r ∈ reported, r = cell.rungActive)
    (late : reported ≠ [] → ∃ rung count,
      rungOutput spec tick cell.rungActive = some (rung, count) ∧
        rung.routeMs < tick.nowMs - cell.rungClockMs) :
    RungRecord { cell with rungState := .judged } (routed ++ reported)
      (watches.map (RungWatch.observe spec tick)) := by
  have above := record.routed_above (by rw [watching]; decide)
  refine ⟨?_, fun r member => ?_, fun w member => ?_, fun w member hit => ?_⟩
  · apply List.Nodup.append record.once once
    intro r before now
    exact absurd (active r now) (Nat.ne_of_lt (above r before))
  · refine ⟨?_, fun _ => rfl⟩
    obtain before | now := List.mem_append.mp member
    · exact (record.judged r before).1
    · exact Nat.le_of_eq (active r now)
  · obtain ⟨w, held, rfl⟩ := List.mem_map.mp member
    rw [RungWatch.observe_rung]
    exact ⟨(record.watched w held).1, fun _ => Or.inr rfl⟩
  · obtain before | now := List.mem_append.mp hit
    · exact record.late_map w member before
    · obtain ⟨w, held, rfl⟩ := List.mem_map.mp member
      rw [RungWatch.observe_rung] at now
      have same := active _ now
      obtain ⟨rung, count, output, passed⟩ := late (List.ne_nil_of_mem now)
      obtain follows | judged := (record.watched w held).2 same
      · rw [← same] at output
        exact follows.late_of_overran output passed
      · rw [watching] at judged
        cases judged

theorem RungRecord.start (armed : cell.rungState = .armed) (clockMs count : UInt32) :
    RungRecord { cell with rungClockMs := clockMs, rungCount := count, rungState := .watching }
      routed
      (watches.map (RungWatch.observe spec tick) ++
        [⟨cell.rungActive, clockMs, count, false, none⟩]) := by
  have above := record.routed_above (by rw [armed]; decide)
  refine ⟨record.once, fun r member => ?_, fun w member => ?_, fun w member hit => ?_⟩
  · have here := above r member
    exact ⟨Nat.le_of_lt here, fun same => absurd same (Nat.ne_of_lt here)⟩
  · obtain old | new := List.mem_append.mp member
    · obtain ⟨w, held, rfl⟩ := List.mem_map.mp old
      rw [RungWatch.observe_rung]
      obtain ⟨high, here⟩ := record.watched w held
      refine ⟨high, fun same => ?_⟩
      obtain follows | judged := here same
      · exact absurd (follows.1.symm.trans armed) (by decide)
      · exact absurd (judged.symm.trans armed) (by decide)
    · cases List.mem_singleton.mp new
      exact ⟨Nat.le_refl _, fun _ => Or.inl ⟨rfl, rfl, rfl, rfl, rfl⟩⟩
  · obtain old | new := List.mem_append.mp member
    · exact record.late_map w old hit
    · cases List.mem_singleton.mp new
      exact absurd (above _ hit) (Nat.lt_irrefl _)

end

theorem startedWatch_of_moved {next : HazardCell}
    (moved : cell.rungState = .watching → cell.rungActive ≠ next.rungActive) :
    startedWatch cell next =
      if next.rungState = .watching then
        [⟨next.rungActive, next.rungClockMs, next.rungCount, false, none⟩]
      else [] := by
  unfold startedWatch
  congr 1
  exact propext (and_iff_left fun same => moved same.1 same.2)

theorem startedWatch_self : startedWatch cell cell = [] := by
  unfold startedWatch
  exact if_neg fun fresh => fresh.2 ⟨fresh.1, rfl⟩

theorem startedWatch_fallen {next : HazardCell}
    (active : next.rungActive = (fallen spec cell tick).rungActive) :
    startedWatch (fallen spec cell tick) next = startedWatch cell next := by
  obtain kept | ⟨lower, below, fell⟩ := fallen_cases spec cell tick
  · rw [kept]
  · rw [fell] at active ⊢
    have moved : cell.rungActive ≠ next.rungActive := by
      rw [active]
      exact Nat.ne_of_lt below
    rw [@startedWatch_of_moved cell _ fun _ => moved]
    apply startedWatch_of_moved
    intro watching
    cases watching

theorem RungRecord.judge (record : RungRecord cell routed watches) {rung : RungSpec}
    {count : UInt32} (output : rungOutput spec tick cell.rungActive = some (rung, count)) :
    RungRecord (judgeRung spec rung count cell tick).2
      (routed ++ List.replicate
        (timesReported "hazard-route-runtime" (judgeRung spec rung count cell tick).1)
        (judgeRung spec rung count cell tick).2.rungActive)
      (watches.map (RungWatch.observe spec tick) ++
        startedWatch cell (judgeRung spec rung count cell tick).2) := by
  have judging := judgeRung_judging spec rung count cell tick
  generalize judgeRung spec rung count cell tick = result at judging
  cases judging with
  | waits kept =>
    rw [startedWatch_self, List.append_nil]
    show RungRecord cell (routed ++ []) _
    rw [List.append_nil]
    apply record.observe
    intro watching rung' count' output'
    rw [output] at output'
    cases output'
    exact kept watching
  | starts clockMs armed =>
    rw [startedWatch_of_moved fun watching => nomatch watching.symm.trans armed]
    show RungRecord _ (routed ++ []) _
    rw [List.append_nil]
    exact record.start armed clockMs count
  | answered watching changed kept =>
    have closed : RungRecord { cell with rungState := .judged } (routed ++ [])
        (watches.map (RungWatch.observe spec tick)) := by
      apply record.close watching
      · exact List.nodup_nil
      · exact List.forall_mem_nil _
      · exact fun reported => absurd rfl reported
    simpa [startedWatch, timesReported] using closed
  | overran watching passed =>
    have closed : RungRecord { cell with rungState := .judged } (routed ++ [cell.rungActive])
        (watches.map (RungWatch.observe spec tick)) := by
      apply record.close watching
      · exact List.nodup_singleton _
      · exact fun r member => List.mem_singleton.mp member
      · exact fun _ => ⟨rung, count, output, passed⟩
    simpa [startedWatch, timesReported] using closed

theorem RungRecord.check (record : RungRecord cell routed watches) :
    RungRecord (checkRung spec cell tick).2
      (routed ++ List.replicate
        (timesReported "hazard-route-runtime" (checkRung spec cell tick).1)
        (checkRung spec cell tick).2.rungActive)
      (watches.map (RungWatch.observe spec tick) ++
        startedWatch cell (checkRung spec cell tick).2) := by
  rw [checkRung_eq]
  split
  next idle =>
    rw [startedWatch_self, List.append_nil]
    show RungRecord cell (routed ++ []) _
    rw [List.append_nil]
    exact record.observe fun watching => nomatch watching.symm.trans idle
  · have fell : RungRecord (NanoRos.fallen spec cell tick) routed watches := record.fallen
    split
    next unobserved =>
      have started : startedWatch cell (NanoRos.fallen spec cell tick) = [] := by
        obtain kept | ⟨lower, _, armed⟩ := fallen_cases spec cell tick
        · rw [kept, startedWatch_self]
        · rw [armed]
          exact if_neg fun fresh => nomatch fresh.1
      rw [started, List.append_nil]
      show RungRecord (NanoRos.fallen spec cell tick) (routed ++ []) _
      rw [List.append_nil]
      apply fell.observe
      intro _ rung count output
      rw [unobserved] at output
      cases output
    next rung count output =>
      have judged := fell.judge output
      rw [startedWatch_fallen (judgeRung_rungActive ..)] at judged
      exact judged

end

/-! Runs. -/

structure HazardRun where
  cell : HazardCell
  verdicts : List Violation
  /-- Whether a guard was faulted since the last recovery was reported. -/
  faulted : Bool
  routed : List Nat
  watches : List RungWatch

def HazardRun.start : HazardRun := ⟨HazardCell.new, [], false, [], []⟩

/-- One tick. A tick that finds no guard faulted ends the record of the episode. -/
def HazardRun.after (spec : HazardSpec) (s : HazardRun) (tick : HazardTick) : HazardRun :=
  let (verdicts, cell) := checkHazard spec s.cell tick
  let recovered := 0 < timesReported "hazard-recovered" verdicts
  let routed := List.replicate (timesReported "hazard-route-runtime" verdicts) cell.rungActive
  { cell
    verdicts := s.verdicts ++ verdicts
    faulted := if recovered then false else s.faulted || decide (spec.Faulted tick)
    routed := if spec.Faulted tick then s.routed ++ routed else []
    watches :=
      if spec.Faulted tick then
        s.watches.map (RungWatch.observe spec tick) ++ startedWatch s.cell cell
      else [] }

def HazardRun.along (spec : HazardSpec) (ticks : List HazardTick) : HazardRun :=
  ticks.foldl (HazardRun.after spec) HazardRun.start

def episodeRules : List String := ["hazard-detected", "hazard-reaction", "hazard-recovered"]

/-- The verdicts on the hazard itself, in order. -/
def episodeReport (verdicts : List Violation) : List String :=
  (verdicts.map Violation.rule).filter fun rule => decide (rule ∈ episodeRules)

/-- Reports of whole episodes. -/
inductive Episodes : List String → Prop
  | nil : Episodes []
  | unanswered {rest : List String} (later : Episodes rest) :
      Episodes ("hazard-detected" :: "hazard-recovered" :: rest)
  | answered {rest : List String} (later : Episodes rest) :
      Episodes ("hazard-detected" :: "hazard-reaction" :: "hazard-recovered" :: rest)

theorem Episodes.append {first second : List String} (before : Episodes first)
    (after : Episodes second) : Episodes (first ++ second) := by
  induction before with
  | nil => exact after
  | unanswered _ ih => exact Episodes.unanswered ih
  | answered _ ih => exact Episodes.answered ih

/-- What the episode that is on has reported, given the phase of the cell. -/
def HazardPhase.report : HazardPhase → List String
  | .clear => []
  | .detected => ["hazard-detected"]
  | .reacted => ["hazard-detected", "hazard-reaction"]

/-- Whole episodes, then the one that is on. -/
def Reported (phase : HazardPhase) (rules : List String) : Prop :=
  ∃ past, Episodes past ∧ rules = past ++ phase.report

theorem Reported.recovered {phase : HazardPhase} {rules : List String}
    (reported : Reported phase rules) (held : phase ≠ .clear) :
    Reported .clear (rules ++ ["hazard-recovered"]) := by
  obtain ⟨past, whole, rfl⟩ := reported
  have ended : Episodes (phase.report ++ ["hazard-recovered"]) := by
    cases phase with
    | clear => exact absurd rfl held
    | detected => exact Episodes.unanswered Episodes.nil
    | reacted => exact Episodes.answered Episodes.nil
  refine ⟨_, whole.append ended, ?_⟩
  rw [List.append_assoc, HazardPhase.report, List.append_nil]

theorem Reported.prefix_episodes {phase : HazardPhase} {rules : List String}
    (reported : Reported phase rules) : ∃ rest, Episodes (rules ++ rest) := by
  by_cases clear : phase = .clear
  · obtain ⟨past, whole, rfl⟩ := reported
    refine ⟨[], ?_⟩
    rw [clear, HazardPhase.report, List.append_nil, List.append_nil]
    exact whole
  · obtain ⟨past, whole, report⟩ := reported.recovered clear
    refine ⟨["hazard-recovered"], ?_⟩
    rw [report, HazardPhase.report, List.append_nil]
    exact whole

/-! One tick. -/

theorem checkHazard_quiet (clear : cell.phase = .clear) (unfaulted : ¬ spec.Faulted tick) :
    checkHazard spec cell tick = ([], cell) := by
  rw [← hazardFault_isSome_iff, Option.not_isSome_iff_eq_none] at unfaulted
  simp [checkHazard, checkEpisode, clear, unfaulted]

theorem checkHazard_recovers (held : cell.phase ≠ .clear) (unfaulted : ¬ spec.Faulted tick) :
    ∃ v : Violation, v.rule = "hazard-recovered" ∧
      checkHazard spec cell tick = ([v], { cell with phase := .clear, rungState := .idle }) := by
  rw [← hazardFault_isSome_iff, Option.not_isSome_iff_eq_none] at unfaulted
  refine ⟨⟨"hazard-recovered", spec.key, tick.nowMs - cell.faultMs, spec.fttiMs⟩, rfl, ?_⟩
  rcases phase : cell.phase with _ | _ | _
  · exact absurd phase held
  · simp [checkHazard, checkEpisode, phase, unfaulted]
  · simp [checkHazard, checkEpisode, phase, unfaulted]

theorem checkHazard_detects (clear : cell.phase = .clear) (faulted : spec.Faulted tick) :
    ∃ (v : Violation) (armed : HazardCell), v.rule = "hazard-detected" ∧
      armed.phase = .detected ∧ armed.rungState ≠ .watching ∧ checkHazard spec cell tick =
        ([v] ++ (checkRung spec armed tick).1, (checkRung spec armed tick).2) := by
  rw [← hazardFault_isSome_iff] at faulted
  obtain ⟨since, found⟩ := Option.isSome_iff_exists.mp faulted
  refine ⟨⟨"hazard-detected", spec.key, tick.nowMs - since.getD tick.nowMs, spec.fttiMs⟩,
    armRung spec
      { cell with
        faultMs := since.getD tick.nowMs
        sinkCount := tick.counts[spec.sink.toNat]?.getD 0
        phase := .detected }
      ((spec.rungs.findIdx? fun rung => rung.inMode tick.mode).getD 0) tick.nowMs, rfl, ?_, ?_, ?_⟩
  · unfold armRung
    split <;> rfl
  · unfold armRung
    split <;> exact fun watching => nomatch watching
  · simp [checkHazard, checkEpisode, clear, found]

theorem checkHazard_holds (held : cell.phase ≠ .clear) (faulted : spec.Faulted tick) :
    ∃ (verdicts : List Violation) (phase : HazardPhase), phase ≠ .clear ∧
      phase.report = cell.phase.report ++ verdicts.map Violation.rule ∧
      (∀ v ∈ verdicts, v.rule = "hazard-reaction") ∧ checkHazard spec cell tick =
        (verdicts ++ (checkRung spec { cell with phase := phase } tick).1,
          (checkRung spec { cell with phase := phase } tick).2) := by
  rw [← hazardFault_isSome_iff] at faulted
  obtain ⟨since, found⟩ := Option.isSome_iff_exists.mp faulted
  by_cases still : checkEpisode spec cell tick = ([], cell)
  · refine ⟨[], cell.phase, held, (List.append_nil _).symm, List.forall_mem_nil _, ?_⟩
    simp [checkHazard, still, found]
  · rcases phase : cell.phase with _ | _ | _
    · exact absurd phase held
    · rcases sink : tick.counts[spec.sink.toNat]? with _ | count
      · exact absurd (by simp [checkEpisode, phase, found, sink]) still
      · by_cases same : count = cell.sinkCount
        · exact absurd (by simp [checkEpisode, phase, found, sink, same]) still
        · refine ⟨[⟨"hazard-reaction", spec.key,
            saturatingAdd (tick.nowMs - cell.faultMs) spec.settleMs, spec.fttiMs⟩], .reacted,
            by decide, rfl, List.forall_mem_singleton.mpr rfl, ?_⟩
          simp [checkHazard, checkEpisode, phase, found, sink, same]
    · exact absurd (by simp [checkEpisode, phase, found]) still

/-! What a run keeps. -/

theorem timesReported_append (rule : String) (first second : List Violation) :
    timesReported rule (first ++ second) =
      timesReported rule first + timesReported rule second := by
  rw [timesReported, List.map_append, List.count_append]
  rfl

theorem timesReported_of_other {rule other : String} (all : ∀ v ∈ verdicts, v.rule = other)
    (differs : other ≠ rule) :
    timesReported rule verdicts = 0 := by
  apply List.count_eq_zero.mpr
  intro member
  obtain ⟨v, held, same⟩ := List.mem_map.mp member
  exact differs ((all v held).symm.trans same)

theorem episodeReport_append (first second : List Violation) :
    episodeReport (first ++ second) = episodeReport first ++ episodeReport second := by
  rw [episodeReport, List.map_append, List.filter_append]
  rfl

theorem episodeReport_of_route (all : ∀ v ∈ verdicts, v.rule = "hazard-route-runtime") :
    episodeReport verdicts = [] := by
  apply List.filter_eq_nil_iff.mpr
  intro rule member
  obtain ⟨v, held, rfl⟩ := List.mem_map.mp member
  rw [all v held]
  decide

theorem episodeReport_of_episode (all : ∀ v ∈ verdicts, v.rule ∈ episodeRules) :
    episodeReport verdicts = verdicts.map Violation.rule := by
  apply List.filter_eq_self.mpr
  intro rule member
  obtain ⟨v, held, rfl⟩ := List.mem_map.mp member
  exact decide_eq_true (all v held)

theorem RungRecord.congr {other : HazardCell} {routed : List Nat} {watches : List RungWatch}
    (record : RungRecord cell routed watches) (active : other.rungActive = cell.rungActive)
    (state : other.rungState = cell.rungState) (clock : other.rungClockMs = cell.rungClockMs)
    (count : other.rungCount = cell.rungCount) :
    RungRecord other routed watches := by
  refine ⟨record.once, ?_, ?_, record.late⟩
  · rw [active, state]
    exact record.judged
  · unfold RungWatch.Follows
    rw [active, state, clock, count]
    exact record.watched

structure HazardRun.Sound (s : HazardRun) : Prop where
  faulted : s.faulted = true ↔ s.cell.phase ≠ .clear
  reported : Reported s.cell.phase (episodeReport s.verdicts)
  ended : s.cell.phase = .clear → s.cell.rungState ≠ .watching ∧ s.routed = [] ∧ s.watches = []
  record : RungRecord s.cell s.routed s.watches

theorem HazardRun.Sound.start : HazardRun.start.Sound where
  faulted := ⟨fun impossible => (nomatch impossible), fun held => absurd rfl held⟩
  reported := ⟨[], Episodes.nil, rfl⟩
  ended := fun _ => ⟨fun watching => (nomatch watching), rfl, rfl⟩
  record := RungRecord.empty _

section

variable {spec : HazardSpec} {s : HazardRun} {tick : HazardTick}

/-- A tick with a fault: the verdicts on the hazard come first, then the rungs go on from the cell
they leave. -/
theorem HazardRun.Sound.after_faulted {first : List Violation} {mid : HazardCell}
    (faulted : spec.Faulted tick) (checked : checkHazard spec s.cell tick =
      (first ++ (checkRung spec mid tick).1, (checkRung spec mid tick).2))
    (rule : String) (rules : ∀ v ∈ first, v.rule = rule)
    (episode : rule ∈ ["hazard-detected", "hazard-reaction"]) (held : mid.phase ≠ .clear)
    (reported : Reported mid.phase (episodeReport s.verdicts ++ first.map Violation.rule))
    (record : RungRecord mid s.routed s.watches)
    (started : ∀ next, startedWatch s.cell next = startedWatch mid next) :
    (s.after spec tick).Sound := by
  obtain ⟨phase, _, route⟩ := checkRung_frame spec mid tick
  have unrecovered :
      timesReported "hazard-recovered" (first ++ (checkRung spec mid tick).1) = 0 := by
    rw [timesReported_append, timesReported_of_other route (by decide),
      timesReported_of_other rules]
    intro same
    rw [same] at episode
    exact absurd episode (by decide)
  have routed : timesReported "hazard-route-runtime" (first ++ (checkRung spec mid tick).1) =
      timesReported "hazard-route-runtime" (checkRung spec mid tick).1 := by
    rw [timesReported_append, timesReported_of_other rules, Nat.zero_add]
    intro same
    rw [same] at episode
    exact absurd episode (by decide)
  have whole : episodeReport first = first.map Violation.rule := by
    apply episodeReport_of_episode
    intro v member
    rw [rules v member]
    exact List.mem_of_mem_dropLast episode
  simp only [HazardRun.after, checked, unrecovered, routed, if_pos faulted, started]
  constructor
  · rw [phase]
    simp [held, faulted]
  · rw [phase, episodeReport_append, episodeReport_append, episodeReport_of_route route, whole,
      List.append_nil]
    exact reported
  · intro clear
    exact absurd (phase.symm.trans clear) held
  · exact record.check

theorem HazardRun.Sound.after (sound : s.Sound) : (s.after spec tick).Sound := by
  by_cases faulted : spec.Faulted tick
  · by_cases clear : s.cell.phase = .clear
    · obtain ⟨v, armed, rule, phase, unwatched, checked⟩ := checkHazard_detects clear faulted
      obtain ⟨idle, routed, watches⟩ := sound.ended clear
      refine HazardRun.Sound.after_faulted faulted checked "hazard-detected"
        (List.forall_mem_singleton.mpr rule) (by decide) (by rw [phase]; decide) ?_ ?_ ?_
      · obtain ⟨past, episodes, report⟩ := sound.reported
        refine ⟨past, episodes, ?_⟩
        rw [report, clear, phase, List.map_singleton, rule, HazardPhase.report, List.append_nil]
        rfl
      · rw [routed, watches]
        exact RungRecord.empty _
      · intro next
        rw [startedWatch_of_moved fun watching => absurd watching idle,
          startedWatch_of_moved fun watching => absurd watching unwatched]
    · obtain ⟨verdicts, phase, held, report, rules, checked⟩ := checkHazard_holds clear faulted
      refine HazardRun.Sound.after_faulted faulted checked "hazard-reaction" rules (by decide)
        held ?_ (sound.record.congr rfl rfl rfl rfl) (fun _ => rfl)
      obtain ⟨past, episodes, before⟩ := sound.reported
      refine ⟨past, episodes, ?_⟩
      rw [before, report, List.append_assoc]
  · by_cases clear : s.cell.phase = .clear
    · have checked := checkHazard_quiet clear faulted
      obtain ⟨idle, routed, watches⟩ := sound.ended clear
      simp only [HazardRun.after, checked, if_neg faulted]
      constructor
      · simpa [timesReported, faulted] using sound.faulted
      · simpa using sound.reported
      · exact fun _ => ⟨idle, rfl, rfl⟩
      · exact RungRecord.empty _
    · obtain ⟨v, rule, checked⟩ := checkHazard_recovers clear faulted
      simp only [HazardRun.after, checked, if_neg faulted]
      constructor
      · simp [timesReported, rule]
      · have last : episodeReport [v] = ["hazard-recovered"] := by
          simp [episodeReport, rule, episodeRules]
        rw [episodeReport_append, last]
        exact sound.reported.recovered clear
      · exact fun _ => ⟨fun watching => (nomatch watching), rfl, rfl⟩
      · exact RungRecord.empty _

end

theorem not_reported {first route : List Violation} {rule other : String}
    (rules : ∀ v ∈ first, v.rule = rule) (routes : ∀ v ∈ route, v.rule = "hazard-route-runtime")
    (differs : rule ≠ other) (unrouted : other ≠ "hazard-route-runtime") :
    ¬ ∃ v ∈ first ++ route, v.rule = other := by
  rintro ⟨v, member, same⟩
  obtain here | there := List.mem_append.mp member
  · exact differs ((rules v here).symm.trans same)
  · exact unrouted (same.symm.trans (routes v there))

theorem checkHazard_emits (spec : HazardSpec) (cell : HazardCell) (tick : HazardTick) :
    ((∃ v ∈ (checkHazard spec cell tick).1, v.rule = "hazard-detected") ↔
        spec.Faulted tick ∧ cell.phase = .clear) ∧
      ((∃ v ∈ (checkHazard spec cell tick).1, v.rule = "hazard-recovered") ↔
        ¬ spec.Faulted tick ∧ cell.phase ≠ .clear) ∧
      ∀ v ∈ (checkHazard spec cell tick).1, v.rule = "hazard-route-runtime" →
        spec.Faulted tick := by
  by_cases faulted : spec.Faulted tick
  · by_cases clear : cell.phase = .clear
    · obtain ⟨v, armed, rule, _, _, checked⟩ := checkHazard_detects clear faulted
      have routes := (checkRung_frame spec armed tick).2.2
      rw [checked]
      refine ⟨⟨fun _ => ⟨faulted, clear⟩, fun _ => ⟨v, ?_, rule⟩⟩, ?_, fun _ _ _ => faulted⟩
      · exact List.mem_append_left _ (List.mem_singleton_self v)
      · apply iff_of_false _ fun unfaulted => unfaulted.1 faulted
        exact not_reported (List.forall_mem_singleton.mpr rule) routes (by decide) (by decide)
    · obtain ⟨verdicts, phase, _, _, rules, checked⟩ := checkHazard_holds clear faulted
      have routes := (checkRung_frame spec { cell with phase := phase } tick).2.2
      rw [checked]
      refine ⟨?_, ?_, fun _ _ _ => faulted⟩
      · apply iff_of_false _ fun detected => clear detected.2
        exact not_reported rules routes (by decide) (by decide)
      · apply iff_of_false _ fun unfaulted => unfaulted.1 faulted
        exact not_reported rules routes (by decide) (by decide)
  · by_cases clear : cell.phase = .clear
    · rw [checkHazard_quiet clear faulted]
      simp [faulted, clear]
    · obtain ⟨v, rule, checked⟩ := checkHazard_recovers clear faulted
      rw [checked]
      simp [faulted, clear, rule]

theorem checkHazard_rungActive (held : cell.phase ≠ .clear) (faulted : spec.Faulted tick) :
    cell.rungActive ≤ (checkHazard spec cell tick).2.rungActive := by
  obtain ⟨_, phase, _, _, _, checked⟩ := checkHazard_holds held faulted
  rw [checked]
  exact (checkRung_frame spec { cell with phase := phase } tick).2.1

theorem HazardRun.sound_along (spec : HazardSpec) (ticks : List HazardTick) :
    (HazardRun.along spec ticks).Sound := by
  apply List.foldlRecOn ticks (HazardRun.after spec)
  · exact HazardRun.Sound.start
  · exact fun _ sound _ _ => sound.after

/-- The report of a hazard is well formed and follows the ladder, whatever the ticks find. -/
theorem hazard_report (spec : HazardSpec) (ticks : List HazardTick) (tick : HazardTick) :
    let last := HazardRun.along spec ticks
    let emitted := (checkHazard spec last.cell tick).1
    (∃ rest, Episodes (episodeReport last.verdicts ++ rest)) ∧
      ((∃ v ∈ emitted, v.rule = "hazard-detected") ↔ spec.Faulted tick ∧ last.faulted = false) ∧
      ((∃ v ∈ emitted, v.rule = "hazard-recovered") ↔ ¬ spec.Faulted tick ∧ last.faulted = true) ∧
      (last.faulted = true → spec.Faulted tick →
        last.cell.rungActive ≤ (last.after spec tick).cell.rungActive) ∧
      last.routed.Nodup ∧ (∀ v ∈ emitted, v.rule = "hazard-route-runtime" → spec.Faulted tick) ∧
      ∀ w ∈ last.watches, w.answer = some true → w.late = false → w.rung ∉ last.routed := by
  intro last emitted
  have sound : last.Sound := HazardRun.sound_along spec ticks
  obtain ⟨detected, recovered, routed⟩ := checkHazard_emits spec last.cell tick
  have unfaulted : last.faulted = false ↔ last.cell.phase = .clear := by
    rw [← Bool.not_eq_true, sound.faulted, not_not]
  refine ⟨sound.reported.prefix_episodes, ?_, ?_, ?_, sound.record.once, routed, ?_⟩
  · rw [unfaulted]
    exact detected
  · rw [sound.faulted]
    exact recovered
  · intro held faulted
    exact checkHazard_rungActive (sound.faulted.mp held) faulted
  · intro w member _ prompt reported
    have late := sound.record.late w member reported
    rw [prompt] at late
    cases late

/-- A guard that waits for all of no members. -/
def vacuousHazard : HazardSpec := ⟨"demo/none_lost", 500, 0, [⟨true, []⟩], 65535, []⟩

/-- One rate guard, and one rung that has 50 ms for its route. -/
def scanHazard : HazardSpec :=
  ⟨"demo/scan_lost", 500, 0, [⟨false, [.rate 0]⟩], 65535, [⟨noMode, 0, 50, []⟩]⟩

def faultedTick (count nowMs : UInt32) : HazardTick :=
  ⟨[count], [⟨true, 0, 0, true, true⟩], [], 0, nowMs⟩

theorem hazard_claim_fails : (¬ ∀ (spec : HazardSpec) (ticks : List HazardTick) (tick : HazardTick),
      (∃ v ∈ (checkHazard spec (HazardRun.along spec ticks).cell tick).1,
        v.rule = "hazard-detected") ↔
      (∃ guard ∈ spec.monitors,
        if guard.allOf then ∀ m ∈ guard.members, (memberFault tick m).isSome = true
        else ∃ m ∈ guard.members, (memberFault tick m).isSome = true) ∧
        (HazardRun.along spec ticks).faulted = false) ∧
    ¬ ∀ (spec : HazardSpec) (ticks : List HazardTick),
      ∀ w ∈ (HazardRun.along spec ticks).watches, w.answer = some true →
        w.rung ∉ (HazardRun.along spec ticks).routed := by
  constructor
  · intro all
    have stated := all vacuousHazard [] (faultedTick 0 0)
    revert stated
    decide +kernel
  · -- the clock reads 100 ms before it reads 20 ms
    intro all
    have stated := all scanHazard [faultedTick 0 0, faultedTick 0 100, faultedTick 1 20]
      ⟨0, 0, 0, true, some true⟩ (by decide +kernel) rfl
    revert stated
    decide +kernel

end NanoRos
