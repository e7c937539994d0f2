import NanoRos.Lib.WrapInstant
import NanoRos.Node.HazardRuns

/-! From which instant a hazard is timed: the observer takes the least of the faulted members' last
takes, which is the earliest of them where the clock did not wrap in between. -/

namespace NanoRos

/-- The starts that the faulted members of the faulting guards know: their last takes. -/
def HazardSpec.faultTimes (spec : HazardSpec) (tick : HazardTick) : List UInt32 :=
  (spec.monitors.filter fun guard => decide (guard.Faulted tick)).flatMap fun guard =>
    guard.members.filterMap fun member => (memberFault tick member).join

/-- How long before the tick the earliest of them lies. -/
def HazardSpec.longestFault (spec : HazardSpec) (tick : HazardTick) : Nat :=
  longestAgo tick.nowMs (spec.faultTimes tick)

/-- The instant they are to be timed from. -/
def HazardSpec.earliestFault (spec : HazardSpec) (tick : HazardTick) : UInt32 :=
  tick.nowMs - UInt32.ofNat (spec.longestFault tick)

def cellAfter (spec : HazardSpec) (cell : HazardCell) (ticks : List HazardTick) : HazardCell :=
  ticks.foldl (fun cell tick => (checkHazard spec cell tick).2) cell

/-- What is reported of a hazard that this tick detects is measured from its earliest start: the
detection, and after any ticks that still find it, the reaction and the recovery. -/
def TimedFromEarliest (spec : HazardSpec) (cell : HazardCell) (tick : HazardTick) : Prop :=
  (∀ v ∈ (checkHazard spec cell tick).1, v.rule = "hazard-detected" →
    v.measured.toNat = spec.longestFault tick) ∧
  ∀ ticks : List HazardTick, (∀ between ∈ ticks, spec.Faulted between) → ∀ later : HazardTick,
    ∀ v ∈ (checkHazard spec (cellAfter spec cell (tick :: ticks)) later).1,
      (v.rule = "hazard-reaction" →
        v.measured = saturatingAdd (later.nowMs - spec.earliestFault tick) spec.settleMs) ∧
      (v.rule = "hazard-recovered" → v.measured = later.nowMs - spec.earliestFault tick)

/-! The two folds. -/

section

variable {times more : List UInt32} {since : Option UInt32} {at_ : UInt32}

theorem Least.join (least : Least times since) (next : Least more (some at_)) :
    Least (times ++ more) (earlier since at_) := by
  rcases next with ⟨member, below⟩
  cases since with
  | none =>
    rw [Least] at least
    subst least
    exact ⟨member, below⟩
  | some first =>
    rcases least with ⟨listed, lower⟩
    have kept : earlier (some first) at_ = some (if first ≤ at_ then first else at_) := rfl
    rw [kept]
    refine ⟨?_, ?_⟩
    · split
      · exact List.mem_append_left more listed
      · exact List.mem_append_right times member
    · intro other there
      rcases List.mem_append.mp there with old | new
      · split
        · exact lower other old
        next above =>
          exact UInt32.le_trans (UInt32.le_of_lt (UInt32.not_le.mp above)) (lower other old)
      · split
        next before => exact UInt32.le_trans before (below other new)
        · exact below other new

variable {tick : HazardTick}

theorem least_members (members : List HazardMonitorRef) {found : Nat × Option UInt32}
    (least : Least times found.2) :
    Least (times ++ members.filterMap fun member => (memberFault tick member).join)
      (members.foldl (noteMember tick) found).2 := by
  induction members generalizing times found with
  | nil =>
    rw [List.filterMap_nil, List.append_nil]
    exact least
  | cons member members ih =>
    rw [List.foldl_cons, List.filterMap_cons]
    rcases seen : memberFault tick member with _ | _ | at_
    · have kept : noteMember tick found member = found := by
        rw [noteMember, seen]
      rw [kept]
      exact ih least
    · have kept : (noteMember tick found member).2 = found.2 := by
        rw [noteMember, seen]
      apply ih
      rw [kept]
      exact least
    · have noted : (noteMember tick found member).2 = earlier found.2 at_ := by
        rw [noteMember, seen]
      dsimp only [Option.join_some]
      rw [List.append_cons]
      apply ih
      rw [noted]
      exact least.join ⟨List.mem_singleton_self at_, by simp⟩

theorem least_guards (guards : List HazardMonitorSpec) {found : Bool × Option UInt32}
    (least : Least times found.2) :
    Least (times ++ (guards.filter fun guard => decide (guard.Faulted tick)).flatMap fun guard =>
        guard.members.filterMap fun member => (memberFault tick member).join)
      (guards.foldl (noteGuard tick) found).2 := by
  induction guards generalizing times found with
  | nil =>
    rw [List.filter_nil, List.flatMap_nil, List.append_nil]
    exact least
  | cons guard guards ih =>
    rw [List.foldl_cons]
    by_cases faulted : guard.Faulted tick
    · have seen := (guardFaulted_iff tick guard).mpr faulted
      have starts := @least_members [] tick guard.members (0, none) rfl
      rw [List.filter_cons_of_pos (by simp [faulted]), List.flatMap_cons, ← List.append_assoc]
      apply ih
      rw [List.nil_append] at starts
      rw [noteGuard, if_pos seen, guardSeen]
      cases known : (guard.members.foldl (noteMember tick) (0, none)).2 with
      | none =>
        rw [known] at starts
        rw [starts, List.append_nil]
        exact least
      | some at_ =>
        rw [known] at starts
        exact least.join starts
    · have unseen : ¬ guardFaulted tick guard = true :=
        fun seen => faulted ((guardFaulted_iff tick guard).mp seen)
      rw [List.filter_cons_of_neg (by simp [faulted]), noteGuard, if_neg unseen]
      exact ih least

theorem least_hazardFault {spec : HazardSpec} {since : Option UInt32}
    (found : hazardFault spec tick = some since) : Least (spec.faultTimes tick) since := by
  have least := @least_guards [] tick spec.monitors (false, none) rfl
  unfold hazardFault at found
  dsimp only at found
  split at found
  · cases found
    exact least
  · cases found

end

/-! What a tick reports, and from which instant. -/

section

variable {spec : HazardSpec} {cell : HazardCell} {tick : HazardTick}

theorem checkEpisode_measured {v : Violation} (emitted : v ∈ (checkEpisode spec cell tick).1) :
    (v.rule = "hazard-detected" ∧ ∃ since, hazardFault spec tick = some since ∧
        v.measured = tick.nowMs - since.getD tick.nowMs) ∨
      (v.rule = "hazard-reaction" ∧
        v.measured = saturatingAdd (tick.nowMs - cell.faultMs) spec.settleMs) ∨
      (v.rule = "hazard-recovered" ∧ v.measured = tick.nowMs - cell.faultMs) := by
  unfold checkEpisode at emitted
  dsimp only at emitted
  split at emitted
  next since _ found =>
    rw [List.mem_singleton.mp emitted]
    exact Or.inl ⟨rfl, since, found, rfl⟩
  · split at emitted
    · split at emitted
      · rw [List.mem_singleton.mp emitted]
        exact Or.inr (Or.inl ⟨rfl, rfl⟩)
      · cases emitted
    · cases emitted
  · cases emitted
  · cases emitted
  · rw [List.mem_singleton.mp emitted]
    exact Or.inr (Or.inr ⟨rfl, rfl⟩)
  · rw [List.mem_singleton.mp emitted]
    exact Or.inr (Or.inr ⟨rfl, rfl⟩)

theorem mem_checkHazard {v : Violation} (emitted : v ∈ (checkHazard spec cell tick).1) :
    v ∈ (checkEpisode spec cell tick).1 ∨ v.rule = "hazard-route-runtime" := by
  unfold checkHazard at emitted
  dsimp only at emitted
  split at emitted
  · rcases List.mem_append.mp emitted with episode | route
    · exact Or.inl episode
    · exact Or.inr ((checkRung_frame spec _ tick).2.2 v route)
  · exact Or.inl emitted

theorem checkRung_faultMs (spec : HazardSpec) (cell : HazardCell) (tick : HazardTick) :
    (checkRung spec cell tick).2.faultMs = cell.faultMs := by
  have falls : (fallen spec cell tick).faultMs = cell.faultMs := by
    rcases fallen_cases spec cell tick with kept | ⟨lower, _, fell⟩
    · rw [kept]
    · rw [fell]
  rw [checkRung_eq]
  split
  · rfl
  · split
    · exact falls
    next rung count _ =>
      have judging := judgeRung_judging spec rung count (fallen spec cell tick) tick
      generalize judgeRung spec rung count (fallen spec cell tick) tick = result at judging
      cases judging <;> exact falls

theorem checkHazard_began {since : Option UInt32} (clear : cell.phase = .clear)
    (found : hazardFault spec tick = some since) : (checkHazard spec cell tick).2.phase ≠ .clear ∧
      (checkHazard spec cell tick).2.faultMs = since.getD tick.nowMs := by
  have armed (cell : HazardCell) (active : Nat) :
      (armRung spec cell active tick.nowMs).phase = cell.phase ∧
        (armRung spec cell active tick.nowMs).faultMs = cell.faultMs := by
    unfold armRung
    split <;> exact ⟨rfl, rfl⟩
  simp only [checkHazard, checkEpisode, clear, found, Option.isSome_some, if_true]
  rw [(checkRung_frame spec _ tick).1, checkRung_faultMs, (armed _ _).1, (armed _ _).2]
  simp

theorem checkHazard_keeps (held : cell.phase ≠ .clear) (faulted : spec.Faulted tick) :
    (checkHazard spec cell tick).2.phase ≠ .clear ∧
      (checkHazard spec cell tick).2.faultMs = cell.faultMs := by
  rcases checkHazard_holds held faulted with ⟨_, phase, on, _, _, checked⟩
  rw [checked]
  dsimp only
  rw [(checkRung_frame spec _ tick).1, checkRung_faultMs]
  exact ⟨on, rfl⟩

theorem cellAfter_keeps {ticks : List HazardTick} (held : cell.phase ≠ .clear)
    (faulted : ∀ between ∈ ticks, spec.Faulted between) :
    (cellAfter spec cell ticks).faultMs = cell.faultMs := by
  induction ticks generalizing cell with
  | nil => rfl
  | cons tick ticks ih =>
    have step := checkHazard_keeps held (faulted tick List.mem_cons_self)
    have rest := ih step.1 fun between later => faulted between (List.mem_cons_of_mem _ later)
    exact rest.trans step.2

end

/-- A hazard is timed from its earliest start exactly if the clock's wrap does not lie between the
last takes of its faulted members. -/
theorem hazard_timed_iff (spec : HazardSpec) (cell : HazardCell) (tick : HazardTick)
    (detected : ∃ v ∈ (checkHazard spec cell tick).1, v.rule = "hazard-detected") :
    TimedFromEarliest spec cell tick ↔ OneSide tick.nowMs (spec.faultTimes tick) := by
  rcases (checkHazard_emits spec cell tick).1.mp detected with ⟨faulted, clear⟩
  rw [← hazardFault_isSome_iff] at faulted
  rcases Option.isSome_iff_exists.mp faulted with ⟨since, found⟩
  have least := least_hazardFault found
  have sides : (tick.nowMs - since.getD tick.nowMs).toNat = spec.longestFault tick ↔
      OneSide tick.nowMs (spec.faultTimes tick) := by
    cases since with
    | none =>
      rw [Least] at least
      rw [HazardSpec.longestFault, least, Option.getD_none, UInt32.sub_self]
      simp [OneSide, longestAgo]
    | some at_ => exact sub_least_eq_longestAgo_iff least
  have instant (v : Violation) (emitted : v ∈ (checkHazard spec cell tick).1)
      (rule : v.rule = "hazard-detected") :
      v.measured = tick.nowMs - since.getD tick.nowMs := by
    rcases mem_checkHazard emitted with episode | route
    · rcases checkEpisode_measured episode with ⟨_, _, same, measured⟩ | reaction | recovered
      · rw [found] at same
        cases same
        exact measured
      · exact absurd (reaction.1.symm.trans rule) (by decide)
      · exact absurd (recovered.1.symm.trans rule) (by decide)
    · exact absurd (route.symm.trans rule) (by decide)
  constructor
  · intro timed
    rcases detected with ⟨v, emitted, rule⟩
    rw [← sides, ← instant v emitted rule]
    exact timed.1 v emitted rule
  · intro within
    have longest := sides.mpr within
    have began : since.getD tick.nowMs = spec.earliestFault tick := by
      rw [HazardSpec.earliestFault, ← longest, UInt32.ofNat_toNat]
      grind
    refine ⟨?_, ?_⟩
    · intro v emitted rule
      rw [instant v emitted rule]
      exact longest
    · intro ticks still later v emitted
      have opened := checkHazard_began clear found
      have kept : (cellAfter spec cell (tick :: ticks)).faultMs = spec.earliestFault tick :=
        (cellAfter_keeps opened.1 still).trans (opened.2.trans began)
      rw [← kept]
      rcases mem_checkHazard emitted with episode | route
      · rcases checkEpisode_measured episode with ⟨rule, _⟩ | ⟨rule, measured⟩ | ⟨rule, measured⟩
        · simp [rule]
        · simp [rule, measured]
        · simp [rule, measured]
      · simp [route]

def pairHazard : HazardSpec :=
  ⟨"demo/pair_lost", 500, 0, [⟨false, [.age 0, .age 1]⟩], 65535, []⟩

/-- Both members silent, 5 ms after the clock wrapped. -/
def silentPair (first second : UInt32) : HazardTick :=
  ⟨[], [], [⟨true, first⟩, ⟨true, second⟩], 0, 5⟩

theorem hazard_timed_both_after :
    TimedFromEarliest pairHazard HazardCell.new (silentPair 2 4) :=
  (hazard_timed_iff pairHazard HazardCell.new (silentPair 2 4) (by decide +kernel)).mpr
    (by decide +kernel)

/-- Silent since 3 ms after the wrap, and since 100 ms before it: timed from the former. -/
theorem hazard_timed_across_wrap_fails : ¬ ∀ (spec : HazardSpec) (cell : HazardCell)
    (tick : HazardTick), (∃ v ∈ (checkHazard spec cell tick).1, v.rule = "hazard-detected") →
    (∀ at_ ∈ spec.faultTimes tick, (tick.nowMs - at_).toNat < 2 ^ 31) →
    TimedFromEarliest spec cell tick := by
  intro all
  have recent : (pairHazard.faultTimes (silentPair 2 4294967196)).all
      (fun at_ => ((silentPair 2 4294967196).nowMs - at_).toNat < 2 ^ 31) = true := by
    decide +kernel
  simp only [List.all_eq_true, decide_eq_true_eq] at recent
  have timed := all pairHazard HazardCell.new (silentPair 2 4294967196) (by decide +kernel) recent
  have emitted : ⟨"hazard-detected", "demo/pair_lost", 3, 500⟩ ∈
      (checkHazard pairHazard HazardCell.new (silentPair 2 4294967196)).1 := by decide +kernel
  have measured := timed.1 _ emitted rfl
  revert measured
  decide +kernel

end NanoRos
