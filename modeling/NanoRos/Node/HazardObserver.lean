import NanoRos.Node.RateMonitor

/-! The hazard observer of the contract monitors (`check_hazard`): one machine follows a hazard from
detection to recovery, a second one the routes of the rungs of its ladder, in the same tick. -/

namespace NanoRos

/-- The fields of an age row's state that the observer reads. -/
structure AgeState where
  silenceReported : Bool
  lastTakeMs : UInt32

inductive HazardMonitorRef where
  | age (row : UInt16)
  | rate (row : UInt16)

structure HazardMonitorSpec where
  allOf : Bool
  members : List HazardMonitorRef

structure RungSpec where
  mode : UInt16
  outputRow : UInt16
  routeMs : UInt32
  startsAt : List HazardMonitorRef

structure HazardSpec where
  key : String
  fttiMs : UInt32
  settleMs : UInt32
  monitors : List HazardMonitorSpec
  sink : UInt16
  rungs : List RungSpec

inductive HazardPhase where
  | clear
  | detected
  | reacted
  deriving DecidableEq

inductive RungState where
  | idle
  | armed
  | watching
  | judged
  deriving DecidableEq

structure HazardCell where
  phase : HazardPhase
  faultMs : UInt32
  sinkCount : UInt32
  rungActive : Nat
  rungArmedMs : UInt32
  rungClockMs : UInt32
  rungCount : UInt32
  rungState : RungState

def HazardCell.new : HazardCell := ⟨.clear, 0, 0, 0, 0, 0, 0, .idle⟩

/-- `NO_MODE`. -/
def noMode : UInt16 := 65535

/-- What a tick finds: the publish counters of the monitor table, the states of the rows, the
executor's mode and the time. -/
structure HazardTick where
  counts : List UInt32
  monitorStates : List MonitorState
  ageStates : List AgeState
  mode : UInt16
  nowMs : UInt32

/-- Whether a member has faulted, and since when if its row knows. -/
def memberFault (tick : HazardTick) : HazardMonitorRef → Option (Option UInt32)
  | .age row => do
    let state ← tick.ageStates[row.toNat]?
    if state.silenceReported then some (some state.lastTakeMs) else none
  | .rate row => do
    let state ← tick.monitorStates[row.toNat]?
    if state.violatedLastWindow then some none else none

def earlier (since : Option UInt32) (time : UInt32) : Option UInt32 :=
  some (match since with
    | some s => min s time
    | none => time)

/-- The members of a guard that have faulted so far, and the earliest start they know. -/
def noteMember (tick : HazardTick) (found : Nat × Option UInt32) (member : HazardMonitorRef) :
    Nat × Option UInt32 :=
  match memberFault tick member with
  | some (some time) => (found.1 + 1, earlier found.2 time)
  | some none => (found.1 + 1, found.2)
  | none => found

def guardSeen (tick : HazardTick) (members : List HazardMonitorRef) : Nat × Option UInt32 :=
  members.foldl (noteMember tick) (0, none)

def guardFaulted (tick : HazardTick) (spec : HazardMonitorSpec) : Bool :=
  if spec.allOf then
    !spec.members.isEmpty && decide ((guardSeen tick spec.members).1 = spec.members.length)
  else decide (0 < (guardSeen tick spec.members).1)

def noteGuard (tick : HazardTick) (found : Bool × Option UInt32) (spec : HazardMonitorSpec) :
    Bool × Option UInt32 :=
  if guardFaulted tick spec then
    match (guardSeen tick spec.members).2 with
    | some time => (true, earlier found.2 time)
    | none => (true, found.2)
  else found

def hazardFault (spec : HazardSpec) (tick : HazardTick) : Option (Option UInt32) :=
  let found := spec.monitors.foldl (noteGuard tick) (false, none)
  if found.1 then some found.2 else none

def armRung (spec : HazardSpec) (cell : HazardCell) (active : Nat) (nowMs : UInt32) : HazardCell :=
  if spec.rungs.length ≤ active then { cell with rungState := .idle }
  else { cell with rungActive := active, rungArmedMs := nowMs, rungState := .armed }

def RungSpec.inMode (rung : RungSpec) (mode : UInt16) : Bool :=
  decide (rung.mode ≠ noMode) && decide (rung.mode = mode)

/-- The first rung below the active one whose mode the executor is in. -/
def lowerRung (spec : HazardSpec) (active : Nat) (mode : UInt16) : Option Nat :=
  ((spec.rungs.zipIdx.drop (active + 1)).find? fun rung => rung.1.inMode mode).map Prod.snd

/-- The executor's mode may have put a lower rung in charge. -/
def fallen (spec : HazardSpec) (cell : HazardCell) (tick : HazardTick) : HazardCell :=
  match lowerRung spec cell.rungActive tick.mode with
  | some lower => armRung spec cell lower tick.nowMs
  | none => cell

/-- The active rung's route, once its output is observed. -/
def judgeRung (spec : HazardSpec) (rung : RungSpec) (count : UInt32) (cell : HazardCell)
    (tick : HazardTick) : List Violation × HazardCell :=
  match cell.rungState with
  | .armed =>
    if rung.startsAt.isEmpty || rung.startsAt.any fun m => (memberFault tick m).isSome then
      ([], { cell with
        rungClockMs := if rung.startsAt.isEmpty then cell.rungArmedMs else tick.nowMs
        rungCount := count
        rungState := .watching })
    else ([], cell)
  | .watching =>
    let elapsed := tick.nowMs - cell.rungClockMs
    if count = cell.rungCount ∧ elapsed ≤ rung.routeMs then ([], cell)
    else
      (if rung.routeMs < elapsed then
        [⟨"hazard-route-runtime", spec.key, elapsed, rung.routeMs⟩]
      else [], { cell with rungState := .judged })
  | _ => ([], cell)

def checkRung (spec : HazardSpec) (cell : HazardCell) (tick : HazardTick) :
    List Violation × HazardCell :=
  if cell.rungState = .idle then ([], cell)
  else
    let cell := fallen spec cell tick
    match spec.rungs[cell.rungActive]? with
    | none => ([], cell)
    | some rung =>
      if rung.routeMs = 0 then ([], cell)
      else
        match tick.counts[rung.outputRow.toNat]? with
        | none => ([], cell)
        | some count => judgeRung spec rung count cell tick

/-- The part of a tick that follows the hazard. -/
def checkEpisode (spec : HazardSpec) (cell : HazardCell) (tick : HazardTick) :
    List Violation × HazardCell :=
  let sinkCount := tick.counts[spec.sink.toNat]?
  match cell.phase, hazardFault spec tick with
  | .clear, some since =>
    let began := since.getD tick.nowMs
    let active := (spec.rungs.findIdx? fun rung => rung.inMode tick.mode).getD 0
    ([⟨"hazard-detected", spec.key, tick.nowMs - began, spec.fttiMs⟩], armRung spec
        { cell with faultMs := began, sinkCount := sinkCount.getD 0, phase := .detected }
        active tick.nowMs)
  | .detected, some _ =>
    match sinkCount with
    | some count =>
      if count ≠ cell.sinkCount then
        ([⟨"hazard-reaction", spec.key,
          saturatingAdd (tick.nowMs - cell.faultMs) spec.settleMs, spec.fttiMs⟩],
          { cell with phase := .reacted })
      else ([], cell)
    | none => ([], cell)
  | .reacted, some _ => ([], cell)
  | .clear, none => ([], cell)
  | .detected, none | .reacted, none =>
    ([⟨"hazard-recovered", spec.key, tick.nowMs - cell.faultMs, spec.fttiMs⟩],
      { cell with phase := .clear, rungState := .idle })

def checkHazard (spec : HazardSpec) (cell : HazardCell) (tick : HazardTick) :
    List Violation × HazardCell :=
  let (verdicts, cell) := checkEpisode spec cell tick
  if (hazardFault spec tick).isSome then
    let (route, cell) := checkRung spec cell tick
    (verdicts ++ route, cell)
  else (verdicts, cell)

end NanoRos
