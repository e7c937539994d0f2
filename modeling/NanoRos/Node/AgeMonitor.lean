import NanoRos.Lib.Mask
import NanoRos.Node.HazardObserver

/-! The age rows of the contract monitors (`check_age`): a take's age against the declared bound,
and the lease on an endpoint that takes nothing, both judged from one drained observation. -/

namespace NanoRos

/-- What the take path records for a row between two checks. -/
structure SubMonitorCell where
  maxAgeMs : UInt32
  takes : UInt32
  deadlineSlot : UInt32
  arrivals : UInt32
  deriving DecidableEq

structure AgeMonitorSpec where
  topic : String
  fqn : String
  maxAgeMs : UInt32
  deadlineMs : UInt32
  deriving DecidableEq

/-- All the fields of an age row's state. -/
structure AgeRowState where
  violatedLastWindow : Bool
  silenceOpened : Bool
  silenceReported : Bool
  lastTakeMs : UInt32
  deriving DecidableEq

namespace SubMonitorCell

def new : SubMonitorCell := ⟨0, 0, 0, 0⟩

def ageMs (stampUs epochNowUs : UInt64) : UInt32 :=
  UInt32.ofNat (min ((epochNowUs.toNat - stampUs.toNat) / 1000) u32Max)

def observe (cell : SubMonitorCell) (stampUs epochNowUs : UInt64) : SubMonitorCell :=
  { cell with maxAgeMs := max cell.maxAgeMs (ageMs stampUs epochNowUs), takes := cell.takes + 1 }

def observeUnaged (cell : SubMonitorCell) : SubMonitorCell := { cell with takes := cell.takes + 1 }

/-- The subscription's creation arms its row. -/
def armDeadline (cell : SubMonitorCell) (slot : UInt32) : SubMonitorCell :=
  { cell with deadlineSlot := slot + 1 }

def deadlineUnbind (cell : SubMonitorCell) (slot : UInt32) : SubMonitorCell :=
  if cell.deadlineSlot = slot + 1 then { cell with deadlineSlot := 0 } else cell

/-- Whether the armed slot is in the executor's readiness bits. -/
def arrives (cell : SubMonitorCell) (ready : Mask 64) : Bool :=
  decide (cell.deadlineSlot ≠ 0) && decide (cell.deadlineSlot ≤ 64) &&
    ready.has (cell.deadlineSlot.toNat - 1)

def creditArrivals (cell : SubMonitorCell) (ready : Mask 64) : SubMonitorCell :=
  if cell.arrives ready then { cell with arrivals := cell.arrivals + 1 } else cell

end SubMonitorCell

def AgeRowState.default : AgeRowState := ⟨false, false, false, 0⟩

/-- `(now_us / 1_000) as u32`. -/
def clockMs (nowUs : UInt64) : UInt32 := UInt32.ofNat (nowUs.toNat / 1000)

def checkSilence (windowMs : UInt32) (state : AgeRowState) (took : UInt32) (nowUs : UInt64) :
    Bool × AgeRowState :=
  let nowMs := clockMs nowUs
  if !state.silenceOpened then
    (false, { state with silenceOpened := true, lastTakeMs := nowMs })
  else if 0 < took then (false, { state with lastTakeMs := nowMs, silenceReported := false })
  else if nowMs - state.lastTakeMs < windowMs then (false, state)
  else if state.silenceReported then (false, state)
  else (true, { state with silenceReported := true })

/-- The window of the silence rule; none for a row that judges no silence. -/
def AgeMonitorSpec.silenceWindowMs (spec : AgeMonitorSpec) (cell : SubMonitorCell) :
    Option UInt32 :=
  let armed := decide (0 < spec.deadlineMs) && decide (cell.deadlineSlot ≠ 0)
  if spec.maxAgeMs = 0 then if armed then some spec.deadlineMs else none
  else if armed then some (min spec.maxAgeMs spec.deadlineMs)
  else some spec.maxAgeMs

/-- Both counters are drained; an age contract goes by takes, a deadline alone by arrivals. -/
def silenceWindow (spec : AgeMonitorSpec) (cell : SubMonitorCell) :
    Option (UInt32 × UInt32) × SubMonitorCell :=
  let took := if spec.maxAgeMs = 0 then cell.arrivals else cell.takes
  ((spec.silenceWindowMs cell).map fun window => (window, took),
    { cell with takes := 0, arrivals := 0 })

def checkMaxAge (spec : AgeMonitorSpec) (cell : SubMonitorCell) (state : AgeRowState) :
    Option Violation × SubMonitorCell × AgeRowState :=
  if spec.maxAgeMs = 0 then (none, cell, state)
  else
    let maxMs := cell.maxAgeMs
    let cell := { cell with maxAgeMs := 0 }
    if spec.maxAgeMs < maxMs then
      if state.violatedLastWindow then (none, cell, state)
      else
        (some ⟨"max-age-runtime", spec.fqn, maxMs, spec.maxAgeMs⟩, cell,
          { state with violatedLastWindow := true })
    else (none, cell, { state with violatedLastWindow := false })

def checkAge (spec : AgeMonitorSpec) (cell : SubMonitorCell) (state : AgeRowState)
    (nowUs : Option UInt64) : Option Violation × SubMonitorCell × AgeRowState :=
  let (judged, cell) := silenceWindow spec cell
  match judged with
  | none => (none, cell, state)
  | some (windowMs, took) =>
    match nowUs with
    | none => checkMaxAge spec cell state
    | some nowUs =>
      let (silent, state) := checkSilence windowMs state took nowUs
      if silent then (some ⟨"silence-runtime", spec.fqn, 0, windowMs⟩, cell, state)
      else checkMaxAge spec cell state

end NanoRos
