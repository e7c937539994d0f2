import NanoRos.Lib.Mask
import NanoRos.Lib.Runs
import NanoRos.Node.SchedContext
import NanoRos.Node.Timer
import Mathlib.Logic.Function.Basic

/-! The passes of the executor (`Executor::pass`, `merge_mid_pass`) and the deferred dispatch of
`deferred.rs`, step by step. -/

namespace NanoRos

/-- The callback table has 64 slots, one bit of a `u64` each. -/
abbrev SlotMask := Mask 64

inductive InvocationMode where
  | onNewData
  | always
  deriving DecidableEq

inductive HandleKind where
  | subscription
  | service
  | serviceClient
  | actionServer
  | actionClient
  | guardCondition
  deriving DecidableEq

/-- An entry that waits for data: what its backend holds, and whether a sample taken for the
logical execution time sits in its buffer (`sampled_len > 0`). -/
structure HandleEntry where
  kind : HandleKind
  alwaysReady : Bool
  preSamples : Bool
  waiting : Nat
  sampled : Bool

inductive EntryBody where
  | timer (header : TimerEntry)
  | handle (entry : HandleEntry)

structure CallbackMeta where
  body : EntryBody
  invocation : InvocationMode

def EntryBody.hasData : EntryBody → Bool
  | .timer _ => true
  | .handle entry => entry.alwaysReady || decide (0 < entry.waiting)

def EntryBody.isTimer : EntryBody → Bool
  | .timer _ => true
  | .handle _ => false

def EntryBody.isGuard : EntryBody → Bool
  | .timer _ => false
  | .handle entry => decide (entry.kind = .guardCondition)

/-- The items a backend holds for the entry. -/
def EntryBody.waiting : EntryBody → Nat
  | .timer _ => 0
  | .handle entry => entry.waiting

/-- A sample that was taken and not dispatched sits in the entry's buffer. -/
def EntryBody.sampled : EntryBody → Bool
  | .timer _ => false
  | .handle entry => entry.sampled

def EntryBody.preSample : EntryBody → EntryBody
  | .timer header => .timer header
  | .handle entry =>
    if entry.kind = .subscription ∧ entry.preSamples then
      .handle { entry with sampled := decide (0 < entry.waiting), waiting := entry.waiting - 1 }
    else .handle entry

/-- One advance of a timer's clock: `elapsed_us` before and after. -/
structure Credit where
  slot : Nat
  before : Nat
  after : Nat
  deriving DecidableEq

/-- `timer_try_process` up to its callback: the entry, whether the callback is due, and the
advance. -/
def timerBegin (entry : TimerEntry) (clocks : ClockReadings) (deltaUs : Nat) :
    TimerEntry × Bool × Option (Nat × Nat) :=
  if entry.cancelled || (entry.oneshot && entry.fired) then (entry, false, none)
  else
    let (step, reading) := timerClockStep entry.clockSource entry.lastClockNs clocks deltaUs
    match step with
    | .restart => ({ entry with lastClockNs := reading, elapsedUs := 0 }, false, none)
    | .advance us =>
      let elapsed := saturatingAdd64 entry.elapsedUs us
      ({ entry with lastClockNs := reading, elapsedUs := elapsed },
        decide (entry.periodUs ≤ elapsed), some (entry.elapsedUs, elapsed))

theorem timerTryProcess_eq_begin (callback : TimerCallInfo → TimerEntry → TimerEntry)
    (entry : TimerEntry) (clocks : ClockReadings) (deltaUs : Nat) :
    timerTryProcess callback entry clocks deltaUs =
      let started := timerBegin entry clocks deltaUs
      if started.2.1 then
        let info := timerCallInfo started.1.clockSource clocks started.1.lastClockNs
          started.1.elapsedUs started.1.periodUs
        (some info, timerSettle (callback info started.1))
      else (none, started.1) := by
  simp only [timerTryProcess, timerBegin]
  split
  · rfl
  · cases timerClockStep entry.clockSource entry.lastClockNs clocks deltaUs with
    | mk step reading =>
      cases step with
      | restart => rfl
      | advance us => simp only [decide_eq_true_eq]

/-- What `try_process` does before it calls back: whether a callback runs, and the advance of a
timer's clock. A handle gives at most one item, the sampled one first. -/
def EntryBody.begin (body : EntryBody) (clocks : ClockReadings) (deltaUs : Nat) (took : Bool) :
    EntryBody × Bool × Option (Nat × Nat) :=
  match body with
  | .timer header =>
    let (header, due, advance) := timerBegin header clocks deltaUs
    (.timer header, due, advance)
  | .handle entry =>
    if entry.sampled then (.handle { entry with sampled := false }, true, none)
    else if took then (.handle { entry with waiting := entry.waiting - 1 }, true, none)
    else (.handle entry, true, none)

/-- A budget holds the entry back: a timer's clock moves all the same. -/
def EntryBody.skip (body : EntryBody) (clocks : ClockReadings) (deltaUs : Nat) : EntryBody :=
  match body with
  | .timer header => .timer (timerAdvanceWithoutDispatch header clocks deltaUs)
  | .handle entry => .handle entry

/-- A timer on the steady clock that is neither cancelled nor a one-shot that has fired. -/
def EntryBody.isArmedSteady : EntryBody → Bool
  | .timer header =>
    decide (header.clockSource = .steady) && !header.cancelled && !(header.oneshot && header.fired)
  | .handle _ => false

inductive TimerOp where
  | cancel
  | reset

def TimerOp.apply (op : TimerOp) (clocks : ClockReadings) (header : TimerEntry) : TimerEntry :=
  match op with
  | .cancel => { header with cancelled := true }
  | .reset =>
    { header with
      cancelled := false
      elapsedUs := 0
      lastClockNs := header.clockSource.nowNs clocks }

structure SlotTag where
  inDispatch : Bool
  releasePending : Bool
  timerOp : Option TimerOp

def SlotTag.clear : SlotTag := ⟨false, false, none⟩

inductive ExecutorSemantics where
  | rclcppExecutor
  | logicalExecutionTime
  deriving DecidableEq

inductive Trigger where
  | any
  | all
  | one (slot : Nat)
  | allOf (set : SlotMask)
  | anyOf (set : SlotMask)
  | always
  | predicate (callback : SlotMask → Nat → Bool)
  | rawPredicate (callback : List Bool → Nat → Bool)

def Trigger.passes (trigger : Trigger) (bits : SlotMask) (count : Nat)
    (nonTimer guards : SlotMask) : Bool :=
  match trigger with
  | .any => decide (bits &&& (nonTimer ||| guards) ≠ 0#64) || decide (nonTimer = 0#64)
  | .all => decide (bits &&& nonTimer = nonTimer)
  | .one slot => bits.has slot
  | .allOf set => decide (bits &&& set = set)
  | .anyOf set => decide (bits &&& set ≠ 0#64)
  | .always => true
  | .predicate callback => callback bits count
  | .rawPredicate callback =>
    callback ((List.range 64).map fun i => decide (i < count) && bits.has i) count

structure SpinConfig where
  contexts : Nat → Option SchedContext
  majorFrameUs : UInt32
  trigger : Trigger
  semantics : ExecutorSemantics
  reprobeEachCallback : Bool

def SpinConfig.classOf (cfg : SpinConfig) (sc : Nat) : SchedClass :=
  match cfg.contexts sc with
  | some context => context.schedClass
  | none => .fifo

/-- The context has a time-triggered window. -/
def SpinConfig.windowed (cfg : SpinConfig) (sc : Nat) : Bool :=
  decide (0 < cfg.majorFrameUs) &&
    match cfg.contexts sc with
    | some context => decide (0 < context.ttWindowDurationUs)
    | none => false

def SpinConfig.windowOpen (cfg : SpinConfig) (sc nowUs : Nat) : Bool :=
  match cfg.contexts sc with
  | some context =>
    !cfg.windowed sc || inWindow cfg.majorFrameUs context.ttWindowOffsetUs
      context.ttWindowDurationUs nowUs
  | none => true

/-- `DeadlineAction::Skip` contains the context after a dispatch that ran this long. -/
def SpinConfig.contains (cfg : SpinConfig) (sc : Nat) (elapsedUs : UInt32) : Bool :=
  match cfg.contexts sc with
  | some context =>
    decide (context.deadlineAction = .skip) && decide (0 < context.deadlineUs) &&
      decide (context.deadlineUs < elapsedUs) && decide (sc < 64)
  | none => false

def SpinConfig.repick (cfg : SpinConfig) : Bool :=
  decide (cfg.semantics ≠ .logicalExecutionTime) &&
    match cfg.trigger with
    | .any | .always => true
    | _ => false

/-- The readiness scan: the words it took, the masks it fills, and the slot it comes to next. -/
structure Scan where
  pass : Nat
  band : SlotMask
  nowUs : Option Nat
  deltaUs : Nat
  attributed : SlotMask
  arrived : SlotMask
  recheck : SlotMask
  carry : SlotMask
  bits : SlotMask
  nonTimer : SlotMask
  guards : SlotMask
  always : SlotMask
  count : Nat
  next : Nat

/-- What is left to do: the timers from a slot on, or the queued slots. `settled` are the slots
that do not join the pass again, `skipped` the contexts it contained. -/
inductive PassWork where
  | sweep (next : Nat)
  | drain (queue : List Nat) (settled skipped : SlotMask)

/-- The slot whose callback runs, the context it was picked under, and whether a timer fired. -/
structure Running where
  slot : Nat
  context : Nat
  fired : Bool

/-- What a pass saw and did. Nothing the pass does depends on it. -/
structure PassLog where
  hadBudget : Nat → Bool
  owed : SlotMask
  dispatched : List Nat
  ran : List (Nat × Nat)
  credits : List Credit

structure SpinPass where
  band : SlotMask
  nowUs : Option Nat
  deltaUs : Nat
  work : PassWork
  running : Option Running
  log : PassLog

/-- `run_deferred` under way: the slots it has not come to, and the one whose callback runs. -/
structure DeferredRun where
  rest : SlotMask
  running : Option Nat

structure SpinExecutor where
  entries : Nat → Option CallbackMeta
  tags : Nat → SlotTag
  bindings : Nat → Nat
  ready : SlotMask
  entityAttributed : SlotMask
  entityRecheck : SlotMask
  entityStatusPolled : SlotMask
  deferredMask : SlotMask
  deferredPending : SlotMask
  sporadicStates : Nat → Option SporadicState
  atomicStates : Nat → Option AtomicSporadicState
  /-- Arrivals that are in the backend's queue and have not set their bit yet. -/
  announcing : Nat → Nat
  scan : Option Scan
  passes : Nat → Option SpinPass
  deferredRuns : Nat → Option DeferredRun

namespace SpinExecutor

open Function

/-- The entry is not to be touched now (`slot_held`). -/
def held (s : SpinExecutor) (i : Nat) : Bool := (s.tags i).inDispatch || (s.tags i).releasePending

/-- A live entry whose release nobody has asked for (`resolve_handle`). -/
def resolves (s : SpinExecutor) (i : Nat) : Bool :=
  (s.entries i).isSome && !(s.tags i).releasePending

def setTag (s : SpinExecutor) (i : Nat) (tag : SlotTag) : SpinExecutor :=
  { s with tags := update s.tags i tag }

def setBody (s : SpinExecutor) (i : Nat) (body : EntryBody) : SpinExecutor :=
  { s with entries := update s.entries i ((s.entries i).map fun m => { m with body := body }) }

def setPass (s : SpinExecutor) (p : Nat) (pass : Option SpinPass) : SpinExecutor :=
  { s with passes := update s.passes p pass }

def setDeferredRun (s : SpinExecutor) (d : Nat) (run : Option DeferredRun) : SpinExecutor :=
  { s with deferredRuns := update s.deferredRuns d run }

/-- The entry is dropped and its slot is as good as new. -/
def dropEntry (s : SpinExecutor) (i : Nat) : SpinExecutor :=
  { s with
    entries := update s.entries i none
    tags := update s.tags i SlotTag.clear
    bindings := update s.bindings i 0
    entityAttributed := s.entityAttributed.erase i
    entityRecheck := s.entityRecheck.erase i
    entityStatusPolled := s.entityStatusPolled.erase i
    deferredMask := s.deferredMask.erase i
    deferredPending := s.deferredPending.erase i
    announcing := update s.announcing i 0 }

/-- A release asked for while the entry's callback runs waits for it to return. -/
def releaseEntry (s : SpinExecutor) (i : Nat) : SpinExecutor :=
  if (s.tags i).inDispatch then s.setTag i { s.tags i with releasePending := true }
  else s.dropEntry i

def completeDeferredRelease (s : SpinExecutor) (i : Nat) : SpinExecutor :=
  if (s.tags i).releasePending && !(s.tags i).inDispatch && (s.entries i).isSome then
    s.dropEntry i
  else s

def reapDeferredReleases (s : SpinExecutor) : SpinExecutor :=
  (List.range 64).foldl completeDeferredRelease s

def applyTimerOp (s : SpinExecutor) (i : Nat) (op : TimerOp) (clocks : ClockReadings) :
    SpinExecutor :=
  match (s.entries i).map CallbackMeta.body with
  | some (.timer header) => s.setBody i (.timer (op.apply clocks header))
  | _ => s

def applyDeferredTimerOp (s : SpinExecutor) (i : Nat) (clocks : ClockReadings) : SpinExecutor :=
  match (s.tags i).timerOp with
  | some op => (s.setTag i { s.tags i with timerOp := none }).applyTimerOp i op clocks
  | none => s

def finishDispatch (s : SpinExecutor) (i : Nat) (clocks : ClockReadings) : SpinExecutor :=
  let s := s.applyDeferredTimerOp i clocks
  (s.setTag i { s.tags i with inDispatch := false }).completeDeferredRelease i

def hasBudget (s : SpinExecutor) (sc : Nat) : Bool :=
  match s.atomicStates sc with
  | some state => decide (0 < state.budgetRemainingUs)
  | none =>
    match s.sporadicStates sc with
    | some state => decide (0 < state.budgetRemainingUs)
    | none => true

/-- A sporadic context is charged what its callback took. -/
def consumeDispatchRuntime (cfg : SpinConfig) (s : SpinExecutor) (i : Nat) (elapsedUs : UInt32) :
    SpinExecutor :=
  let sc := s.bindings i
  if cfg.classOf sc = .sporadic then
    { s with
      atomicStates := update s.atomicStates sc ((s.atomicStates sc).map (·.consume elapsedUs))
      sporadicStates :=
        update s.sporadicStates sc ((s.sporadicStates sc).map (·.consume elapsedUs)) }
  else s

/-- The deferred slots among the ready ones are queued for the host; the others are left. -/
def deferReady (s : SpinExecutor) (ready : SlotMask) : SpinExecutor × SlotMask :=
  ({ s with deferredPending := s.deferredPending ||| (ready &&& s.deferredMask) },
    ready.diff s.deferredMask)

/-- The start of a pass: the band's arrivals leave the ready word, its rechecks the recheck
word. -/
def beginScan (s : SpinExecutor) (p : Nat) (band : SlotMask) (nowUs : Option Nat)
    (deltaUs : Nat) : SpinExecutor :=
  let arrived := s.ready &&& band
  let recheck := (s.entityRecheck &&& band) ||| (s.entityStatusPolled &&& band)
  { s with
    ready := s.ready.diff band
    entityRecheck := s.entityRecheck.diff band
    scan := some
      { pass := p
        band := band
        nowUs := nowUs
        deltaUs := deltaUs
        attributed := s.entityAttributed
        arrived := arrived &&& s.entityAttributed
        recheck := recheck &&& s.entityAttributed
        carry := 0#64
        bits := 0#64
        nonTimer := 0#64
        guards := 0#64
        always := 0#64
        count := 0
        next := 0 } }

/-- An arrival or an answered probe; the probe is made only where no arrival can be pushed, or
where one may have been missed. -/
def scanReady (scan : Scan) (i : Nat) (body : EntryBody) : Bool :=
  let pushed := scan.attributed.has i
  if pushed && scan.arrived.has i then true
  else if pushed && !scan.recheck.has i then false
  else body.hasData

def scanSlot (s : SpinExecutor) (scan : Scan) : Scan :=
  let i := scan.next
  let scan := { scan with next := i + 1 }
  match s.entries i with
  | none => scan
  | some entry =>
    if !scan.band.has i then scan
    else if s.held i then
      { scan with carry := scan.carry ||| (scan.arrived ||| scan.recheck).only i }
    else
      { scan with
        bits := if scanReady scan i entry.body then scan.bits.insert i else scan.bits
        nonTimer := if entry.body.isTimer || entry.body.isGuard then scan.nonTimer
          else scan.nonTimer.insert i
        guards := if entry.body.isGuard then scan.guards.insert i else scan.guards
        always := if entry.invocation = .always then scan.always.insert i else scan.always
        count := scan.count + 1 }

/-- The pass samples every subscription of its band that nobody holds. -/
def preSample (s : SpinExecutor) (band : SlotMask) : SpinExecutor :=
  { s with
    entries := fun i =>
      if band.has i && !s.held i then
        (s.entries i).map fun m => { m with body := m.body.preSample }
      else s.entries i }

def refillSporadic (s : SpinExecutor) (nowUs : Option Nat) : SpinExecutor :=
  match nowUs with
  | some now =>
    { s with sporadicStates := fun sc => (s.sporadicStates sc).map (·.refill (now / 1000)) }
  | none => s

/-- The slot is active and its context's budget is exhausted. -/
def throttled (cfg : SpinConfig) (s : SpinExecutor) (active : SlotMask) (i : Nat) : Bool :=
  active.has i && decide (cfg.classOf (s.bindings i) = .sporadic) && !s.hasBudget (s.bindings i)

def skipCredit (s : SpinExecutor) (clocks : ClockReadings) (deltaUs i : Nat) : Option Credit :=
  match (s.entries i).map CallbackMeta.body with
  | some (.timer header) =>
    some ⟨i, header.elapsedUs, (timerAdvanceWithoutDispatch header clocks deltaUs).elapsedUs⟩
  | _ => none

def advanceThrottled (cfg : SpinConfig) (s : SpinExecutor) (active : SlotMask)
    (clocks : ClockReadings) (deltaUs : Nat) : SpinExecutor :=
  { s with
    entries := fun i =>
      if s.throttled cfg active i then
        (s.entries i).map fun m => { m with body := m.body.skip clocks deltaUs }
      else s.entries i }

def gatedQueue (cfg : SpinConfig) (s : SpinExecutor) (active : SlotMask) (nowUs : Nat) : List Nat :=
  (List.range 64).filter fun i =>
    active.has i && !s.throttled cfg active i && cfg.windowOpen (s.bindings i) nowUs

/-- The steady timers whose clock this pass has to advance. -/
def owedTimers (s : SpinExecutor) (band : SlotMask) : SlotMask :=
  Mask.collect 64 fun i =>
    band.has i && !s.held i && (s.entries i).any fun m => m.body.isArmedSteady

def sweepPass (s : SpinExecutor) (scan : Scan) : SpinPass where
  band := scan.band
  nowUs := scan.nowUs
  deltaUs := scan.deltaUs
  work := .sweep 0
  running := none
  log := ⟨s.hasBudget, s.owedTimers scan.band, [], [], []⟩

def startSweep (s : SpinExecutor) (scan : Scan) : SpinExecutor :=
  s.setPass scan.pass (some (s.sweepPass scan))

/-- The samples are taken and the budgets refilled; now the gates are asked. -/
def prepared (cfg : SpinConfig) (s : SpinExecutor) (scan : Scan) : SpinExecutor :=
  let s := if cfg.semantics = .logicalExecutionTime then s.preSample scan.band else s
  s.refillSporadic scan.nowUs

def drainPass (cfg : SpinConfig) (s : SpinExecutor) (scan : Scan) (active : SlotMask)
    (clocks : ClockReadings) : SpinPass where
  band := scan.band
  nowUs := scan.nowUs
  deltaUs := scan.deltaUs
  work := .drain (s.gatedQueue cfg active (scan.nowUs.getD scan.deltaUs)) active 0#64
  running := none
  log :=
    { hadBudget := s.hasBudget
      owed := s.owedTimers scan.band
      dispatched := []
      ran := []
      credits := ((List.range 64).filter (s.throttled cfg active)).filterMap
        (s.skipCredit clocks scan.deltaUs) }

def startDrain (cfg : SpinConfig) (s : SpinExecutor) (scan : Scan) (active : SlotMask)
    (clocks : ClockReadings) : SpinExecutor :=
  let s := s.prepared cfg scan
  (s.advanceThrottled cfg active clocks scan.deltaUs).setPass scan.pass
    (some (s.drainPass cfg scan active clocks))

/-- The end of the scan: deferred slots are queued for the host, and every other ready attributed
slot is asked again next time. -/
def endScan (s : SpinExecutor) (scan : Scan) : SpinExecutor :=
  let (s, bits) := { s with scan := none }.deferReady scan.bits
  { s with entityRecheck := s.entityRecheck ||| (scan.carry ||| (bits &&& scan.attributed)) }

/-- The slots an evaluation dispatches if it dispatches any; deferred ones are the host's. -/
def activeSlots (s : SpinExecutor) (scan : Scan) : SlotMask :=
  scan.bits.diff s.deferredMask ||| scan.always.diff s.deferredMask

def triggerPasses (cfg : SpinConfig) (s : SpinExecutor) (scan : Scan) : Bool :=
  cfg.trigger.passes (scan.bits.diff s.deferredMask) scan.count
    (scan.nonTimer.diff s.deferredMask) scan.guards

/-- The trigger decides between the drain and the sweep. -/
def evaluate (cfg : SpinConfig) (s : SpinExecutor) (scan : Scan) (clocks : ClockReadings) :
    SpinExecutor :=
  if s.triggerPasses cfg scan then
    (s.endScan scan).startDrain cfg scan (s.activeSlots scan) clocks
  else (s.endScan scan).startSweep scan

/-- The slots a dispatch made ready join the pass. One it has settled waits for the next, and so
does one whose context is gated, whose entry is gone or whose callback runs. -/
def mergeMidPass (cfg : SpinConfig) (s : SpinExecutor) (band : SlotMask) (queue : List Nat)
    (settled : SlotMask) : SpinExecutor × List Nat × SlotMask :=
  let arrived := (s.ready &&& band) &&& s.entityAttributed
  let s := { s with
    ready := s.ready.diff band
    entityRecheck := s.entityRecheck ||| (arrived &&& settled) }
  let fresh := arrived.diff settled
  let probed := Mask.collect 64 fun i =>
    cfg.reprobeEachCallback && !(settled ||| s.entityAttributed ||| fresh).has i && band.has i &&
      !s.held i && (s.entries i).any fun m =>
        !m.body.isTimer && !m.body.isGuard && decide (m.invocation ≠ .always) && m.body.hasData
  let (s, fresh) := s.deferReady (fresh ||| probed)
  let joins := fun i => fresh.has i && (s.entries i).isSome && !s.held i &&
    !decide (cfg.classOf (s.bindings i) = .sporadic) && !cfg.windowed (s.bindings i)
  ({ s with entityRecheck := s.entityRecheck ||| (fresh &&& s.entityAttributed) },
    queue ++ (List.range 64).filter joins, settled ||| Mask.collect 64 joins)

/-- The pass after the merge that follows a pick, where it repicks. -/
def merged (cfg : SpinConfig) (s : SpinExecutor) (pass : SpinPass) : SpinPass :=
  match pass.work with
  | .drain queue settled skipped =>
    if cfg.repick then
      let (_, queue, settled) := s.mergeMidPass cfg pass.band queue settled
      { pass with work := .drain queue settled skipped }
    else pass
  | .sweep _ => pass

def afterPick (cfg : SpinConfig) (s : SpinExecutor) (p : Nat) (pass : SpinPass) : SpinExecutor :=
  match pass.work with
  | .drain queue settled _ =>
    if cfg.repick then
      (s.mergeMidPass cfg pass.band queue settled).1.setPass p (some (s.merged cfg pass))
    else s.setPass p (some pass)
  | .sweep _ => s.setPass p (some pass)

/-- The pass owes a slot nothing once it finds no steady timer there that it may touch. -/
def excuse (s : SpinExecutor) (pass : SpinPass) (i : Nat) : SpinPass :=
  if !s.held i && (s.entries i).any fun m => m.body.isArmedSteady then pass
  else { pass with log := { pass.log with owed := pass.log.owed.erase i } }

def logDispatch (log : PassLog) (i sc : Nat) (ran : Bool) (advance : Option (Nat × Nat)) :
    PassLog :=
  { log with
    dispatched := log.dispatched ++ [i]
    ran := if ran then log.ran ++ [(i, sc)] else log.ran
    credits := log.credits ++ advance.toList.map fun step => ⟨i, step.1, step.2⟩ }

/-- The pass while the callback of a slot runs. -/
def dispatching (s : SpinExecutor) (pass : SpinPass) (i : Nat) (body : EntryBody)
    (clocks : ClockReadings) (took : Bool) : SpinPass :=
  let (_, ran, advance) := body.begin clocks pass.deltaUs took
  { pass with
    running := some ⟨i, s.bindings i, ran⟩
    log := logDispatch pass.log i (s.bindings i) ran advance }

/-- The callback of a slot is called, if there is one to call. -/
def startDispatch (s : SpinExecutor) (p : Nat) (pass : SpinPass) (i : Nat) (body : EntryBody)
    (clocks : ClockReadings) (took : Bool) : SpinExecutor :=
  ((s.setBody i (body.begin clocks pass.deltaUs took).1).setTag i
    { s.tags i with inDispatch := true }).setPass p
      (some (s.dispatching pass i body clocks took))

/-- A timer of the sweep, whatever gates its context has. -/
def sweepNext (s : SpinExecutor) (p : Nat) (pass : SpinPass) (i : Nat) (clocks : ClockReadings) :
    SpinExecutor :=
  let passed := { s.excuse pass i with work := .sweep (i + 1) }
  match s.entries i with
  | some entry =>
    if entry.body.isTimer && pass.band.has i && !s.held i then
      s.startDispatch p passed i entry.body clocks false
    else s.setPass p (some passed)
  | none => s.setPass p (some passed)

def pick (cfg : SpinConfig) (s : SpinExecutor) (p : Nat) (pass : SpinPass) (queue : List Nat)
    (settled skipped : SlotMask) (i : Nat) (clocks : ClockReadings) (took : Bool) :
    SpinExecutor :=
  let passed := { s.excuse pass i with work := .drain (queue.erase i) settled skipped }
  if skipped.has (s.bindings i) then s.setPass p (some passed)
  else
    match s.entries i with
    | some entry =>
      if s.held i then s.afterPick cfg p passed
      else s.startDispatch p passed i entry.body clocks took
    | none => s.afterPick cfg p passed

/-- What a timer does to its entry once the callback is back. -/
def settleTimer (s : SpinExecutor) (i : Nat) : SpinExecutor :=
  match (s.entries i).map CallbackMeta.body with
  | some (.timer header) => s.setBody i (.timer (timerSettle header))
  | _ => s

def callbackReturn (cfg : SpinConfig) (s : SpinExecutor) (p : Nat) (pass : SpinPass)
    (running : Running) (clocks : ClockReadings) (elapsedUs : Option UInt32) : SpinExecutor :=
  let s := if running.fired then s.settleTimer running.slot else s
  let passed := { pass with running := none }
  match pass.work, elapsedUs with
  | .drain queue settled skipped, some elapsed =>
    let skipped := if cfg.contains running.context elapsed then skipped.insert running.context
      else skipped
    ((s.consumeDispatchRuntime cfg running.slot elapsed).finishDispatch running.slot
      clocks).afterPick cfg p { passed with work := .drain queue settled skipped }
  | _, _ => (s.finishDispatch running.slot clocks).afterPick cfg p passed

def dispatchDeferredSlot (s : SpinExecutor) (d : Nat) (rest : SlotMask) (i : Nat)
    (clocks : ClockReadings) (took : Bool) : SpinExecutor :=
  let skipped := s.setDeferredRun d (some ⟨rest, none⟩)
  if !s.deferredPending.has i || s.held i then skipped
  else
    let s := { s with deferredPending := s.deferredPending.erase i }
    match s.entries i with
    | some entry =>
      ((s.setBody i (entry.body.begin clocks 0 took).1).setTag i
        { s.tags i with inDispatch := true }).setDeferredRun d (some ⟨rest, some i⟩)
    | none => s.setDeferredRun d (some ⟨rest, none⟩)

def deferredReturn (s : SpinExecutor) (d : Nat) (rest : SlotMask) (i : Nat)
    (clocks : ClockReadings) : SpinExecutor :=
  let s := s.finishDispatch i clocks
  { s with entityRecheck := s.entityRecheck ||| s.entityAttributed.only i }.setDeferredRun d
    (some ⟨rest, none⟩)

/-- A registration; the backend took the waker or it did not (`arm_entity_wake`). -/
def register (s : SpinExecutor) (i : Nat) (entry : CallbackMeta) (attributed polled : Bool) :
    SpinExecutor :=
  { s with
    entries := update s.entries i (some entry)
    tags := update s.tags i SlotTag.clear
    entityAttributed :=
      if attributed then s.entityAttributed.insert i else s.entityAttributed.erase i
    entityRecheck := if attributed then s.entityRecheck.insert i else s.entityRecheck.erase i
    entityStatusPolled := if polled then s.entityStatusPolled.insert i else s.entityStatusPolled }

def setDeferred (s : SpinExecutor) (i : Nat) (deferred : Bool) : SpinExecutor :=
  if !s.resolves i || (s.entries i).any fun m => m.body.isTimer then s
  else if deferred then { s with deferredMask := s.deferredMask.insert i }
  else
    { s with
      deferredMask := s.deferredMask.erase i
      deferredPending := s.deferredPending.erase i }

/-- The backend has one more item for a live handle; an attributed one is to be announced. -/
def enqueue (s : SpinExecutor) (i : Nat) : SpinExecutor :=
  match (s.entries i).map CallbackMeta.body with
  | some (.handle entry) =>
    { s.setBody i (.handle { entry with waiting := entry.waiting + 1 }) with
      announcing := if s.entityAttributed.has i then update s.announcing i (s.announcing i + 1)
        else s.announcing }
  | _ => s

def announce (s : SpinExecutor) (i : Nat) : SpinExecutor :=
  { s with
    ready := s.ready.insert i
    announcing := update s.announcing i (s.announcing i - 1) }

/-- The scan, the passes and the drains under way are untouched. -/
structure SameWork (s next : SpinExecutor) : Prop where
  scan : next.scan = s.scan
  passes : next.passes = s.passes
  deferredRuns : next.deferredRuns = s.deferredRuns

namespace SameWork

variable {s mid next : SpinExecutor}

theorem trans (first : SameWork s mid) (second : SameWork mid next) : SameWork s next where
  scan := second.scan.trans first.scan
  passes := second.passes.trans first.passes
  deferredRuns := second.deferredRuns.trans first.deferredRuns

variable (s)

variable (i : Nat)

theorem setTag (tag : SlotTag) : SameWork s (s.setTag i tag) :=
  ⟨rfl, rfl, rfl⟩

theorem completeDeferredRelease :
    SameWork s (s.completeDeferredRelease i) := by
  rw [SpinExecutor.completeDeferredRelease]
  split
  · exact ⟨rfl, rfl, rfl⟩
  · exact ⟨rfl, rfl, rfl⟩

theorem foldl_completeDeferredRelease (slots : List Nat) (s : SpinExecutor) :
    SameWork s (slots.foldl SpinExecutor.completeDeferredRelease s) := by
  induction slots generalizing s with
  | nil => exact ⟨rfl, rfl, rfl⟩
  | cons i slots ih => exact (completeDeferredRelease s i).trans (ih _)

theorem reapDeferredReleases : SameWork s s.reapDeferredReleases :=
  foldl_completeDeferredRelease _ s

theorem releaseEntry : SameWork s (s.releaseEntry i) := by
  rw [SpinExecutor.releaseEntry]
  split
  · exact ⟨rfl, rfl, rfl⟩
  · exact ⟨rfl, rfl, rfl⟩

theorem applyTimerOp (op : TimerOp) (clocks : ClockReadings) :
    SameWork s (s.applyTimerOp i op clocks) := by
  rw [SpinExecutor.applyTimerOp]
  split
  · exact ⟨rfl, rfl, rfl⟩
  · exact ⟨rfl, rfl, rfl⟩

theorem finishDispatch (clocks : ClockReadings) :
    SameWork s (s.finishDispatch i clocks) := by
  have applied : SameWork s (s.applyDeferredTimerOp i clocks) := by
    rw [SpinExecutor.applyDeferredTimerOp]
    split
    · exact (setTag s i _).trans (applyTimerOp _ i _ clocks)
    · exact ⟨rfl, rfl, rfl⟩
  exact (applied.trans (setTag _ i _)).trans (completeDeferredRelease _ i)

theorem consumeDispatchRuntime (cfg : SpinConfig) (s : SpinExecutor) (i : Nat)
    (elapsedUs : UInt32) : SameWork s (s.consumeDispatchRuntime cfg i elapsedUs) := by
  rw [SpinExecutor.consumeDispatchRuntime]
  split
  · exact ⟨rfl, rfl, rfl⟩
  · exact ⟨rfl, rfl, rfl⟩

theorem settleTimer : SameWork s (s.settleTimer i) := by
  rw [SpinExecutor.settleTimer]
  split
  · exact ⟨rfl, rfl, rfl⟩
  · exact ⟨rfl, rfl, rfl⟩

theorem setDeferred (deferred : Bool) :
    SameWork s (s.setDeferred i deferred) := by
  rw [SpinExecutor.setDeferred]
  repeat' split
  all_goals exact ⟨rfl, rfl, rfl⟩

theorem enqueue : SameWork s (s.enqueue i) := by
  rw [SpinExecutor.enqueue]
  split
  · exact ⟨rfl, rfl, rfl⟩
  · exact ⟨rfl, rfl, rfl⟩

variable {s}

end SameWork

end SpinExecutor

end NanoRos
