import NanoRos.Node.SpinPass

/-! The executor as a machine that takes one event at a time: arrivals, the steps of passes and of
deferred drains, and the calls of its users. -/

namespace NanoRos

/-- Arrivals, the steps of passes and of deferred drains, and the calls made between them. A pass
or a drain goes by a name of its own; `took` says that the callback's handle gave an item. -/
inductive SpinEvent where
  | enqueue (i : Nat)
  | announce (i : Nat)
  | spin (p : Nat) (band : SlotMask) (nowUs : Option Nat) (deltaUs : Nat) (yielded : Bool)
  | scanNext
  | evaluate (clocks : ClockReadings)
  | sweepNext (p : Nat) (clocks : ClockReadings)
  | pick (p i : Nat) (clocks : ClockReadings) (took : Bool)
  | callbackReturn (p : Nat) (clocks : ClockReadings) (elapsedUs : Option UInt32)
  | finish (p : Nat)
  | setDeferred (i : Nat) (deferred : Bool)
  | runDeferred (d : Nat)
  | runDeferredHandle (d i : Nat)
  | deferredPick (d i : Nat) (clocks : ClockReadings) (took : Bool)
  | deferredReturn (d : Nat) (clocks : ClockReadings)
  | deferredFinish (d : Nat)
  | release (i : Nat)
  | register (i : Nat) (entry : CallbackMeta) (attributed polled : Bool)
  | bind (i sc : Nat)
  | timerOp (i : Nat) (op : TimerOp) (elsewhere : Bool) (clocks : ClockReadings)
  | refillTick (sc : Nat)

def SpinPass.done (pass : SpinPass) : Bool :=
  pass.running.isNone &&
    match pass.work with
    | .sweep next => decide (64 ≤ next)
    | .drain queue _ _ => queue.isEmpty

namespace SpinExecutor

open Function

/-- The steps that arrivals and the platform timer take; a scan does not hold them up. -/
def background (s : SpinExecutor) : SpinEvent → Option SpinExecutor
  | .enqueue i => some (s.enqueue i)
  | .announce i => some (s.announce i)
  | .refillTick sc =>
    some { s with
      atomicStates := update s.atomicStates sc ((s.atomicStates sc).map (·.refill)) }
  | _ => none

def scanning (cfg : SpinConfig) (s : SpinExecutor) (scan : Scan) : SpinEvent → Option SpinExecutor
  | .scanNext => if scan.next < 64 then some { s with scan := some (s.scanSlot scan) } else none
  | .evaluate clocks => if scan.next < 64 then none else some (s.evaluate cfg scan clocks)
  | _ => none

def passing (cfg : SpinConfig) (s : SpinExecutor) : SpinEvent → Option SpinExecutor
  | .spin p band nowUs deltaUs yielded =>
    if (s.passes p).isSome then none
    else if yielded then some s.reapDeferredReleases
    else some (s.reapDeferredReleases.beginScan p band nowUs deltaUs)
  | .sweepNext p clocks => do
    let pass ← s.passes p
    match pass.running, pass.work with
    | none, .sweep i => if i < 64 then some (s.sweepNext p pass i clocks) else none
    | _, _ => none
  | .pick p i clocks took => do
    let pass ← s.passes p
    match pass.running, pass.work with
    | none, .drain queue settled skipped =>
      if i ∈ queue then some (s.pick cfg p pass queue settled skipped i clocks took) else none
    | _, _ => none
  | .callbackReturn p clocks elapsedUs => do
    let pass ← s.passes p
    let running ← pass.running
    some (s.callbackReturn cfg p pass running clocks elapsedUs)
  | .finish p => do
    let pass ← s.passes p
    if pass.done then some (s.setPass p none) else none
  | _ => none

def deferring (s : SpinExecutor) : SpinEvent → Option SpinExecutor
  | .setDeferred i deferred => some (s.setDeferred i deferred)
  | .runDeferred d =>
    if (s.deferredRuns d).isSome then none
    else
      let s := s.reapDeferredReleases
      some (s.setDeferredRun d (some ⟨s.deferredPending, none⟩))
  | .runDeferredHandle d i =>
    if (s.deferredRuns d).isSome || !s.resolves i then none
    else some (s.reapDeferredReleases.setDeferredRun d (some ⟨Mask.insert 0#64 i, none⟩))
  | .deferredPick d i clocks took => do
    let run ← s.deferredRuns d
    match run.running with
    | none =>
      if run.rest.has i then some (s.dispatchDeferredSlot d (run.rest.erase i) i clocks took)
      else none
    | some _ => none
  | .deferredReturn d clocks => do
    let run ← s.deferredRuns d
    let i ← run.running
    some (s.deferredReturn d run.rest i clocks)
  | .deferredFinish d => do
    let run ← s.deferredRuns d
    if run.rest = 0#64 ∧ run.running = none then some (s.setDeferredRun d none) else none
  | _ => none

def configuring (cfg : SpinConfig) (s : SpinExecutor) : SpinEvent → Option SpinExecutor
  | .release i => if (s.entries i).isSome then some (s.releaseEntry i) else none
  | .register i entry attributed polled =>
    if i < 64 ∧ s.entries i = none ∧ entry.body.sampled = false ∧
        (attributed = true → entry.body.isTimer = false) then
      some (s.register i entry attributed polled)
    else none
  | .bind i sc =>
    if s.resolves i && (cfg.contexts sc).isSome then
      some { s with bindings := update s.bindings i sc }
    else none
  | .timerOp i op elsewhere clocks =>
    if !s.resolves i then none
    else if (s.tags i).inDispatch && elsewhere then
      some (s.setTag i { s.tags i with timerOp := some op })
    else some (s.applyTimerOp i op clocks)
  | _ => none

def step (cfg : SpinConfig) (s : SpinExecutor) (e : SpinEvent) : Option SpinExecutor :=
  match s.background e with
  | some next => some next
  | none =>
    match s.scan with
    | some scan => s.scanning cfg scan e
    | none => (s.passing cfg e).or ((s.deferring e).or (s.configuring cfg e))

/-- An executor with no entry yet, and the budgets its sporadic contexts came with. -/
def fresh (sporadic : Nat → Option SporadicState) (atomics : Nat → Option AtomicSporadicState) :
    SpinExecutor where
  entries _ := none
  tags _ := SlotTag.clear
  bindings _ := 0
  ready := 0#64
  entityAttributed := 0#64
  entityRecheck := 0#64
  entityStatusPolled := 0#64
  deferredMask := 0#64
  deferredPending := 0#64
  sporadicStates := sporadic
  atomicStates := atomics
  announcing _ := 0
  scan := none
  passes _ := none
  deferredRuns _ := none

/-- No scan, pass or drain is under way. -/
def Idle (s : SpinExecutor) : Prop :=
  s.scan = none ∧ (∀ p, s.passes p = none) ∧ ∀ d, s.deferredRuns d = none

end SpinExecutor

/-- What a step can be, and when. -/
inductive SpinStep (cfg : SpinConfig) (s : SpinExecutor) : SpinEvent → SpinExecutor → Prop
  | enqueue (i : Nat) : SpinStep cfg s (.enqueue i) (s.enqueue i)
  | announce (i : Nat) : SpinStep cfg s (.announce i) (s.announce i)
  | refillTick (sc : Nat) (states : Nat → Option AtomicSporadicState) :
      SpinStep cfg s (.refillTick sc) { s with atomicStates := states }
  | scanNext (scan : Scan) (locked : s.scan = some scan) (more : scan.next < 64) :
      SpinStep cfg s .scanNext { s with scan := some (s.scanSlot scan) }
  | evaluate (scan : Scan) (locked : s.scan = some scan) (all : 64 ≤ scan.next)
      (clocks : ClockReadings) : SpinStep cfg s (.evaluate clocks) (s.evaluate cfg scan clocks)
  | yield (p : Nat) (band : SlotMask) (nowUs : Option Nat) (deltaUs : Nat) (free : s.scan = none) :
      SpinStep cfg s (.spin p band nowUs deltaUs true) s.reapDeferredReleases
  | spin (p : Nat) (band : SlotMask) (nowUs : Option Nat) (deltaUs : Nat) (free : s.scan = none)
      (unused : s.passes p = none) :
      SpinStep cfg s (.spin p band nowUs deltaUs false)
        (s.reapDeferredReleases.beginScan p band nowUs deltaUs)
  | sweepNext (p i : Nat) (pass : SpinPass) (clocks : ClockReadings) (free : s.scan = none)
      (here : s.passes p = some pass) (idle : pass.running = none)
      (work : pass.work = .sweep i) (more : i < 64) :
      SpinStep cfg s (.sweepNext p clocks) (s.sweepNext p pass i clocks)
  | pick (p i : Nat) (pass : SpinPass) (queue : List Nat) (settled skipped : SlotMask)
      (clocks : ClockReadings) (took : Bool) (free : s.scan = none)
      (here : s.passes p = some pass) (idle : pass.running = none)
      (work : pass.work = .drain queue settled skipped) (queued : i ∈ queue) :
      SpinStep cfg s (.pick p i clocks took)
        (s.pick cfg p pass queue settled skipped i clocks took)
  | callbackReturn (p : Nat) (pass : SpinPass) (running : Running) (clocks : ClockReadings)
      (elapsedUs : Option UInt32) (free : s.scan = none) (here : s.passes p = some pass)
      (busy : pass.running = some running) :
      SpinStep cfg s (.callbackReturn p clocks elapsedUs)
        (s.callbackReturn cfg p pass running clocks elapsedUs)
  | finish (p : Nat) (pass : SpinPass) (free : s.scan = none) (here : s.passes p = some pass)
      (ended : pass.done = true) : SpinStep cfg s (.finish p) (s.setPass p none)
  | setDeferred (i : Nat) (deferred : Bool) (free : s.scan = none) :
      SpinStep cfg s (.setDeferred i deferred) (s.setDeferred i deferred)
  | runDeferred (d : Nat) (rest : SlotMask) (free : s.scan = none)
      (unused : s.deferredRuns d = none) :
      SpinStep cfg s (.runDeferred d)
        (s.reapDeferredReleases.setDeferredRun d (some ⟨rest, none⟩))
  | runDeferredHandle (d i : Nat) (rest : SlotMask) (free : s.scan = none)
      (unused : s.deferredRuns d = none) :
      SpinStep cfg s (.runDeferredHandle d i)
        (s.reapDeferredReleases.setDeferredRun d (some ⟨rest, none⟩))
  | deferredPick (d i : Nat) (run : DeferredRun) (clocks : ClockReadings) (took : Bool)
      (free : s.scan = none) (here : s.deferredRuns d = some run) (idle : run.running = none) :
      SpinStep cfg s (.deferredPick d i clocks took)
        (s.dispatchDeferredSlot d (run.rest.erase i) i clocks took)
  | deferredReturn (d i : Nat) (run : DeferredRun) (clocks : ClockReadings) (free : s.scan = none)
      (here : s.deferredRuns d = some run) (busy : run.running = some i) :
      SpinStep cfg s (.deferredReturn d clocks) (s.deferredReturn d run.rest i clocks)
  | deferredFinish (d : Nat) (run : DeferredRun) (free : s.scan = none)
      (here : s.deferredRuns d = some run) (idle : run.running = none) :
      SpinStep cfg s (.deferredFinish d) (s.setDeferredRun d none)
  | release (i : Nat) (free : s.scan = none) : SpinStep cfg s (.release i) (s.releaseEntry i)
  | register (i : Nat) (entry : CallbackMeta) (attributed polled : Bool) (free : s.scan = none)
      (inside : i < 64) (vacant : s.entries i = none) (unsampled : entry.body.sampled = false)
      (wakes : attributed = true → entry.body.isTimer = false) :
      SpinStep cfg s (.register i entry attributed polled)
        (s.register i entry attributed polled)
  | bind (i sc : Nat) (free : s.scan = none) :
      SpinStep cfg s (.bind i sc) { s with bindings := Function.update s.bindings i sc }
  | deferTimerOp (i : Nat) (op : TimerOp) (clocks : ClockReadings) (free : s.scan = none) :
      SpinStep cfg s (.timerOp i op true clocks)
        (s.setTag i { s.tags i with timerOp := some op })
  | timerOp (i : Nat) (op : TimerOp) (elsewhere : Bool) (clocks : ClockReadings)
      (free : s.scan = none) :
      SpinStep cfg s (.timerOp i op elsewhere clocks) (s.applyTimerOp i op clocks)

namespace SpinStep

variable {cfg : SpinConfig} {s next : SpinExecutor} {e : SpinEvent}

theorem of_background (stepped : s.background e = some next) : SpinStep cfg s e next := by
  cases e with
  | enqueue i =>
    cases stepped
    exact .enqueue i
  | announce i =>
    cases stepped
    exact .announce i
  | refillTick sc =>
    cases stepped
    exact .refillTick sc _
  | _ => cases stepped

theorem of_scanning {scan : Scan} (locked : s.scan = some scan)
    (stepped : s.scanning cfg scan e = some next) : SpinStep cfg s e next := by
  cases e with
  | scanNext =>
    simp only [SpinExecutor.scanning] at stepped
    split at stepped
    case isTrue more =>
      cases stepped
      exact .scanNext scan locked more
    case isFalse => cases stepped
  | evaluate clocks =>
    simp only [SpinExecutor.scanning] at stepped
    split at stepped
    case isTrue => cases stepped
    case isFalse all =>
      cases stepped
      exact .evaluate scan locked (Nat.not_lt.mp all) clocks
  | _ => cases stepped

theorem of_passing (free : s.scan = none) (stepped : s.passing cfg e = some next) :
    SpinStep cfg s e next := by
  cases e with
  | spin p band nowUs deltaUs yielded =>
    simp only [SpinExecutor.passing] at stepped
    split at stepped
    case isTrue => cases stepped
    case isFalse unused =>
      have vacant : s.passes p = none := by simpa using unused
      cases yielded with
      | true =>
        rw [← Option.some.inj stepped]
        exact .yield p band nowUs deltaUs free
      | false =>
        rw [← Option.some.inj stepped]
        exact .spin p band nowUs deltaUs free vacant
  | sweepNext p clocks =>
    rcases Option.bind_eq_some_iff.mp stepped with ⟨pass, here, rest⟩
    split at rest
    case h_1 i idle work =>
      split at rest
      case isTrue more =>
        cases rest
        exact .sweepNext p i pass clocks free here idle work more
      case isFalse => cases rest
    case h_2 => cases rest
  | pick p i clocks took =>
    rcases Option.bind_eq_some_iff.mp stepped with ⟨pass, here, rest⟩
    split at rest
    case h_1 queue settled skipped idle work =>
      split at rest
      case isTrue queued =>
        cases rest
        exact .pick p i pass queue settled skipped clocks took free here idle work queued
      case isFalse => cases rest
    case h_2 => cases rest
  | callbackReturn p clocks elapsedUs =>
    rcases Option.bind_eq_some_iff.mp stepped with ⟨pass, here, rest⟩
    rcases Option.bind_eq_some_iff.mp rest with ⟨running, busy, returned⟩
    cases returned
    exact .callbackReturn p pass running clocks elapsedUs free here busy
  | finish p =>
    rcases Option.bind_eq_some_iff.mp stepped with ⟨pass, here, rest⟩
    split at rest
    case isTrue ended =>
      cases rest
      exact .finish p pass free here ended
    case isFalse => cases rest
  | _ => cases stepped

theorem of_deferring (free : s.scan = none) (stepped : s.deferring e = some next) :
    SpinStep cfg s e next := by
  cases e with
  | setDeferred i deferred =>
    cases stepped
    exact .setDeferred i deferred free
  | runDeferred d =>
    simp only [SpinExecutor.deferring] at stepped
    split at stepped
    case isTrue => cases stepped
    case isFalse unused =>
      rw [← Option.some.inj stepped]
      exact .runDeferred d _ free (by simpa using unused)
  | runDeferredHandle d i =>
    simp only [SpinExecutor.deferring] at stepped
    split at stepped
    case isTrue => cases stepped
    case isFalse unused =>
      rw [Bool.not_eq_true, Bool.or_eq_false_iff] at unused
      rw [← Option.some.inj stepped]
      exact .runDeferredHandle d i _ free (by simpa using unused.1)
  | deferredPick d i clocks took =>
    rcases Option.bind_eq_some_iff.mp stepped with ⟨run, here, rest⟩
    split at rest
    case h_1 idle =>
      split at rest
      case isTrue =>
        cases rest
        exact .deferredPick d i run clocks took free here idle
      case isFalse => cases rest
    case h_2 => cases rest
  | deferredReturn d clocks =>
    rcases Option.bind_eq_some_iff.mp stepped with ⟨run, here, rest⟩
    rcases Option.bind_eq_some_iff.mp rest with ⟨i, busy, returned⟩
    cases returned
    exact .deferredReturn d i run clocks free here busy
  | deferredFinish d =>
    rcases Option.bind_eq_some_iff.mp stepped with ⟨run, here, rest⟩
    split at rest
    case isTrue ended =>
      cases rest
      exact .deferredFinish d run free here ended.2
    case isFalse => cases rest
  | _ => cases stepped

theorem of_configuring (free : s.scan = none) (stepped : s.configuring cfg e = some next) :
    SpinStep cfg s e next := by
  cases e with
  | release i =>
    simp only [SpinExecutor.configuring] at stepped
    split at stepped
    case isTrue =>
      cases stepped
      exact .release i free
    case isFalse => cases stepped
  | register i entry attributed polled =>
    simp only [SpinExecutor.configuring] at stepped
    split at stepped
    case isTrue fits =>
      cases stepped
      exact .register i entry attributed polled free fits.1 fits.2.1 fits.2.2.1 fits.2.2.2
    case isFalse => cases stepped
  | bind i sc =>
    simp only [SpinExecutor.configuring] at stepped
    split at stepped
    case isTrue =>
      cases stepped
      exact .bind i sc free
    case isFalse => cases stepped
  | timerOp i op elsewhere clocks =>
    simp only [SpinExecutor.configuring] at stepped
    split at stepped
    case isTrue => cases stepped
    case isFalse =>
      split at stepped
      case isTrue apart =>
        cases stepped
        rw [Bool.and_eq_true] at apart
        rw [apart.2]
        exact .deferTimerOp i op clocks free
      case isFalse =>
        cases stepped
        exact .timerOp i op elsewhere clocks free
  | _ => cases stepped

theorem of_step (stepped : s.step cfg e = some next) : SpinStep cfg s e next := by
  simp only [SpinExecutor.step] at stepped
  split at stepped
  case h_1 found =>
    cases stepped
    exact of_background found
  case h_2 =>
    split at stepped
    case h_1 scan locked => exact of_scanning locked stepped
    case h_2 free =>
      rcases Option.or_eq_some_iff.mp stepped with passed | ⟨_, rest⟩
      · exact of_passing free passed
      · rcases Option.or_eq_some_iff.mp rest with deferred | ⟨_, configured⟩
        · exact of_deferring free deferred
        · exact of_configuring free configured

end SpinStep

end NanoRos
