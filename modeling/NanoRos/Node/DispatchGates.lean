import NanoRos.Node.ReadinessRun

/-! The gates of a pass: what runs in it runs under a context that had budget when the pass
evaluated readiness and whose window the pass lies in. -/

namespace NanoRos

open Function

/-- The time a pass takes its windows by. -/
def SpinPass.time (pass : SpinPass) : Nat := pass.nowUs.getD pass.deltaUs

/-- Both gates of a context are open to a pass. -/
def SpinPass.Open (cfg : SpinConfig) (pass : SpinPass) (sc : Nat) : Prop :=
  (cfg.classOf sc = .sporadic → pass.log.hadBudget sc = true) ∧ cfg.windowOpen sc pass.time = true

/-- What a pass ran had its gates open, and so has what it queued, if it is still there. -/
structure SpinPass.Gated (cfg : SpinConfig) (s : SpinExecutor) (pass : SpinPass) : Prop where
  ran : ∀ i sc, (i, sc) ∈ pass.log.ran → pass.Open cfg sc
  queued : ∀ queue settled skipped, pass.work = .drain queue settled skipped →
    ∀ i ∈ queue, ∀ entry, s.entries i = some entry → pass.Open cfg (s.bindings i)

/-- A timer that the sweep fires, an entry that takes the slot of a queued one and a context that
takes over a queued slot have their gates open. -/
def SpinExecutor.gated (cfg : SpinConfig) (s : SpinExecutor) : SpinEvent → Prop
  | .sweepNext p clocks => ∀ pass i entry, s.passes p = some pass → pass.work = .sweep i →
      s.entries i = some entry → (entry.body.begin clocks pass.deltaUs false).2.1 = true →
      pass.Open cfg (s.bindings i)
  | .register i _ _ _ => ∀ p pass queue settled skipped, s.passes p = some pass →
      pass.work = .drain queue settled skipped → i ∈ queue → pass.Open cfg (s.bindings i)
  | .bind i sc => ∀ p pass queue settled skipped, s.passes p = some pass →
      pass.work = .drain queue settled skipped → i ∈ queue → pass.Open cfg sc
  | _ => True

theorem SpinConfig.windowOpen_of_unwindowed {cfg : SpinConfig} {sc : Nat}
    (unwindowed : cfg.windowed sc = false) (nowUs : Nat) : cfg.windowOpen sc nowUs = true := by
  rw [windowOpen]
  split
  · rw [unwindowed]
    rfl
  · rfl

namespace SpinPass.Gated

variable {cfg : SpinConfig} {s next : SpinExecutor} {e : SpinEvent} {pass after : SpinPass}

theorem remains (gated : pass.Gated cfg s) (kept : s.Remains next) : pass.Gated cfg next where
  ran := gated.ran
  queued queue settled skipped work i member entry present := by
    rcases kept.entries i entry present with ⟨before, was, _⟩
    rw [kept.bindings i entry present]
    exact gated.queued queue settled skipped work i member before was

theorem withQueue (gated : pass.Gated cfg s) (time : after.time = pass.time)
    (budget : after.log.hadBudget = pass.log.hadBudget) (ran : after.log.ran = pass.log.ran)
    (queued : ∀ queue settled skipped, after.work = .drain queue settled skipped →
      ∀ i ∈ queue, ∀ entry, s.entries i = some entry → pass.Open cfg (s.bindings i)) :
    after.Gated cfg s := by
  have same : ∀ sc, pass.Open cfg sc → after.Open cfg sc := by
    intro sc
    rw [Open, Open, time, budget]
    exact id
  refine ⟨fun i sc member => ?_, fun queue settled skipped work i member entry present => ?_⟩
  · rw [ran] at member
    exact same sc (gated.ran i sc member)
  · exact same _ (queued queue settled skipped work i member entry present)

theorem sweepPast (gated : pass.Gated cfg s) (i : Nat) : (s.sweptPast pass i).Gated cfg s := by
  have log := s.excuse_log pass i
  have frame := s.excuse_frame pass i
  apply gated.withQueue
  · simp only [SpinPass.time, SpinExecutor.sweptPast, frame.2.1, frame.2.2.1]
  · exact log.2.2.2
  · exact log.2.1
  · intro _ _ _ work
    cases work

theorem pickFrom (gated : pass.Gated cfg s) {queue : List Nat} {settled skipped : SlotMask}
    (work : pass.work = .drain queue settled skipped) (i : Nat) :
    (s.pickedFrom pass queue settled skipped i).Gated cfg s := by
  have log := s.excuse_log pass i
  have frame := s.excuse_frame pass i
  apply gated.withQueue
  · simp only [SpinPass.time, SpinExecutor.pickedFrom, frame.2.1, frame.2.2.1]
  · exact log.2.2.2
  · exact log.2.1
  · intro _ _ _ drained j member
    cases drained
    exact gated.queued queue settled skipped work j (List.mem_of_mem_erase member)

theorem dispatch (gated : pass.Gated cfg s) {i : Nat} (body : EntryBody) (clocks : ClockReadings)
    (took : Bool)
    (opened : (body.begin clocks pass.deltaUs took).2.1 = true → pass.Open cfg (s.bindings i)) :
    (s.dispatching pass i body clocks took).Gated cfg s := by
  refine ⟨fun j sc member => ?_, gated.queued⟩
  change (j, sc) ∈ (if (body.begin clocks pass.deltaUs took).2.1 then
    pass.log.ran ++ [(i, s.bindings i)] else pass.log.ran) at member
  split at member
  case isTrue ran =>
    rcases List.mem_append.mp member with before | last
    · exact gated.ran j sc before
    · cases List.mem_singleton.mp last
      exact opened ran
  case isFalse => exact gated.ran j sc member

theorem merged (gated : pass.Gated cfg s) : (s.merged cfg pass).Gated cfg s := by
  rcases s.merged_cases cfg pass with same | ⟨queue, settled, skipped, joins, work, same, fresh⟩
  · rw [same]
    exact gated
  · rw [same]
    refine gated.withQueue rfl rfl rfl ?_
    intro _ _ _ drained i member entry present
    cases drained
    rcases List.mem_append.mp member with before | joined
    · exact gated.queued queue settled skipped work i before entry present
    · have ungated := fresh i (List.mem_filter.mp joined).2
      exact ⟨fun sporadic => absurd sporadic ungated.2.1,
        SpinConfig.windowOpen_of_unwindowed ungated.2.2 _⟩

theorem resumed (gated : pass.Gated cfg s) (running : Running) (elapsedUs : Option UInt32) :
    (SpinExecutor.resumed cfg pass running elapsedUs).Gated cfg s := by
  rcases SpinExecutor.resumed_cases cfg pass running elapsedUs with
    same | ⟨queue, settled, skipped, more, work, same⟩
  · rw [same]
    exact ⟨gated.ran, gated.queued⟩
  · rw [same]
    refine gated.withQueue rfl rfl rfl ?_
    intro _ _ _ drained
    cases drained
    exact gated.queued queue settled skipped work

theorem start {p : Nat} (started : PassStart cfg s p pass)
    (kept : ∀ i entry, next.entries i = some entry → next.bindings i = s.bindings i) :
    pass.Gated cfg next := by
  cases started with
  | sweep scan locked all fails =>
    exact ⟨fun _ _ member => (nomatch member), fun _ _ _ work => nomatch work⟩
  | drain scan clocks locked all passes =>
    refine ⟨fun _ _ member => (nomatch member), fun _ _ _ work i member entry present => ?_⟩
    cases work
    have gate := ((s.mem_gatedQueue cfg scan i).mp member).2
    rw [SpinExecutor.gateOpen, Bool.and_eq_true, Bool.or_eq_true] at gate
    rw [kept i entry present]
    refine ⟨fun sporadic => ?_, gate.2⟩
    change ((s.endScan scan).prepared cfg scan).hasBudget (s.bindings i) = true
    rw [SpinExecutor.hasBudget_prepared]
    rcases gate.1 with other | budget
    · exact absurd sporadic (of_decide_eq_true other)
    · exact budget

theorem step (gated : pass.Gated cfg s) {p : Nat} (here : s.passes p = some pass)
    (acts : e.actor s = some p) (condition : s.gated cfg e) (stepped : SpinStep cfg s e next)
    (went : PassStep cfg s e pass after) : after.Gated cfg next := by
  cases went with
  | sweepPast q i pass clocks work untimed =>
    exact (gated.sweepPast i).remains (stepped.remains rfl)
  | sweepDispatch q i pass clocks entry work present timer unheld =>
    cases acts
    apply remains _ (stepped.remains rfl)
    apply (gated.sweepPast i).dispatch
    intro fires
    have frame := s.excuse_frame pass i
    have log := s.excuse_log pass i
    have same : (s.sweptPast pass i).deltaUs = pass.deltaUs := frame.2.2.1
    rw [same] at fires
    have opened := condition pass i entry here work present fires
    rw [SpinPass.Open, SpinPass.time, SpinExecutor.sweptPast, log.2.2.2, frame.2.1, frame.2.2.1]
    exact opened
  | contained q i pass queue settled skipped clocks took work queued within =>
    exact (gated.pickFrom work i).remains (stepped.remains rfl)
  | pickPast q i pass queue settled skipped clocks took work queued away =>
    exact (gated.pickFrom work i).merged.remains (stepped.remains rfl)
  | pickDispatch q i pass queue settled skipped clocks took entry work queued present unheld =>
    apply remains _ (stepped.remains rfl)
    apply (gated.pickFrom work i).dispatch
    intro _
    have frame := s.excuse_frame pass i
    have log := s.excuse_log pass i
    rw [SpinPass.Open, SpinPass.time, SpinExecutor.pickedFrom, log.2.2.2, frame.2.1, frame.2.2.1]
    exact gated.queued queue settled skipped work i queued entry present
  | returned q pass running clocks elapsedUs busy =>
    cases acts
    cases stepped with
    | callbackReturn _ found active _ _ free there runs =>
      cases here.symm.trans there
      cases busy.symm.trans runs
      rw [SpinExecutor.callbackReturn_eq]
      -- the merge asks the gates of the executor the callback has left behind
      have back := gated.remains
        (SpinExecutor.Remains.returned cfg s running clocks pass.work elapsedUs)
      exact (back.resumed running elapsedUs).merged.remains
        (SpinExecutor.Remains.afterPick cfg _ p _)

end SpinPass.Gated

namespace SpinStep

variable {cfg : SpinConfig} {s next : SpinExecutor} {e : SpinEvent}

theorem bindings_evaluate {scan : Scan} {clocks : ClockReadings} :
    (s.evaluate cfg scan clocks).bindings = s.bindings := by
  rw [SpinExecutor.evaluate]
  split
  · exact ((s.endScan scan).prepared_frame cfg scan).1
  · rfl

theorem entries_evaluate {scan : Scan} {clocks : ClockReadings} {i : Nat} {after : CallbackMeta}
    (found : (s.evaluate cfg scan clocks).entries i = some after) :
    ∃ before, s.entries i = some before := by
  have sampled : ∀ entry, ((s.endScan scan).prepared cfg scan).entries i = some entry →
      ∃ before, s.entries i = some before := by
    intro entry present
    rcases (s.endScan scan).prepared_cases cfg scan with ⟨_, same⟩ | ⟨_, same⟩
    · rw [same, (((s.endScan scan).preSample scan.band).refillSporadic_frame scan.nowUs).1]
        at present
      change (if _ then Option.map _ (s.entries i) else s.entries i) = some entry at present
      split at present
      · rcases Option.map_eq_some_iff.mp present with ⟨before, was, _⟩
        exact ⟨before, was⟩
      · exact ⟨entry, present⟩
    · rw [same, ((s.endScan scan).refillSporadic_frame scan.nowUs).1] at present
      exact ⟨entry, present⟩
  rw [SpinExecutor.evaluate] at found
  split at found
  · change (if _ then Option.map _ _ else _) = some after at found
    split at found
    · rcases Option.map_eq_some_iff.mp found with ⟨before, was, _⟩
      exact sampled before was
    · exact sampled after found
  · exact ⟨after, found⟩

theorem gated_same (stepped : SpinStep cfg s e next) (condition : s.gated cfg e) {p : Nat}
    {pass : SpinPass} (here : s.passes p = some pass) (gated : pass.Gated cfg s) :
    pass.Gated cfg next := by
  cases plain : e.reshapes with
  | false => exact gated.remains (stepped.remains plain)
  | true =>
    refine ⟨gated.ran, fun queue settled skipped work j member after present => ?_⟩
    cases stepped with
    | evaluate scan locked all clocks =>
      rw [bindings_evaluate]
      rcases entries_evaluate present with ⟨before, was⟩
      exact gated.queued queue settled skipped work j member before was
    | register i entry attributed polled free inside vacant unsampled wakes =>
      change pass.Open cfg (s.bindings j)
      by_cases same : j = i
      · subst same
        exact condition p pass queue settled skipped here work member
      · change update s.entries i (some entry) j = some after at present
        rw [update_of_ne same] at present
        exact gated.queued queue settled skipped work j member after present
    | bind i sc free =>
      by_cases same : j = i
      · subst same
        change pass.Open cfg (update s.bindings j sc j)
        rw [update_self]
        exact condition p pass queue settled skipped here work member
      · change pass.Open cfg (update s.bindings i sc j)
        rw [update_of_ne same]
        exact gated.queued queue settled skipped work j member after present
    | _ => cases plain

theorem gated (stepped : SpinStep cfg s e next) (condition : s.gated cfg e)
    (all : ∀ p pass, s.passes p = some pass → pass.Gated cfg s) (p : Nat) (after : SpinPass)
    (found : next.passes p = some after) : after.Gated cfg next := by
  by_cases acts : e.actor s = some p
  · rcases stepped.pass_cases found with same | started | ⟨pass, here, went⟩
    · exact stepped.gated_same condition same (all p after same)
    · apply SpinPass.Gated.start started
      intro i entry present
      cases plain : e.reshapes with
      | false => exact (stepped.remains plain).bindings i entry present
      | true =>
        cases stepped with
        | evaluate => rw [bindings_evaluate]
        | register => cases acts
        | bind => cases acts
        | _ => cases plain
    · exact (all p pass here).step here acts condition stepped went
  · have same : s.passes p = some after := (stepped.passes_of_ne acts).symm.trans found
    exact stepped.gated_same condition same (all p after same)

end SpinStep

theorem gated_step (cfg : SpinConfig) (s : SpinExecutor) (e : SpinEvent) (next : SpinExecutor)
    (all : ∀ p pass, s.passes p = some pass → pass.Gated cfg s) (condition : s.gated cfg e)
    (stepped : s.step cfg e = some next) :
    ∀ p pass, next.passes p = some pass → pass.Gated cfg next :=
  (SpinStep.of_step stepped).gated condition all

/-- A gate that lets a pass through is open: the pass lies in the window, if the window starts
inside the frame. -/
theorem SpinPass.Open.inWindow {cfg : SpinConfig} {pass : SpinPass} {sc : Nat} (opened : pass.Open cfg sc)
    {context : SchedContext} (found : cfg.contexts sc = some context)
    (windowed : cfg.windowed sc = true) (placed : context.ttWindowOffsetUs < cfg.majorFrameUs) :
    InWindow cfg.majorFrameUs context.ttWindowOffsetUs context.ttWindowDurationUs pass.time := by
  have gate := opened.2
  simp only [SpinConfig.windowOpen, found, windowed, Bool.not_true, Bool.false_or] at gate
  exact inWindow_sound _ _ _ _ placed gate

/-- Context 1 is sporadic, and has a window in the first half of a frame of a millisecond. -/
def sporadicSpin : SpinConfig where
  contexts sc := if sc = 1 then some ⟨.sporadic, 0, .ignore, 0, 500⟩ else none
  majorFrameUs := 1000
  trigger := .any
  semantics := .rclcppExecutor
  reprobeEachCallback := false

def sporadicBudget (sc : Nat) : Option SporadicState :=
  if sc = 1 then some ⟨1000, 1000, 1000000, 0⟩ else none

def steadyEntry (periodUs : Nat) : CallbackMeta :=
  ⟨.timer (registerTimer periodUs false true .steady noClocks), .onNewData⟩

/-- A timer under the sporadic context and a subscription with an item. -/
def sporadicSetup : List SpinEvent :=
  [.register 0 (steadyEntry 100) false false, .register 1 plainSubscription true false, .bind 0 1,
    .enqueue 1, .announce 1]

/-- The item lets the trigger pass, and the drain runs the timer, which spends its budget. -/
def sporadicRun : List SpinEvent :=
  sporadicSetup ++ (spinAll 0 (some 1000) 100 ++
    [.pick 0 0 noClocks false, .callbackReturn 0 noClocks (some 1000)])

/-- The next pass finds no item and no budget: its trigger fails. -/
def sweepingRun : List SpinEvent :=
  sporadicRun ++ ([.pick 0 1 noClocks true, .callbackReturn 0 noClocks (some 0), .finish 0] ++
    (spinAll 1 (some 2700) 100 ++ [.sweepNext 1 noClocks]))

end NanoRos
