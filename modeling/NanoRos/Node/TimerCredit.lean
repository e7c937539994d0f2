import NanoRos.Node.DispatchGates

/-! The time a pass owes its timers. -/

namespace NanoRos

open Function

def PassLog.creditsOf (log : PassLog) (i : Nat) : List Credit :=
  log.credits.filter fun credit => decide (credit.slot = i)

/-- The clock of a slot was advanced once, by the time of the pass. -/
def SpinPass.Paid (pass : SpinPass) (i : Nat) : Prop :=
  ∃ before, pass.log.creditsOf i = [⟨i, before, saturatingAdd64 before pass.deltaUs⟩]

/-- The pass is still to come to the slot. -/
def SpinPass.Ahead (pass : SpinPass) (i : Nat) : Prop :=
  match pass.work with
  | .sweep next => next ≤ i
  | .drain queue _ _ => i ∈ queue

/-- The clocks a pass has moved and those it has yet to move; at the slot it has in hand, if there
is one, it has moved nothing. -/
structure SpinPass.CreditsBut (hand : Option Nat) (pass : SpinPass) : Prop where
  band : ∀ i, pass.log.owed.has i = true → pass.band.has i = true
  once : ∀ i, (pass.log.creditsOf i).length ≤ 1
  ahead : ∀ i, pass.Ahead i ∨ hand = some i → pass.log.creditsOf i = []
  unsettled : ∀ queue settled skipped, pass.work = .drain queue settled skipped →
    ∀ i, settled.has i = false → pass.log.creditsOf i = []
  owed : ∀ i, pass.log.owed.has i = true → pass.Ahead i ∨ hand = some i ∨ pass.Paid i

/-- The pass pays its timers: it does not pass over the clock of a steady timer. A park that yields
has no time to hand out, a timer with budget is in its window, and no timer is contained. -/
def SpinExecutor.pays (cfg : SpinConfig) (s : SpinExecutor) : SpinEvent → Prop
  | .spin _ band _ deltaUs yielded => yielded = true →
      deltaUs = 0 ∨ ∀ i, (s.owedTimers band).has i = false
  | .evaluate _ => ∀ scan, s.scan = some scan → s.triggerPasses cfg scan = true →
      ∀ i, (s.owedTimers scan.band).has i = true → (cfg.classOf (s.bindings i) = .sporadic ∧
        (s.refillSporadic scan.nowUs).hasBudget (s.bindings i) = false) ∨
      cfg.windowOpen (s.bindings i) (scan.nowUs.getD scan.deltaUs) = true
  | .pick p i _ _ => ∀ pass queue settled skipped, s.passes p = some pass →
      pass.work = .drain queue settled skipped → skipped.has (s.bindings i) = true →
      (!s.held i && (s.entries i).any fun m => m.body.isArmedSteady) = false
  | _ => True

theorem filter_filterMap_slot (credit : Nat → Option Credit)
    (named : ∀ i found, credit i = some found → found.slot = i) (i : Nat) (slots : List Nat)
    (distinct : slots.Nodup) :
    (slots.filterMap credit).filter (fun found => decide (found.slot = i)) =
      if i ∈ slots then (credit i).toList else [] := by
  induction slots with
  | nil => rfl
  | cons first slots ih =>
    rw [List.nodup_cons] at distinct
    have rest := ih distinct.2
    cases found : credit first with
    | none =>
      rw [List.filterMap_cons_none found, rest]
      by_cases same : i = first
      · subst same
        rw [if_neg distinct.1, if_pos List.mem_cons_self, found]
        rfl
      · simp only [List.mem_cons, same, false_or]
    | some advance =>
      rw [List.filterMap_cons_some found]
      have slot := named first advance found
      by_cases same : i = first
      · subst same
        rw [List.filter_cons, if_pos (decide_eq_true slot), rest, if_neg distinct.1,
          if_pos List.mem_cons_self, found]
        rfl
      · have other : ¬ decide (advance.slot = i) = true := by
          rw [decide_eq_true_eq, slot]
          exact Ne.symm same
        rw [List.filter_cons, if_neg other, rest]
        simp only [List.mem_cons, same, false_or]

/-- The clock of an armed steady timer moves by the time of the pass, whether it is dispatched or
skipped. -/
theorem begin_armed {body : EntryBody} (armed : body.isArmedSteady = true)
    (clocks : ClockReadings) (deltaUs : Nat) (took : Bool) :
    ∃ before, (body.begin clocks deltaUs took).2.2 =
      some (before, saturatingAdd64 before deltaUs) := by
  cases body with
  | handle entry => cases armed
  | timer header =>
    simp only [EntryBody.isArmedSteady, Bool.and_eq_true, decide_eq_true_eq,
      Bool.not_eq_true'] at armed
    refine ⟨header.elapsedUs, ?_⟩
    simp [EntryBody.begin, timerBegin, armed.1.1, armed.1.2, armed.2, timerClockStep]

variable {s : SpinExecutor} {cfg : SpinConfig} {next : SpinExecutor} {e : SpinEvent}

theorem skipCredit_armed {i : Nat} {entry : CallbackMeta} (present : s.entries i = some entry)
    (armed : entry.body.isArmedSteady = true) (clocks : ClockReadings) (deltaUs : Nat) :
    ∃ before, s.skipCredit clocks deltaUs i = some ⟨i, before, saturatingAdd64 before deltaUs⟩ := by
  cases kind : entry.body with
  | handle other =>
    rw [kind] at armed
    cases armed
  | timer header =>
    rw [kind] at armed
    simp only [EntryBody.isArmedSteady, Bool.and_eq_true, decide_eq_true_eq] at armed
    refine ⟨header.elapsedUs, ?_⟩
    simp [SpinExecutor.skipCredit, present, kind, timerAdvanceWithoutDispatch, timerClockStep,
      armed.1.1]

theorem skipCredit_slot {clocks : ClockReadings} {deltaUs : Nat} (i : Nat) (found : Credit)
    (skipped : s.skipCredit clocks deltaUs i = some found) : found.slot = i := by
  rw [SpinExecutor.skipCredit] at skipped
  split at skipped
  · cases skipped
    rfl
  · cases skipped

namespace SpinExecutor

variable (s : SpinExecutor)

variable (pass : SpinPass)

/-- What an excused pass owes: no other slot's debt changes, and its own stays only for an armed
steady timer that nobody holds. -/
theorem excuse_owed (i j : Nat) (owed : (s.excuse pass i).log.owed.has j = true) :
    pass.log.owed.has j = true ∧ (j = i → s.held i = false ∧
      ∃ entry, s.entries i = some entry ∧ entry.body.isArmedSteady = true) := by
  rw [excuse] at owed
  split at owed
  case isTrue kept =>
    rw [Bool.and_eq_true, Bool.not_eq_true'] at kept
    exact ⟨owed, fun _ => ⟨kept.1, (Option.any_eq_true _ _).mp kept.2⟩⟩
  case isFalse =>
    rw [Mask.has_erase, Bool.and_eq_true, Bool.not_eq_true', decide_eq_false_iff_not] at owed
    exact ⟨owed.1, fun same => absurd same.symm owed.2⟩

theorem credits_dispatching (i : Nat) (body : EntryBody) (clocks : ClockReadings) (took : Bool) :
    (s.dispatching pass i body clocks took).log.credits = pass.log.credits ++
      (body.begin clocks pass.deltaUs took).2.2.toList.map fun step => ⟨i, step.1, step.2⟩ :=
  rfl

theorem creditsOf_dispatching (i : Nat) (body : EntryBody) (clocks : ClockReadings) (took : Bool) :
    (s.dispatching pass i body clocks took).log.creditsOf i = pass.log.creditsOf i ++
      (body.begin clocks pass.deltaUs took).2.2.toList.map
        fun step => ⟨i, step.1, step.2⟩ := by
  rw [PassLog.creditsOf, credits_dispatching, List.filter_append, PassLog.creditsOf]
  congr 1
  apply List.filter_eq_self.mpr
  intro credit member
  rcases List.mem_map.mp member with ⟨step, _, rfl⟩
  exact decide_eq_true rfl

theorem creditsOf_dispatching_of_ne {i j : Nat} (apart : j ≠ i) (body : EntryBody)
    (clocks : ClockReadings) (took : Bool) :
    (s.dispatching pass i body clocks took).log.creditsOf j = pass.log.creditsOf j := by
  have others : ((body.begin clocks pass.deltaUs took).2.2.toList.map fun step =>
      (⟨i, step.1, step.2⟩ : Credit)).filter (fun credit => decide (credit.slot = j)) = [] := by
    apply List.filter_eq_nil_iff.mpr
    intro credit member
    rcases List.mem_map.mp member with ⟨step, _, rfl⟩
    rw [decide_eq_true_eq]
    exact Ne.symm apart
  rw [PassLog.creditsOf, credits_dispatching, List.filter_append, others, List.append_nil,
    PassLog.creditsOf]

theorem mem_owedTimers {band : SlotMask} {i : Nat} (owed : (s.owedTimers band).has i = true) :
    band.has i = true ∧ s.held i = false ∧
      ∃ entry, s.entries i = some entry ∧ entry.body.isArmedSteady = true := by
  simp only [owedTimers, Mask.has_collect, Bool.and_eq_true, Bool.not_eq_true'] at owed
  exact ⟨owed.2.1.1, owed.2.1.2, (Option.any_eq_true _ _).mp owed.2.2⟩

end SpinExecutor

theorem SpinPass.not_ahead_of_done (pass : SpinPass) (done : pass.done = true) {i : Nat} (inside : i < 64) :
    ¬ pass.Ahead i := by
  rw [SpinPass.done, Bool.and_eq_true] at done
  intro ahead
  cases work : pass.work with
  | sweep next =>
    rw [SpinPass.Ahead, work] at ahead
    rw [work] at done
    exact absurd (of_decide_eq_true done.2) (Nat.not_le.mpr (Nat.lt_of_le_of_lt ahead inside))
  | drain queue settled skipped =>
    rw [SpinPass.Ahead, work] at ahead
    rw [work] at done
    rw [List.isEmpty_iff.mp done.2] at ahead
    cases ahead

theorem isTimer_of_armed {body : EntryBody} (armed : body.isArmedSteady = true) :
    body.isTimer = true := by
  cases body with
  | timer header => rfl
  | handle entry => cases armed

namespace SpinPass.CreditsBut

variable {cfg : SpinConfig} {s : SpinExecutor} {pass after : SpinPass} {hand : Option Nat}

theorem move (credits : pass.CreditsBut none) (band : after.band = pass.band)
    (deltaUs : after.deltaUs = pass.deltaUs) (same : after.log.credits = pass.log.credits)
    (owed : ∀ i, after.log.owed.has i = true → pass.log.owed.has i = true)
    (empty : ∀ i, after.Ahead i ∨ hand = some i → pass.log.creditsOf i = [])
    (unsettled : ∀ queue settled skipped, after.work = .drain queue settled skipped →
      ∀ i, settled.has i = false → pass.log.creditsOf i = [])
    (keeps : ∀ i, pass.Ahead i → after.Ahead i ∨ hand = some i) : after.CreditsBut hand := by
  have equal : ∀ i, after.log.creditsOf i = pass.log.creditsOf i := by
    intro i
    rw [PassLog.creditsOf, same, PassLog.creditsOf]
  refine ⟨fun i due => ?_, fun i => ?_, fun i here => ?_, fun queue settled skipped work i free => ?_,
    fun i due => ?_⟩
  · rw [band]
    exact credits.band i (owed i due)
  · rw [equal]
    exact credits.once i
  · rw [equal]
    exact empty i here
  · rw [equal]
    exact unsettled queue settled skipped work i free
  · rcases credits.owed i (owed i due) with before | held | ⟨clock, paid⟩
    · exact (keeps i before).elim .inl fun held => .inr (.inl held)
    · cases held
    · exact .inr (.inr ⟨clock, by rw [equal, paid, deltaUs]⟩)

theorem sweepPast (credits : pass.CreditsBut none) {i : Nat} (work : pass.work = .sweep i) :
    (s.sweptPast pass i).CreditsBut (some i) := by
  have frame := s.excuse_frame pass i
  refine credits.move frame.1 frame.2.2.1 (s.excuse_log pass i).2.2.1
    (fun j owed => (s.excuse_owed pass i j owed).1) (fun j here => ?_) (fun _ _ _ drained => ?_)
    (fun j before => ?_)
  · apply credits.ahead j
    rw [Ahead, work]
    rcases here with later | held
    · exact .inl (Nat.le_of_succ_le later)
    · cases held
      exact .inl (Nat.le_refl i)
  · cases drained
  · rw [Ahead, work] at before
    rcases Nat.eq_or_lt_of_le before with same | later
    · exact .inr (congrArg some same)
    · exact .inl later

theorem pickFrom (credits : pass.CreditsBut none) {queue : List Nat} {settled skipped : SlotMask}
    (work : pass.work = .drain queue settled skipped) {i : Nat} (queued : i ∈ queue) :
    (s.pickedFrom pass queue settled skipped i).CreditsBut (some i) := by
  have frame := s.excuse_frame pass i
  refine credits.move frame.1 frame.2.2.1 (s.excuse_log pass i).2.2.1
    (fun j owed => (s.excuse_owed pass i j owed).1) (fun j here => ?_) (fun _ _ _ drained => ?_)
    (fun j before => ?_)
  · apply credits.ahead j
    rw [Ahead, work]
    rcases here with later | held
    · exact .inl (List.mem_of_mem_erase later)
    · cases held
      exact .inl queued
  · cases drained
    exact credits.unsettled queue settled skipped work
  · rw [Ahead, work] at before
    by_cases same : j = i
    · exact .inr (congrArg some same.symm)
    · exact .inl ((List.mem_erase_of_ne same).mpr before)

theorem drop {i : Nat} (credits : pass.CreditsBut (some i)) (quit : pass.log.owed.has i = false) :
    pass.CreditsBut none where
  band := credits.band
  once := credits.once
  ahead j here := by
    apply credits.ahead j
    rcases here with later | held
    · exact .inl later
    · cases held
  unsettled := credits.unsettled
  owed j due := by
    rcases credits.owed j due with later | held | paid
    · exact .inl later
    · cases held
      rw [quit] at due
      cases due
    · exact .inr (.inr paid)

theorem dispatch {i : Nat} (credits : pass.CreditsBut (some i)) (behind : ¬ pass.Ahead i)
    (settles : ∀ queue settled skipped, pass.work = .drain queue settled skipped →
      settled.has i = true) (body : EntryBody) (clocks : ClockReadings) (took : Bool)
    (armed : pass.log.owed.has i = true → body.isArmedSteady = true) :
    (s.dispatching pass i body clocks took).CreditsBut none := by
  have other : ∀ j, j ≠ i →
      (s.dispatching pass i body clocks took).log.creditsOf j = pass.log.creditsOf j :=
    fun j apart => s.creditsOf_dispatching_of_ne pass apart body clocks took
  have mine : (s.dispatching pass i body clocks took).log.creditsOf i =
      (body.begin clocks pass.deltaUs took).2.2.toList.map fun step => ⟨i, step.1, step.2⟩ := by
    rw [s.creditsOf_dispatching, credits.ahead i (.inr rfl), List.nil_append]
  refine ⟨credits.band, fun j => ?_, fun j here => ?_, fun queue settled skipped work j free => ?_,
    fun j due => ?_⟩
  · by_cases same : j = i
    · subst same
      rw [mine, List.length_map]
      exact Option.length_toList_le
    · rw [other j same]
      exact credits.once j
  · have later : pass.Ahead j := here.resolve_right nofun
    have apart : j ≠ i := fun same => behind (same ▸ later)
    rw [other j apart]
    exact credits.ahead j (.inl later)
  · have apart : j ≠ i := by
      intro same
      subst same
      cases free.symm.trans (settles queue settled skipped work)
    rw [other j apart]
    exact credits.unsettled queue settled skipped work j free
  · by_cases same : j = i
    · subst same
      rcases begin_armed (armed due) clocks pass.deltaUs took with ⟨before, advance⟩
      refine .inr (.inr ⟨before, ?_⟩)
      rw [mine, advance]
      rfl
    · rcases credits.owed j due with later | held | ⟨before, paid⟩
      · exact .inl later
      · exact absurd (Option.some.inj held).symm same
      · exact .inr (.inr ⟨before, (other j same).trans paid⟩)

theorem merged (credits : pass.CreditsBut none) : (s.merged cfg pass).CreditsBut none := by
  rcases s.merged_cases cfg pass with same | ⟨queue, settled, skipped, joins, work, same, fresh⟩
  · rw [same]
    exact credits
  · rw [same]
    refine credits.move rfl rfl rfl (fun _ owed => owed) (fun i here => ?_)
      (fun _ _ _ drained i free => ?_) (fun i before => ?_)
    · rcases List.mem_append.mp (here.resolve_right nofun) with before | joined
      · apply credits.ahead i
        rw [Ahead, work]
        exact .inl before
      · exact credits.unsettled queue settled skipped work i
          (fresh i (List.mem_filter.mp joined).2).1
    · cases drained
      rw [Mask.has_or, Bool.or_eq_false_iff] at free
      exact credits.unsettled queue settled skipped work i free.1
    · rw [Ahead, work] at before
      exact .inl (List.mem_append_left _ before)

theorem resumed (credits : pass.CreditsBut none) (running : Running) (elapsedUs : Option UInt32) :
    (SpinExecutor.resumed cfg pass running elapsedUs).CreditsBut none := by
  rcases SpinExecutor.resumed_cases cfg pass running elapsedUs with
    same | ⟨queue, settled, skipped, more, work, same⟩
  · rw [same]
    exact ⟨credits.band, credits.once, credits.ahead, credits.unsettled, credits.owed⟩
  · rw [same]
    refine credits.move rfl rfl rfl (fun _ owed => owed) (fun i here => ?_)
      (fun _ _ _ drained i free => ?_) (fun i before => ?_)
    · apply credits.ahead i
      rw [Ahead, work]
      exact here
    · cases drained
      exact credits.unsettled queue settled skipped work i free
    · rw [Ahead, work] at before
      exact .inl before

theorem step (credits : pass.CreditsBut none) (once : pass.Once) {p : Nat} {e : SpinEvent}
    (here : s.passes p = some pass) (acts : e.actor s = some p) (pays : s.pays cfg e)
    (went : PassStep cfg s e pass after) : after.CreditsBut none := by
  cases went with
  | sweepPast q i pass clocks work untimed =>
    apply (credits.sweepPast work).drop
    rw [Bool.eq_false_iff]
    intro owed
    rcases s.excuse_owed pass i i owed with ⟨was, kept⟩
    rcases kept rfl with ⟨unheld, entry, present, armed⟩
    have passed := untimed entry present
    rw [isTimer_of_armed armed, credits.band i was, unheld] at passed
    cases passed
  | sweepDispatch q i pass clocks entry work present timer unheld =>
    apply (credits.sweepPast work).dispatch
    · exact Nat.not_succ_le_self i
    · intro _ _ _ drained
      cases drained
    · intro owed
      rcases (s.excuse_owed pass i i owed).2 rfl with ⟨_, again, found, armed⟩
      cases present.symm.trans found
      exact armed
  | contained q i pass queue settled skipped clocks took work queued within =>
    cases acts
    apply (credits.pickFrom work queued).drop
    rw [Bool.eq_false_iff]
    intro owed
    rcases (s.excuse_owed pass i i owed).2 rfl with ⟨unheld, armed⟩
    have unarmed := pays pass queue settled skipped here work within
    rw [unheld, (Option.any_eq_true _ _).mpr armed] at unarmed
    cases unarmed
  | pickPast q i pass queue settled skipped clocks took work queued away =>
    apply merged
    apply (credits.pickFrom work queued).drop
    rw [Bool.eq_false_iff]
    intro owed
    rcases (s.excuse_owed pass i i owed).2 rfl with ⟨unheld, entry, present, _⟩
    rcases away with vacant | held
    · cases vacant.symm.trans present
    · cases held.symm.trans unheld
  | pickDispatch q i pass queue settled skipped clocks took entry work queued present unheld =>
    rcases once.drains queue settled skipped work with ⟨distinct, inside, _⟩
    apply (credits.pickFrom work queued).dispatch
    · exact distinct.not_mem_erase
    · intro _ _ _ drained
      cases drained
      exact (inside i queued).1
    · intro owed
      rcases (s.excuse_owed pass i i owed).2 rfl with ⟨_, again, found, armed⟩
      cases present.symm.trans found
      exact armed
  | returned q pass running clocks elapsedUs busy => exact (credits.resumed running elapsedUs).merged

end SpinPass.CreditsBut

/-- Timers are scanned and dispatched in line: no waker announces them, no host takes them over, and
a scan has marked each that it has come to. -/
structure SpinExecutor.TimersInline (s : SpinExecutor) : Prop where
  attributed : ∀ i entry, s.entries i = some entry → entry.body.isTimer = true →
    s.entityAttributed.has i = false
  deferred : ∀ i, s.deferredMask.has i = true → ∃ entry, s.entries i = some entry ∧
    entry.body.isTimer = false
  pushed : ∀ scan, s.scan = some scan → scan.attributed = s.entityAttributed
  seen : ∀ scan, s.scan = some scan → ∀ i entry, i < scan.next → s.entries i = some entry →
    entry.body.isTimer = true → scan.band.has i = true → s.held i = false → scan.bits.has i = true

namespace SpinExecutor

variable (cfg : SpinConfig) (s : SpinExecutor)

theorem scan_afterPick (p : Nat) (pass : SpinPass) : (s.afterPick cfg p pass).scan = s.scan := by
  rw [afterPick]
  split
  · split
    · rfl
    · rfl
  · rfl

theorem scan_sweepNext (p : Nat) (pass : SpinPass) (i : Nat) (clocks : ClockReadings) :
    (s.sweepNext p pass i clocks).scan = s.scan := by
  simp only [sweepNext]
  split
  · split
    · rfl
    · rfl
  · rfl

theorem scan_pick (p : Nat) (pass : SpinPass) (queue : List Nat) (settled skipped : SlotMask) (i : Nat)
    (clocks : ClockReadings) (took : Bool) :
    (s.pick cfg p pass queue settled skipped i clocks took).scan = s.scan := by
  simp only [pick]
  split
  · rfl
  · split
    · split
      · exact scan_afterPick cfg s p _
      · rfl
    · exact scan_afterPick cfg s p _

theorem scan_dispatchDeferredSlot (d : Nat) (rest : SlotMask) (i : Nat) (clocks : ClockReadings)
    (took : Bool) : (s.dispatchDeferredSlot d rest i clocks took).scan = s.scan := by
  simp only [dispatchDeferredSlot]
  split
  · rfl
  · split
    · rfl
    · rfl

theorem scan_setDeferredRun (d : Nat) (run : Option DeferredRun) :
    (s.setDeferredRun d run).scan = s.scan := rfl

theorem entries_prepared {α : Type} (read : EntryBody → α)
    (same : ∀ body, read body.preSample = read body) (scan : Scan) (i : Nat) :
    ((s.prepared cfg scan).entries i).map (fun m => read m.body) =
      (s.entries i).map fun m => read m.body := by
  rcases s.prepared_cases cfg scan with ⟨_, prepared⟩ | ⟨_, prepared⟩
  · rw [prepared, ((s.preSample scan.band).refillSporadic_frame scan.nowUs).1, preSample]
    dsimp only
    split
    · rw [Option.map_map]
      congr 1
      funext m
      exact same m.body
    · rfl
  · rw [prepared, (s.refillSporadic_frame scan.nowUs).1]

theorem isTimer_preSample (body : EntryBody) : body.preSample.isTimer = body.isTimer := by
  cases body with
  | timer header => rfl
  | handle entry =>
    simp only [EntryBody.preSample]
    split
    · rfl
    · rfl

theorem isArmedSteady_preSample (body : EntryBody) :
    body.preSample.isArmedSteady = body.isArmedSteady := by
  cases body with
  | timer header => rfl
  | handle entry =>
    simp only [EntryBody.preSample]
    split
    · rfl
    · rfl

theorem isTimer_evaluate (scan : Scan) (clocks : ClockReadings) (i : Nat) :
    ((s.evaluate cfg scan clocks).entries i).map (fun m => m.body.isTimer) =
      (s.entries i).map fun m => m.body.isTimer := by
  have prepared := (s.endScan scan).entries_prepared cfg EntryBody.isTimer isTimer_preSample scan i
  rw [evaluate]
  split
  · apply Eq.trans _ prepared
    change Option.map _ (if _ then Option.map _ _ else _) = _
    split
    · rw [Option.map_map]
      congr 1
      funext m
      change (m.body.skip clocks scan.deltaUs).isTimer = m.body.isTimer
      cases m.body with
      | timer header => rfl
      | handle entry => rfl
    · rfl
  · rfl

theorem evaluate_frame (scan : Scan) (clocks : ClockReadings) :
    (s.evaluate cfg scan clocks).scan = none ∧
      (s.evaluate cfg scan clocks).entityAttributed = s.entityAttributed ∧
      (s.evaluate cfg scan clocks).deferredMask = s.deferredMask := by
  rw [evaluate]
  split
  · rcases (s.endScan scan).prepared_cases cfg scan with ⟨_, same⟩ | ⟨_, same⟩
    all_goals
      simp only [startDrain, same]
      cases scan.nowUs with
      | some now | none => exact ⟨rfl, rfl, rfl⟩
  · exact ⟨rfl, rfl, rfl⟩

end SpinExecutor

namespace SpinExecutor.TimersInline

variable {cfg : SpinConfig} {s next : SpinExecutor}

section

variable (inline : s.TimersInline)
include inline

section

variable (kept : s.Remains next)
include kept

theorem attributed_remains (i : Nat) (entry : CallbackMeta) (present : next.entries i = some entry)
    (timer : entry.body.isTimer = true) : next.entityAttributed.has i = false := by
  rcases kept.entries i entry present with ⟨before, was, kind, _⟩
  have unattributed := inline.attributed i before was (kind ▸ timer)
  rw [Bool.eq_false_iff] at unattributed ⊢
  exact fun attributed => unattributed (kept.attributed i attributed)

theorem deferred_remains (i : Nat) (deferred : next.deferredMask.has i = true) :
    ∃ entry, next.entries i = some entry ∧ entry.body.isTimer = false := by
  have handle : ∃ entry, s.entries i = some entry ∧ entry.body.isTimer = false := by
    rcases kept.deferred i deferred with before | found
    · exact inline.deferred i before
    · exact found
  rcases handle with ⟨before, was, untimed⟩
  cases present : next.entries i with
  | none => cases was.symm.trans (kept.vacant i deferred present)
  | some entry =>
    rcases kept.entries i entry present with ⟨again, here, kind, _⟩
    cases was.symm.trans here
    exact ⟨entry, rfl, kind.trans untimed⟩

theorem remains (free : next.scan = none) :
    next.TimersInline where
  attributed := inline.attributed_remains kept
  deferred := inline.deferred_remains kept
  pushed _ locked := nomatch free.symm.trans locked
  seen _ locked := nomatch free.symm.trans locked

theorem background (scan : next.scan = s.scan)
    (attributed : next.entityAttributed = s.entityAttributed) (tags : next.tags = s.tags) :
    next.TimersInline where
  attributed := inline.attributed_remains kept
  deferred := inline.deferred_remains kept
  pushed scan' locked := (inline.pushed scan' (scan ▸ locked)).trans attributed.symm
  seen scan' locked i entry past present timer inside unheld := by
    rcases kept.entries i entry present with ⟨before, was, kind, _⟩
    rw [held, tags] at unheld
    exact inline.seen scan' (scan ▸ locked) i before past was (kind ▸ timer) inside unheld

end

theorem scanNext {scan : Scan} (locked : s.scan = some scan) :
    TimersInline { s with scan := some (s.scanSlot scan) } := by
  have frame := scanSlot_frame s scan
  refine ⟨inline.attributed, inline.deferred, fun after found => ?_,
    fun after found i entry past present timer inside unheld => ?_⟩
  · cases found
    exact frame.attributed.trans (inline.pushed scan locked)
  · cases found
    rw [frame.next] at past
    rw [frame.band] at inside
    by_cases same : i = scan.next
    · subst same
      have unpushed : scan.attributed.has scan.next = false := by
        rw [inline.pushed scan locked]
        exact inline.attributed _ entry present timer
      have asked : entry.body.hasData = true := by
        cases kind : entry.body with
        | timer header => rfl
        | handle other =>
          rw [kind] at timer
          cases timer
      have here : s.entries scan.next = some entry := present
      have unheld' : s.held scan.next = false := unheld
      simp [scanSlot, here, inside, unheld', scanReady, unpushed, asked, Mask.has_lt inside]
    · rw [frame.bits i same]
      exact inline.seen scan locked i entry (by omega) present timer inside unheld

theorem spin (p : Nat) (band : SlotMask) (nowUs : Option Nat) (deltaUs : Nat)
    : (s.beginScan p band nowUs deltaUs).TimersInline := by
  refine ⟨inline.attributed, inline.deferred, fun scan found => ?_, fun scan found i _ past => ?_⟩
  · cases found
    rfl
  · cases found
    exact absurd past (Nat.not_lt_zero i)

theorem evaluate (scan : Scan) (clocks : ClockReadings) :
    (s.evaluate cfg scan clocks).TimersInline := by
  have frame := s.evaluate_frame cfg scan clocks
  have kinds := s.isTimer_evaluate cfg scan clocks
  refine ⟨fun i entry present timer => ?_, fun i deferred => ?_,
    fun _ found => (nomatch frame.1.symm.trans found), fun _ found => nomatch frame.1.symm.trans found⟩
  · have kind := kinds i
    rw [present] at kind
    rcases Option.map_eq_some_iff.mp kind.symm with ⟨before, was, same⟩
    rw [frame.2.1]
    exact inline.attributed i before was (same.trans timer)
  · rw [frame.2.2] at deferred
    rcases inline.deferred i deferred with ⟨before, was, untimed⟩
    have kind := kinds i
    rw [was] at kind
    rcases Option.map_eq_some_iff.mp kind with ⟨entry, present, same⟩
    exact ⟨entry, present, same.trans untimed⟩

theorem register {i : Nat} (vacant : s.entries i = none) (entry : CallbackMeta)
    (attributed polled : Bool) (free : s.scan = none)
    (wakes : attributed = true → entry.body.isTimer = false) :
    (s.register i entry attributed polled).TimersInline := by
  refine ⟨fun j found present timer => ?_, fun j deferred => ?_,
    fun _ locked => (nomatch free.symm.trans locked), fun _ locked => nomatch free.symm.trans locked⟩
  · change update s.entries i (some entry) j = some found at present
    by_cases same : j = i
    · subst same
      rw [update_self] at present
      cases present
      cases attributed with
      | true => cases timer.symm.trans (wakes rfl)
      | false => simp [SpinExecutor.register]
    · rw [update_of_ne same] at present
      have before := inline.attributed j found present timer
      cases attributed with
      | true => simp [SpinExecutor.register, before, Ne.symm same]
      | false => simp [SpinExecutor.register, before]
  · rcases inline.deferred j deferred with ⟨before, was, untimed⟩
    have apart : j ≠ i := by
      intro same
      subst same
      cases vacant.symm.trans was
    refine ⟨before, ?_, untimed⟩
    change update s.entries i (some entry) j = some before
    rw [update_of_ne apart]
    exact was

end

end SpinExecutor.TimersInline

/-- The steps of a scan, and those that do not wait for its lock. -/
def SpinEvent.scans : SpinEvent → Bool
  | .enqueue _ | .announce _ | .refillTick _ | .scanNext | .evaluate _ | .spin _ _ _ _ false => true
  | _ => false

theorem SpinStep.unlocked (stepped : SpinStep cfg s e next) (apart : e.scans = false) :
    next.scan = none := by
  open SpinExecutor in
  cases stepped with
  | enqueue => cases apart
  | announce => cases apart
  | refillTick => cases apart
  | scanNext => cases apart
  | evaluate => cases apart
  | spin => cases apart
  | yield p band nowUs deltaUs free => exact (SameWork.reapDeferredReleases s).scan.trans free
  | sweepNext p i pass clocks free => exact (s.scan_sweepNext p pass i clocks).trans free
  | pick p i pass queue settled skipped clocks took free =>
    exact (s.scan_pick cfg p pass queue settled skipped i clocks took).trans free
  | callbackReturn p pass running clocks elapsedUs free =>
    rw [callbackReturn_eq, scan_afterPick]
    exact (sameWork_returned cfg s running clocks pass.work elapsedUs).scan.trans free
  | finish p pass free => exact free
  | setDeferred i deferred free => exact (SameWork.setDeferred s i deferred).scan.trans free
  | runDeferred d rest free | runDeferredHandle d i rest free =>
    rw [scan_setDeferredRun, (SameWork.reapDeferredReleases s).scan, free]
  | deferredPick d i run clocks took free =>
    exact (s.scan_dispatchDeferredSlot d _ i clocks took).trans free
  | deferredReturn d i run clocks free => exact (SameWork.finishDispatch s i clocks).scan.trans free
  | deferredFinish d run free => exact free
  | release i free => exact (SameWork.releaseEntry s i).scan.trans free
  | register i entry attributed polled free => exact free
  | bind i sc free => exact free
  | deferTimerOp i op clocks free => exact free
  | timerOp i op elsewhere clocks free =>
    exact (SameWork.applyTimerOp s i op clocks).scan.trans free

theorem SpinStep.timersInline (stepped : SpinStep cfg s e next) (inline : s.TimersInline) :
    next.TimersInline := by
  have kept : e.reshapes = false → s.Remains next := stepped.remains
  have unlocked : e.scans = false → next.scan = none := stepped.unlocked
  open SpinExecutor in
  cases stepped with
  | enqueue i =>
    apply inline.background (kept rfl)
    · exact (SameWork.enqueue s i).scan
    · rw [SpinExecutor.enqueue]
      split
      · rfl
      · rfl
    · rw [SpinExecutor.enqueue]
      split
      · rfl
      · rfl
  | announce i | refillTick => exact inline.background (kept rfl) rfl rfl rfl
  | scanNext scan locked more => exact inline.scanNext locked
  | evaluate scan locked all clocks => exact inline.evaluate scan clocks
  | spin p band nowUs deltaUs free unused =>
    have reaped := inline.remains (Remains.reapDeferredReleases s)
      ((SameWork.reapDeferredReleases s).scan.trans free)
    exact reaped.spin p band nowUs deltaUs
  | register i entry attributed polled free inside vacant unsampled wakes =>
    exact inline.register vacant entry attributed polled free wakes
  | bind i sc free =>
    exact ⟨inline.attributed, inline.deferred, inline.pushed, inline.seen⟩
  | _ => exact inline.remains (kept rfl) (unlocked rfl)

namespace SpinExecutor

variable (cfg : SpinConfig) (s : SpinExecutor)

theorem owedTimers_prepared (scan : Scan) :
    ((s.endScan scan).prepared cfg scan).owedTimers scan.band = s.owedTimers scan.band := by
  have armed : ∀ i, (((s.endScan scan).prepared cfg scan).entries i).any
      (fun m => m.body.isArmedSteady) = (s.entries i).any fun m => m.body.isArmedSteady := by
    intro i
    have same := (s.endScan scan).entries_prepared cfg EntryBody.isArmedSteady
      isArmedSteady_preSample scan i
    have any := congrArg (Option.any id) same
    rw [Option.any_map, Option.any_map] at any
    exact any
  have tags : ((s.endScan scan).prepared cfg scan).tags = s.tags :=
    ((s.endScan scan).prepared_frame cfg scan).2.1
  simp only [owedTimers, held, armed, tags]

theorem active_of_owed (inline : s.TimersInline) {scan : Scan} (locked : s.scan = some scan)
    (all : 64 ≤ scan.next) {i : Nat} (owed : (s.owedTimers scan.band).has i = true) :
    (s.activeSlots scan).has i = true := by
  rcases s.mem_owedTimers owed with ⟨inside, unheld, entry, present, armed⟩
  have timer := isTimer_of_armed armed
  have marked := inline.seen scan locked i entry (Nat.lt_of_lt_of_le (Mask.has_lt inside) all)
    present timer inside unheld
  have undeferred : s.deferredMask.has i = false := by
    rw [Bool.eq_false_iff]
    intro deferred
    rcases inline.deferred i deferred with ⟨again, found, untimed⟩
    cases present.symm.trans found
    cases timer.symm.trans untimed
  rw [activeSlots, Mask.has_or, Mask.has_diff, marked, undeferred]
  rfl

theorem throttled_iff {active : SlotMask} {i : Nat} :
    s.throttled cfg active i = true ↔ active.has i = true ∧
      cfg.classOf (s.bindings i) = .sporadic ∧ s.hasBudget (s.bindings i) = false := by
  rw [throttled, Bool.and_eq_true, Bool.and_eq_true, decide_eq_true_eq, Bool.not_eq_true', and_assoc]

theorem creditsOf_drainPass (scan : Scan) (active : SlotMask) (clocks : ClockReadings) (i : Nat) :
    (s.drainPass cfg scan active clocks).log.creditsOf i =
      if s.throttled cfg active i = true then (s.skipCredit clocks scan.deltaUs i).toList
      else [] := by
  have listed : i ∈ (List.range 64).filter (s.throttled cfg active) ↔
      s.throttled cfg active i = true := by
    rw [List.mem_filter, List.mem_range]
    refine and_iff_right_of_imp fun held => ?_
    exact Mask.has_lt ((s.throttled_iff cfg).mp held).1
  change List.filter _ (List.filterMap _ _) = _
  rw [filter_filterMap_slot _ skipCredit_slot i _ (List.nodup_range.filter _)]
  simp only [listed]

end SpinExecutor

namespace SpinPass.CreditsBut

variable {cfg : SpinConfig} {s next : SpinExecutor} {e : SpinEvent}

theorem sweep (scan : Scan) : ((s.endScan scan).sweepPass scan).CreditsBut none where
  band _ due := ((s.endScan scan).mem_owedTimers due).1
  once _ := Nat.zero_le 1
  ahead _ _ := rfl
  unsettled _ _ _ _ _ _ := rfl
  owed i _ := .inl (Nat.zero_le i)

theorem drain (inline : s.TimersInline) {scan : Scan} (locked : s.scan = some scan)
    (all : 64 ≤ scan.next) (clocks : ClockReadings)
    (pays : ∀ i, (s.owedTimers scan.band).has i = true → (cfg.classOf (s.bindings i) = .sporadic ∧
        (s.refillSporadic scan.nowUs).hasBudget (s.bindings i) = false) ∨
      cfg.windowOpen (s.bindings i) (scan.nowUs.getD scan.deltaUs) = true) :
    (((s.endScan scan).prepared cfg scan).drainPass cfg scan (s.activeSlots scan)
      clocks).CreditsBut none := by
  have bindings : ((s.endScan scan).prepared cfg scan).bindings = s.bindings :=
    ((s.endScan scan).prepared_frame cfg scan).1
  have budget := s.hasBudget_prepared cfg scan
  have untouched : ∀ i, ((s.endScan scan).prepared cfg scan).throttled cfg (s.activeSlots scan) i =
      false → (((s.endScan scan).prepared cfg scan).drainPass cfg scan (s.activeSlots scan)
        clocks).log.creditsOf i = [] := by
    intro i free
    rw [SpinExecutor.creditsOf_drainPass, free]
    rfl
  refine ⟨fun i due => ?_, fun i => ?_, fun i here => ?_, fun _ _ _ drained i free => ?_,
    fun i due => ?_⟩
  · exact (((s.endScan scan).prepared cfg scan).mem_owedTimers due).1
  · rw [SpinExecutor.creditsOf_drainPass]
    split
    · exact Option.length_toList_le
    · exact Nat.zero_le 1
  · have queued := (List.mem_filter.mp (here.resolve_right nofun)).2
    simp only [Bool.and_eq_true, Bool.not_eq_true'] at queued
    exact untouched i queued.1.2
  · cases drained
    apply untouched
    rw [SpinExecutor.throttled, free]
    rfl
  · have owed : (s.owedTimers scan.band).has i = true := by
      rw [← s.owedTimers_prepared cfg scan]
      exact due
    have active := s.active_of_owed inline locked all owed
    by_cases held : ((s.endScan scan).prepared cfg scan).throttled cfg (s.activeSlots scan) i = true
    · rcases (((s.endScan scan).prepared cfg scan).mem_owedTimers due).2.2 with
        ⟨entry, present, armed⟩
      rcases skipCredit_armed present armed clocks scan.deltaUs with ⟨before, credit⟩
      refine .inr (.inr ⟨before, ?_⟩)
      rw [SpinExecutor.creditsOf_drainPass, if_pos held, credit]
      rfl
    · apply Or.inl
      apply (s.mem_gatedQueue cfg scan i).mpr
      rw [SpinExecutor.throttled_iff, bindings, budget] at held
      rcases pays i owed with spent | opened
      · exact absurd ⟨active, spent⟩ held
      · refine ⟨active, ?_⟩
        rw [SpinExecutor.gateOpen, opened, Bool.and_true, Bool.or_eq_true, decide_eq_true_eq]
        by_cases sporadic : cfg.classOf (s.bindings i) = .sporadic
        · apply Or.inr
          rw [← Bool.not_eq_false]
          exact fun spent => held ⟨active, sporadic, spent⟩
        · exact .inl sporadic

end SpinPass.CreditsBut

/-- What the clocks of a run that pays rest on. -/
structure SpinExecutor.Paying (s : SpinExecutor) : Prop where
  inline : s.TimersInline
  once : ∀ p pass, s.passes p = some pass → pass.Once
  credits : ∀ p pass, s.passes p = some pass → pass.CreditsBut none

theorem paying_fresh (sporadic : Nat → Option SporadicState)
    (atomics : Nat → Option AtomicSporadicState) :
    (SpinExecutor.fresh sporadic atomics).Paying where
  inline := by
    refine ⟨fun _ _ present => (nomatch present), fun i deferred => ?_,
      fun _ locked => (nomatch locked), fun _ locked => nomatch locked⟩
    cases (Mask.has_zero i).symm.trans deferred
  once _ _ found := nomatch found
  credits _ _ found := nomatch found

theorem SpinStep.evaluates (stepped : SpinStep cfg s e next) {scan : Scan}
    (locked : s.scan = some scan) {p : Nat} (acts : e.actor s = some p) :
    ∃ clocks, e = .evaluate clocks := by
  cases stepped with
  | evaluate _ _ _ clocks => exact ⟨clocks, rfl⟩
  | sweepNext _ _ _ _ free | pick _ _ _ _ _ _ _ _ free
  | callbackReturn _ _ _ _ _ free => cases locked.symm.trans free
  | finish _ _ free => cases locked.symm.trans free
  | _ => cases acts

theorem SpinStep.credits (stepped : SpinStep cfg s e next) (pays : s.pays cfg e) (good : s.Paying)
    (p : Nat) (after : SpinPass) (found : next.passes p = some after) : after.CreditsBut none := by
  by_cases acts : e.actor s = some p
  · rcases stepped.pass_cases found with same | started | ⟨pass, here, went⟩
    · exact good.credits p after same
    · cases started with
      | sweep scan locked all fails => exact .sweep scan
      | drain scan clocks locked all passes =>
        rcases stepped.evaluates locked acts with ⟨_, rfl⟩
        exact .drain good.inline locked all clocks (pays scan locked passes)
    · exact (good.credits p pass here).step (good.once p pass here) here acts pays went
  · exact good.credits p after ((stepped.passes_of_ne acts).symm.trans found)

theorem paying_step (cfg : SpinConfig) (s : SpinExecutor) (e : SpinEvent) (next : SpinExecutor)
    (good : s.Paying) (pays : s.pays cfg e) (stepped : s.step cfg e = some next) : next.Paying where
  inline := (SpinStep.of_step stepped).timersInline good.inline
  once := (SpinStep.of_step stepped).once good.once
  credits := (SpinStep.of_step stepped).credits pays good

/-- No item has come, the trigger fails, and the sweep moves the timer's clock. -/
def sweptRun : List SpinEvent :=
  [.register 0 (steadyEntry 200) false false, .register 1 plainSubscription true false] ++
    spinAll 0 (some 1000) 100 ++ [.sweepNext 0 noClocks, .callbackReturn 0 noClocks none] ++
    List.replicate 63 (.sweepNext 0 noClocks)

/-- Context 1 has a window in the first half of a frame of a millisecond. -/
def windowedSpin : SpinConfig where
  contexts sc := if sc = 1 then some ⟨.fifo, 0, .ignore, 0, 500⟩ else none
  majorFrameUs := 1000
  trigger := .any
  semantics := .rclcppExecutor
  reprobeEachCallback := false

/-- A pass in the second half of the frame leaves the timer in the first half alone. -/
def outsideRun : List SpinEvent :=
  [.register 0 (steadyEntry 200) false false, .bind 0 1] ++ spinAll 0 (some 700) 100

end NanoRos
