import NanoRos.Node.Readiness
import NanoRos.Node.SpinFrame

/-! Runs of the executor: whatever order arrivals, passes, drains and calls come in, no arrival is
lost as long as deferral is not turned off under a queued callback and no sample is taken for a
callback that does not get it. -/

namespace NanoRos

open Function

/-- A pass dispatches no slot twice: what it has dispatched lies behind the sweep, or is settled and
out of the queue. -/
structure SpinPass.Once (pass : SpinPass) : Prop where
  nodup : pass.log.dispatched.Nodup
  sweeps : ∀ next, pass.work = .sweep next → ∀ i ∈ pass.log.dispatched, i < next
  drains : ∀ queue settled skipped, pass.work = .drain queue settled skipped →
    queue.Nodup ∧ (∀ i ∈ queue, settled.has i = true ∧ i ∉ pass.log.dispatched) ∧
      ∀ i ∈ pass.log.dispatched, settled.has i = true

namespace SpinPass.Once

variable {cfg : SpinConfig} {s : SpinExecutor} {e : SpinEvent} {pass after : SpinPass}

theorem sweepPast (once : pass.Once) {i : Nat} (work : pass.work = .sweep i) :
    (s.sweptPast pass i).Once := by
  have same := (s.excuse_log pass i).1
  refine ⟨same ▸ once.nodup, fun next swept j member => ?_, fun _ _ _ drained => nomatch drained⟩
  cases swept
  rw [SpinExecutor.sweptPast, same] at member
  exact Nat.lt_succ_of_lt (once.sweeps i work j member)

theorem pickFrom (once : pass.Once) {queue : List Nat} {settled skipped : SlotMask} {i : Nat}
    (work : pass.work = .drain queue settled skipped) :
    (s.pickedFrom pass queue settled skipped i).Once := by
  have same := (s.excuse_log pass i).1
  rcases once.drains queue settled skipped work with ⟨distinct, inside, done⟩
  refine ⟨same ▸ once.nodup, fun _ swept => (nomatch swept), fun queue settled skipped drained => ?_⟩
  cases drained
  rw [SpinExecutor.pickedFrom, same]
  exact ⟨distinct.erase i, fun j member => inside j (List.mem_of_mem_erase member), done⟩

theorem dispatch (once : pass.Once) {i : Nat} (body : EntryBody) (clocks : ClockReadings)
    (took : Bool) (new : i ∉ pass.log.dispatched)
    (swept : ∀ next, pass.work = .sweep next → i < next)
    (drained : ∀ queue settled skipped, pass.work = .drain queue settled skipped →
      settled.has i = true ∧ i ∉ queue) : (s.dispatching pass i body clocks took).Once := by
  have log : (s.dispatching pass i body clocks took).log.dispatched =
      pass.log.dispatched ++ [i] := rfl
  refine ⟨?_, fun next work j member => ?_, fun queue settled skipped work => ?_⟩
  · rw [log, List.nodup_append]
    refine ⟨once.nodup, List.nodup_singleton i, fun a first b second same => ?_⟩
    rw [List.mem_singleton] at second
    exact new (second ▸ same ▸ first)
  · rw [log, List.mem_append, List.mem_singleton] at member
    rcases member with before | rfl
    · exact once.sweeps next work j before
    · exact swept next work
  · rcases once.drains queue settled skipped work with ⟨distinct, inside, done⟩
    have here := drained queue settled skipped work
    rw [log]
    refine ⟨distinct, fun j member => ⟨(inside j member).1, fun again => ?_⟩, fun j member => ?_⟩
    · rw [List.mem_append, List.mem_singleton] at again
      rcases again with before | rfl
      · exact (inside j member).2 before
      · exact here.2 member
    · rw [List.mem_append, List.mem_singleton] at member
      rcases member with before | rfl
      · exact done j before
      · exact here.1

theorem merged (once : pass.Once) : (s.merged cfg pass).Once := by
  rcases s.merged_cases cfg pass with same | ⟨queue, settled, skipped, joins, work, same, fresh⟩
  · rw [same]
    exact once
  · rcases once.drains queue settled skipped work with ⟨distinct, inside, done⟩
    have apart : ∀ i, joins i = true → i ∉ queue ∧ i ∉ pass.log.dispatched := by
      intro i joined
      have unsettled := (fresh i joined).1
      constructor
      · intro member
        exact Bool.false_ne_true (unsettled.symm.trans (inside i member).1)
      · intro member
        exact Bool.false_ne_true (unsettled.symm.trans (done i member))
    rw [same]
    refine ⟨once.nodup, fun _ swept => (nomatch swept), fun _ _ _ drained => ?_⟩
    cases drained
    refine ⟨?_, fun i member => ?_, fun i member => ?_⟩
    · rw [List.nodup_append]
      refine ⟨distinct, List.nodup_range.filter _, fun a first b second equal => ?_⟩
      subst equal
      exact (apart a (List.mem_filter.mp second).2).1 first
    · rcases List.mem_append.mp member with before | joined
      · refine ⟨?_, (inside i before).2⟩
        rw [Mask.has_or, (inside i before).1, Bool.true_or]
      · rcases List.mem_filter.mp joined with ⟨range, joins⟩
        refine ⟨?_, (apart i joins).2⟩
        rw [Mask.has_or, Mask.has_collect, joins, decide_eq_true (List.mem_range.mp range)]
        exact Bool.or_true _
    · rw [Mask.has_or, done i member, Bool.true_or]

theorem resumed (once : pass.Once) (running : Running) (elapsedUs : Option UInt32) :
    (SpinExecutor.resumed cfg pass running elapsedUs).Once := by
  rcases SpinExecutor.resumed_cases cfg pass running elapsedUs with
    same | ⟨queue, settled, skipped, more, work, same⟩
  · exact same ▸ ⟨once.nodup, once.sweeps, once.drains⟩
  · rw [same]
    refine ⟨once.nodup, fun _ swept => (nomatch swept), fun _ _ _ drained => ?_⟩
    cases drained
    exact once.drains queue settled skipped work

theorem start {p : Nat} (started : PassStart cfg s p pass) : pass.Once := by
  cases started with
  | drain scan clocks locked all passes =>
    refine ⟨List.nodup_nil, fun _ swept => (nomatch swept), fun _ _ _ drained => ?_⟩
    cases drained
    refine ⟨List.nodup_range.filter _, fun i member => ⟨?_, List.not_mem_nil⟩,
      fun i member => (nomatch member)⟩
    have gated := (List.mem_filter.mp member).2
    simp only [Bool.and_eq_true] at gated
    exact gated.1.1
  | sweep scan locked all fails =>
    exact ⟨List.nodup_nil, fun _ _ i member => (nomatch member),
      fun _ _ _ drained => nomatch drained⟩

theorem step (once : pass.Once) (stepped : PassStep cfg s e pass after) : after.Once := by
  cases stepped with
  | sweepPast p i pass clocks work untimed => exact once.sweepPast work
  | sweepDispatch p i pass clocks entry work present timer unheld =>
    apply (once.sweepPast work).dispatch
    · rw [SpinExecutor.sweptPast, (s.excuse_log pass i).1]
      intro member
      exact Nat.lt_irrefl i (once.sweeps i work i member)
    · intro next swept
      cases swept
      exact Nat.lt_succ_self i
    · intro _ _ _ drained
      cases drained
  | contained p i pass queue settled skipped clocks took work queued within =>
    exact once.pickFrom work
  | pickPast p i pass queue settled skipped clocks took work queued away =>
    exact (once.pickFrom work).merged
  | pickDispatch p i pass queue settled skipped clocks took entry work queued present unheld =>
    rcases once.drains queue settled skipped work with ⟨distinct, inside, _⟩
    apply (once.pickFrom work).dispatch
    · rw [SpinExecutor.pickedFrom, (s.excuse_log pass i).1]
      exact (inside i queued).2
    · intro _ swept
      cases swept
    · intro _ _ _ drained
      cases drained
      exact ⟨(inside i queued).1, fun again => (List.Nodup.not_mem_erase distinct) again⟩
  | returned p pass running clocks elapsedUs busy => exact (once.resumed running elapsedUs).merged

end SpinPass.Once

theorem SpinStep.once {cfg : SpinConfig} {s next : SpinExecutor} {e : SpinEvent}
    (stepped : SpinStep cfg s e next) (all : ∀ p pass, s.passes p = some pass → pass.Once)
    (p : Nat) (after : SpinPass) (found : next.passes p = some after) : after.Once := by
  rcases stepped.pass_cases found with same | started | ⟨pass, here, went⟩
  · exact all p after same
  · exact SpinPass.Once.start started
  · exact (all p pass here).step went

namespace SpinExecutor

/-- A sample was taken for an attributed slot, and its callback has not had it. -/
def Sampled (s : SpinExecutor) (i : Nat) : Prop :=
  s.entityAttributed.has i = true ∧ ∃ entry, s.entries i = some entry ∧ entry.body.sampled = true

/-- A pass under way is still to come to the slot. -/
def Queued (s : SpinExecutor) (i : Nat) : Prop :=
  ∃ p pass queue settled skipped, s.passes p = some pass ∧
    pass.work = .drain queue settled skipped ∧ i ∈ queue

/-- The gates of a slot at the evaluation of a scan, its budget refilled if that is due. -/
def gateOpen (cfg : SpinConfig) (s : SpinExecutor) (scan : Scan) (i : Nat) : Bool :=
  (decide (cfg.classOf (s.bindings i) ≠ .sporadic) ||
      (s.refillSporadic scan.nowUs).hasBudget (s.bindings i)) &&
    cfg.windowOpen (s.bindings i) (scan.nowUs.getD scan.deltaUs)

variable (cfg : SpinConfig) (s : SpinExecutor)

theorem mem_gatedQueue (scan : Scan) (i : Nat) :
    i ∈ ((s.endScan scan).prepared cfg scan).gatedQueue cfg (s.activeSlots scan)
        (scan.nowUs.getD scan.deltaUs) ↔
      (s.activeSlots scan).has i = true ∧ s.gateOpen cfg scan i = true := by
  have bindings : ((s.endScan scan).prepared cfg scan).bindings = s.bindings :=
    ((s.endScan scan).prepared_frame cfg scan).1
  simp only [gatedQueue, List.mem_filter, List.mem_range, throttled, gateOpen, bindings,
    hasBudget_prepared, Bool.and_eq_true, Bool.or_eq_true, Bool.not_eq_true', decide_eq_true_eq,
    Bool.and_eq_false_iff]
  constructor
  · rintro ⟨_, ⟨active, budget⟩, window⟩
    refine ⟨active, ?_, window⟩
    rcases budget with (idle | other) | kept
    · exact absurd (active.symm.trans idle) (by decide)
    · exact .inl (of_decide_eq_false other)
    · exact .inr (by simpa using kept)
  · rintro ⟨active, budget, window⟩
    refine ⟨Mask.has_lt active, ⟨active, ?_⟩, window⟩
    rcases budget with other | kept
    · exact .inl (.inr (decide_eq_false other))
    · exact .inr (by simpa using kept)

/-- The slots an evaluation samples are slots it queues, and one that a pass then passes over has
no sample. Deferral goes off only where the slot is marked elsewhere. -/
def careful : SpinEvent → Prop
  | .setDeferred i false => s.Waits i → s.deferredPending.has i = true →
      s.ready.has i = true ∨ s.entityRecheck.has i = true ∨ s.InDeferred i
  | .evaluate _ => cfg.semantics = .logicalExecutionTime → ∀ scan, s.scan = some scan →
      s.triggerPasses cfg scan = true → ∀ i entry, s.entries i = some entry →
      s.entityAttributed.has i = true → scan.band.has i = true → s.held i = false →
      entry.body.preSample.sampled = true →
      (s.activeSlots scan).has i = true ∧ s.gateOpen cfg scan i = true
  | .pick p i _ _ => cfg.semantics = .logicalExecutionTime → ∀ pass queue settled skipped,
      s.passes p = some pass → pass.work = .drain queue settled skipped →
      skipped.has (s.bindings i) = true ∨ s.held i = true → ¬ s.Sampled i
  | _ => True

/-- Samples are taken under the logical execution time only, and wait for a pass under way. -/
def SamplesQueued : Prop :=
  ∀ i, s.Sampled i → cfg.semantics = .logicalExecutionTime ∧ s.Queued i

end SpinExecutor

section Samples

variable {cfg : SpinConfig} {s next : SpinExecutor} {e : SpinEvent}

variable {i : Nat} {clocks : ClockReadings}

theorem SpinExecutor.Remains.sampled (kept : s.Remains next) (sampled : next.Sampled i) :
    s.Sampled i := by
  rcases sampled with ⟨attributed, after, present, sample⟩
  rcases kept.entries i after present with ⟨before, was, _, earlier⟩
  exact ⟨kept.attributed i attributed, before, was, earlier sample⟩

theorem PassStep.queue_keeps {pass after : SpinPass} (went : PassStep cfg s e pass after)
    {queue : List Nat} {settled skipped : SlotMask}
    (work : pass.work = .drain queue settled skipped) (member : i ∈ queue)
    (other : ∀ p clocks took, e ≠ .pick p i clocks took) :
    ∃ queue settled skipped, after.work = .drain queue settled skipped ∧ i ∈ queue := by
  have picked : ∀ {p j clocks took}, e = .pick p j clocks took → i ≠ j := by
    rintro p j clocks took rfl rfl
    exact other p clocks took rfl
  have merges : ∀ (later : SpinExecutor) (pass : SpinPass) (queue settled skipped),
      pass.work = .drain queue settled skipped → i ∈ queue →
      ∃ queue settled skipped, (later.merged cfg pass).work = .drain queue settled skipped ∧
        i ∈ queue := by
    intro later pass queue settled skipped work member
    rcases later.merged_cases cfg pass with same | ⟨_, _, _, joins, found, same, _⟩
    · rw [same]
      exact ⟨queue, settled, skipped, work, member⟩
    · cases work.symm.trans found
      rw [same]
      exact ⟨_, _, _, rfl, List.mem_append_left _ member⟩
  cases went with
  | sweepPast p j pass clocks swept
  | sweepDispatch p j pass clocks entry swept => exact nomatch work.symm.trans swept
  | contained p j pass queue settled skipped clocks took drained queued within =>
    cases work.symm.trans drained
    exact ⟨_, _, _, rfl, (List.mem_erase_of_ne (picked rfl)).mpr member⟩
  | pickPast p j pass queue settled skipped clocks took drained queued away =>
    cases work.symm.trans drained
    exact merges _ _ _ _ _ rfl ((List.mem_erase_of_ne (picked rfl)).mpr member)
  | pickDispatch p j pass queue settled skipped clocks took entry drained queued present unheld =>
    cases work.symm.trans drained
    exact ⟨_, _, _, rfl, (List.mem_erase_of_ne (picked rfl)).mpr member⟩
  | returned p pass running clocks elapsedUs busy =>
    rcases SpinExecutor.resumed_cases cfg pass running elapsedUs with
      same | ⟨_, _, _, more, drained, same⟩
    · rw [same]
      exact merges _ _ queue settled skipped work member
    · cases work.symm.trans drained
      rw [same]
      exact merges _ _ queue settled more rfl member

theorem entries_of_pickDispatch {p : Nat} {pass : SpinPass} {queue : List Nat}
    {settled skipped : SlotMask} {took : Bool} {entry after : CallbackMeta}
    (present : s.entries i = some entry) (unheld : s.held i = false)
    (within : skipped.has (s.bindings i) = false)
    (found : (s.pick cfg p pass queue settled skipped i clocks took).entries i = some after) :
    after.body.sampled = false := by
  simp only [SpinExecutor.pick, within, Bool.false_eq_true, if_false, present, unheld] at found
  change update s.entries i ((s.entries i).map _) i = some after at found
  rw [update_self, present, Option.map_some] at found
  cases found
  exact (SpinExecutor.Remains.begin_like entry.body clocks _ took).2

theorem SpinStep.not_sampled_of_pick {p : Nat} {took : Bool}
    (stepped : SpinStep cfg s (.pick p i clocks took) next)
    (careful : s.careful cfg (.pick p i clocks took))
    (sampling : cfg.semantics = .logicalExecutionTime) : ¬ next.Sampled i := by
  intro sampled
  have before := (stepped.remains rfl).sampled sampled
  cases stepped with
  | pick _ _ pass queue settled skipped _ _ free here idle work queued =>
    have kept := careful sampling pass queue settled skipped here work
    have within : skipped.has (s.bindings i) = false := by
      rw [← Bool.not_eq_true]
      exact fun contained => kept (.inl contained) before
    have unheld : s.held i = false := by
      rw [← Bool.not_eq_true]
      exact fun held => kept (.inr held) before
    rcases before.2 with ⟨entry, present, _⟩
    rcases sampled.2 with ⟨after, found, sample⟩
    rw [entries_of_pickDispatch present unheld within found] at sample
    cases sample

theorem sampled_of_evaluate {scan : Scan} (sampled : (s.evaluate cfg scan clocks).Sampled i) :
    s.Sampled i ∨ (cfg.semantics = .logicalExecutionTime ∧ s.triggerPasses cfg scan = true ∧
      s.entityAttributed.has i = true ∧ scan.band.has i = true ∧ s.held i = false ∧
      ∃ entry, s.entries i = some entry ∧ entry.body.preSample.sampled = true) := by
  rw [SpinExecutor.evaluate] at sampled
  split at sampled
  case isFalse => exact .inl sampled
  case isTrue passes =>
    rcases sampled with ⟨attributed, after, present, sample⟩
    have skipped : ∀ body : EntryBody, (body.skip clocks scan.deltaUs).sampled = body.sampled := by
      intro body
      cases body with
      | timer header => rfl
      | handle entry => rfl
    have prepared : ∃ before, ((s.endScan scan).prepared cfg scan).entries i = some before ∧
        before.body.sampled = true := by
      change (if _ then Option.map _ _ else _) = some after at present
      split at present
      · rcases Option.map_eq_some_iff.mp present with ⟨before, was, rfl⟩
        exact ⟨before, was, (skipped before.body).symm.trans sample⟩
      · exact ⟨after, present, sample⟩
    have marked : s.entityAttributed.has i = true := by
      have same := ((s.endScan scan).prepared_frame cfg scan).2.2.1
      change ((s.endScan scan).prepared cfg scan).entityAttributed.has i = true at attributed
      rw [same] at attributed
      exact attributed
    rcases prepared with ⟨before, was, taken⟩
    rcases (s.endScan scan).prepared_cases cfg scan with ⟨sampling, same⟩ | ⟨_, same⟩
    · rw [same, ((s.endScan scan).preSample scan.band).refillSporadic_frame scan.nowUs |>.1] at was
      change (if scan.band.has i && !s.held i then Option.map _ (s.entries i) else s.entries i) =
        some before at was
      split at was
      case isTrue inside =>
        rw [Bool.and_eq_true, Bool.not_eq_true'] at inside
        rcases Option.map_eq_some_iff.mp was with ⟨entry, first, rfl⟩
        exact .inr ⟨sampling, passes, marked, inside.1, inside.2, entry, first, taken⟩
      case isFalse => exact .inl ⟨marked, before, was, taken⟩
    · rw [same, ((s.endScan scan).refillSporadic_frame scan.nowUs).1] at was
      exact .inl ⟨marked, before, was, taken⟩

theorem Kept.unlocked (kept : Kept s) (free : s.scan = none) : Unlocked s := by
  rcases kept with unlocked | ⟨scan, locked⟩
  · exact unlocked
  · exact nomatch free.symm.trans locked.locked

theorem Kept.locked (kept : Kept s) {scan : Scan} (locked : s.scan = some scan) :
    Locked s scan := by
  rcases kept with unlocked | ⟨_, found⟩
  · exact nomatch unlocked.free.symm.trans locked
  · cases found.locked.symm.trans locked
    exact found

section

variable (stepped : SpinStep cfg s e next)
include stepped

theorem SpinStep.samplesQueued_plain (plain : e.reshapes = false) (careful : s.careful cfg e)
    (kept : Kept s) (queued : s.SamplesQueued cfg) : next.SamplesQueued cfg := by
  intro i sampled
  rcases queued i ((stepped.remains plain).sampled sampled) with
    ⟨sampling, p, pass, queue, settled, skipped, here, work, member⟩
  refine ⟨sampling, p, ?_⟩
  cases found : next.passes p with
  | none =>
    have ended := stepped.done_of_gone here found
    simp only [SpinPass.done, work, Bool.and_eq_true, List.isEmpty_iff] at ended
    rw [ended.2] at member
    cases member
  | some after =>
    rcases stepped.pass_cases found with same | started | ⟨before, was, went⟩
    · cases here.symm.trans same
      exact ⟨pass, queue, settled, skipped, rfl, work, member⟩
    · cases started with
      | drain scan clocks locked
      | sweep scan locked => exact nomatch here.symm.trans (kept.locked locked).vacant
    · cases here.symm.trans was
      have other : ∀ q clocks took, e ≠ .pick q i clocks took := by
        rintro q clocks took rfl
        exact stepped.not_sampled_of_pick careful sampling sampled
      rcases went.queue_keeps work member other with ⟨queue, settled, skipped, work, member⟩
      exact ⟨after, queue, settled, skipped, rfl, work, member⟩

theorem SpinStep.samplesQueued (careful : s.careful cfg e) (kept : Kept s)
    (queued : s.SamplesQueued cfg) : next.SamplesQueued cfg := by
  cases plain : e.reshapes with
  | false => exact stepped.samplesQueued_plain plain careful kept queued
  | true =>
    cases stepped with
    | evaluate scan locked all clocks =>
      intro i sampled
      rcases sampled_of_evaluate sampled with before | ⟨sampling, passes, marked, band, unheld,
        entry, present, taken⟩
      · rcases queued i before with ⟨sampling, p, pass, queue, settled, skipped, here, rest⟩
        have apart : p ≠ scan.pass := by
          rintro rfl
          exact nomatch here.symm.trans (kept.locked locked).vacant
        exact ⟨sampling, p, pass, queue, settled, skipped,
          (s.passes_evaluate_of_ne cfg apart clocks).trans here, rest⟩
      · have admitted := careful sampling scan locked passes i entry present marked band unheld
          taken
        have member := (s.mem_gatedQueue cfg scan i).mpr admitted
        have here : (s.evaluate cfg scan clocks).passes scan.pass =
            some (((s.endScan scan).prepared cfg scan).drainPass cfg scan
              (s.activeSlots scan) clocks) := by
          rw [SpinExecutor.evaluate, if_pos passes, SpinExecutor.startDrain,
            SpinExecutor.passes_setPass]
        exact ⟨sampling, scan.pass, _, _, _, _, here, rfl, member⟩
    | register i entry attributed polled free inside vacant unsampled wakes =>
      rintro j ⟨armed, after, present, sample⟩
      by_cases same : i = j
      · subst same
        change update s.entries i (some entry) i = some after at present
        rw [update_self] at present
        cases present
        rw [unsampled] at sample
        cases sample
      · change update s.entries i (some entry) j = some after at present
        rw [update_of_ne (Ne.symm same)] at present
        have before : s.entityAttributed.has j = true := by
          cases attributed <;> simpa [SpinExecutor.register, same] using armed
        exact queued j ⟨before, after, present, sample⟩
    | bind i sc free => exact queued
    | _ => cases plain

theorem SpinStep.kept (careful : s.careful cfg e) (kept : Kept s) : Kept next := by
  cases stepped with
  | enqueue i => exact kept.enqueue i
  | announce i => exact kept.announce i
  | refillTick sc states =>
    exact kept.background rfl rfl rfl (fun i wanted => .inr wanted) fun i marked => marked
  | scanNext scan locked more => exact .inr ⟨_, (kept.locked locked).scanSlot more⟩
  | evaluate scan locked all clocks => exact .inl ((kept.locked locked).evaluate all cfg clocks)
  | yield p band nowUs deltaUs free => exact .inl (kept.unlocked free).reapDeferredReleases
  | spin p band nowUs deltaUs free unused =>
    apply Or.inr
    apply (kept.unlocked free).reapDeferredReleases.beginScan
    rw [(SpinExecutor.SameWork.reapDeferredReleases s).passes]
    exact unused
  | sweepNext p i pass clocks free =>
    exact .inl ((kept.unlocked free).sweepNext p pass i clocks)
  | pick p i pass queue settled skipped clocks took free =>
    exact .inl ((kept.unlocked free).pick cfg p pass queue settled skipped i clocks took)
  | callbackReturn p pass running clocks elapsedUs free =>
    exact .inl ((kept.unlocked free).callbackReturn cfg p pass running clocks elapsedUs)
  | finish p pass free => exact .inl ((kept.unlocked free).setPass p none)
  | setDeferred i deferred free =>
    apply Or.inl
    apply (kept.unlocked free).setDeferred i deferred
    rintro rfl
    exact careful
  | runDeferred d rest free unused | runDeferredHandle d i rest free unused =>
    apply Or.inl
    apply (kept.unlocked free).reapDeferredReleases.setDeferredRun
    rw [(SpinExecutor.SameWork.reapDeferredReleases s).deferredRuns, unused]
    intro before found
    cases found
  | deferredPick d i run clocks took free here idle =>
    exact .inl ((kept.unlocked free).dispatchDeferredSlot d run _ i clocks took here idle)
  | deferredReturn d i run clocks free here busy =>
    exact .inl ((kept.unlocked free).deferredReturn d run i clocks here busy)
  | deferredFinish d run free here idle =>
    apply Or.inl
    apply (kept.unlocked free).setDeferredRun
    intro before found
    cases here.symm.trans found
    exact idle
  | release i free => exact .inl ((kept.unlocked free).releaseEntry i)
  | register i entry attributed polled free inside =>
    exact .inl ((kept.unlocked free).register i entry attributed polled inside)
  | bind i sc free => exact .inl ⟨free, (kept.unlocked free).marked⟩
  | deferTimerOp i op clocks free => exact .inl ((kept.unlocked free).setTag i _)
  | timerOp i op elsewhere clocks free =>
    exact .inl ((kept.unlocked free).applyTimerOp i op clocks)

end

end Samples

/-- What holds in every state of a careful run. -/
structure Accounted (cfg : SpinConfig) (s : SpinExecutor) : Prop where
  kept : Kept s
  samples : s.SamplesQueued cfg
  once : ∀ p pass, s.passes p = some pass → pass.Once

variable (cfg : SpinConfig)

variable (sporadic : Nat → Option SporadicState)

variable (atomics : Nat → Option AtomicSporadicState)

theorem accounted_fresh :
    Accounted cfg (SpinExecutor.fresh sporadic atomics) where
  kept := by
    refine .inl ⟨rfl, fun i wanted => ?_⟩
    rcases wanted.2 with ⟨entry, present, _⟩
    cases present
  samples i sampled := by
    rcases sampled.2 with ⟨entry, present, _⟩
    cases present
  once p pass found := nomatch found

theorem accounted_step (s : SpinExecutor) (e : SpinEvent) (next : SpinExecutor)
    (good : Accounted cfg s) (careful : s.careful cfg e) (stepped : s.step cfg e = some next)
    : Accounted cfg next where
  kept := (SpinStep.of_step stepped).kept careful good.kept
  samples := (SpinStep.of_step stepped).samplesQueued careful good.kept good.samples
  once := (SpinStep.of_step stepped).once good.once

theorem accounted_run (events : List SpinEvent) (last : SpinExecutor)
    (careful : Along (SpinExecutor.step cfg) (SpinExecutor.careful cfg)
      (SpinExecutor.fresh sporadic atomics) events)
    (reached : run (SpinExecutor.step cfg) (SpinExecutor.fresh sporadic atomics) events =
      some last) : Accounted cfg last :=
  run_invariant_along (accounted_step cfg) _ last events (accounted_fresh cfg sporadic atomics)
    careful reached

/-- When nothing is under way, a live attributed slot with an item that its backend has announced, or
with a sample, has its bit in the ready word, in the recheck word or, deferred, in the host's queue.
In the middle of passes it is so as well, but for a slot whose deferred callback runs right then. No
pass dispatches a slot twice. -/
theorem no_arrival_lost (cfg : SpinConfig) (sporadic : Nat → Option SporadicState)
    (atomics : Nat → Option AtomicSporadicState) (events : List SpinEvent) (last : SpinExecutor)
    (careful : Along (SpinExecutor.step cfg) (SpinExecutor.careful cfg)
      (SpinExecutor.fresh sporadic atomics) events)
    (reached : run (SpinExecutor.step cfg) (SpinExecutor.fresh sporadic atomics) events =
      some last) :
    (last.Idle → ∀ i entry, last.entries i = some entry → last.entityAttributed.has i = true →
      last.announcing i < entry.body.waiting ∨ entry.body.sampled = true →
      last.ready.has i = true ∨ last.entityRecheck.has i = true ∨
        (last.deferredMask.has i = true ∧ last.deferredPending.has i = true)) ∧
    (last.scan = none → ∀ i, last.Waits i → last.Marked i) ∧
    ∀ p pass, last.passes p = some pass → pass.log.dispatched.Nodup := by
  have good := accounted_run cfg sporadic atomics events last careful reached
  refine ⟨fun idle i entry present attributed untaken => ?_,
    fun free => (good.kept.unlocked free).marked, fun p pass found => (good.once p pass found).nodup⟩
  rcases untaken with announced | sampled
  · rcases (good.kept.unlocked idle.1).marked i ⟨attributed, entry, present, announced⟩ with
      arrived | asked | deferred | ⟨d, run, here, _⟩
    · exact .inl arrived
    · exact .inr (.inl asked)
    · exact .inr (.inr deferred)
    · exact nomatch (idle.2.2 d).symm.trans here
  · rcases good.samples i ⟨attributed, entry, present, sampled⟩ with
      ⟨_, p, pass, queue, settled, skipped, here, _⟩
    exact nomatch (idle.2.1 p).symm.trans here

/-- An executor with the default trigger and no contexts. -/
def plainSpin : SpinConfig where
  contexts _ := none
  majorFrameUs := 0
  trigger := .any
  semantics := .rclcppExecutor
  reprobeEachCallback := false

def plainSubscription : CallbackMeta :=
  ⟨.handle ⟨.subscription, false, false, 0, false⟩, .onNewData⟩

def noClocks : ClockReadings := ⟨0, 0, 0⟩

/-- A pass over every slot, up to its evaluation. -/
def spinAll (p : Nat) (nowUs : Option Nat) (deltaUs : Nat) : List SpinEvent :=
  .spin p (BitVec.allOnes 64) nowUs deltaUs false ::
    (List.replicate 64 .scanNext ++ [.evaluate noClocks])

/-- Two items arrive, one while the pass is under way, and the callback takes one. -/
def backlogRun : List SpinEvent :=
  [.register 0 plainSubscription true false, .enqueue 0, .announce 0] ++ spinAll 0 (some 0) 0 ++
    [.enqueue 0, .pick 0 0 noClocks true, .announce 0, .callbackReturn 0 noClocks none, .finish 0]

theorem no_arrival_lost_backlog :
    ∃ last, run (SpinExecutor.step plainSpin) (SpinExecutor.fresh (fun _ => none) fun _ => none)
        backlogRun = some last ∧ last.Waits 0 ∧ last.Marked 0 := by
  have careful : Along (SpinExecutor.step plainSpin) (SpinExecutor.careful plainSpin)
      (SpinExecutor.fresh (fun _ => none) fun _ => none) backlogRun := by
    apply along_of_always
    intro e member s
    have kinds : e = .register 0 plainSubscription true false ∨ e = .enqueue 0 ∨ e = .announce 0 ∨
        e = .spin 0 (BitVec.allOnes 64) (some 0) 0 false ∨ e = .scanNext ∨
        e = .evaluate noClocks ∨ e = .pick 0 0 noClocks true ∨
        e = .callbackReturn 0 noClocks none ∨ e = .finish 0 := by
      simp only [backlogRun, spinAll, List.mem_append, List.mem_cons, List.mem_replicate,
        List.not_mem_nil, or_false] at member
      tauto
    rcases kinds with rfl | rfl | rfl | rfl | rfl | rfl | rfl | rfl | rfl
    all_goals first
      | trivial
      | exact fun sampling => nomatch sampling
  have found : (run (SpinExecutor.step plainSpin)
      (SpinExecutor.fresh (fun _ => none) fun _ => none) backlogRun).any
      (fun s => s.scan.isNone && s.entityAttributed.has 0 &&
        (s.entries 0).any fun m => decide (s.announcing 0 < m.body.waiting)) = true := by
    decide +kernel
  rcases (Option.any_eq_true _ _).mp found with ⟨last, reached, seen⟩
  simp only [Bool.and_eq_true, Option.isNone_iff_eq_none] at seen
  rcases (Option.any_eq_true _ _).mp seen.2 with ⟨entry, present, more⟩
  have waits : last.Waits 0 := ⟨seen.1.2, entry, present, of_decide_eq_true more⟩
  have held := no_arrival_lost plainSpin (fun _ => none) (fun _ => none) backlogRun last careful
    reached
  exact ⟨last, reached, waits, held.2.1 seen.1.1 0 waits⟩

/-- An item is deferred to the host, and the deferral is turned off before the host has come. -/
def strandingRun : List SpinEvent :=
  [.register 0 plainSubscription true false, .setDeferred 0 true, .enqueue 0, .announce 0] ++
    spinAll 0 (some 0) 0 ++ [.finish 0, .setDeferred 0 false]

theorem arrival_stranded :
    ¬ ∀ (events : List SpinEvent) (last : SpinExecutor),
      run (SpinExecutor.step plainSpin) (SpinExecutor.fresh (fun _ => none) fun _ => none)
        events = some last →
      last.scan = none → ∀ i entry, last.entries i = some entry → last.held i = false →
      last.entityAttributed.has i = true → last.announcing i < entry.body.waiting →
      last.ready.has i = true ∨ last.entityRecheck.has i = true ∨
        (last.deferredMask.has i = true ∧ last.deferredPending.has i = true) := by
  intro all
  have found : (run (SpinExecutor.step plainSpin)
      (SpinExecutor.fresh (fun _ => none) fun _ => none) strandingRun).any
      (fun s => s.scan.isNone && s.entityAttributed.has 0 && !s.held 0 && !s.ready.has 0 &&
        !s.entityRecheck.has 0 && !s.deferredPending.has 0 &&
        (s.entries 0).any fun m => decide (s.announcing 0 < m.body.waiting)) = true := by
    decide +kernel
  rcases (Option.any_eq_true _ _).mp found with ⟨last, reached, seen⟩
  simp only [Bool.and_eq_true, Option.isNone_iff_eq_none, Bool.not_eq_true'] at seen
  rcases seen with ⟨⟨⟨⟨⟨⟨free, attributed⟩, unheld⟩, unready⟩, unasked⟩, unqueued⟩, waits⟩
  rcases (Option.any_eq_true _ _).mp waits with ⟨entry, present, more⟩
  have stated := all strandingRun last reached free 0 entry present unheld attributed
    (of_decide_eq_true more)
  rw [unready, unasked, unqueued] at stated
  rcases stated with arrived | asked | deferred
  · cases arrived
  · cases asked
  · cases deferred.2

end NanoRos
