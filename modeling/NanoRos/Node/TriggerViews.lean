import NanoRos.Node.TimerCredit

/-! The two views of a scan that triggers get. -/

namespace NanoRos

open Function

def rawReady (bits : SlotMask) (count : Nat) : List Bool :=
  (List.range 64).map fun i => decide (i < count) && bits.has i

/-- The array has the slot, and says of it what the snapshot says. -/
def ViewsAgree (bits : SlotMask) (count i : Nat) : Prop :=
  i < count ∧ ((rawReady bits count)[i]? = some true ↔ bits.has i = true)

theorem viewsAgree_iff {bits : SlotMask} {count i : Nat} (inside : i < 64) :
    ViewsAgree bits count i ↔ i < count := by
  rw [ViewsAgree, and_iff_left_iff_imp]
  intro covered
  simp [rawReady, inside, covered]

/-- A count reaches past every member of a set that holds all that is counted exactly if nothing
below a member is left out. -/
theorem covers_iff {member counted : Nat → Bool} {n : Nat} (inside : ∀ i, member i = true → i < n)
    (sub : ∀ i, counted i = true → member i = true) :
    (∀ i, member i = true → i < Nat.count (fun i => counted i = true) n) ↔
      ∀ i, member i = true → ∀ j ≤ i, counted j = true := by
  rw [Nat.count_eq_card_filter_range]
  constructor
  · intro covers i there j below
    by_contra dropped
    have some_ : ((Finset.range n).filter fun i => member i = true).Nonempty :=
      ⟨i, Finset.mem_filter.mpr ⟨Finset.mem_range.mpr (inside i there), there⟩⟩
    rcases Finset.exists_max_image _ id some_ with ⟨top, last, most⟩
    have greatest : ∀ k, member k = true → k ≤ top := fun k present =>
      most k (Finset.mem_filter.mpr ⟨Finset.mem_range.mpr (inside k present), present⟩)
    have fewer : ((Finset.range n).filter fun i => counted i = true) ⊆
        (Finset.range (top + 1)).erase j := by
      intro k kept
      have taken := (Finset.mem_filter.mp kept).2
      rw [Finset.mem_erase, Finset.mem_range, Nat.lt_succ_iff]
      refine ⟨?_, greatest k (sub k taken)⟩
      rintro rfl
      exact dropped taken
    have bound := Finset.card_le_card fewer
    have gap : j ∈ Finset.range (top + 1) :=
      Finset.mem_range.mpr (Nat.lt_succ_of_le (below.trans (greatest i there)))
    rw [Finset.card_erase_of_mem gap, Finset.card_range] at bound
    have reached := covers top (Finset.mem_filter.mp last).2
    omega
  · intro all i there
    have filled : Finset.range (i + 1) ⊆ (Finset.range n).filter fun i => counted i = true := by
      intro j low
      rw [Finset.mem_range, Nat.lt_succ_iff] at low
      rw [Finset.mem_filter, Finset.mem_range]
      exact ⟨low.trans_lt (inside i there), all i there j low⟩
    have fewer := Finset.card_le_card filled
    rw [Finset.card_range] at fewer
    exact fewer

namespace SpinExecutor

def live (s : SpinExecutor) (i : Nat) : Bool := (s.entries i).isSome

/-- The scan of a pass of the band visits the slot. -/
def visits (s : SpinExecutor) (band : SlotMask) (i : Nat) : Bool :=
  s.live i && band.has i && !s.held i

theorem count_scanSlot (s : SpinExecutor) (scan : Scan) : (s.scanSlot scan).count =
      scan.count + if s.visits scan.band scan.next = true then 1 else 0 := by
  rcases Option.eq_none_or_eq_some (s.entries scan.next) with vacant | ⟨entry, present⟩
  · simp [scanSlot, visits, live, vacant]
  · cases inside : scan.band.has scan.next with
    | false => simp [scanSlot, visits, live, present, inside]
    | true =>
      cases held : s.held scan.next with
      | false | true => simp [scanSlot, visits, live, present, inside, held]

/-- The count of a scan is of the slots it has visited. -/
structure Counted (s : SpinExecutor) : Prop where
  inside : ∀ i, s.live i = true → i < 64
  count : ∀ scan, s.scan = some scan → scan.next ≤ 64 ∧
    scan.count = Nat.count (fun i => s.visits scan.band i = true) scan.next

namespace Counted

variable {cfg : SpinConfig} {s next : SpinExecutor}

theorem free (inside : ∀ i, next.live i = true → i < 64) (unlocked : next.scan = none) :
    next.Counted :=
  ⟨inside, fun _ locked => nomatch unlocked.symm.trans locked⟩

theorem remains (counted : s.Counted) (kept : s.Remains next) (unlocked : next.scan = none) :
    next.Counted := by
  refine free (fun i present => ?_) unlocked
  rcases Option.isSome_iff_exists.mp present with ⟨after, found⟩
  rcases kept.entries i after found with ⟨before, was, _⟩
  exact counted.inside i (Option.isSome_iff_exists.mpr ⟨before, was⟩)

theorem background (counted : s.Counted) (live : next.live = s.live) (tags : next.tags = s.tags)
    (scan : next.scan = s.scan) : next.Counted := by
  have visits : ∀ band, next.visits band = s.visits band := by
    intro band
    funext i
    rw [visits, visits, live, held, held, tags]
  refine ⟨fun i present => counted.inside i (live ▸ present), fun scan' locked => ?_⟩
  rw [visits]
  exact counted.count scan' (scan ▸ locked)

theorem beginScan (counted : s.Counted) (p : Nat) (band : SlotMask) (nowUs : Option Nat)
    (deltaUs : Nat) : (s.beginScan p band nowUs deltaUs).Counted := by
  refine ⟨counted.inside, fun scan locked => ?_⟩
  cases locked
  exact ⟨Nat.zero_le _, rfl⟩

theorem scanNext (counted : s.Counted) {scan : Scan} (locked : s.scan = some scan)
    (more : scan.next < 64) : Counted { s with scan := some (s.scanSlot scan) } := by
  refine ⟨counted.inside, fun after found => ?_⟩
  cases found
  have frame := scanSlot_frame s scan
  rw [frame.next, frame.band]
  refine ⟨more, ?_⟩
  rw [Nat.count_succ, count_scanSlot, (counted.count scan locked).2]
  rfl

theorem evaluate (counted : s.Counted) (scan : Scan) (clocks : ClockReadings) :
    (s.evaluate cfg scan clocks).Counted := by
  refine free (fun i present => counted.inside i ?_) (s.evaluate_frame cfg scan clocks).1
  have kinds := congrArg Option.isSome (s.isTimer_evaluate cfg scan clocks i)
  rw [Option.isSome_map, Option.isSome_map] at kinds
  exact kinds.symm.trans present

theorem register (counted : s.Counted) {i : Nat} (inside : i < 64) (entry : CallbackMeta)
    (attributed polled : Bool) (unlocked : s.scan = none) :
    (s.register i entry attributed polled).Counted := by
  refine free (fun j present => ?_) unlocked
  by_cases same : j = i
  · exact same ▸ inside
  · change (update s.entries i (some entry) j).isSome = true at present
    rw [update_of_ne same] at present
    exact counted.inside j present

end Counted

end SpinExecutor

theorem SpinStep.counted {cfg : SpinConfig} {s next : SpinExecutor} {e : SpinEvent}
    (stepped : SpinStep cfg s e next) (counted : s.Counted) : next.Counted := by
  have kept : e.reshapes = false → s.Remains next := stepped.remains
  have unlocked : e.scans = false → next.scan = none := stepped.unlocked
  open SpinExecutor in
  cases stepped with
  | enqueue i =>
    apply counted.background
    · funext j
      rw [live, live, SpinExecutor.enqueue]
      split
      · by_cases same : j = i
        · simp [setBody, same]
        · simp [setBody, same]
      · rfl
    · rw [SpinExecutor.enqueue]
      split
      · rfl
      · rfl
    · exact (SameWork.enqueue s i).scan
  | announce i | refillTick => exact counted.background rfl rfl rfl
  | scanNext scan locked more => exact counted.scanNext locked more
  | evaluate scan locked all clocks => exact counted.evaluate scan clocks
  | spin p band nowUs deltaUs free unused =>
    have reaped := counted.remains (Remains.reapDeferredReleases s)
      ((SameWork.reapDeferredReleases s).scan.trans free)
    exact reaped.beginScan p band nowUs deltaUs
  | register i entry attributed polled free inside =>
    exact counted.register inside entry attributed polled free
  | bind i sc free => exact .free counted.inside free
  | _ => exact counted.remains (kept rfl) (unlocked rfl)

theorem scan_counted_of_run {cfg : SpinConfig} {sporadic : Nat → Option SporadicState}
    {atomics : Nat → Option AtomicSporadicState} {events : List SpinEvent} {last : SpinExecutor}
    (reached : run (SpinExecutor.step cfg) (SpinExecutor.fresh sporadic atomics) events =
      some last) : last.Counted := by
  have start : (SpinExecutor.fresh sporadic atomics).Counted :=
    .free (fun i present => absurd present Bool.false_ne_true) rfl
  have keeps : ∀ (s : SpinExecutor) (e : SpinEvent) (next : SpinExecutor), s.Counted →
      SpinExecutor.step cfg s e = some next → next.Counted :=
    fun s e next counted stepped => (SpinStep.of_step stepped).counted counted
  exact run_invariant keeps _ last events start reached

/-- In every reachable state whose scan has come to its end: the views agree on the live slots
exactly if no slot up to a live one is vacant, outside the band or held. -/
theorem views_agree_iff (cfg : SpinConfig) (sporadic : Nat → Option SporadicState)
    (atomics : Nat → Option AtomicSporadicState) (events : List SpinEvent) (last : SpinExecutor)
    (scan : Scan)
    (reached : run (SpinExecutor.step cfg) (SpinExecutor.fresh sporadic atomics) events = some last)
    (locked : last.scan = some scan) (all : 64 ≤ scan.next) :
    (∀ i, last.live i = true → ViewsAgree (scan.bits.diff last.deferredMask) scan.count i) ↔
      ∀ i, last.live i = true → ∀ j ≤ i, last.visits scan.band j = true := by
  have counted := scan_counted_of_run reached
  rcases counted.count scan locked with ⟨low, count⟩
  rw [Nat.le_antisymm low all] at count
  have visited : ∀ i, last.visits scan.band i = true → last.live i = true := by
    intro i seen
    rw [SpinExecutor.visits, Bool.and_eq_true, Bool.and_eq_true] at seen
    exact seen.1.1
  rw [← covers_iff counted.inside visited, ← count]
  exact forall₂_congr fun i present => viewsAgree_iff (counted.inside i present)

/-- Two subscriptions, and the scan of a pass over all slots after these calls. -/
def scannedAfter (calls : List SpinEvent) : List SpinEvent :=
  [.register 0 plainSubscription false false, .register 1 plainSubscription false false] ++ calls ++
    .spin 0 (BitVec.allOnes 64) (some 0) 0 false :: List.replicate 64 .scanNext

theorem views_agree_two : ∃ last scan,
    run (SpinExecutor.step plainSpin) (SpinExecutor.fresh (fun _ => none) fun _ => none)
      (scannedAfter [.enqueue 1]) = some last ∧ last.scan = some scan ∧ last.live 1 = true ∧
      scan.bits.has 1 = true ∧ ViewsAgree (scan.bits.diff last.deferredMask) scan.count 1 := by
  have found : (run (SpinExecutor.step plainSpin)
      (SpinExecutor.fresh (fun _ => none) fun _ => none) (scannedAfter [.enqueue 1])).any
      (fun s => s.live 1 && s.scan.any fun scan => decide (64 ≤ scan.next) && scan.bits.has 1 &&
        (List.range 64).all fun i => !s.live i || (List.range (i + 1)).all (s.visits scan.band)) =
      true := by
    decide +kernel
  rcases (Option.any_eq_true _ _).mp found with ⟨last, reached, seen⟩
  rw [Bool.and_eq_true] at seen
  rcases seen with ⟨live, scanned⟩
  rcases (Option.any_eq_true _ _).mp scanned with ⟨scan, locked, seen⟩
  rw [Bool.and_eq_true, Bool.and_eq_true, decide_eq_true_iff] at seen
  rcases seen with ⟨⟨all, ready⟩, filled⟩
  refine ⟨last, scan, reached, locked, live, ready, ?_⟩
  have agree := views_agree_iff plainSpin (fun _ => none) (fun _ => none) _ last scan reached
    locked all
  apply agree.mpr
  · intro i present j below
    have inside := List.mem_range.mpr ((scan_counted_of_run reached).inside i present)
    have upTo := List.all_eq_true.mp filled i inside
    rw [present, Bool.not_true, Bool.false_or] at upTo
    exact List.all_eq_true.mp upTo j (List.mem_range.mpr (Nat.lt_succ_of_le below))
  · exact live

/-- The first subscription is released: the second keeps its slot, and the array ends before it. -/
theorem released_slot_hides_next :
    ¬ ∀ (cfg : SpinConfig) (sporadic : Nat → Option SporadicState)
      (atomics : Nat → Option AtomicSporadicState) (events : List SpinEvent) (last : SpinExecutor)
      (scan : Scan),
      run (SpinExecutor.step cfg) (SpinExecutor.fresh sporadic atomics) events = some last →
      last.scan = some scan → 64 ≤ scan.next → ∀ i, last.live i = true →
        ViewsAgree (scan.bits.diff last.deferredMask) scan.count i := by
  intro all
  have found : (run (SpinExecutor.step plainSpin) (SpinExecutor.fresh (fun _ => none) fun _ => none)
      (scannedAfter [.release 0, .enqueue 1])).any
      (fun s => s.live 1 && s.scan.any fun scan => decide (64 ≤ scan.next) && scan.bits.has 1 &&
        decide (scan.count = 1)) = true := by
    decide +kernel
  rcases (Option.any_eq_true _ _).mp found with ⟨last, reached, seen⟩
  rw [Bool.and_eq_true] at seen
  rcases seen with ⟨live, scanned⟩
  rcases (Option.any_eq_true _ _).mp scanned with ⟨scan, locked, seen⟩
  simp only [Bool.and_eq_true, decide_eq_true_eq] at seen
  rcases seen with ⟨⟨ended, _⟩, one⟩
  have covered := (all plainSpin (fun _ => none) (fun _ => none) _ last scan reached locked ended 1
    live).1
  rw [one] at covered
  exact Nat.lt_irrefl 1 covered

end NanoRos
