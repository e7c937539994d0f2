import NanoRos.Lib.Counters
import NanoRos.Lib.Runs
import NanoRos.Lib.SlotTable

/-! What an executor does with a detected contract violation (`ViolationChannel`). -/

namespace NanoRos

structure Violation where
  rule : String
  fqn : String
  measured : UInt32
  declared : UInt32
  deriving DecidableEq, Repr

def logViolation (v : Violation) : String :=
  s!"contract violation: {v.rule} {v.fqn} measured={v.measured} declared={v.declared}"

def logDrainedViolation (seq total dropped : UInt32) (v : Violation) : String :=
  s!"contract violation #{seq}: {v.rule} {v.fqn} measured={v.measured} declared={v.declared} (total={total} dropped={dropped})"

def reportQueue : Nat := 4

/-- Verdicts that wait for the sink, oldest first. -/
structure ReportQueue where
  pending : List Violation
  overflowed : UInt32

def ReportQueue.enqueue (q : ReportQueue) (v : Violation) : ReportQueue :=
  let q :=
    if q.pending.length = reportQueue then
      ⟨q.pending.eraseIdx 0, saturatingAdd q.overflowed 1⟩
    else q
  if q.pending.length < reportQueue then { q with pending := q.pending ++ [v] } else q

structure ViolationCounts where
  total : UInt32
  dropped : UInt32
  armed : Bool
  suppressedBeforeArm : UInt32

structure ViolationChannel where
  report : Bool
  drainReport : Bool
  /-- Whether the image installed a sink. -/
  sink : Bool
  reports : ReportQueue
  ring : SlotTable Violation
  counts : ViolationCounts
  log : List String

/-- `CarvedVec::pop_front`. -/
def SlotTable.popFront {α : Type} (t : SlotTable α) : SlotTable α :=
  if t.len = 0 then t else t.removeAt 0

namespace ViolationChannel

/-- Push into the ring; a full ring gives up its oldest verdict first. -/
def store (ch : ViolationChannel) (v : Violation) : ViolationChannel :=
  if ch.ring.capacity = 0 then
    { ch with counts := { ch.counts with dropped := saturatingAdd ch.counts.dropped 1 } }
  else
    let ch :=
      if ch.ring.len = ch.ring.capacity then
        { ch with
          ring := ch.ring.popFront
          counts := { ch.counts with dropped := saturatingAdd ch.counts.dropped 1 } }
      else ch
    match ch.ring.push v with
    | some ring => { ch with ring := ring }
    | none => ch

def record (ch : ViolationChannel) (v : Violation) : ViolationChannel :=
  if !ch.counts.armed then
    { ch with counts := { ch.counts with
      suppressedBeforeArm := saturatingAdd ch.counts.suppressedBeforeArm 1 } }
  else
    let ch :=
      if ch.report && !ch.drainReport then { ch with log := ch.log ++ [logViolation v] } else ch
    let ch := if ch.sink then { ch with reports := ch.reports.enqueue v } else ch
    let ch := { ch with counts := { ch.counts with total := ch.counts.total + 1 } }
    ch.store v

/-- `f` is called with the number and the verdict, and keeps what it wants in `s`. -/
def drain {σ : Type} (ch : ViolationChannel) (f : σ → UInt32 → Violation → σ) (s : σ) :
    ViolationChannel × σ :=
  let n := UInt32.ofNat ch.ring.len
  let first := ch.counts.total - n + 1
  let s := ch.ring.live.zipIdx.foldl (fun s entry => f s (first + UInt32.ofNat entry.2) entry.1) s
  ({ ch with ring := ch.ring.clear }, s)

def drainAndReport (ch : ViolationChannel) : ViolationChannel :=
  if !ch.drainReport || ch.ring.len = 0 then ch
  else
    let total := ch.counts.total
    let dropped := ch.counts.dropped
    let drained := ch.drain (fun lines seq v => lines ++ [logDrainedViolation seq total dropped v])
      ch.log
    { drained.1 with log := drained.2 }

/-- An armed channel over `slots`, which hold nothing yet and whatever they happen to hold. -/
def opened (slots : List Violation) (report drainReport sink : Bool) (suppressed : UInt32) :
    ViolationChannel where
  report := report
  drainReport := drainReport
  sink := sink
  reports := ⟨[], 0⟩
  ring := SlotTable.empty slots
  counts := ⟨0, 0, true, suppressed⟩
  log := []

def handsOut (ch : ViolationChannel) : List (UInt32 × Violation) :=
  (ch.drain (fun out seq v => out ++ [(seq, v)]) []).2

variable (ch : ViolationChannel)

theorem store_spec (v : Violation) : (ch.store v).ring.capacity = ch.ring.capacity ∧
    (ch.store v).ring.live = (ch.ring.live ++ [v]).drop (ch.ring.len + 1 - ch.ring.capacity) ∧
    (ch.store v).counts = { ch.counts with
      dropped := if ch.ring.len = ch.ring.capacity then saturatingAdd ch.counts.dropped 1
        else ch.counts.dropped } := by
  have fits : ch.ring.len ≤ ch.ring.capacity := ch.ring.fits
  have length := ch.ring.length_live
  by_cases none : ch.ring.capacity = 0
  · have empty : ch.ring.live = [] := List.length_eq_zero_iff.mp (by omega)
    simp only [store, if_pos none, empty, if_pos (show ch.ring.len = ch.ring.capacity by omega)]
    refine ⟨trivial, ?_, trivial⟩
    rw [List.drop_eq_nil_of_le]
    simp only [List.nil_append, List.length_singleton]
    omega
  · by_cases full : ch.ring.len = ch.ring.capacity
    · have some : ¬ ch.ring.len = 0 := by omega
      have room : (ch.ring.removeAt 0).len < (ch.ring.removeAt 0).capacity := by
        rw [ch.ring.capacity_removeAt]
        change ch.ring.len - 1 < _
        omega
      rcases (ch.ring.removeAt 0).push_of_room v room with ⟨ring, stored, appended⟩
      simp only [store, if_neg none, if_pos full, SlotTable.popFront, if_neg some, stored]
      refine ⟨?_, ?_, trivial⟩
      · rw [SlotTable.capacity_of_push stored, ch.ring.capacity_removeAt]
      · rw [appended, ch.ring.live_removeAt 0 (by omega), full, Nat.add_sub_cancel_left,
          List.drop_append_of_le_length (by omega), List.eraseIdx_zero, List.drop_one]
    · rcases ch.ring.push_of_room v (by omega) with ⟨ring, stored, appended⟩
      simp only [store, if_neg none, if_neg full, stored]
      refine ⟨SlotTable.capacity_of_push stored, ?_, trivial⟩
      rw [appended, Nat.sub_eq_zero_of_le (by omega), List.drop_zero]

theorem record_spec (v : Violation) (armed : ch.counts.armed = true) :
    (ch.record v).ring.capacity = ch.ring.capacity ∧
    (ch.record v).ring.live = (ch.ring.live ++ [v]).drop (ch.ring.len + 1 - ch.ring.capacity) ∧
    (ch.record v).counts = { ch.counts with
      total := ch.counts.total + 1
      dropped := if ch.ring.len = ch.ring.capacity then saturatingAdd ch.counts.dropped 1
        else ch.counts.dropped } := by
  -- The log and the sink's queue leave the ring and the counters alone.
  have aside : ∃ before : ViolationChannel, ch.record v = before.store v ∧ before.ring = ch.ring ∧
      before.counts = { ch.counts with total := ch.counts.total + 1 } := by
    refine ⟨_, by simp only [record, armed, Bool.not_true, Bool.false_eq_true, if_false]; rfl, ?_, ?_⟩
    · split <;> split <;> rfl
    · split <;> split <;> rfl
  rcases aside with ⟨before, stores, ring, counts⟩
  have spec := before.store_spec v
  rw [ring, counts] at spec
  rw [stores]
  exact spec

theorem handsOut_eq :
    ch.handsOut = ch.ring.live.zipIdx.map fun entry =>
      (ch.counts.total - UInt32.ofNat ch.ring.len + 1 + UInt32.ofNat entry.2, entry.1) := by
  have collects (first : UInt32) (entries : List (Violation × Nat)) (out : List (UInt32 × Violation)) :
      entries.foldl (fun out entry => out ++ [(first + UInt32.ofNat entry.2, entry.1)]) out =
        out ++ entries.map fun entry => (first + UInt32.ofNat entry.2, entry.1) := by
    induction entries generalizing out with
    | nil => simp
    | cons entry rest ih => rw [List.foldl_cons, ih, List.map_cons, List.append_assoc]; rfl
  exact collects _ _ []

theorem handsOut_verdicts : ch.handsOut.map Prod.snd = ch.ring.live := by
  rw [handsOut_eq, List.map_map]
  exact List.zipIdx_map_fst 0 ch.ring.live

theorem handsOut_numbers (within : ch.ring.len ≤ ch.counts.total.toNat) :
    ch.handsOut.map (fun h => h.1.toNat) =
      List.range' (ch.counts.total.toNat - ch.ring.len + 1) ch.ring.len := by
  have length := ch.ring.length_live
  rw [handsOut_eq, List.map_map]
  apply List.ext_getElem
  · simp [length]
  · intro k inside _
    have small : k < ch.ring.len := by simpa [length] using inside
    simp only [List.getElem_map, List.getElem_zipIdx, Function.comp_apply, List.getElem_range',
      Nat.zero_add, Nat.one_mul]
    exact toNat_numbered _ _ _ within small

end ViolationChannel

/-- The channel and what happened to it: every verdict it stored, those since the last drain,
and all that the drains handed out. -/
structure WatchedChannel where
  channel : ViolationChannel
  stored : List Violation
  sinceDrain : List Violation
  handed : List (UInt32 × Violation)

namespace WatchedChannel

inductive Event where
  | record (v : Violation)
  | drain
  /-- The hook at the end of a spin. -/
  | drainAndReport

def init (ch : ViolationChannel) : WatchedChannel := ⟨ch, [], [], []⟩

def drained (w : WatchedChannel) (after : ViolationChannel) : WatchedChannel where
  channel := after
  stored := w.stored
  sinceDrain := []
  handed := w.handed ++ w.channel.handsOut

def step (w : WatchedChannel) : Event → Option WatchedChannel
  | .record v => some { w with
      channel := w.channel.record v
      stored := w.stored ++ [v]
      sinceDrain := w.sinceDrain ++ [v] }
  | .drain => some (w.drained (w.channel.drain (fun _ _ _ => ()) ()).1)
  | .drainAndReport =>
    if w.channel.drainReport ∧ w.channel.ring.len ≠ 0 then
      some (w.drained w.channel.drainAndReport)
    else some { w with channel := w.channel.drainAndReport }

structure Kept (C : Nat) (w : WatchedChannel) : Prop where
  sized : w.channel.ring.capacity = C
  armed : w.channel.counts.armed = true
  recent : w.channel.ring.live = w.sinceDrain.drop (w.sinceDrain.length - C)
  newest : w.sinceDrain <:+ w.stored
  total : w.channel.counts.total.toNat = w.stored.length
  counted : w.handed.length + w.channel.counts.dropped.toNat + w.channel.ring.len = w.stored.length
  increasing : (w.handed.map fun h => h.1.toNat).Pairwise (· < ·)
  own : ∀ h ∈ w.handed, 1 ≤ h.1.toNat ∧ h.1.toNat ≤ w.stored.length - w.sinceDrain.length ∧
    w.stored[h.1.toNat - 1]? = some h.2

namespace Kept

variable {C : Nat} {w : WatchedChannel}

section

variable (kept : w.Kept C)
include kept

theorem len : w.channel.ring.len = min w.sinceDrain.length C := by
  rw [← SlotTable.length_live, kept.recent, List.length_drop]
  omega

theorem live_newest : w.channel.ring.live <:+ w.stored := by
  rw [kept.recent]
  exact (List.drop_suffix _ _).trans kept.newest

theorem record (v : Violation) (few : w.stored.length + 1 < 2 ^ 32) : ({ w with
      channel := w.channel.record v
      stored := w.stored ++ [v]
      sinceDrain := w.sinceDrain ++ [v] } : WatchedChannel).Kept C := by
  rcases w.channel.record_spec v kept.armed with ⟨sized, live, counts⟩
  rw [kept.sized] at sized live counts
  have len := kept.len
  have counted := kept.counted
  have since := kept.newest.length_le
  have grown : (w.channel.record v).ring.len =
      w.channel.ring.len + 1 - (w.channel.ring.len + 1 - C) := by
    rw [← SlotTable.length_live, live, List.length_drop, List.length_append,
      SlotTable.length_live, List.length_singleton]
  constructor
  · exact sized
  · change (w.channel.record v).counts.armed = true
    rw [counts]
    exact kept.armed
  · change (w.channel.record v).ring.live =
      (w.sinceDrain ++ [v]).drop ((w.sinceDrain ++ [v]).length - C)
    rw [live, kept.recent, ← List.drop_append_of_le_length (by omega), List.drop_drop,
      List.length_append, List.length_singleton]
    congr 1
    omega
  · change w.sinceDrain ++ [v] <:+ w.stored ++ [v]
    rcases kept.newest with ⟨before, whole⟩
    exact ⟨before, by rw [← List.append_assoc, whole]⟩
  · change (w.channel.record v).counts.total.toNat = (w.stored ++ [v]).length
    rw [counts, List.length_append, List.length_singleton, ← kept.total]
    exact toNat_succ_of_lt _ (by rw [kept.total]; exact few)
  · change w.handed.length + (w.channel.record v).counts.dropped.toNat +
      (w.channel.record v).ring.len = (w.stored ++ [v]).length
    rw [grown, counts, List.length_append, List.length_singleton]
    dsimp only
    split
    · have room : w.channel.counts.dropped.toNat + 1 ≤ u32Max := by
        rw [u32Max]
        omega
      rw [toNat_saturatingAdd, UInt32.toNat_one, Nat.min_eq_left room]
      omega
    · omega
  · exact kept.increasing
  · intro h member
    rcases kept.own h member with ⟨positive, early, place⟩
    refine ⟨positive, ?_, ?_⟩
    · change h.1.toNat ≤ (w.stored ++ [v]).length - (w.sinceDrain ++ [v]).length
      simp only [List.length_append, List.length_singleton]
      omega
    · change (w.stored ++ [v])[h.1.toNat - 1]? = some h.2
      rw [List.getElem?_append_left (by omega)]
      exact place

theorem handsOut_own (h : UInt32 × Violation) (member : h ∈ w.channel.handsOut) :
    w.stored.length - w.sinceDrain.length < h.1.toNat ∧ h.1.toNat ≤ w.stored.length ∧
      w.stored[h.1.toNat - 1]? = some h.2 := by
  have within : w.channel.ring.len ≤ w.channel.counts.total.toNat := by
    rw [kept.total]
    have counted := kept.counted
    omega
  rcases List.mem_iff_getElem?.mp member with ⟨k, placed⟩
  have verdict : w.channel.ring.live[k]? = some h.2 := by
    rw [← w.channel.handsOut_verdicts, List.getElem?_map, placed]
    rfl
  have inside : k < w.channel.ring.len := by
    rw [← SlotTable.length_live]
    exact (List.getElem?_eq_some_iff.mp verdict).1
  have number : h.1.toNat = w.stored.length - w.channel.ring.len + 1 + k := by
    have mapped := congrArg (fun numbers => numbers[k]?) (w.channel.handsOut_numbers within)
    simp only [List.getElem?_map, placed, Option.map_some, kept.total] at mapped
    rw [List.getElem?_range' inside, Option.some.injEq] at mapped
    omega
  have len := kept.len
  have since := kept.newest.length_le
  rw [kept.total] at within
  refine ⟨by omega, by omega, ?_⟩
  rcases kept.live_newest with ⟨before, whole⟩
  have early : before.length = w.stored.length - w.channel.ring.len := by
    rw [← whole, List.length_append, SlotTable.length_live]
    omega
  rw [← whole, List.getElem?_append_right (by omega), ← verdict]
  congr 1
  omega

theorem drained (after : ViolationChannel) (ring : after.ring = w.channel.ring.clear)
    (counts : after.counts = w.channel.counts) : (w.drained after).Kept C := by
  have within : w.channel.ring.len ≤ w.channel.counts.total.toNat := by
    rw [kept.total]
    have counted := kept.counted
    omega
  constructor
  · change after.ring.capacity = C
    rw [ring]
    exact kept.sized
  · change after.counts.armed = true
    rw [counts]
    exact kept.armed
  · change after.ring.live = [].drop (0 - C)
    rw [ring, SlotTable.live_clear, List.drop_nil]
  · exact List.nil_suffix
  · change after.counts.total.toNat = w.stored.length
    rw [counts]
    exact kept.total
  · change (w.handed ++ w.channel.handsOut).length + after.counts.dropped.toNat + after.ring.len =
      w.stored.length
    have handed : w.channel.handsOut.length = w.channel.ring.len := by
      rw [← List.length_map Prod.snd, w.channel.handsOut_verdicts, SlotTable.length_live]
    have cleared : after.ring.len = 0 := by
      rw [ring]
      rfl
    have counted := kept.counted
    rw [counts, cleared, List.length_append, handed]
    omega
  · change ((w.handed ++ w.channel.handsOut).map fun h => h.1.toNat).Pairwise (· < ·)
    rw [List.map_append, List.pairwise_append]
    refine ⟨kept.increasing, ?_, ?_⟩
    · rw [w.channel.handsOut_numbers within]
      exact List.pairwise_lt_range'
    · intro first old second new
      rcases List.mem_map.mp old with ⟨h, member, rfl⟩
      rcases List.mem_map.mp new with ⟨h', member', rfl⟩
      have early := (kept.own h member).2.1
      have late := (kept.handsOut_own h' member').1
      omega
  · intro h member
    change 1 ≤ h.1.toNat ∧ h.1.toNat ≤ w.stored.length - 0 ∧ w.stored[h.1.toNat - 1]? = some h.2
    rcases List.mem_append.mp member with old | new
    · rcases kept.own h old with ⟨positive, early, place⟩
      exact ⟨positive, by omega, place⟩
    · rcases kept.handsOut_own h new with ⟨late, inside, place⟩
      exact ⟨by omega, by omega, place⟩

end

end Kept

theorem kept_init (slots : List Violation) (report drainReport sink : Bool) (suppressed : UInt32) :
    (init (.opened slots report drainReport sink suppressed)).Kept slots.length where
  sized := rfl
  armed := rfl
  recent := List.drop_nil.symm
  newest := List.suffix_refl _
  total := rfl
  counted := rfl
  increasing := List.Pairwise.nil
  own := by
    intro h member
    cases member

theorem step_kept (C : Nat) (w : WatchedChannel) (e : Event) (next : WatchedChannel)
    (kept : w.stored.length < 2 ^ 32 → w.Kept C) (stepped : w.step e = some next)
    (few : next.stored.length < 2 ^ 32) : next.Kept C := by
  cases e with
  | record v =>
    cases stepped
    have grown : w.stored.length + 1 < 2 ^ 32 := by simpa using few
    exact (kept (by omega)).record v grown
  | drain =>
    cases stepped
    exact (kept few).drained _ rfl rfl
  | drainAndReport =>
    simp only [step] at stepped
    split at stepped
    case isTrue on =>
      cases stepped
      have some : ¬ (!w.channel.drainReport || w.channel.ring.len = 0) = true := by
        simpa using on
      refine (kept few).drained _ ?_ ?_
      · rw [ViolationChannel.drainAndReport, if_neg some]
        rfl
      · rw [ViolationChannel.drainAndReport, if_neg some]
        rfl
    case isFalse off =>
      cases stepped
      have idle : (!w.channel.drainReport || w.channel.ring.len = 0) = true := by
        by_contra some
        exact off (by simpa using some)
      rw [ViolationChannel.drainAndReport, if_pos idle]
      exact kept few

/-- The bookkeeping of a channel whose ring has `C` slots. -/
structure Exact (C : Nat) (w : WatchedChannel) : Prop where
  recent : w.channel.ring.live = w.sinceDrain.drop (w.sinceDrain.length - min C w.sinceDrain.length)
  verdicts : w.channel.handsOut.map Prod.snd = w.channel.ring.live
  numbers : w.channel.handsOut.map (fun h => h.1.toNat) =
    List.range' (w.channel.counts.total.toNat - w.channel.ring.len + 1) w.channel.ring.len
  balance : w.channel.counts.total.toNat =
    w.handed.length + w.channel.counts.dropped.toNat + w.channel.ring.len
  stored : w.channel.counts.total.toNat = w.stored.length
  /-- The ring holds the newest verdicts, so number `total` is its last. -/
  newest : w.channel.ring.live <:+ w.stored
  once : (w.handed.map fun h => h.1.toNat).Nodup
  own : ∀ h ∈ w.handed, w.stored[h.1.toNat - 1]? = some h.2
  /-- Of the numbers that have left the ring, those no drain handed out are the dropped ones. -/
  lost : (Finset.Icc 1 (w.stored.length - w.channel.ring.len) \
    (w.handed.map fun h => h.1.toNat).toFinset).card = w.channel.counts.dropped.toNat

theorem Kept.exact {C : Nat} {w : WatchedChannel} (kept : w.Kept C) : w.Exact C where
  recent := by
    rw [kept.recent]
    congr 1
    omega
  verdicts := w.channel.handsOut_verdicts
  numbers := by
    apply w.channel.handsOut_numbers
    rw [kept.total, ← kept.counted]
    omega
  balance := by rw [kept.total, kept.counted]
  stored := kept.total
  newest := kept.live_newest
  once := kept.increasing.imp (fun less => Nat.ne_of_lt less)
  own := fun h member => (kept.own h member).2.2
  lost := by
    have len := kept.len
    have counted := kept.counted
    have left : (w.handed.map fun h => h.1.toNat).toFinset ⊆
        Finset.Icc 1 (w.stored.length - w.channel.ring.len) := by
      intro number member
      rcases List.mem_map.mp (List.mem_toFinset.mp member) with ⟨h, handed, rfl⟩
      rcases kept.own h handed with ⟨positive, early, _⟩
      rw [Finset.mem_Icc]
      omega
    have distinct : (w.handed.map fun h => h.1.toNat).Nodup :=
      kept.increasing.imp (fun less => Nat.ne_of_lt less)
    rw [Finset.card_sdiff_of_subset left, Nat.card_Icc, List.toFinset_card_of_nodup distinct,
      List.length_map]
    omega

theorem bookkeeping_exact (slots : List Violation) (report drainReport sink : Bool)
    (suppressed : UInt32) (events : List Event) (w : WatchedChannel)
    (reached : run step (init (.opened slots report drainReport sink suppressed)) events = some w)
    (few : w.stored.length < 2 ^ 32) : w.Exact slots.length :=
  (run_invariant (fun w e next kept stepped => step_kept slots.length w e next kept stepped)
    _ w events (fun _ => kept_init slots report drainReport sink suppressed) reached few).exact

/-- A ring of two: three verdicts, a drain, one more. -/
theorem bookkeeping_after_eviction : ∃ w : WatchedChannel,
    run step (init (.opened [⟨"", "", 0, 0⟩, ⟨"", "", 0, 0⟩] false false true 0))
      [.record ⟨"silence-runtime", "/a", 1, 1⟩, .record ⟨"silence-runtime", "/b", 2, 1⟩,
       .record ⟨"silence-runtime", "/c", 3, 1⟩, .drain, .record ⟨"silence-runtime", "/d", 4, 1⟩] =
      some w ∧
    w.handed.map Prod.fst = [2, 3] ∧ w.channel.counts.dropped = 1 ∧ w.Exact 2 := by
  refine ⟨_, rfl, by decide, by decide, ?_⟩
  refine bookkeeping_exact [⟨"", "", 0, 0⟩, ⟨"", "", 0, 0⟩] false false true 0
    [.record ⟨"silence-runtime", "/a", 1, 1⟩, .record ⟨"silence-runtime", "/b", 2, 1⟩,
     .record ⟨"silence-runtime", "/c", 3, 1⟩, .drain, .record ⟨"silence-runtime", "/d", 4, 1⟩]
    _ rfl ?_
  decide

end WatchedChannel

end NanoRos
