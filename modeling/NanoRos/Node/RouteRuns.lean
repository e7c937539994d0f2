import NanoRos.Node.RouteSupervision

/-! Runs of the route rules: on every table, the verdicts and the due times that the executor takes
from 32-bit stamps are those of the full times. -/

namespace NanoRos

/-- Every row the executor looks at is tracked. -/
def RouteRun.Tracks (maxMonitors : Nat) (s : RouteRun) : Prop :=
  ∀ k row, s.table[k]? = some row → k < maxMonitors → row.Tracked (s.records k) s.clock

theorem getElem?_firstRows (maxMonitors : Nat) (table : List RouteRow)
    (f : Nat → RouteRow → RouteRow) (k : Nat) : (firstRows maxMonitors table f)[k]? =
      (table[k]?).map fun row => if k < maxMonitors then f k row else row :=
  List.getElem?_mapIdx

namespace RouteRun.Tracks

variable {maxMonitors : Nat} {s : RouteRun}

theorem rows (f : Nat → RouteRow → RouteRow) (g : RouteRow → RouteRecord → Nat → RouteRecord)
    (clock : Nat) (each : ∀ k row, s.table[k]? = some row → k < maxMonitors →
      (f k row).Tracked (g row (s.records k) k) clock) :
    RouteRun.Tracks maxMonitors
      ⟨firstRows maxMonitors s.table f, s.note maxMonitors g, clock⟩ := by
  intro k after found inside
  change (firstRows maxMonitors s.table f)[k]? = some after at found
  rw [getElem?_firstRows] at found
  obtain ⟨row, present, same⟩ := Option.map_eq_some_iff.mp found
  rw [if_pos inside] at same
  have noted : s.note maxMonitors g k = g row (s.records k) k := by
    rw [note, present]
    exact if_pos inside
  rw [← same]
  change (f k row).Tracked (s.note maxMonitors g k) clock
  rw [noted]
  exact each k row present inside

theorem start (specs : List RouteSpec) : (RouteRun.start specs).Tracks maxMonitors := by
  intro k row found _
  rw [RouteRun.start, List.getElem?_map] at found
  obtain ⟨spec, _, rfl⟩ := Option.map_eq_some_iff.mp found
  exact ⟨BitVec.zero_and, fun _ impossible => (nomatch impossible), fun _ => rfl, Mask.has_zero 31,
    by rw [RouteRecord.quiet_eq]; exact Mask.has_zero 30,
    fun _ _ _ impossible => (nomatch impossible), fun _ member => (nomatch member),
    fun _ member => (nomatch member), List.nodup_nil⟩

theorem step (tracks : s.Tracks maxMonitors) {e : RouteEvent} {next : RouteRun}
    (orderly : s.orderly e) (stepped : s.step maxMonitors e = some next) :
    next.Tracks maxMonitors := by
  cases e with
  | publish k =>
    cases stepped
    intro j after found inside
    change (s.table.modify k RouteRow.publish)[j]? = some after at found
    rw [List.getElem?_modify] at found
    obtain ⟨row, present, same⟩ := Option.map_eq_some_iff.mp found
    have before := tracks j row present inside
    rw [← same]
    split
    · exact before.publish
    · exact before
  | bind topic slot =>
    cases stepped
    by_cases inside : slot < routeSlotMask.toNat
    · rw [routeBind, if_neg (Nat.not_le.mpr inside)]
      apply rows
      intro k row present looked
      exact (tracks k row present looked).bind topic inside
    · have kept : (s.note maxMonitors fun row record _ => record.bind row.spec topic slot) =
          s.records := by
        funext k
        rw [note]
        split
        · split
          · exact if_neg fun all => inside all.1
          · rfl
        · rfl
      rw [routeBind, if_pos (Nat.not_lt.mp inside), kept]
      exact tracks
  | unbind slot =>
    cases stepped
    apply rows
    intro k row present looked
    exact (tracks k row present looked).unbind orderly
  | take slot takeUs =>
    cases stepped
    apply rows
    intro k row present looked
    exact (tracks k row present looked).take orderly.1 orderly.2
  | judge countsBefore endUs =>
    cases stepped
    apply rows
    intro k row present looked
    exact (tracks k row present looked).judge orderly.1 (orderly.2 k) (countsBefore k)
  | overdue nowUs =>
    cases stepped
    apply rows
    intro k row present looked
    exact (tracks k row present looked).overdue orderly.1 (orderly.2 k)
  | reset =>
    cases stepped
    intro k after found inside
    change (s.table.map RouteRow.reset)[k]? = some after at found
    rw [List.getElem?_map] at found
    obtain ⟨row, present, same⟩ := Option.map_eq_some_iff.mp found
    have noted : (s.note maxMonitors fun _ record _ => record.reset) k = (s.records k).reset := by
      rw [note, present]
      exact if_pos inside
    rw [← same]
    change row.reset.Tracked ((s.note maxMonitors fun _ record _ => record.reset) k) s.clock
    rw [noted]
    exact (tracks k row present inside).reset

end RouteRun.Tracks

theorem routeNextDueLoop_some (nowUs : Nat) (rows : List RouteRow) (best : Nat) :
    routeNextDueLoop nowUs rows (some best) =
      some ((rows.filterMap fun row => row.left nowUs).foldl min best) := by
  induction rows generalizing best with
  | nil => rfl
  | cons row rows ih =>
    cases due : row.left nowUs with
    | none =>
      rw [routeNextDueLoop, List.filterMap_cons, due]
      exact ih best
    | some left =>
      rw [routeNextDueLoop, List.filterMap_cons, due]
      dsimp only
      rw [List.foldl_cons]
      split
      case isTrue zero =>
        -- nothing is below zero, so the rows behind the break would not change it
        rw [zero, Nat.min_zero]
        congr 1
        generalize (rows.filterMap fun row => row.left nowUs) = rest
        induction rest with
        | nil => rfl
        | cons first rest same => rw [List.foldl_cons, Nat.zero_min, ← same]
      case isFalse => exact ih (min best left)

theorem routeNextDueLoop_none (nowUs : Nat) (rows : List RouteRow) :
    routeNextDueLoop nowUs rows none = (rows.filterMap fun row => row.left nowUs).min? := by
  induction rows with
  | nil => rfl
  | cons row rows ih =>
    cases due : row.left nowUs with
    | none =>
      rw [routeNextDueLoop, List.filterMap_cons, due]
      exact ih
    | some left =>
      have onward := routeNextDueLoop_some nowUs (row :: rows) left
      rw [routeNextDueLoop, List.filterMap_cons, due] at onward
      rw [routeNextDueLoop, List.filterMap_cons, due]
      dsimp only at onward ⊢
      rw [Nat.min_self, List.foldl_cons, Nat.min_self] at onward
      exact onward

namespace RouteRun

variable {maxMonitors : Nat} {s : RouteRun} {nowUs : Nat}

theorem mem_looked {row : RouteRow} {k : Nat}
    (member : (row, k) ∈ (s.table.take maxMonitors).zipIdx) :
    s.table[k]? = some row ∧ k < maxMonitors := by
  rw [List.mem_zipIdx_iff_getElem?, List.getElem?_take] at member
  dsimp only at member
  split at member
  case isTrue inside => exact ⟨member, inside⟩
  case isFalse => cases member

def remaining (maxMonitors : Nat) (s : RouteRun) (nowUs : Nat) : List Nat :=
  (s.table.take maxMonitors).zipIdx.filterMap fun looked =>
    looked.1.spec.remaining (s.records looked.2) nowUs

/-- The verdicts of a check, row by row. -/
def overdueVerdicts (maxMonitors : Nat) (s : RouteRun) (nowUs : Nat) :
    List (Nat × Violation × Bool) :=
  (s.table.take maxMonitors).zipIdx.filterMap fun looked =>
    (looked.1.spec.overdueVerdict (s.records looked.2) nowUs).map (looked.2, ·)

/-- The verdicts of an answer, row by row. -/
def answerVerdicts (maxMonitors : Nat) (s : RouteRun) (countsBefore : Nat → UInt32)
    (endUs : Nat) : List (Nat × RouteReport) :=
  (s.table.take maxMonitors).zipIdx.flatMap fun looked =>
    (looked.1.spec.answerVerdicts (s.records looked.2)
      (decide (looked.1.cell.count ≠ countsBefore looked.2)) endUs).map (looked.2, ·)

section

variable (tracks : s.Tracks maxMonitors)
include tracks

theorem judge_reports (order : s.clock ≤ nowUs) (brief : s.Brief nowUs)
    (countsBefore : Nat → UInt32) : (routeJudge maxMonitors s.table countsBefore nowUs).1 =
      s.answerVerdicts maxMonitors countsBefore nowUs := by
  apply List.flatMap_congr
  intro looked member
  obtain ⟨present, inside⟩ := mem_looked member
  have tracked := tracks looked.2 looked.1 present inside
  rw [← tracked.judge_verdicts order (brief looked.2) (countsBefore looked.2)]

theorem overdue_reports (order : s.clock ≤ nowUs) (brief : s.Brief nowUs) :
    (routeOverdue maxMonitors s.table nowUs).1 = s.overdueVerdicts maxMonitors nowUs := by
  apply List.filterMap_congr
  intro looked member
  obtain ⟨present, inside⟩ := mem_looked member
  have tracked := tracks looked.2 looked.1 present inside
  rw [← tracked.overdue_verdict order (brief looked.2)]

theorem nextDue_eq (order : s.clock ≤ nowUs) (brief : s.Brief nowUs) :
    routeNextDueUs maxMonitors s.table nowUs = (s.remaining maxMonitors nowUs).min? := by
  rw [routeNextDueUs, routeNextDueLoop_none]
  congr 1
  calc (s.table.take maxMonitors).filterMap (fun row => row.left nowUs)
      = ((s.table.take maxMonitors).zipIdx.map Prod.fst).filterMap (fun row => row.left nowUs) := by
        rw [List.zipIdx_map_fst]
    _ = (s.table.take maxMonitors).zipIdx.filterMap (fun looked => looked.1.left nowUs) := by
        rw [List.filterMap_map]
        rfl
    _ = s.remaining maxMonitors nowUs := by
        apply List.filterMap_congr
        intro looked member
        obtain ⟨present, inside⟩ := mem_looked member
        exact (tracks looked.2 looked.1 present inside).left_eq order (brief looked.2)

end

theorem remaining_zero_iff (spec : RouteSpec) (record : RouteRecord) (nowUs : Nat) :
    spec.remaining record nowUs = some 0 ↔ spec.overdueVerdict record nowUs ≠ none := by
  rw [RouteSpec.remaining, RouteSpec.overdueVerdict]
  cases record.waiting with
  | nil => simp
  | cons first rest =>
    cases spec.supervised with
    | false => simp
    | true =>
      by_cases due : first.2 + spec.deadlineUs ≤ nowUs
      · simp [due, Nat.sub_eq_zero_of_le due]
      · have more : first.2 + spec.deadlineUs - nowUs ≠ 0 := by omega
        simp [due, more]

theorem due_iff (s : RouteRun) (maxMonitors nowUs : Nat) :
    (s.remaining maxMonitors nowUs).min? = some 0 ↔ s.overdueVerdicts maxMonitors nowUs ≠ [] := by
  rw [List.min?_eq_some_iff]
  constructor
  · rintro ⟨zero, _⟩ empty
    obtain ⟨looked, member, left⟩ := List.mem_filterMap.mp zero
    have verdict := (remaining_zero_iff _ _ _).mp left
    rw [overdueVerdicts, List.filterMap_eq_nil_iff] at empty
    exact verdict (Option.map_eq_none_iff.mp (empty looked member))
  · intro full
    obtain ⟨report, reported⟩ := List.exists_mem_of_ne_nil _ full
    obtain ⟨looked, member, verdict⟩ := List.mem_filterMap.mp reported
    obtain ⟨_, found, _⟩ := Option.map_eq_some_iff.mp verdict
    refine ⟨List.mem_filterMap.mpr ⟨looked, member, ?_⟩, fun left _ => Nat.zero_le left⟩
    apply (remaining_zero_iff _ _ _).mpr
    rw [found]
    exact Option.some_ne_none _

end RouteRun

/-- A route of at most 50 ms with a deadline of 100 ms. -/
def stopRoute : RouteSpec := ⟨"/handler/stop", "/scan", 50, 100⟩

/-- The clock's low half wraps between the take and the deadline. -/
def wrappingEvents : List RouteEvent := [.bind "/scan" 0, .take 0 4294950000]

def wrappingRoute : RouteRun :=
  (run (RouteRun.step 1) (RouteRun.start [stopRoute]) wrappingEvents).getD (RouteRun.start [])

/-- The trigger of an overdue route is released and registered again, and takes again. -/
def releasedEvents : List RouteEvent :=
  [.bind "/scan" 0, .take 0 0, .overdue 100000, .unbind 0, .bind "/scan" 0, .take 0 200000]

/-- A deadline that 32 bits of microseconds do not hold. -/
def distantRoute : RouteSpec := ⟨"/handler/stop", "/scan", 50, 5000000⟩

theorem brief_of_early (s : RouteRun) {nowUs : Nat} (early : nowUs < 2 ^ 32) : s.Brief nowUs :=
  fun _ _ takeUs _ _ => Nat.lt_of_le_of_lt (Nat.sub_le nowUs takeUs) early

end NanoRos
