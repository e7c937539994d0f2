import NanoRos.Lib.Mask
import NanoRos.Lib.WrapInstant
import NanoRos.Node.ViolationChannel

/-! The route rules of the contract monitors: a take of the trigger input starts a route's clock,
the next publish of the output answers it, and a deadline supervises the wait. -/

namespace NanoRos

/-- The fields of a monitor row that the route rules read. -/
structure RouteSpec where
  fqn : String
  routeTrigger : String
  routeMaxLatencyMs : UInt32
  routeDeadlineMs : UInt32

/-- The route cells of a row's publisher, and its publish counter. -/
structure RouteCell where
  count : UInt32
  route : Mask 32
  routeTakeUs : UInt32

structure RouteRow where
  spec : RouteSpec
  cell : RouteCell

def routePending : Mask 32 := 1#32 <<< 31

def routeViolated : Mask 32 := 1#32 <<< 30

def routeSlotMask : Mask 32 := 0xffff#32

/-- What `route_judge` hands to its callback: the violation, whether to record it and whether to
react. -/
structure RouteReport where
  violation : Violation
  record : Bool
  react : Bool
  deriving DecidableEq

/-- A deadline is in effect for the row's route. -/
def RouteSpec.supervised (spec : RouteSpec) : Bool :=
  decide (0 < spec.routeDeadlineMs) && decide (0 < spec.routeMaxLatencyMs)

/-- `route_deadline_ms.saturating_mul(1_000)`. -/
def RouteSpec.deadlineUs (spec : RouteSpec) : Nat := min (spec.routeDeadlineMs.toNat * 1000) u32Max

namespace RouteRow

variable (row : RouteRow)

def withRoute (word : Mask 32) : RouteRow := { row with cell := { row.cell with route := word } }

/-- `slot as u32 + 1`. -/
def slotWord (slot : Nat) : Mask 32 := BitVec.ofNat 32 slot + 1#32

def bind (topic : String) (slot : Nat) : RouteRow :=
  if row.spec.routeMaxLatencyMs = 0 ∨ row.spec.routeTrigger ≠ topic then row
  else if row.cell.route &&& routeSlotMask = 0#32 then
    row.withRoute (row.cell.route.diff routeSlotMask ||| slotWord slot)
  else row

def unbind (slot : Nat) : RouteRow :=
  if row.cell.route &&& routeSlotMask = slotWord slot then row.withRoute 0#32 else row

def take (slot takeUs : Nat) : RouteRow :=
  let w := row.cell.route
  if w &&& routeSlotMask ≠ slotWord slot ∨ w &&& routePending ≠ 0#32 then row
  else
    { row with cell :=
      { row.cell with routeTakeUs := UInt32.ofNat takeUs, route := w ||| routePending } }

/-- The time since the take, on the clock's low 32 bits. -/
def waitedUs (nowUs : Nat) : Nat := (UInt32.ofNat nowUs - row.cell.routeTakeUs).toNat

def judge (countBefore : UInt32) (endUs : Nat) : List RouteReport × RouteRow :=
  if row.spec.routeMaxLatencyMs = 0 then ([], row)
  else
    let w := row.cell.route
    if w &&& routePending = 0#32 ∨ row.cell.count = countBefore then ([], row)
    else
      let tookUs := row.waitedUs endUs
      let measuredMs := UInt32.ofNat (tookUs / 1000)
      let first := decide (w &&& routeViolated = 0#32)
      let late := decide (row.spec.routeMaxLatencyMs < measuredMs)
      let overdue := row.spec.supervised && decide (row.spec.deadlineUs ≤ tookUs)
      let next := w.diff routePending
      ((if late && first then
          [⟨⟨"route-latency-runtime", row.spec.fqn, measuredMs, row.spec.routeMaxLatencyMs⟩, true,
            false⟩]
        else []) ++ (if overdue then
          [⟨⟨"route-deadline-runtime", row.spec.fqn, measuredMs, row.spec.routeDeadlineMs⟩, first,
            true⟩]
        else []),
        row.withRoute (if late || overdue then next ||| routeViolated else next.diff routeViolated))

/-- The time a pending supervised route has left. -/
def left (nowUs : Nat) : Option Nat :=
  if !row.spec.supervised then none
  else if row.cell.route &&& routePending = 0#32 then none
  else some (row.spec.deadlineUs - row.waitedUs nowUs)

/-- The violation and whether it is the first. -/
def overdue (nowUs : Nat) : Option (Violation × Bool) × RouteRow :=
  let w := row.cell.route
  if !row.spec.supervised then (none, row)
  else if w &&& routePending = 0#32 then (none, row)
  else if row.waitedUs nowUs < row.spec.deadlineUs then (none, row)
  else
    (some (⟨"route-deadline-runtime", row.spec.fqn, UInt32.ofNat (row.waitedUs nowUs / 1000),
      row.spec.routeDeadlineMs⟩, decide (w &&& routeViolated = 0#32)),
      row.withRoute (w.diff routePending ||| routeViolated))

def reset : RouteRow := row.withRoute (row.cell.route &&& routeSlotMask)

def publish : RouteRow := { row with cell := { row.cell with count := row.cell.count + 1 } }

end RouteRow

def firstRows (maxMonitors : Nat) (table : List RouteRow) (f : Nat → RouteRow → RouteRow) :
    List RouteRow :=
  table.mapIdx fun k row => if k < maxMonitors then f k row else row

def routeBind (maxMonitors : Nat) (table : List RouteRow) (topic : String) (slot : Nat) :
    List RouteRow :=
  if routeSlotMask.toNat ≤ slot then table
  else firstRows maxMonitors table fun _ row => row.bind topic slot

def routeUnbind (maxMonitors : Nat) (table : List RouteRow) (slot : Nat) : List RouteRow :=
  firstRows maxMonitors table fun _ row => row.unbind slot

def routeTake (maxMonitors : Nat) (table : List RouteRow) (slot takeUs : Nat) : List RouteRow :=
  firstRows maxMonitors table fun _ row => row.take slot takeUs

def routeJudge (maxMonitors : Nat) (table : List RouteRow) (countsBefore : Nat → UInt32)
    (endUs : Nat) : List (Nat × RouteReport) × List RouteRow :=
  ((table.take maxMonitors).zipIdx.flatMap fun (row, k) =>
      (row.judge (countsBefore k) endUs).1.map (k, ·),
    firstRows maxMonitors table fun k row => (row.judge (countsBefore k) endUs).2)

def routeNextDueLoop (nowUs : Nat) : List RouteRow → Option Nat → Option Nat
  | [], best => best
  | row :: rows, best =>
    match row.left nowUs with
    | none => routeNextDueLoop nowUs rows best
    | some left =>
      let best := match best with
        | some b => min b left
        | none => left
      if left = 0 then some best else routeNextDueLoop nowUs rows (some best)

def routeNextDueUs (maxMonitors : Nat) (table : List RouteRow) (nowUs : Nat) : Option Nat :=
  routeNextDueLoop nowUs (table.take maxMonitors) none

def routeOverdue (maxMonitors : Nat) (table : List RouteRow) (nowUs : Nat) :
    List (Nat × Violation × Bool) × List RouteRow :=
  ((table.take maxMonitors).zipIdx.filterMap fun (row, k) =>
      (row.overdue nowUs).1.map (k, ·),
    firstRows maxMonitors table fun _ row => (row.overdue nowUs).2)

def routeReset (table : List RouteRow) : List RouteRow := table.map RouteRow.reset

/-- What can happen to a row that its verdicts are counted by. -/
inductive RouteMark where
  | verdict
  | within
  | reset
  | unbind
  deriving DecidableEq

/-- What a row's cells forget: the slot it is bound to, the number of takes, the takes nobody has
answered, dropped or reset, with their numbers and times, the takes that got a deadline verdict, and
the marks, latest first. -/
structure RouteRecord where
  bound : Option Nat
  taken : Nat
  waiting : List (Nat × Nat)
  judged : List Nat
  past : List RouteMark

/-- No verdict came since a mark that clears. -/
def quietSince (clears : RouteMark → Bool) (past : List RouteMark) : Bool :=
  decide (past.find? (fun mark => decide (mark = .verdict) || clears mark) ≠ some .verdict)

/-- An answer within the budget, a reset and the release of the trigger let a row report again. -/
def RouteRecord.quiet (record : RouteRecord) : Bool :=
  quietSince (fun mark => decide (mark ≠ .verdict)) record.past

/-- The answer to a take keeps the latency and the deadline. -/
def RouteSpec.keeps (spec : RouteSpec) (takeUs endUs : Nat) : Bool :=
  decide ((endUs - takeUs) / 1000 ≤ spec.routeMaxLatencyMs.toNat) &&
    !(spec.supervised && decide (takeUs + spec.deadlineUs ≤ endUs))

namespace RouteRecord

variable (record : RouteRecord)

def bind (spec : RouteSpec) (topic : String) (slot : Nat) : RouteRecord :=
  if slot < routeSlotMask.toNat ∧ spec.routeMaxLatencyMs ≠ 0 ∧ spec.routeTrigger = topic ∧
      record.bound = none then
    { record with bound := some slot }
  else record

def unbind (slot : Nat) : RouteRecord :=
  if record.bound = some slot then
    { record with bound := none, waiting := [], past := .unbind :: record.past }
  else record

def take (slot takeUs : Nat) : RouteRecord :=
  if record.bound = some slot then
    { record with
      taken := record.taken + 1
      waiting := record.waiting ++ [(record.taken, takeUs)] }
  else record

/-- The publisher answers what waits; `reports` is what was said about it. -/
def answer (spec : RouteSpec) (published : Bool) (reports : List RouteReport) (endUs : Nat) :
    RouteRecord :=
  match record.waiting with
  | (number, takeUs) :: _ =>
    if published then
      { record with
        waiting := []
        judged := record.judged ++
          if reports.any fun report => report.violation.rule = "route-deadline-runtime" then
            [number]
          else []
        past := if spec.keeps takeUs endUs then .within :: record.past
          else reports.map (fun _ => .verdict) ++ record.past }
    else record
  | [] => record

def drop (report : Option (Violation × Bool)) : RouteRecord :=
  match report, record.waiting with
  | some _, (number, _) :: _ =>
    { record with
      waiting := []
      judged := record.judged ++ [number]
      past := .verdict :: record.past }
  | _, _ => record

def reset : RouteRecord := { record with waiting := [], past := .reset :: record.past }

end RouteRecord

namespace RouteSpec

variable (spec : RouteSpec) (record : RouteRecord)

/-- The verdicts an answer is to get, on the full times. -/
def answerVerdicts (published : Bool) (endUs : Nat) : List RouteReport :=
  match record.waiting with
  | (_, takeUs) :: _ =>
    let measuredMs := UInt32.ofNat ((endUs - takeUs) / 1000)
    if published then
      (if spec.routeMaxLatencyMs.toNat < (endUs - takeUs) / 1000 ∧ record.quiet = true then
        [⟨⟨"route-latency-runtime", spec.fqn, measuredMs, spec.routeMaxLatencyMs⟩, true, false⟩]
      else []) ++ (if spec.supervised = true ∧ takeUs + spec.deadlineUs ≤ endUs then
        [⟨⟨"route-deadline-runtime", spec.fqn, measuredMs, spec.routeDeadlineMs⟩, record.quiet,
          true⟩]
      else [])
    else []
  | [] => []

def overdueVerdict (nowUs : Nat) : Option (Violation × Bool) :=
  match record.waiting with
  | (_, takeUs) :: _ =>
    if spec.supervised = true ∧ takeUs + spec.deadlineUs ≤ nowUs then
      some (⟨"route-deadline-runtime", spec.fqn, UInt32.ofNat ((nowUs - takeUs) / 1000),
        spec.routeDeadlineMs⟩, record.quiet)
    else none
  | [] => none

/-- The time to the deadline of the earliest take that waits. -/
def remaining (nowUs : Nat) : Option Nat :=
  match record.waiting with
  | (_, takeUs) :: _ =>
    if spec.supervised then some (takeUs + spec.deadlineUs - nowUs) else none
  | [] => none

end RouteSpec

structure RouteRun where
  table : List RouteRow
  records : Nat → RouteRecord
  clock : Nat

inductive RouteEvent where
  | publish (k : Nat)
  | bind (topic : String) (slot : Nat)
  | unbind (slot : Nat)
  | take (slot takeUs : Nat)
  | judge (countsBefore : Nat → UInt32) (endUs : Nat)
  | overdue (nowUs : Nat)
  | reset

namespace RouteRun

variable (maxMonitors : Nat) (s : RouteRun)

/-- The records of the rows the executor looks at. -/
def note (f : RouteRow → RouteRecord → Nat → RouteRecord) : Nat → RouteRecord := fun k =>
  match s.table[k]? with
  | some row => if k < maxMonitors then f row (s.records k) k else s.records k
  | none => s.records k

def step : RouteEvent → Option RouteRun
  | .publish k => some { s with table := s.table.modify k RouteRow.publish }
  | .bind topic slot =>
    some { s with
      table := routeBind maxMonitors s.table topic slot
      records := s.note maxMonitors fun row record _ => record.bind row.spec topic slot }
  | .unbind slot =>
    some { s with
      table := routeUnbind maxMonitors s.table slot
      records := s.note maxMonitors fun _ record _ => record.unbind slot }
  | .take slot takeUs =>
    some { s with
      table := routeTake maxMonitors s.table slot takeUs
      records := s.note maxMonitors fun _ record _ => record.take slot takeUs
      clock := takeUs }
  | .judge countsBefore endUs =>
    some { s with
      table := (routeJudge maxMonitors s.table countsBefore endUs).2
      records := s.note maxMonitors fun row record k =>
        record.answer row.spec (decide (row.cell.count ≠ countsBefore k))
          (row.judge (countsBefore k) endUs).1 endUs
      clock := endUs }
  | .overdue nowUs =>
    some { s with
      table := (routeOverdue maxMonitors s.table nowUs).2
      records := s.note maxMonitors fun row record _ => record.drop (row.overdue nowUs).1
      clock := nowUs }
  | .reset =>
    some { s with
      table := routeReset s.table
      records := s.note maxMonitors fun _ record _ => record.reset }

/-- No take has waited for 2^32 microseconds. -/
def Brief (nowUs : Nat) : Prop :=
  ∀ k number takeUs rest, (s.records k).waiting = (number, takeUs) :: rest → nowUs - takeUs < 2 ^ 32

/-- The clock does not run backwards, takes do not wait too long, and slots are indices of the
executor's table. -/
def orderly : RouteEvent → Prop
  | .unbind slot => slot < u32Max
  | .take slot takeUs => slot < u32Max ∧ s.clock ≤ takeUs
  | .judge _ endUs => s.clock ≤ endUs ∧ s.Brief endUs
  | .overdue nowUs => s.clock ≤ nowUs ∧ s.Brief nowUs
  | _ => True

/-- A table as the image has it at the start, with nothing bound. -/
def start (specs : List RouteSpec) : RouteRun where
  table := specs.map fun spec => ⟨spec, ⟨0, 0#32, 0⟩⟩
  records _ := ⟨none, 0, [], [], []⟩
  clock := 0

end RouteRun

section Words

variable (w : Mask 32)

@[simp]
theorem has_routePending (i : Nat) : routePending.has i = decide (i = 31) := by
  rw [routePending, Mask.has_oneShift]
  rfl

@[simp]
theorem has_routeViolated (i : Nat) : routeViolated.has i = decide (i = 30) := by
  rw [routeViolated, Mask.has_oneShift]
  rfl

@[simp]
theorem has_routeSlotMask (i : Nat) : routeSlotMask.has i = decide (i < 16) := by
  by_cases inside : i < 32
  · have bits : ∀ j < 32, routeSlotMask.has j = decide (j < 16) := by decide
    exact bits i inside
  · have absent := BitVec.getLsbD_of_ge routeSlotMask i (Nat.not_lt.mp inside)
    rw [Mask.has, absent, decide_eq_false (by omega)]

theorem and_routePending : w &&& routePending = 0#32 ↔ w.has 31 = false :=
  Mask.and_oneShift_eq_zero_iff w 31

theorem and_routeViolated : w &&& routeViolated = 0#32 ↔ w.has 30 = false :=
  Mask.and_oneShift_eq_zero_iff w 30

theorem and_routeSlotMask_congr {v : Mask 32} (same : ∀ i, i < 16 → w.has i = v.has i) :
    w &&& routeSlotMask = v &&& routeSlotMask := by
  apply Mask.ext
  intro i _
  rw [Mask.has_and, Mask.has_and, has_routeSlotMask]
  by_cases low : i < 16
  · rw [same i low]
  · rw [decide_eq_false low, Bool.and_false, Bool.and_false]

theorem slotWord_and_mask {slot : Nat} (inside : slot < routeSlotMask.toNat) :
    RouteRow.slotWord slot &&& routeSlotMask = RouteRow.slotWord slot := by
  have small : slot < 65535 := inside
  have number : (RouteRow.slotWord slot).toNat = slot + 1 := by
    rw [RouteRow.slotWord, BitVec.toNat_add, BitVec.toNat_ofNat, BitVec.toNat_ofNat]
    omega
  apply BitVec.eq_of_toNat_eq
  have mask : routeSlotMask.toNat = 2 ^ 16 - 1 := rfl
  rw [BitVec.toNat_and, number, mask, Nat.and_two_pow_sub_one_eq_mod]
  omega

theorem slotWord_ne_zero {slot : Nat} (inside : slot < u32Max) : RouteRow.slotWord slot ≠ 0#32 := by
  have small : slot < 4294967295 := inside
  intro zero
  have number := congrArg BitVec.toNat zero
  rw [RouteRow.slotWord, BitVec.toNat_add, BitVec.toNat_ofNat, BitVec.toNat_ofNat,
    BitVec.toNat_ofNat] at number
  omega

theorem slotWord_inj {a b : Nat} (first : a < u32Max) (second : b < u32Max)
    (same : RouteRow.slotWord a = RouteRow.slotWord b) : a = b := by
  have small : a < 4294967295 := first
  have small' : b < 4294967295 := second
  have number := congrArg BitVec.toNat same
  simp only [RouteRow.slotWord, BitVec.toNat_add, BitVec.toNat_ofNat] at number
  omega

end Words

theorem RouteRecord.quiet_eq (record : RouteRecord) :
    record.quiet = decide (record.past.head? ≠ some .verdict) := by
  have all : (fun mark : RouteMark => decide (mark = .verdict) || decide (mark ≠ .verdict)) =
      fun _ => true := by
    funext mark
    cases mark with
    | _ => rfl
  rw [quiet, quietSince, all]
  cases record.past with
  | nil => rfl
  | cons mark past => rfl

/-- The cells of a row say what its record says. -/
structure RouteRow.Tracked (row : RouteRow) (record : RouteRecord) (clock : Nat) : Prop where
  slot : row.cell.route &&& routeSlotMask = (record.bound.map RouteRow.slotWord).getD 0#32
  bound : ∀ slot, record.bound = some slot →
    slot < routeSlotMask.toNat ∧ row.spec.routeMaxLatencyMs ≠ 0
  free : record.bound = none → record.waiting = []
  pending : row.cell.route.has 31 = !record.waiting.isEmpty
  violated : row.cell.route.has 30 = !record.quiet
  stamp : ∀ number takeUs rest, record.waiting = (number, takeUs) :: rest →
    row.cell.routeTakeUs = UInt32.ofNat takeUs
  past : ∀ take ∈ record.waiting, take.2 ≤ clock ∧ take.1 < record.taken
  judged : ∀ number ∈ record.judged, number < record.taken ∧
    ∀ take ∈ record.waiting, number < take.1
  once : record.judged.Nodup

namespace RouteRow.Tracked

variable {row : RouteRow} {record : RouteRecord} {clock : Nat}

section

variable (tracked : row.Tracked record clock)
include tracked

theorem later {after : Nat} (order : clock ≤ after) :
    row.Tracked record after where
  slot := tracked.slot
  bound := tracked.bound
  free := tracked.free
  pending := tracked.pending
  violated := tracked.violated
  stamp := tracked.stamp
  past take member := ⟨Nat.le_trans (tracked.past take member).1 order,
    (tracked.past take member).2⟩
  judged := tracked.judged
  once := tracked.once

theorem publish : row.publish.Tracked record clock :=
  ⟨tracked.slot, tracked.bound, tracked.free, tracked.pending, tracked.violated, tracked.stamp,
    tracked.past, tracked.judged, tracked.once⟩

theorem slot_iff {slot : Nat} (inside : slot < u32Max) :
    row.cell.route &&& routeSlotMask = slotWord slot ↔ record.bound = some slot := by
  rw [tracked.slot]
  cases found : record.bound with
  | none =>
    constructor
    · intro zero
      exact absurd zero.symm (slotWord_ne_zero inside)
    · intro impossible
      cases impossible
  | some other =>
    have small : other < 65535 := (tracked.bound other found).1
    have fits : other < u32Max := Nat.lt_trans small (by decide)
    constructor
    · intro same
      exact congrArg some (slotWord_inj fits inside same)
    · intro same
      cases same
      rfl

theorem unbound_iff :
    row.cell.route &&& routeSlotMask = 0#32 ↔ record.bound = none := by
  rw [tracked.slot]
  cases found : record.bound with
  | none => exact ⟨fun _ => rfl, fun _ => rfl⟩
  | some other =>
    have small : other < 65535 := (tracked.bound other found).1
    have fits : other < u32Max := Nat.lt_trans small (by decide)
    constructor
    · intro zero
      exact absurd zero (slotWord_ne_zero fits)
    · intro impossible
      cases impossible

theorem bind (topic : String) {slot : Nat} (inside : slot < routeSlotMask.toNat) :
    (row.bind topic slot).Tracked (record.bind row.spec topic slot) clock := by
  by_cases able : row.spec.routeMaxLatencyMs ≠ 0 ∧ row.spec.routeTrigger = topic ∧
      record.bound = none
  · have skipped : ¬ (row.spec.routeMaxLatencyMs = 0 ∨ row.spec.routeTrigger ≠ topic) := by
      rintro (zero | other)
      · exact able.1 zero
      · exact other able.2.1
    have empty := tracked.unbound_iff.mpr able.2.2
    rw [RouteRow.bind, if_neg skipped, if_pos empty, RouteRecord.bind, if_pos ⟨inside, able⟩]
    have fits := slotWord_and_mask inside
    have high : ∀ i, 16 ≤ i → (slotWord slot).has i = false := by
      intro i above
      rw [← fits, Mask.has_and, has_routeSlotMask, decide_eq_false (by omega), Bool.and_false]
    have kept : ∀ i, 16 ≤ i →
        (row.cell.route.diff routeSlotMask ||| slotWord slot).has i = row.cell.route.has i := by
      intro i above
      simp [high i above, Nat.not_lt.mpr above]
    have slots : (row.cell.route.diff routeSlotMask ||| slotWord slot) &&& routeSlotMask =
        slotWord slot := by
      apply Eq.trans _ fits
      apply and_routeSlotMask_congr
      intro i low
      simp [low]
    exact ⟨slots, fun s same => ⟨Option.some.inj same ▸ inside, able.1⟩,
      fun impossible => (nomatch impossible), (kept 31 (by decide)).trans tracked.pending,
      (kept 30 (by decide)).trans tracked.violated, tracked.stamp, tracked.past, tracked.judged,
      tracked.once⟩
  · have same : record.bind row.spec topic slot = record :=
      if_neg fun all => able all.2
    have still : row.bind topic slot = row := by
      rw [RouteRow.bind]
      split
      case isTrue => rfl
      case isFalse kept =>
        rw [not_or, not_not] at kept
        exact if_neg fun empty => able ⟨kept.1, kept.2, tracked.unbound_iff.mp empty⟩
    rw [same, still]
    exact tracked

theorem clear {word : Mask 32} {after : RouteRecord}
    (slot : word &&& routeSlotMask = (after.bound.map slotWord).getD 0#32)
    (bound : ∀ slot, after.bound = some slot → record.bound = some slot)
    (pending : word.has 31 = false) (violated : word.has 30 = !after.quiet)
    (waiting : after.waiting = []) (taken : after.taken = record.taken)
    (judged : ∀ number ∈ after.judged, number < record.taken) (once : after.judged.Nodup) :
    (row.withRoute word).Tracked after clock where
  slot := slot
  bound s same := tracked.bound s (bound s same)
  free _ := waiting
  pending := by
    rw [waiting]
    exact pending
  violated := violated
  stamp _ _ _ full := nomatch waiting.symm.trans full
  past take member := by
    rw [waiting] at member
    cases member
  judged number member := by
    refine ⟨taken ▸ judged number member, fun take waits => ?_⟩
    rw [waiting] at waits
    cases waits
  once := once

theorem unbind {slot : Nat} (inside : slot < u32Max) :
    (row.unbind slot).Tracked (record.unbind slot) clock := by
  by_cases mine : record.bound = some slot
  · rw [RouteRow.unbind, if_pos ((tracked.slot_iff inside).mpr mine), RouteRecord.unbind,
      if_pos mine]
    apply tracked.clear
    · rfl
    · exact fun _ impossible => nomatch impossible
    · exact Mask.has_zero 31
    · rw [Mask.has_zero, RouteRecord.quiet_eq]
      rfl
    · rfl
    · rfl
    · exact fun number member => (tracked.judged number member).1
    · exact tracked.once
  · rw [RouteRow.unbind, if_neg (fun same => mine ((tracked.slot_iff inside).mp same)),
      RouteRecord.unbind, if_neg mine]
    exact tracked

theorem reset : row.reset.Tracked record.reset clock := by
  have low : (row.cell.route &&& routeSlotMask) &&& routeSlotMask =
      row.cell.route &&& routeSlotMask := by
    apply and_routeSlotMask_congr
    intro i below
    simp [below]
  apply tracked.clear
  · exact low.trans tracked.slot
  · exact fun _ same => same
  · simp
  · rw [RouteRecord.quiet_eq]
    simp [RouteRecord.reset]
  · rfl
  · rfl
  · exact fun number member => (tracked.judged number member).1
  · exact tracked.once

theorem take {slot : Nat} (inside : slot < u32Max) {takeUs : Nat} (order : clock ≤ takeUs) :
    (row.take slot takeUs).Tracked (record.take slot takeUs) takeUs := by
  by_cases mine : record.bound = some slot
  · have here : row.cell.route &&& routeSlotMask = slotWord slot :=
      (tracked.slot_iff inside).mpr mine
    have numbers : ∀ take ∈ record.waiting ++ [(record.taken, takeUs)],
        take.2 ≤ takeUs ∧ take.1 < record.taken + 1 := by
      intro take member
      rcases List.mem_append.mp member with before | last
      · have old := tracked.past take before
        exact ⟨Nat.le_trans old.1 order, Nat.lt_succ_of_lt old.2⟩
      · rw [List.mem_singleton.mp last]
        exact ⟨Nat.le_refl _, Nat.lt_succ_self _⟩
    have judged : ∀ number ∈ record.judged, number < record.taken + 1 ∧
        ∀ take ∈ record.waiting ++ [(record.taken, takeUs)], number < take.1 := by
      intro number member
      have old := tracked.judged number member
      refine ⟨Nat.lt_succ_of_lt old.1, fun take waits => ?_⟩
      rcases List.mem_append.mp waits with before | last
      · exact old.2 take before
      · rw [List.mem_singleton.mp last]
        exact old.1
    rw [RouteRecord.take, if_pos mine, RouteRow.take]
    dsimp only
    cases waits : record.waiting with
    | nil =>
      have idle : row.cell.route.has 31 = false := by
        rw [tracked.pending, waits]
        rfl
      have starts : ¬ (row.cell.route &&& routeSlotMask ≠ slotWord slot ∨
          row.cell.route &&& routePending ≠ 0#32) := by
        rintro (other | busy)
        · exact other here
        · exact busy ((and_routePending _).mpr idle)
      rw [if_neg starts]
      rw [waits] at numbers judged
      refine ⟨?_, tracked.bound, fun none => ?_, ?_, ?_, fun number time rest first => ?_, numbers,
        judged, tracked.once⟩
      · apply Eq.trans _ tracked.slot
        apply and_routeSlotMask_congr
        intro i below
        have apart : i ≠ 31 := by omega
        simp [apart]
      · cases mine.symm.trans none
      · simp
      · apply Eq.trans _ tracked.violated
        simp
      · cases first
        rfl
    | cons first rest =>
      have busy : row.cell.route.has 31 = true := by
        rw [tracked.pending, waits]
        rfl
      have keeps : row.cell.route &&& routeSlotMask ≠ slotWord slot ∨
          row.cell.route &&& routePending ≠ 0#32 := by
        apply Or.inr
        rw [ne_eq, and_routePending, busy]
        exact Bool.noConfusion
      rw [if_pos keeps]
      rw [waits] at numbers judged
      refine ⟨tracked.slot, tracked.bound, fun none => ?_, ?_, tracked.violated,
        fun number time later full => ?_, numbers, judged, tracked.once⟩
      · cases mine.symm.trans none
      · rw [busy]
        rfl
      · cases full
        exact tracked.stamp number time rest waits
  · have away : row.cell.route &&& routeSlotMask ≠ slotWord slot :=
      fun same => mine ((tracked.slot_iff inside).mp same)
    rw [RouteRecord.take, if_neg mine, RouteRow.take]
    dsimp only
    rw [if_pos (Or.inl away)]
    exact tracked.later order

end

section Waiting

variable {number takeUs nowUs : Nat} {rest : List (Nat × Nat)}

section

variable (tracked : row.Tracked record clock)
include tracked

theorem waited (waits : record.waiting = (number, takeUs) :: rest) (order : clock ≤ nowUs)
    (brief : nowUs - takeUs < 2 ^ 32) :
    row.waitedUs nowUs = nowUs - takeUs := by
  have first := (tracked.past (number, takeUs) (waits ▸ List.mem_cons_self)).1
  rw [waitedUs, tracked.stamp number takeUs rest waits]
  exact toNat_sub_stamps (Nat.le_trans first order) brief

theorem busy (waits : record.waiting = (number, takeUs) :: rest) :
    ¬ row.cell.route &&& routePending = 0#32 := by
  rw [and_routePending, tracked.pending, waits]
  exact Bool.noConfusion

theorem idle (none : record.waiting = []) :
    row.cell.route &&& routePending = 0#32 := by
  rw [and_routePending, tracked.pending, none]
  rfl

theorem first_eq :
    decide (row.cell.route &&& routeViolated = 0#32) = record.quiet := by
  simp only [and_routeViolated, tracked.violated]
  cases record.quiet with
  | true => rfl
  | false => rfl

section

variable (waits : record.waiting = (number, takeUs) :: rest)
include waits

theorem overdue_iff (order : clock ≤ nowUs) (brief : nowUs - takeUs < 2 ^ 32) :
    row.spec.deadlineUs ≤ row.waitedUs nowUs ↔ takeUs + row.spec.deadlineUs ≤ nowUs := by
  have first := (tracked.past (number, takeUs) (waits ▸ List.mem_cons_self)).1
  rw [tracked.waited waits order brief]
  have before : takeUs ≤ nowUs := Nat.le_trans first order
  omega

theorem late_iff (order : clock ≤ nowUs) (brief : nowUs - takeUs < 2 ^ 32) :
    row.spec.routeMaxLatencyMs < UInt32.ofNat (row.waitedUs nowUs / 1000) ↔
      row.spec.routeMaxLatencyMs.toNat < (nowUs - takeUs) / 1000 := by
  have small : (nowUs - takeUs) / 1000 ≤ u32Max := by
    rw [u32Max]
    omega
  rw [tracked.waited waits order brief, UInt32.lt_iff_toNat_lt, toNat_ofNat_u32 _ small]

theorem judge_answered (order : clock ≤ nowUs) (brief : nowUs - takeUs < 2 ^ 32)
    {countBefore : UInt32} (published : row.cell.count ≠ countBefore) :
    row.judge countBefore nowUs = (row.spec.answerVerdicts record true nowUs,
      row.withRoute (if row.spec.keeps takeUs nowUs then
          (row.cell.route.diff routePending).diff routeViolated
        else row.cell.route.diff routePending ||| routeViolated)) := by
  have contracted : row.spec.routeMaxLatencyMs ≠ 0 := by
    cases found : record.bound with
    | none => cases waits.symm.trans (tracked.free found)
    | some slot => exact (tracked.bound slot found).2
  have asked : ¬ (row.cell.route &&& routePending = 0#32 ∨ row.cell.count = countBefore) := by
    rintro (none | same)
    · exact tracked.busy waits none
    · exact published same
  have late : decide (row.spec.routeMaxLatencyMs < UInt32.ofNat (row.waitedUs nowUs / 1000)) =
      decide (row.spec.routeMaxLatencyMs.toNat < (nowUs - takeUs) / 1000) :=
    decide_eq_decide.mpr (tracked.late_iff waits order brief)
  have missed : decide (row.spec.deadlineUs ≤ row.waitedUs nowUs) =
      decide (takeUs + row.spec.deadlineUs ≤ nowUs) :=
    decide_eq_decide.mpr (tracked.overdue_iff waits order brief)
  have missing : row.spec.keeps takeUs nowUs =
      !(decide (row.spec.routeMaxLatencyMs.toNat < (nowUs - takeUs) / 1000) ||
        (row.spec.supervised && decide (takeUs + row.spec.deadlineUs ≤ nowUs))) := by
    simp only [RouteSpec.keeps, Bool.not_or, ← decide_not, Nat.not_lt]
  rw [RouteRow.judge, if_neg contracted]
  dsimp only
  rw [if_neg asked, late, missed, tracked.first_eq, tracked.waited waits order brief, missing,
    RouteSpec.answerVerdicts, waits]
  simp only [Bool.and_eq_true, decide_eq_true_eq, if_true]
  congr 2
  cases decide (row.spec.routeMaxLatencyMs.toNat < (nowUs - takeUs) / 1000) ||
      (row.spec.supervised && decide (takeUs + row.spec.deadlineUs ≤ nowUs)) with
  | true => rfl
  | false => rfl

end

end

end Waiting

section Verdicts

variable {nowUs : Nat}

/-- A wait is brief for the earliest take. -/
def BriefFor (record : RouteRecord) (nowUs : Nat) : Prop :=
  ∀ number takeUs rest, record.waiting = (number, takeUs) :: rest → nowUs - takeUs < 2 ^ 32

section

variable (tracked : row.Tracked record clock)
include tracked

theorem judge_verdicts (order : clock ≤ nowUs) (brief : BriefFor record nowUs)
    (countBefore : UInt32) : (row.judge countBefore nowUs).1 =
      row.spec.answerVerdicts record (decide (row.cell.count ≠ countBefore)) nowUs := by
  cases waits : record.waiting with
  | nil =>
    rw [RouteSpec.answerVerdicts, waits, RouteRow.judge]
    split
    · rfl
    · dsimp only
      rw [if_pos (Or.inl (tracked.idle waits))]
  | cons first rest =>
    by_cases published : row.cell.count = countBefore
    · rw [RouteSpec.answerVerdicts, waits, RouteRow.judge]
      simp only [published, ne_eq, not_true_eq_false, decide_false, Bool.false_eq_true, if_false]
      split
      · rfl
      · rw [if_pos (Or.inr trivial)]
    · rw [tracked.judge_answered waits order (brief _ _ _ waits) published,
        decide_eq_true published]

theorem overdue_verdict (order : clock ≤ nowUs) (brief : BriefFor record nowUs) :
    (row.overdue nowUs).1 = row.spec.overdueVerdict record nowUs := by
  cases waits : record.waiting with
  | nil =>
    rw [RouteSpec.overdueVerdict, waits, RouteRow.overdue]
    dsimp only
    rw [if_pos (tracked.idle waits)]
    split
    · rfl
    · rfl
  | cons first rest =>
    have missed := tracked.overdue_iff waits order (brief _ _ _ waits)
    have wait := tracked.waited waits order (brief _ _ _ waits)
    rw [RouteSpec.overdueVerdict, waits, RouteRow.overdue]
    dsimp only
    rw [if_neg (tracked.busy waits), tracked.first_eq]
    cases row.spec.supervised with
    | false => rfl
    | true =>
      simp only [Bool.not_true, Bool.false_eq_true, if_false, true_and]
      by_cases due : first.2 + row.spec.deadlineUs ≤ nowUs
      · rw [if_pos due, if_neg (Nat.not_lt.mpr (missed.mpr due)), wait]
      · rw [if_neg due, if_pos (Nat.not_le.mp (fun reached => due (missed.mp reached)))]

theorem left_eq (order : clock ≤ nowUs) (brief : BriefFor record nowUs)
    : row.left nowUs = row.spec.remaining record nowUs := by
  cases waits : record.waiting with
  | nil =>
    rw [RouteSpec.remaining, waits, left, if_pos (tracked.idle waits)]
    split
    · rfl
    · rfl
  | cons first rest =>
    have before := (tracked.past first (waits ▸ List.mem_cons_self)).1
    rw [RouteSpec.remaining, waits, left, if_neg (tracked.busy waits),
      tracked.waited waits order (brief _ _ _ waits)]
    cases row.spec.supervised with
    | false => rfl
    | true =>
      have time : row.spec.deadlineUs - (nowUs - first.2) =
          first.2 + row.spec.deadlineUs - nowUs := by omega
      exact congrArg some time

end

variable {number takeUs : Nat} {rest : List (Nat × Nat)}

section

variable (waits : record.waiting = (number, takeUs) :: rest)
include waits

theorem quiet_of_silent (breaks : row.spec.keeps takeUs nowUs = false)
    (silent : row.spec.answerVerdicts record true nowUs = []) : record.quiet = false := by
  rw [RouteSpec.answerVerdicts, waits] at silent
  simp only [if_true, List.append_eq_nil_iff, ite_eq_right_iff, List.cons_ne_nil, imp_false,
    not_and, Bool.not_eq_true] at silent
  rw [RouteSpec.keeps, Bool.and_eq_false_iff, decide_eq_false_iff_not, Nat.not_le,
    Bool.not_eq_false', Bool.and_eq_true, decide_eq_true_eq] at breaks
  rcases breaks with late | missed
  · exact silent.1 late
  · exact absurd missed.2 (silent.2 missed.1)

theorem answer_eq (spec : RouteSpec) (reports : List RouteReport) :
    record.answer spec true reports nowUs = { record with
        waiting := []
        judged := record.judged ++
          if reports.any fun report => report.violation.rule = "route-deadline-runtime" then
            [number]
          else []
        past := if spec.keeps takeUs nowUs then .within :: record.past
          else reports.map (fun _ => .verdict) ++ record.past } := by
  rw [RouteRecord.answer, waits]
  rfl

theorem quiet_of_answer :
    (record.answer row.spec true (row.spec.answerVerdicts record true nowUs) nowUs).quiet =
      row.spec.keeps takeUs nowUs := by
  rw [RouteRecord.quiet_eq, answer_eq waits]
  dsimp only
  cases kept : row.spec.keeps takeUs nowUs with
  | true => rfl
  | false =>
    cases reports : row.spec.answerVerdicts record true nowUs with
    | nil =>
      have loud := quiet_of_silent waits kept reports
      rw [RouteRecord.quiet_eq] at loud
      exact loud
    | cons report more => rfl

end

section

variable (tracked : row.Tracked record clock)
include tracked

theorem number_fresh {take : Nat × Nat} (waits : record.waiting = take :: rest) (judged : List Nat)
    (sub : judged = record.judged ++ [take.1] ∨ judged = record.judged) :
    (∀ number ∈ judged, number < record.taken) ∧ judged.Nodup := by
  have first : take ∈ record.waiting := waits ▸ List.mem_cons_self
  have old : ∀ number ∈ record.judged, number < record.taken :=
    fun number member => (tracked.judged number member).1
  rcases sub with rfl | rfl
  · constructor
    · intro number member
      rcases List.mem_append.mp member with before | last
      · exact old number before
      · rw [List.mem_singleton.mp last]
        exact (tracked.past take first).2
    · rw [List.nodup_append]
      refine ⟨tracked.once, List.nodup_singleton _, fun a before b last same => ?_⟩
      rw [List.mem_singleton.mp last] at same
      have less := (tracked.judged a before).2 take first
      omega
  · exact ⟨old, tracked.once⟩

theorem judge (order : clock ≤ nowUs) (brief : BriefFor record nowUs) (countBefore : UInt32) :
    (row.judge countBefore nowUs).2.Tracked
      (record.answer row.spec (decide (row.cell.count ≠ countBefore))
        (row.judge countBefore nowUs).1 nowUs) nowUs := by
  have before := tracked.later order
  cases waits : record.waiting with
  | nil =>
    have same : (row.judge countBefore nowUs).2 = row := by
      rw [RouteRow.judge]
      split
      · rfl
      · dsimp only
        rw [if_pos (Or.inl (tracked.idle waits))]
    rw [same, RouteRecord.answer, waits]
    exact before
  | cons first rest =>
    by_cases published : row.cell.count = countBefore
    · have same : (row.judge countBefore nowUs).2 = row := by
        rw [RouteRow.judge]
        split
        · rfl
        · dsimp only
          rw [if_pos (Or.inr published)]
      have kept : record.answer row.spec (decide (row.cell.count ≠ countBefore))
          (row.judge countBefore nowUs).1 nowUs = record := by
        rw [RouteRecord.answer, waits, decide_eq_false (not_not.mpr published)]
        rfl
      rw [same, kept]
      exact before
    · have quiet : (record.answer row.spec true (row.spec.answerVerdicts record true nowUs)
          nowUs).quiet = row.spec.keeps first.2 nowUs := quiet_of_answer waits
      rw [tracked.judge_answered waits order (brief _ _ _ waits) published,
        decide_eq_true published]
      rw [answer_eq waits] at quiet ⊢
      have numbers := tracked.number_fresh waits (record.judged ++
        if (row.spec.answerVerdicts record true nowUs).any fun report =>
          report.violation.rule = "route-deadline-runtime" then [first.1] else []) (by
            split
            · exact .inl rfl
            · exact .inr (List.append_nil _))
      apply before.clear
      · apply Eq.trans _ tracked.slot
        apply and_routeSlotMask_congr
        intro i low
        have apart : i ≠ 31 ∧ i ≠ 30 := by omega
        split
        · simp [apart.1, apart.2]
        · simp [apart.1, apart.2]
      · exact fun _ same => same
      · split
        · simp
        · simp
      · rw [quiet]
        cases row.spec.keeps first.2 nowUs with
        | true => simp
        | false => simp
      · rfl
      · rfl
      · exact numbers.1
      · exact numbers.2

theorem overdue (order : clock ≤ nowUs) (brief : BriefFor record nowUs) :
    (row.overdue nowUs).2.Tracked (record.drop (row.overdue nowUs).1) nowUs := by
  have before := tracked.later order
  have unchanged : (row.overdue nowUs).1 = none → (row.overdue nowUs).2 = row := by
    rw [RouteRow.overdue]
    split
    · exact fun _ => rfl
    · split
      · exact fun _ => rfl
      · split
        · exact fun _ => rfl
        · intro impossible
          cases impossible
  cases verdict : (row.overdue nowUs).1 with
  | none =>
    rw [unchanged verdict, RouteRecord.drop]
    · exact before
    · intro _ _ _ _ impossible
      cases impossible
  | some report =>
    cases waits : record.waiting with
    | nil =>
      have silent := tracked.overdue_verdict order brief
      rw [RouteSpec.overdueVerdict, waits, verdict] at silent
      cases silent
    | cons first rest =>
      have word : (row.overdue nowUs).2 =
          row.withRoute (row.cell.route.diff routePending ||| routeViolated) := by
        revert verdict
        rw [RouteRow.overdue]
        repeat' split
        all_goals intro verdict
        all_goals first
          | rfl
          | cases verdict
      have numbers := tracked.number_fresh waits _ (.inl rfl)
      have dropped : record.drop (some report) = { record with
            waiting := []
            judged := record.judged ++ [first.1]
            past := .verdict :: record.past } := by
        unfold RouteRecord.drop
        rw [waits]
      rw [word, dropped]
      apply before.clear
      · apply Eq.trans _ tracked.slot
        apply and_routeSlotMask_congr
        intro i low
        have apart : i ≠ 31 ∧ i ≠ 30 := by omega
        simp [apart.1, apart.2]
      · exact fun _ same => same
      · simp
      · rw [RouteRecord.quiet_eq]
        simp
      · rfl
      · rfl
      · exact numbers.1
      · exact numbers.2

end

end Verdicts

end RouteRow.Tracked

end NanoRos
