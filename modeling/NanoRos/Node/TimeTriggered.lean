import NanoRos.Lib.Loops
import NanoRos.Node.SpinPass

/-! Time-triggered schedules: what `validate` accepts, how an executor takes a schedule over, and
the windows its gate then opens. -/

namespace NanoRos

structure TimeTriggeredWindow where
  offsetUs : UInt32
  durationUs : UInt32

structure TimeTriggeredSchedule (N : Nat) where
  majorFrameUs : UInt32
  windows : Vector TimeTriggeredWindow N
  windowCount : Nat

inductive TimeTriggeredScheduleError where
  | zeroMajorFrame
  | windowCountOverflow
  | zeroWindowDuration (window : Nat)
  | windowExceedsMajorFrame (window : Nat)
  | windowsOverlap (windowA windowB : Nat)
  deriving DecidableEq

namespace TimeTriggeredWindow

/-- The sum `validate` takes, in a `u64`. -/
def stop (w : TimeTriggeredWindow) : UInt64 := w.offsetUs.toUInt64 + w.durationUs.toUInt64

def overlaps (w other : TimeTriggeredWindow) : Bool :=
  decide (w.offsetUs.toUInt64 < other.stop) && decide (other.offsetUs.toUInt64 < w.stop)

def context (w : TimeTriggeredWindow) : SchedContext where
  schedClass := .fifo
  deadlineUs := 0
  deadlineAction := .ignore
  ttWindowOffsetUs := w.offsetUs
  ttWindowDurationUs := w.durationUs

theorem toNat_stop (w : TimeTriggeredWindow) :
    w.stop.toNat = w.offsetUs.toNat + w.durationUs.toNat := by
  have offset := w.offsetUs.toNat_lt
  have duration := w.durationUs.toNat_lt
  rw [stop, UInt64.toNat_add, UInt32.toNat_toUInt64, UInt32.toNat_toUInt64]
  exact Nat.mod_eq_of_lt (by omega)

theorem overlaps_iff (w other : TimeTriggeredWindow) : w.overlaps other = true ↔
    w.offsetUs.toNat < other.offsetUs.toNat + other.durationUs.toNat ∧
      other.offsetUs.toNat < w.offsetUs.toNat + w.durationUs.toNat := by
  simp only [overlaps, Bool.and_eq_true, decide_eq_true_eq, UInt64.lt_iff_toNat_lt, toNat_stop,
    UInt32.toNat_toUInt64]

end TimeTriggeredWindow

namespace TimeTriggeredSchedule

variable {N : Nat}

def active (schedule : TimeTriggeredSchedule N) : List TimeTriggeredWindow :=
  schedule.windows.toList.take schedule.windowCount

def checkWindow (schedule : TimeTriggeredSchedule N) (w : TimeTriggeredWindow) (i : Nat) :
    Except TimeTriggeredScheduleError Unit :=
  if w.durationUs = 0 then .error (.zeroWindowDuration i)
  else if schedule.majorFrameUs.toUInt64 < w.stop then .error (.windowExceedsMajorFrame i)
  else
    schedule.active.zipIdx.forM fun other =>
      if i ≠ other.2 ∧ w.overlaps other.1 = true then .error (.windowsOverlap i other.2)
      else .ok ()

def validate (schedule : TimeTriggeredSchedule N) : Except TimeTriggeredScheduleError Unit :=
  if schedule.majorFrameUs = 0 then .error .zeroMajorFrame
  else if N < schedule.windowCount then .error .windowCountOverflow
  else schedule.active.zipIdx.forM fun w => schedule.checkWindow w.1 w.2

theorem checkWindow_ok {schedule : TimeTriggeredSchedule N} {w : TimeTriggeredWindow} {i : Nat} :
    schedule.checkWindow w i = .ok () ↔
      w.durationUs ≠ 0 ∧ w.offsetUs.toNat + w.durationUs.toNat ≤ schedule.majorFrameUs.toNat ∧
        ∀ (j : Nat) (other : TimeTriggeredWindow), schedule.active[j]? = some other → i ≠ j → w.overlaps other = false := by
  have frame : ¬ schedule.majorFrameUs.toUInt64 < w.stop ↔
      w.offsetUs.toNat + w.durationUs.toNat ≤ schedule.majorFrameUs.toNat := by
    rw [UInt64.lt_iff_toNat_lt, w.toNat_stop, UInt32.toNat_toUInt64, not_lt]
  rw [checkWindow]
  by_cases zero : w.durationUs = 0
  · simp [zero]
  by_cases long : schedule.majorFrameUs.toUInt64 < w.stop
  · rw [if_neg zero, if_pos long]
    simp [← frame, long]
  · rw [if_neg zero, if_neg long, forM_eq_ok]
    simp only [ne_eq, zero, not_false_eq_true, true_and, frame.mp long, Prod.forall,
      List.mk_mem_zipIdx_iff_getElem?, ite_eq_right_iff, reduceCtorEq, imp_false, not_and,
      Bool.not_eq_true]
    exact ⟨fun all j other => all other j, fun all other j => all j other⟩

/-- What an accepted schedule is. -/
structure Valid (schedule : TimeTriggeredSchedule N) : Prop where
  frame : 0 < schedule.majorFrameUs
  count : schedule.windowCount ≤ N
  duration : ∀ w ∈ schedule.active, w.durationUs ≠ 0
  within : ∀ w ∈ schedule.active,
    w.offsetUs.toNat + w.durationUs.toNat ≤ schedule.majorFrameUs.toNat
  apart : ∀ (i j : Nat) (w other : TimeTriggeredWindow),
    schedule.active[i]? = some w → schedule.active[j]? = some other → i ≠ j → w.overlaps other = false

theorem validate_ok_iff (schedule : TimeTriggeredSchedule N) :
    schedule.validate = .ok () ↔ schedule.Valid := by
  rw [validate]
  by_cases zero : schedule.majorFrameUs = 0
  · rw [if_pos zero]
    exact ⟨fun accepted => (by cases accepted), fun valid => absurd valid.frame (by simp [zero])⟩
  by_cases many : N < schedule.windowCount
  · rw [if_neg zero, if_pos many]
    exact ⟨fun accepted => (by cases accepted), fun valid => absurd valid.count (by omega)⟩
  rw [if_neg zero, if_neg many, forM_eq_ok]
  constructor
  · intro all
    have each : ∀ (i : Nat) (w : TimeTriggeredWindow), schedule.active[i]? = some w →
        schedule.checkWindow w i = .ok () :=
      fun i w here => all (w, i) (List.mk_mem_zipIdx_iff_getElem?.mpr here)
    refine ⟨UInt32.pos_iff_ne_zero.mpr zero, by omega, ?_, ?_, ?_⟩
    · intro w member
      rcases List.mem_iff_getElem?.mp member with ⟨i, here⟩
      exact (checkWindow_ok.mp (each i w here)).1
    · intro w member
      rcases List.mem_iff_getElem?.mp member with ⟨i, here⟩
      exact (checkWindow_ok.mp (each i w here)).2.1
    · intro i j w other here there
      exact (checkWindow_ok.mp (each i w here)).2.2 j other there
  · intro valid entry member
    have here := List.mem_zipIdx_iff_getElem?.mp member
    have inside := List.mem_of_getElem? here
    exact checkWindow_ok.mpr ⟨valid.duration _ inside, valid.within _ inside,
      fun j other there => valid.apart _ j _ other here there⟩

end TimeTriggeredSchedule

namespace SpinConfig

/-- The first free one of the context slots after the default one. -/
def createSchedContext (cfg : SpinConfig) (slots : Nat) (sc : SchedContext) :
    Option (Nat × SpinConfig) :=
  ((List.range' 1 (slots - 1)).find? fun i => (cfg.contexts i).isNone).map fun i =>
    (i, { cfg with contexts := Function.update cfg.contexts i (some sc) })

def createWindows (slots : Nat) : List TimeTriggeredWindow → SpinConfig →
    Except TimeTriggeredScheduleError (List Nat) × SpinConfig
  | [], cfg => (.ok [], cfg)
  | w :: ws, cfg =>
    match cfg.createSchedContext slots w.context with
    | none => (.error .windowCountOverflow, cfg)
    | some (id, next) =>
      ((createWindows slots ws next).1.map (id :: ·), (createWindows slots ws next).2)

def applyTimeTriggeredSchedule {N : Nat} (cfg : SpinConfig) (slots : Nat)
    (schedule : TimeTriggeredSchedule N) :
    Except TimeTriggeredScheduleError (List Nat) × SpinConfig :=
  match schedule.validate with
  | .error e => (.error e, cfg)
  | .ok _ =>
    let made := createWindows slots schedule.active
      { cfg with majorFrameUs := schedule.majorFrameUs }
    -- the array keeps the default context in the places after the active windows
    (made.1.map fun ids => ids ++ List.replicate (N - ids.length) 0, made.2)

/-- The executor runs the schedule, each window in a context of its own. -/
structure Runs {N : Nat} (cfg : SpinConfig) (schedule : TimeTriggeredSchedule N)
    (ids : List Nat) : Prop where
  frame : cfg.majorFrameUs = schedule.majorFrameUs
  contexts : ∀ (i : Nat) (w : TimeTriggeredWindow), schedule.active[i]? = some w →
    ∃ id, ids[i]? = some id ∧ cfg.contexts id = some w.context

def Opens (cfg : SpinConfig) (ids : List Nat) (i nowUs : Nat) : Prop :=
  ∃ id, ids[i]? = some id ∧ cfg.windowOpen id nowUs = true

variable {N : Nat} {schedule : TimeTriggeredSchedule N} {cfg : SpinConfig} {ids : List Nat}

theorem createWindows_contexts {slots : Nat} {ws : List TimeTriggeredWindow} {next : SpinConfig}
    (made : createWindows slots ws cfg = (.ok ids, next)) :
    next.majorFrameUs = cfg.majorFrameUs ∧
      (∀ id sc, cfg.contexts id = some sc → next.contexts id = some sc) ∧
      ∀ (i : Nat) (w : TimeTriggeredWindow), ws[i]? = some w →
        ∃ id, ids[i]? = some id ∧ next.contexts id = some w.context := by
  induction ws generalizing cfg ids with
  | nil =>
    cases made
    simp
  | cons w ws ih =>
    rw [createWindows] at made
    split at made
    case h_1 => cases made
    case h_2 free mid created =>
      rcases Option.map_eq_some_iff.mp created with ⟨slot, found, same⟩
      cases same
      rcases Prod.mk.inj made with ⟨first, rest⟩
      rcases later : (createWindows slots ws _).1 with e | others
      · rw [later] at first
        cases first
      · rw [later] at first
        cases first
        have onward := ih (Prod.ext later rest)
        have empty : cfg.contexts free = none := by simpa using List.find?_some found
        refine ⟨onward.1, ?_, ?_⟩
        · intro id sc there
          apply onward.2.1
          have differs : id ≠ free := fun same => by simp [same, empty] at there
          simpa [Function.update_of_ne differs] using there
        · intro i v here
          cases i with
          | zero =>
            cases here
            exact ⟨free, rfl, onward.2.1 free _ (by simp)⟩
          | succ i => exact onward.2.2 i v here

theorem runs_of_applied {slots : Nat} {next : SpinConfig}
    (applied : cfg.applyTimeTriggeredSchedule slots schedule = (.ok ids, next)) :
    schedule.Valid ∧ (∀ id sc, cfg.contexts id = some sc → next.contexts id = some sc) ∧
      next.Runs schedule ids := by
  rw [applyTimeTriggeredSchedule] at applied
  split at applied
  case h_1 => cases applied
  case h_2 accepted =>
    rcases Prod.mk.inj applied with ⟨first, rest⟩
    rcases later : (createWindows slots schedule.active _).1 with e | made
    · rw [later] at first
      cases first
    · rw [later] at first
      cases first
      have all := createWindows_contexts (Prod.ext later rest)
      refine ⟨schedule.validate_ok_iff.mp accepted, all.2.1, all.1, fun i w here => ?_⟩
      rcases all.2.2 i w here with ⟨id, there, context⟩
      refine ⟨id, ?_, context⟩
      rw [List.getElem?_append_left (List.getElem?_eq_some_iff.mp there).1]
      exact there

theorem inWindow_iff {frame offset duration : UInt32} (nowUs : Nat)
    (within : offset.toNat + duration.toNat ≤ frame.toNat) :
    inWindow frame offset duration nowUs = true ↔ offset.toNat ≤ nowUs % frame.toNat ∧
        nowUs % frame.toNat < offset.toNat + duration.toNat := by
  have small := frame.toNat_lt
  have sum : (offset + duration).toNat = offset.toNat + duration.toNat := by
    rw [UInt32.toNat_add]
    exact Nat.mod_eq_of_lt (by omega)
  have direct : offset + duration ≤ frame := by
    rw [UInt32.le_iff_toNat_le, sum]
    exact within
  rw [inWindow, if_pos direct, sum, decide_eq_true_eq]

theorem opens_iff (valid : schedule.Valid) (runs : cfg.Runs schedule ids) {i : Nat}
    {w : TimeTriggeredWindow} (here : schedule.active[i]? = some w) (nowUs : Nat) :
    cfg.Opens ids i nowUs ↔ w.offsetUs.toNat ≤ nowUs % schedule.majorFrameUs.toNat ∧
        nowUs % schedule.majorFrameUs.toNat < w.offsetUs.toNat + w.durationUs.toNat := by
  have member := List.mem_of_getElem? here
  rcases runs.contexts i w here with ⟨id, there, context⟩
  have long : 0 < w.durationUs := UInt32.pos_iff_ne_zero.mpr (valid.duration w member)
  have windowed : cfg.windowed id = true := by
    simp only [SpinConfig.windowed, context, runs.frame, TimeTriggeredWindow.context, valid.frame,
      long, decide_true, Bool.and_self]
  have gate : cfg.windowOpen id nowUs =
      inWindow schedule.majorFrameUs w.offsetUs w.durationUs nowUs := by
    simp only [SpinConfig.windowOpen, context, windowed, runs.frame, TimeTriggeredWindow.context,
      Bool.not_true, Bool.false_or]
  rw [← inWindow_iff nowUs (valid.within w member), ← gate]
  constructor
  · rintro ⟨other, same, opened⟩
    cases there.symm.trans same
    exact opened
  · intro opened
    exact ⟨id, there, opened⟩

/-- In an accepted schedule a window is open exactly in its own part of the frame, no two are open
at once, and no sum of an offset and a duration leaves a `u32`. -/
theorem windows_exclusive (schedule : TimeTriggeredSchedule N)
    (accepted : schedule.validate = .ok ()) (cfg : SpinConfig) (ids : List Nat)
    (runs : cfg.Runs schedule ids) (nowUs : UInt64) :
    (∀ (i : Nat) (w : TimeTriggeredWindow), schedule.active[i]? = some w →
      (cfg.Opens ids i nowUs.toNat ↔ w.offsetUs.toNat ≤ nowUs.toNat % schedule.majorFrameUs.toNat ∧
          nowUs.toNat % schedule.majorFrameUs.toNat < w.offsetUs.toNat + w.durationUs.toNat)) ∧
      (∀ (i j : Nat) (w v : TimeTriggeredWindow),
        schedule.active[i]? = some w → schedule.active[j]? = some v →
        cfg.Opens ids i nowUs.toNat → cfg.Opens ids j nowUs.toNat → i = j) ∧
      ∀ w ∈ schedule.active, w.offsetUs.toNat + w.durationUs.toNat < 2 ^ 32 := by
  have valid := schedule.validate_ok_iff.mp accepted
  refine ⟨fun i w here => opens_iff valid runs here _, ?_, ?_⟩
  · intro i j w v here there first second
    by_contra differs
    have apart := valid.apart i j w v here there differs
    have opened := (opens_iff valid runs here _).mp first
    have other := (opens_iff valid runs there _).mp second
    have meets : w.overlaps v = true := (w.overlaps_iff v).mpr (by omega)
    rw [apart] at meets
    cases meets
  · intro w member
    exact lt_of_le_of_lt (valid.within w member) schedule.majorFrameUs.toNat_lt

/-- Two windows that meet, the second of them up to the end of the frame. -/
def twoWindows : TimeTriggeredSchedule 2 :=
  ⟨10, .ofFn fun i => if i.val = 0 then ⟨0, 4⟩ else ⟨4, 6⟩, 2⟩

theorem windows_exclusive_two : ∃ cfg : SpinConfig, cfg.Runs twoWindows [1, 2] ∧
    cfg.Opens [1, 2] 1 9 ∧ ¬ cfg.Opens [1, 2] 0 9 := by
  let cfg : SpinConfig :=
    ⟨fun id => some (if id = 1 then ⟨.fifo, 0, .ignore, 0, 4⟩ else ⟨.fifo, 0, .ignore, 4, 6⟩), 10,
      .always, .rclcppExecutor, false⟩
  have windows : twoWindows.active = [⟨0, 4⟩, ⟨4, 6⟩] := by rfl
  have runs : cfg.Runs twoWindows [1, 2] := by
    refine ⟨rfl, fun i w here => ?_⟩
    rw [windows] at here
    rcases i with _ | _ | i
    · cases here
      exact ⟨1, rfl, rfl⟩
    · cases here
      exact ⟨2, rfl, rfl⟩
    · cases here
  have all := windows_exclusive twoWindows (by rfl) cfg [1, 2] runs 9
  refine ⟨cfg, runs, (all.1 1 ⟨4, 6⟩ rfl).mpr (by decide), fun opened => ?_⟩
  exact absurd ((all.1 0 ⟨0, 4⟩ rfl).mp opened) (by decide)

end SpinConfig
end NanoRos
