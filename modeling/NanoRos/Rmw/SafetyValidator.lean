import Mathlib.Data.Int.Interval
import Mathlib.Order.Bounds.Basic
import NanoRos.Lib.Runs

/-! The sequence tracking of the end-to-end protection (`safety.rs`) over whole runs: what it
expects, what it calls a duplicate, and how many numbers it says were lost. -/

namespace NanoRos

/-- `n`, where it is an `i64`. -/
def exactI64 (n : Int) : Option Int64 :=
  if -2 ^ 63 ≤ n ∧ n < 2 ^ 63 then some (Int64.ofInt n) else none

theorem exactI64_eq_some {n : Int} {x : Int64} (exact_ : exactI64 n = some x) : x.toInt = n := by
  rw [exactI64] at exact_
  split at exact_
  case isTrue fits =>
    cases exact_
    exact Int64.toInt_ofInt_of_le fits.1 fits.2
  case isFalse => cases exact_

theorem exactI64_isSome_iff (n : Int) : (exactI64 n).isSome ↔ -2 ^ 63 ≤ n ∧ n < 2 ^ 63 := by
  rw [exactI64]
  split <;> simp_all

structure IntegrityStatus where
  gap : Int64
  duplicate : Bool
  crcValid : Option Bool
  deriving DecidableEq

def IntegrityStatus.isValid (status : IntegrityStatus) : Bool :=
  status.gap = 0 && !status.duplicate && status.crcValid ≠ some false

structure SafetyValidator where
  expectedSeq : Int64
  initialized : Bool
  deriving DecidableEq

namespace SafetyValidator

def new : SafetyValidator := ⟨0, false⟩

/-- `none` where `message_seq + 1` or `message_seq - expected_seq` is no `i64`. -/
def validate (v : SafetyValidator) (messageSeq : Int64) (crcValid : Option Bool) :
    Option (IntegrityStatus × SafetyValidator) :=
  if !v.initialized then do
    let expectedSeq ← exactI64 (messageSeq.toInt + 1)
    return (⟨0, false, crcValid⟩, ⟨expectedSeq, true⟩)
  else if messageSeq = v.expectedSeq then do
    let expectedSeq ← exactI64 (messageSeq.toInt + 1)
    return (⟨0, false, crcValid⟩, { v with expectedSeq := expectedSeq })
  else if messageSeq < v.expectedSeq then
    some (⟨0, true, crcValid⟩, v)
  else do
    let gap ← exactI64 (messageSeq.toInt - v.expectedSeq.toInt)
    let expectedSeq ← exactI64 (messageSeq.toInt + 1)
    return (⟨gap, false, crcValid⟩, { v with expectedSeq := expectedSeq })

def reset (_ : SafetyValidator) : SafetyValidator := ⟨0, false⟩

theorem reset_eq_new (v : SafetyValidator) : v.reset = new := rfl

variable {v next : SafetyValidator} {messageSeq : Int64} {crcValid : Option Bool}
  {status : IntegrityStatus}

/-- The message moves the validator on: it is not a duplicate, and the numbers it skips are its gap. -/
structure Advances (v : SafetyValidator) (messageSeq : Int64) (status : IntegrityStatus)
    (next : SafetyValidator) : Prop where
  duplicate : status.duplicate = false
  gap : status.gap.toInt =
    if v.initialized then messageSeq.toInt - v.expectedSeq.toInt else 0
  initialized : next.initialized = true
  expected : next.expectedSeq.toInt = messageSeq.toInt + 1

theorem validate_cases (validated : v.validate messageSeq crcValid = some (status, next)) :
    status.crcValid = crcValid ∧
    ((v.initialized = true ∧ messageSeq.toInt < v.expectedSeq.toInt ∧ status.duplicate = true ∧
        status.gap.toInt = 0 ∧ next = v) ∨
      ((v.initialized = true → v.expectedSeq.toInt ≤ messageSeq.toInt) ∧
        Advances v messageSeq status next)) := by
  rw [validate] at validated
  cases started : v.initialized with
  | false =>
    simp only [started, Bool.not_false, if_true] at validated
    rcases Option.bind_eq_some_iff.mp validated with ⟨expected, sum, same⟩
    cases same
    refine ⟨rfl, Or.inr ⟨nofun, ⟨rfl, ?_, rfl, exactI64_eq_some sum⟩⟩⟩
    rw [started]
    rfl
  | true =>
    simp only [started, Bool.not_true, Bool.false_eq_true, if_false] at validated
    by_cases equal : messageSeq = v.expectedSeq
    · rw [if_pos equal] at validated
      rcases Option.bind_eq_some_iff.mp validated with ⟨expected, sum, same⟩
      cases same
      refine ⟨rfl, Or.inr ⟨fun _ => equal ▸ le_rfl, ⟨rfl, ?_, rfl, exactI64_eq_some sum⟩⟩⟩
      rw [started, if_pos rfl, equal, sub_self]
      rfl
    · rw [if_neg equal] at validated
      by_cases behind : messageSeq < v.expectedSeq
      · rw [if_pos behind] at validated
        cases validated
        exact ⟨rfl, Or.inl ⟨rfl, Int64.lt_iff_toInt_lt.mp behind, rfl, rfl, rfl⟩⟩
      · rw [if_neg behind] at validated
        rcases Option.bind_eq_some_iff.mp validated with ⟨gap, difference, validated⟩
        rcases Option.bind_eq_some_iff.mp validated with ⟨expected, sum, same⟩
        cases same
        have ahead := not_lt.mp fun less => behind (Int64.lt_iff_toInt_lt.mpr less)
        refine ⟨rfl, Or.inr ⟨fun _ => ahead, ⟨rfl, ?_, rfl, exactI64_eq_some sum⟩⟩⟩
        rw [started, if_pos rfl, exactI64_eq_some difference]

theorem validate_isSome_iff : (v.validate messageSeq crcValid).isSome ↔
    (v.initialized = true → v.expectedSeq.toInt ≤ messageSeq.toInt →
      messageSeq.toInt - v.expectedSeq.toInt < 2 ^ 63) ∧
    ((v.initialized = true → v.expectedSeq.toInt ≤ messageSeq.toInt) →
      messageSeq.toInt + 1 < 2 ^ 63) := by
  have low := messageSeq.le_toInt
  have sum : (exactI64 (messageSeq.toInt + 1)).isSome ↔ messageSeq.toInt + 1 < 2 ^ 63 := by
    rw [exactI64_isSome_iff]
    omega
  have difference (ahead : v.expectedSeq.toInt ≤ messageSeq.toInt) :
      (exactI64 (messageSeq.toInt - v.expectedSeq.toInt)).isSome ↔
        messageSeq.toInt - v.expectedSeq.toInt < 2 ^ 63 := by
    rw [exactI64_isSome_iff]
    omega
  rw [validate]
  cases started : v.initialized with
  | false =>
    rw [Bool.not_false, if_pos rfl, ← sum]
    cases exactI64 (messageSeq.toInt + 1) <;> simp
  | true =>
    rw [Bool.not_true, if_neg Bool.false_ne_true]
    by_cases equal : messageSeq = v.expectedSeq
    · rw [if_pos equal, ← sum]
      cases exactI64 (messageSeq.toInt + 1) <;> simp [equal]
    · rw [if_neg equal]
      by_cases behind : messageSeq < v.expectedSeq
      · rw [if_pos behind]
        have less := Int64.lt_iff_toInt_lt.mp behind
        simp
        omega
      · have ahead := not_lt.mp fun less => behind (Int64.lt_iff_toInt_lt.mpr less)
        rw [if_neg behind, ← sum, forall_prop_of_true rfl, forall_prop_of_true ahead,
          ← difference ahead]
        cases exactI64 (messageSeq.toInt - v.expectedSeq.toInt) <;>
          cases exactI64 (messageSeq.toInt + 1) <;> simp [ahead]

end SafetyValidator

/-- A validator with the messages it has been given and what it said of each, the last one first. -/
structure SafetyLog where
  validator : SafetyValidator
  heard : List (Int64 × IntegrityStatus)
  deriving DecidableEq

namespace SafetyLog

def start (v : SafetyValidator) : SafetyLog := ⟨v, []⟩

def hear (log : SafetyLog) (message : Int64 × Option Bool) : Option SafetyLog := do
  let (status, validator) ← log.validator.validate message.1 message.2
  return ⟨validator, (message.1, status) :: log.heard⟩

def numbers (log : SafetyLog) : List Int := log.heard.map fun message => message.1.toInt

/-- The numbers of the messages that were not called duplicates. -/
def accepted (log : SafetyLog) : List Int :=
  (log.heard.filter fun message => !message.2.duplicate).map fun message => message.1.toInt

def gaps (log : SafetyLog) : Int := (log.heard.map fun message => message.2.gap.toInt).sum

/-- What the validator has said, and what it expects next, against the numbers it was given. -/
structure Exact (log : SafetyLog) : Prop where
  started : log.validator.initialized = true ↔ log.heard ≠ []
  expected : log.heard ≠ [] → IsGreatest {n | n ∈ log.numbers} (log.validator.expectedSeq.toInt - 1)
  duplicate : ∀ message earlier, message :: earlier <:+ log.heard →
    (message.2.duplicate = true ↔ ∃ other ∈ earlier, message.1.toInt ≤ other.1.toInt)
  total : ∀ first, log.numbers.getLast? = some first →
    log.gaps + log.accepted.length = log.validator.expectedSeq.toInt - first
  lost : ∀ first, log.numbers.getLast? = some first →
    log.gaps = (Finset.Ico first log.validator.expectedSeq.toInt \ log.accepted.toFinset).card

/-- `Exact` and that the accepted numbers ascend from the first one. -/
structure Tracks (log : SafetyLog) : Prop where
  started : log.validator.initialized = true ↔ log.heard ≠ []
  expected : log.heard ≠ [] → IsGreatest {n | n ∈ log.numbers} (log.validator.expectedSeq.toInt - 1)
  duplicate : ∀ message earlier, message :: earlier <:+ log.heard →
    (message.2.duplicate = true ↔ ∃ other ∈ earlier, message.1.toInt ≤ other.1.toInt)
  total : ∀ first, log.numbers.getLast? = some first →
    log.gaps + log.accepted.length = log.validator.expectedSeq.toInt - first
  ascends : log.accepted.Pairwise (· > ·)
  within : ∀ first, log.numbers.getLast? = some first →
    ∀ n ∈ log.accepted, first ≤ n ∧ n < log.validator.expectedSeq.toInt

variable {log next : SafetyLog} {message : Int64 × Option Bool}

theorem hear_eq_some (heard : log.hear message = some next) :
    ∃ status, log.validator.validate message.1 message.2 = some (status, next.validator) ∧
      next.heard = (message.1, status) :: log.heard := by
  rcases Option.bind_eq_some_iff.mp heard with ⟨⟨status, validator⟩, validated, same⟩
  cases same
  exact ⟨status, validated, rfl⟩

theorem Tracks.below (tracks : log.Tracks) {n : Int} (member : n ∈ log.numbers) :
    n < log.validator.expectedSeq.toInt := by
  have heard : log.heard ≠ [] := by
    intro none_
    rw [numbers, none_] at member
    exact List.not_mem_nil member
  have most := (tracks.expected heard).2 member
  omega

theorem exists_heard_le_iff {n : Int} :
    (∃ other ∈ log.heard, n ≤ other.1.toInt) ↔ ∃ m ∈ log.numbers, n ≤ m := by
  simp [numbers]

theorem accepted_subset : log.accepted ⊆ log.numbers :=
  List.map_subset _ (List.filter_subset_self _)

theorem last_numbers {n first : Int} (last : (n :: log.numbers).getLast? = some first) :
    (log.heard = [] ∧ first = n) ∨ (log.heard ≠ [] ∧ log.numbers.getLast? = some first) := by
  by_cases none_ : log.heard = []
  · simp [numbers, none_] at last
    exact Or.inl ⟨none_, last.symm⟩
  · rw [List.getLast?_cons_of_ne_nil (by simpa [numbers] using none_)] at last
    exact Or.inr ⟨none_, last⟩

section More

variable {status : IntegrityStatus} (same : next.heard = (message.1, status) :: log.heard)

include same

theorem numbers_more : next.numbers = message.1.toInt :: log.numbers := by simp [numbers, same]

theorem gaps_more : next.gaps = status.gap.toInt + log.gaps := by simp [gaps, same]

theorem Tracks.repeats (tracks : log.Tracks) (started : log.validator.initialized = true)
    (behind : message.1.toInt < log.validator.expectedSeq.toInt) (duplicate : status.duplicate = true)
    (gap : status.gap.toInt = 0) (unmoved : next.validator = log.validator) : next.Tracks := by
  have numbers_ := numbers_more same
  have before := tracks.started.mp started
  have greatest := tracks.expected before
  have accepted_ : next.accepted = log.accepted := by simp [accepted, same, duplicate]
  have first_ : next.numbers.getLast? = log.numbers.getLast? := by
    rw [numbers_, List.getLast?_cons_of_ne_nil]
    simpa [numbers] using before
  constructor
  · rw [unmoved, same]
    simp [started]
  · intro _
    rw [unmoved, numbers_]
    refine ⟨List.mem_cons_of_mem _ greatest.1, ?_⟩
    intro n member
    rcases List.mem_cons.mp member with rfl | member
    · omega
    · exact greatest.2 member
  · intro last earlier suffix
    rw [same] at suffix
    rcases List.suffix_cons_iff.mp suffix with whole | suffix
    · cases whole
      rw [exists_heard_le_iff]
      exact iff_of_true duplicate ⟨_, greatest.1, by dsimp only; omega⟩
    · exact tracks.duplicate last earlier suffix
  · intro first last
    rw [gaps_more same, accepted_, gap, unmoved, zero_add]
    exact tracks.total first (first_ ▸ last)
  · rw [accepted_]
    exact tracks.ascends
  · intro first last
    rw [accepted_, unmoved]
    exact tracks.within first (first_ ▸ last)

theorem Tracks.advances (tracks : log.Tracks) (ahead : log.validator.initialized = true →
      log.validator.expectedSeq.toInt ≤ message.1.toInt)
    (moved : log.validator.Advances message.1 status next.validator) : next.Tracks := by
  have numbers_ := numbers_more same
  have accepted_ : next.accepted = message.1.toInt :: log.accepted := by
    simp [accepted, same, moved.duplicate]
  have above : ∀ n ∈ log.numbers, n < message.1.toInt := by
    intro n member
    have started := tracks.started.mpr (by rintro none_; simp [numbers, none_] at member)
    exact lt_of_lt_of_le (tracks.below member) (ahead started)
  constructor
  · rw [same]
    simp [moved.initialized]
  · intro _
    rw [moved.expected, numbers_, add_sub_cancel_right]
    refine ⟨List.mem_cons_self, ?_⟩
    intro n member
    rcases List.mem_cons.mp member with rfl | member
    · exact le_rfl
    · exact (above n member).le
  · intro last earlier suffix
    rw [same] at suffix
    rcases List.suffix_cons_iff.mp suffix with whole | suffix
    · cases whole
      rw [exists_heard_le_iff]
      refine iff_of_false (by simp [moved.duplicate]) ?_
      rintro ⟨n, member, le⟩
      exact absurd (above n member) (not_lt.mpr le)
    · exact tracks.duplicate last earlier suffix
  · intro first last
    rw [gaps_more same, accepted_, moved.gap, moved.expected, List.length_cons]
    rw [numbers_] at last
    rcases last_numbers last with ⟨none_, rfl⟩ | ⟨before, last⟩
    · have fresh := mt tracks.started.mp (not_not.mpr none_)
      simp [fresh, gaps, accepted, none_]
    · have total := tracks.total first last
      rw [if_pos (tracks.started.mpr before)]
      push_cast
      omega
  · rw [accepted_, List.pairwise_cons]
    exact ⟨fun n member => above n (accepted_subset member), tracks.ascends⟩
  · intro first last n member
    rw [moved.expected]
    rw [numbers_] at last
    rw [accepted_] at member
    rcases last_numbers last with ⟨none_, rfl⟩ | ⟨before, last⟩
    · simp [accepted, none_] at member
      omega
    · have least : first ≤ message.1.toInt := (above first (List.mem_of_getLast? last)).le
      rcases List.mem_cons.mp member with rfl | member
      · omega
      · have inside := tracks.within first last n member
        have more := above n (accepted_subset member)
        omega

end More

theorem Tracks.hear (tracks : log.Tracks) (heard : log.hear message = some next) :
    next.Tracks := by
  rcases hear_eq_some heard with ⟨status, validated, same⟩
  rcases (SafetyValidator.validate_cases validated).2 with
    ⟨started, behind, duplicate, gap, unmoved⟩ | ⟨ahead, moved⟩
  · exact tracks.repeats same started behind duplicate gap unmoved
  · exact tracks.advances same ahead moved

theorem Tracks.lost (tracks : log.Tracks) {first : Int} (last : log.numbers.getLast? = some first) :
    log.gaps = (Finset.Ico first log.validator.expectedSeq.toInt \ log.accepted.toFinset).card := by
  have inside : log.accepted.toFinset ⊆ Finset.Ico first log.validator.expectedSeq.toInt := by
    intro n member
    exact Finset.mem_Ico.mpr (tracks.within first last n (List.mem_toFinset.mp member))
  have distinct : log.accepted.Nodup := tracks.ascends.imp fun greater => greater.ne'
  have most := tracks.below (List.mem_of_getLast? last)
  have total := tracks.total first last
  have fewer := Finset.card_le_card inside
  rw [Finset.card_sdiff_of_subset inside, Int.card_Ico, List.toFinset_card_of_nodup distinct]
  rw [Int.card_Ico, List.toFinset_card_of_nodup distinct] at fewer
  omega

theorem Tracks.exact (tracks : log.Tracks) : log.Exact :=
  ⟨tracks.started, tracks.expected, tracks.duplicate, tracks.total, fun _ => tracks.lost⟩

theorem tracks_start : (start SafetyValidator.new).Tracks := by
  constructor <;> simp [start, SafetyValidator.new, numbers, accepted]

theorem tracks_of_run {messages : List (Int64 × Option Bool)}
    (reached : run hear (start SafetyValidator.new) messages = some log) : log.Tracks :=
  run_invariant (fun _ _ _ tracks heard => tracks.hear heard) _ _ messages tracks_start reached

theorem hear_isSome (log : SafetyLog) (message : Int64 × Option Bool) :
    (log.hear message).isSome = (log.validator.validate message.1 message.2).isSome := by
  rw [hear]
  cases log.validator.validate message.1 message.2 <;> rfl

theorem Tracks.hear_isSome_iff (tracks : log.Tracks) : (log.hear message).isSome ↔
    message.1.toInt + 1 < 2 ^ 63 ∧
      (log.heard ≠ [] → ∃ n ∈ log.numbers, message.1.toInt - n ≤ 2 ^ 63) := by
  have high := log.validator.expectedSeq.toInt_lt
  rw [hear_isSome, SafetyValidator.validate_isSome_iff, tracks.started]
  by_cases before : log.heard = []
  · simp [before]
  · have greatest := tracks.expected before
    have nearest : (∃ n ∈ log.numbers, message.1.toInt - n ≤ 2 ^ 63) ↔
        message.1.toInt - (log.validator.expectedSeq.toInt - 1) ≤ 2 ^ 63 := by
      constructor
      · rintro ⟨n, member, near⟩
        have le := greatest.2 member
        omega
      · intro near
        exact ⟨_, greatest.1, near⟩
    rw [nearest]
    simp only [ne_eq, before, not_false_eq_true, forall_const]
    omega

/-- The messages a log has heard, in the order they came. -/
def messages (log : SafetyLog) : List (Int64 × Option Bool) :=
  (log.heard.map fun heard => (heard.1, heard.2.crcValid)).reverse

theorem messages_hear (heard : log.hear message = some next) :
    next.messages = log.messages ++ [message] := by
  rcases hear_eq_some heard with ⟨status, validated, same⟩
  simp [messages, same, (SafetyValidator.validate_cases validated).1]

theorem messages_of_run {heard : List (Int64 × Option Bool)}
    (reached : run hear log heard = some next) : next.messages = log.messages ++ heard := by
  induction heard generalizing log with
  | nil =>
    cases reached
    exact (List.append_nil _).symm
  | cons message heard ih =>
    rw [run] at reached
    rcases Option.bind_eq_some_iff.mp reached with ⟨mid, first, rest⟩
    rw [ih rest, messages_hear first, List.append_assoc, List.singleton_append]

theorem mem_numbers_iff {n : Int} :
    n ∈ log.numbers ↔ ∃ message ∈ log.messages, message.1.toInt = n := by
  simp [numbers, messages]

theorem heard_eq_nil_iff : log.heard = [] ↔ log.messages = [] := by
  simp [messages]

/-- No message has the largest number, and none is further than `2 ^ 63` ahead of all before it. -/
def InRange (messages : List (Int64 × Option Bool)) : Prop :=
  (∀ message ∈ messages, message.1.toInt ≠ 2 ^ 63 - 1) ∧
  ∀ before message, before ++ [message] <+: messages → before ≠ [] →
    ∃ other ∈ before, message.1.toInt - other.1.toInt ≤ 2 ^ 63

theorem inRange_concat_iff {earlier : List (Int64 × Option Bool)} :
    InRange (earlier ++ [message]) ↔ InRange earlier ∧ message.1.toInt + 1 < 2 ^ 63 ∧
      (earlier ≠ [] → ∃ other ∈ earlier, message.1.toInt - other.1.toInt ≤ 2 ^ 63) := by
  have high := message.1.toInt_lt
  have notLargest : message.1.toInt ≠ 2 ^ 63 - 1 ↔ message.1.toInt + 1 < 2 ^ 63 := by omega
  constructor
  · rintro ⟨bounded, near⟩
    refine ⟨⟨?_, ?_⟩, ?_, near earlier message (List.prefix_refl _)⟩
    · exact fun other member => bounded other (List.mem_append_left _ member)
    · exact fun before other begins => near before other (begins.trans (List.prefix_append _ _))
    · exact notLargest.mp (bounded message (List.mem_append_right _ List.mem_cons_self))
  · rintro ⟨⟨bounded, near⟩, small, last⟩
    refine ⟨?_, ?_⟩
    · intro other member
      rcases List.mem_append.mp member with member | member
      · exact bounded other member
      · rw [List.mem_singleton.mp member]
        exact notLargest.mpr small
    · intro before other begins
      rcases List.prefix_concat_iff.mp begins with whole | begins
      · rcases List.append_inj' whole rfl with ⟨rfl, same⟩
        cases same
        exact last
      · exact near before other begins

theorem run_isSome_iff (messages : List (Int64 × Option Bool)) :
    (run hear (start SafetyValidator.new) messages).isSome ↔ InRange messages := by
  induction messages using List.reverseRecOn with
  | nil => simp [run, InRange]
  | append_singleton earlier message ih =>
    rw [run_concat, inRange_concat_iff, ← ih]
    cases reached : run hear (start SafetyValidator.new) earlier with
    | none => simp
    | some log =>
      have heard : log.messages = earlier := messages_of_run reached
      have step : (log.hear message).isSome ↔ _ := (tracks_of_run reached).hear_isSome_iff
      rw [ne_eq, heard_eq_nil_iff, heard] at step
      simpa [mem_numbers_iff, heard] using step

/-- The accounting of the sequence numbers is exact. -/
theorem accounts_exactly (started : SafetyValidator) (messages : List (Int64 × Option Bool))
    (begins : started = SafetyValidator.new ∨ ∃ used : SafetyValidator, started = used.reset)
    (range : ∀ message ∈ messages, 0 ≤ message.1.toInt ∧ message.1.toInt ≤ 2 ^ 63 - 2) :
    ∃ log, run hear (start started) messages = some log ∧ log.messages = messages ∧ log.Exact := by
  have fresh : started = SafetyValidator.new := by
    rcases begins with fresh | ⟨used, fresh⟩
    · exact fresh
    · rw [fresh, SafetyValidator.reset_eq_new]
  have inRange : InRange messages := by
    refine ⟨fun message member => ?_, fun before message prefix_ some_ => ?_⟩
    · have := range message member
      omega
    · rcases List.exists_mem_of_ne_nil before some_ with ⟨other, member⟩
      have least := range other (prefix_.subset (List.mem_append_left _ member))
      have high := message.1.toInt_lt
      exact ⟨other, member, by omega⟩
  rcases Option.isSome_iff_exists.mp ((run_isSome_iff messages).mpr inRange) with ⟨log, reached⟩
  rw [fresh]
  exact ⟨log, reached, messages_of_run reached, (tracks_of_run reached).exact⟩

/-- Numbers 5, 8, 6, 8, 9: two are lost and two are behind. -/
theorem accounts_exactly_five :
    (∀ message ∈ [((5 : Int64), (none : Option Bool)), (8, some true), (6, none), (8, none),
        (9, none)], 0 ≤ message.1.toInt ∧ message.1.toInt ≤ 2 ^ 63 - 2) ∧
      ∃ log, run hear (start SafetyValidator.new)
        [(5, none), (8, some true), (6, none), (8, none), (9, none)] = some log ∧
        log.messages = [(5, none), (8, some true), (6, none), (8, none), (9, none)] ∧
        log.Exact := by
  have small : ∀ message ∈ [((5 : Int64), (none : Option Bool)), (8, some true), (6, none),
      (8, none), (9, none)], 0 ≤ message.1.toInt ∧ message.1.toInt ≤ 2 ^ 63 - 2 := by
    simp
  exact ⟨small, accounts_exactly SafetyValidator.new _ (Or.inl rfl) small⟩

/-- The arithmetic stays within `i64` in exactly these sequences. -/
theorem never_overflows_iff (started : SafetyValidator) (messages : List (Int64 × Option Bool)) :
    (run hear (start started.reset) messages).isSome ↔
      (∀ message ∈ messages, message.1.toInt ≠ 2 ^ 63 - 1) ∧
      ∀ before message, before ++ [message] <+: messages → before ≠ [] →
        ∃ other ∈ before, message.1.toInt - other.1.toInt ≤ 2 ^ 63 :=
  run_isSome_iff messages

/-- A first message with the largest number, and a number far ahead of a negative one. -/
theorem never_overflows_fails :
    run hear (start SafetyValidator.new) [(Int64.ofInt (2 ^ 63 - 1), none)] = none ∧
      run hear (start SafetyValidator.new) [(-5, none), (Int64.ofInt (2 ^ 63 - 2), none)] = none :=
  by decide

end SafetyLog

end NanoRos
