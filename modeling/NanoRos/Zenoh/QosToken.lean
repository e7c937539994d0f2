import Mathlib.Algebra.Order.Floor.Div
import NanoRos.Zenoh.Liveliness

/-! The QoS chunk of a liveliness token, read back. -/

namespace NanoRos.Zenoh

inductive QoSLivelinessPolicy where
  | none
  | automatic
  | manualByNode
  | manualByTopic
  | unknown
  | bestAvailable
  deriving DecidableEq

/-- A profile with the fields that a token can state beside the encoded ones. -/
structure FullProfile extends QoSProfile where
  livelinessKind : QoSLivelinessPolicy
  deadlineMs : UInt32
  lifespanMs : UInt32
  livelinessLeaseMs : UInt32
  avoidRosNamespaceConventions : Bool
  txExpress : Bool

def durationInfiniteMs : UInt32 := 4294967295
def durationBestAvailableMs : UInt32 := durationInfiniteMs - 1

def qosProfileUnknown : FullProfile where
  reliability := .unknown
  durability := .unknown
  history := .unknown
  depth := 0
  livelinessKind := .unknown
  deadlineMs := 0
  lifespanMs := 0
  livelinessLeaseMs := 0
  avoidRosNamespaceConventions := false
  txExpress := false

/-- `str::parse::<u64>`. -/
def parseU64 (s : Text) : Option UInt64 :=
  let digits := unsigned s
  let value := Nat.ofDigitChars 10 digits 0
  if digits ≠ [] ∧ digits.all Char.isDigit ∧ value < 2 ^ 64 then some (UInt64.ofNat value)
  else none

/-- `str::split_once`. -/
def splitOnce (sep : Char) (s : Text) : Option (Text × Text) :=
  match s.dropWhile (· ≠ sep) with
  | [] => none
  | _ :: after => some (s.takeWhile (· ≠ sep), after)

def num (f : Text) : Option (Option UInt64) := if f = [] then some none else (parseU64 f).map some

/-- `u128::div_ceil`. -/
def divCeil (a b : BitVec 128) : BitVec 128 := if a % b = 0 then a / b else a / b + 1

/-- The sum of `window_ms`, in 128 bits. -/
def millis (sec nsec : UInt64) : BitVec 128 :=
  sec.toBitVec.setWidth 128 * 1000 + divCeil (nsec.toBitVec.setWidth 128) 1000000

def windowMs (sec nsec : UInt64) (empty : Bool) : UInt32 :=
  if empty then durationInfiniteMs
  else if sec = 0 ∧ nsec = 0 then 0
  else
    let ms := millis sec nsec
    if durationBestAvailableMs.toBitVec.setWidth 128 ≤ ms then durationInfiniteMs
    else UInt32.ofBitVec (ms.setWidth 32)

def window (f : Text) : Option UInt32 :=
  match f.splitOn ',' with
  | [sec, nsec] => do
    let sec ← num sec
    let nsec ← num nsec
    some (windowMs (sec.getD 0) (nsec.getD 0) (sec.isNone && nsec.isNone))
  | _ => none

def reliabilityOf : Option Nat → QoSReliabilityPolicy
  | none | some 1 => .reliable
  | some 0 => .systemDefault
  | some 2 => .bestEffort
  | some _ => .unknown

def durabilityOf : Option Nat → QoSDurabilityPolicy
  | none | some 2 => .volatile
  | some 0 => .systemDefault
  | some 1 => .transientLocal
  | some _ => .unknown

def historyOf : Option Nat → QoSHistoryPolicy
  | none | some 1 => .keepLast
  | some 0 => .systemDefault
  | some 2 => .keepAll
  | some _ => .unknown

def livelinessOf : Option Nat → QoSLivelinessPolicy
  | none | some 1 => .automatic
  | some 0 => .none
  | some 2 => .manualByNode
  | some 3 => .manualByTopic
  | some _ => .unknown

def depthOf : Option UInt64 → Option UInt32
  | none => some (UInt32.ofNat upstreamDefaultDepth)
  | some d => if d.toNat < 2 ^ 32 then some d.toUInt32 else none

def parseQos (s : Text) : Option FullProfile :=
  match s.splitOn ':' with
  | [rel, dur, hist, deadline, lifespan, liv] => do
    let rel ← num rel
    let dur ← num dur
    let (h, depth) ← splitOnce ',' hist
    let h ← num h
    let depth ← num depth
    let depth ← depthOf depth
    let deadlineMs ← window deadline
    let lifespanMs ← window lifespan
    let (kind, lease) ← splitOnce ',' liv
    let kind ← num kind
    let leaseMs ← window lease
    some { qosProfileUnknown with
      reliability := reliabilityOf (rel.map UInt64.toNat)
      durability := durabilityOf (dur.map UInt64.toNat)
      history := historyOf (h.map UInt64.toNat)
      depth := depth
      deadlineMs := deadlineMs
      lifespanMs := lifespanMs
      livelinessKind := livelinessOf (kind.map UInt64.toNat)
      livelinessLeaseMs := leaseMs
      avoidRosNamespaceConventions := false }
  | _ => none

def qosFromKeyexpr (s : Text) : FullProfile := (parseQos s).getD qosProfileUnknown

/-! ### The windows -/

theorem divCeil_million (nsec : UInt64) :
    (divCeil (nsec.toBitVec.setWidth 128) 1000000).toNat = nsec.toNat ⌈/⌉ 1000000 := by
  have small := nsec.toNat_lt
  have wide : (nsec.toBitVec.setWidth 128).toNat = nsec.toNat := by
    rw [BitVec.toNat_setWidth, UInt64.toNat_toBitVec, Nat.mod_eq_of_lt (by omega)]
  have quotient : (nsec.toBitVec.setWidth 128 / 1000000).toNat = nsec.toNat / 1000000 := by
    rw [BitVec.toNat_udiv, wide]
    rfl
  have remainder : (nsec.toBitVec.setWidth 128 % 1000000).toNat = nsec.toNat % 1000000 := by
    rw [BitVec.toNat_umod, wide]
    rfl
  rw [divCeil, Nat.ceilDiv_eq_add_pred_div]
  split
  case isTrue even =>
    have none : nsec.toNat % 1000000 = 0 := by rw [← remainder, even]; rfl
    rw [quotient]
    omega
  case isFalse odd =>
    have some_ : nsec.toNat % 1000000 ≠ 0 := by
      intro none
      exact odd (BitVec.eq_of_toNat_eq (remainder.trans none))
    have one : (1 : BitVec 128).toNat = 1 := rfl
    rw [BitVec.toNat_add, quotient, one]
    omega

theorem millis_toNat (sec nsec : UInt64) :
    (millis sec nsec).toNat = sec.toNat * 1000 + nsec.toNat ⌈/⌉ 1000000 := by
  have small := sec.toNat_lt
  have smallToo := nsec.toNat_lt
  have wide : (sec.toBitVec.setWidth 128).toNat = sec.toNat := by
    rw [BitVec.toNat_setWidth, UInt64.toNat_toBitVec, Nat.mod_eq_of_lt (by omega)]
  have thousand : (1000 : BitVec 128).toNat = 1000 := rfl
  have ceiling : nsec.toNat ⌈/⌉ 1000000 ≤ nsec.toNat := by
    rw [Nat.ceilDiv_eq_add_pred_div]
    omega
  rw [millis, BitVec.toNat_add, BitVec.toNat_mul, wide, divCeil_million, thousand]
  rw [Nat.mod_eq_of_lt (a := sec.toNat * 1000) (by omega), Nat.mod_eq_of_lt (by omega)]

/-- The milliseconds of a window, rounded up. -/
def ceilMs (sec nsec : UInt64) : Nat := (sec.toNat * 1000000000 + nsec.toNat) ⌈/⌉ 1000000

theorem millis_eq_ceilMs (sec nsec : UInt64) : (millis sec nsec).toNat = ceilMs sec nsec := by
  rw [millis_toNat, ceilMs, Nat.ceilDiv_eq_add_pred_div, Nat.ceilDiv_eq_add_pred_div]
  omega

/-- What a window comes to: an unstated one and one that is too large are infinite. -/
def windowOf (sec nsec : Option UInt64) : Nat :=
  if sec = none ∧ nsec = none ∨ durationBestAvailableMs.toNat ≤ ceilMs (sec.getD 0) (nsec.getD 0)
  then durationInfiniteMs.toNat
  else ceilMs (sec.getD 0) (nsec.getD 0)

theorem windowMs_toNat (sec nsec : Option UInt64) :
    (windowMs (sec.getD 0) (nsec.getD 0) (sec.isNone && nsec.isNone)).toNat =
      windowOf sec nsec := by
  have limit : (durationBestAvailableMs.toBitVec.setWidth 128).toNat =
      durationBestAvailableMs.toNat := rfl
  have bound : durationBestAvailableMs.toNat < 2 ^ 32 := by decide
  have reach : durationBestAvailableMs.toBitVec.setWidth 128 ≤ millis (sec.getD 0) (nsec.getD 0) ↔
      durationBestAvailableMs.toNat ≤ ceilMs (sec.getD 0) (nsec.getD 0) := by
    rw [BitVec.le_def, limit, millis_eq_ceilMs]
  rw [windowMs, windowOf]
  by_cases empty : sec = none ∧ nsec = none
  · rw [if_pos (by simp [empty]), if_pos (Or.inl empty)]
  · have stated : ¬ (sec.isNone && nsec.isNone) = true := by simpa using empty
    rw [if_neg stated]
    by_cases large : durationBestAvailableMs.toNat ≤ ceilMs (sec.getD 0) (nsec.getD 0)
    · have more : ¬ (sec.getD 0 = 0 ∧ nsec.getD 0 = 0) := by
        rintro ⟨noSec, noNsec⟩
        rw [noSec, noNsec] at large
        exact absurd large (by decide)
      rw [if_neg more, if_pos (Or.inr large)]
      simp only [reach, large, if_true]
    · rw [if_neg (not_or.mpr ⟨empty, large⟩)]
      split
      case isTrue zero =>
        rw [zero.1, zero.2]
        decide
      case isFalse =>
        simp only [reach, large, if_false]
        change ((millis (sec.getD 0) (nsec.getD 0)).setWidth 32).toNat = _
        rw [BitVec.toNat_setWidth, millis_eq_ceilMs, Nat.mod_eq_of_lt (by omega)]

/-- The text of a window, and the milliseconds it comes to. -/
def StatesWindow (f : Text) (ms : UInt32) : Prop :=
  ∃ s n sec nsec, f.splitOn ',' = [s, n] ∧ num s = some sec ∧ num n = some nsec ∧
    ms.toNat = windowOf sec nsec

theorem states_of_window {f : Text} {ms : UInt32} (read : window f = some ms) :
    StatesWindow f ms := by
  rw [window] at read
  split at read
  case h_1 s n chunks =>
    obtain ⟨sec, first, read⟩ := Option.bind_eq_some_iff.mp read
    obtain ⟨nsec, second, read⟩ := Option.bind_eq_some_iff.mp read
    cases read
    exact ⟨s, n, sec, nsec, chunks, first, second, windowMs_toNat sec nsec⟩
  case h_2 => cases read

theorem splitOnce_eq_some {sep : Char} {s before after : Text}
    (cut : splitOnce sep s = some (before, after)) : s = before ++ sep :: after := by
  rw [splitOnce] at cut
  split at cut
  case h_1 => cases cut
  case h_2 c rest found =>
    cases cut
    have here : decide (c ≠ sep) = false := by
      have first := List.head?_dropWhile_not (fun c => decide (c ≠ sep)) s
      rw [found] at first
      simpa using first
    rw [decide_eq_false_iff_not, not_not] at here
    subst here
    rw [← found]
    exact (List.takeWhile_append_dropWhile).symm

theorem splitOnce_append {sep : Char} {before : Text} (apart : sep ∉ before) (after : Text) :
    splitOnce sep (before ++ sep :: after) = some (before, after) := by
  have plain : ∀ c ∈ before, decide (c ≠ sep) = true := by
    intro c member
    exact decide_eq_true fun same => apart (same ▸ member)
  rw [splitOnce, List.dropWhile_append_of_pos plain, List.takeWhile_append_of_pos plain,
    List.dropWhile_cons_of_neg (by simp), List.takeWhile_cons_of_neg (by simp), List.append_nil]

theorem qosFromKeyexpr_cases (s : Text) :
    qosFromKeyexpr s = qosProfileUnknown ∨ ∃ rel dur hist deadline lifespan kind lease,
        s.splitOn ':' = [rel, dur, hist, deadline, lifespan, kind ++ ',' :: lease] ∧
          StatesWindow deadline (qosFromKeyexpr s).deadlineMs ∧
          StatesWindow lifespan (qosFromKeyexpr s).lifespanMs ∧
          StatesWindow lease (qosFromKeyexpr s).livelinessLeaseMs := by
  rw [qosFromKeyexpr]
  cases parsed : parseQos s with
  | none => exact .inl rfl
  | some q =>
    apply Or.inr
    rw [parseQos] at parsed
    split at parsed
    case h_1 rel dur hist deadline lifespan liv chunks =>
      obtain ⟨_, _, parsed⟩ := Option.bind_eq_some_iff.mp parsed
      obtain ⟨_, _, parsed⟩ := Option.bind_eq_some_iff.mp parsed
      obtain ⟨⟨_, _⟩, _, parsed⟩ := Option.bind_eq_some_iff.mp parsed
      obtain ⟨_, _, parsed⟩ := Option.bind_eq_some_iff.mp parsed
      obtain ⟨_, _, parsed⟩ := Option.bind_eq_some_iff.mp parsed
      obtain ⟨_, _, parsed⟩ := Option.bind_eq_some_iff.mp parsed
      obtain ⟨_, first, parsed⟩ := Option.bind_eq_some_iff.mp parsed
      obtain ⟨_, second, parsed⟩ := Option.bind_eq_some_iff.mp parsed
      obtain ⟨⟨kind, lease⟩, cut, parsed⟩ := Option.bind_eq_some_iff.mp parsed
      obtain ⟨_, _, parsed⟩ := Option.bind_eq_some_iff.mp parsed
      obtain ⟨_, third, parsed⟩ := Option.bind_eq_some_iff.mp parsed
      cases parsed
      refine ⟨rel, dur, hist, deadline, lifespan, kind, lease, ?_, states_of_window first,
        states_of_window second, states_of_window third⟩
      rw [chunks, splitOnce_eq_some cut]
    case h_2 => cases parsed

/-! ### What the encoder writes -/

theorem parseU64_decimal {n : Nat} (small : n < 2 ^ 64) :
    parseU64 (decimal n) = some (UInt64.ofNat n) := by
  have digits : ∀ c ∈ decimal n, c.isDigit = true := fun _ => isDigit_of_mem_decimal
  have stated : decimal n ≠ [] := Nat.toDigits_ne_nil
  have value : Nat.ofDigitChars 10 (decimal n) 0 = n := Nat.ofDigitChars_ten_toDigits
  rw [parseU64, unsigned_of_digits digits, value]
  exact if_pos ⟨stated, List.all_eq_true.mpr digits, small⟩

/-- A field that is left out reads as unstated. -/
def statedNumber (v default : Nat) : Option UInt64 :=
  if v ≠ default then some (UInt64.ofNat v) else none

theorem num_unlessDefault {v : Nat} (default : Nat) (small : v < 2 ^ 64) :
    num (unlessDefault v default) = some (statedNumber v default) := by
  rw [unlessDefault, statedNumber]
  split
  · have stated : decimal v ≠ [] := Nat.toDigits_ne_nil
    rw [num, if_neg stated, parseU64_decimal small, Option.map_some]
  · rfl

theorem notMem_unlessDefault {c : Char} (plain : c.isDigit = false) (v default : Nat) :
    c ∉ unlessDefault v default := by
  rw [unlessDefault]
  split
  · intro member
    rw [isDigit_of_mem_decimal member] at plain
    cases plain
  · exact List.not_mem_nil

/-- The policies that a token can state; a sentinel reads as the system's default. -/
def QoSProfile.stated (qos : QoSProfile) : QoSProfile where
  reliability :=
    if qos.reliability = .unknown ∨ qos.reliability = .bestAvailable then .systemDefault
    else qos.reliability
  durability :=
    if qos.durability = .unknown ∨ qos.durability = .bestAvailable then .systemDefault
    else qos.durability
  history := if qos.history = .unknown then .systemDefault else qos.history
  depth := qos.depth

def QoSProfile.granted (qos : QoSProfile) : FullProfile :=
  { qos.stated with
    livelinessKind := .automatic
    deadlineMs := durationInfiniteMs
    lifespanMs := durationInfiniteMs
    livelinessLeaseMs := durationInfiniteMs
    avoidRosNamespaceConventions := false
    txExpress := false }

section

variable (qos : QoSProfile)

theorem reliabilityOf_stated :
    reliabilityOf ((statedNumber (reliabilityDigit qos.reliability)
      upstreamDefaultReliability).map UInt64.toNat) = qos.stated.reliability := by
  rw [QoSProfile.stated]
  cases qos.reliability <;> rfl

theorem durabilityOf_stated :
    durabilityOf ((statedNumber (durabilityDigit qos.durability)
      upstreamDefaultDurability).map UInt64.toNat) = qos.stated.durability := by
  rw [QoSProfile.stated]
  cases qos.durability <;> rfl

theorem historyOf_stated :
    historyOf ((statedNumber (historyDigit qos.history)
      upstreamDefaultHistory).map UInt64.toNat) = qos.stated.history := by
  rw [QoSProfile.stated]
  cases qos.history <;> rfl

theorem depthOf_stated (depth : UInt32) :
    depthOf (statedNumber depth.toNat upstreamDefaultDepth) = some depth := by
  have small := depth.toNat_lt
  rw [statedNumber]
  split
  case isTrue =>
    have value : (UInt64.ofNat depth.toNat).toNat = depth.toNat := by
      rw [UInt64.toNat_ofNat', Nat.mod_eq_of_lt (by omega)]
    rw [depthOf, value, if_pos small]
    apply congrArg some
    apply UInt32.toNat_inj.mp
    rw [UInt64.toNat_toUInt32, value, Nat.mod_eq_of_lt small]
  case isFalse same =>
    rw [not_not] at same
    rw [depthOf, ← same, UInt32.ofNat_toNat]

theorem splitOn_qosText : (qosText qos).splitOn ':' =
      [unlessDefault (reliabilityDigit qos.reliability) upstreamDefaultReliability,
        unlessDefault (durabilityDigit qos.durability) upstreamDefaultDurability,
        unlessDefault (historyDigit qos.history) upstreamDefaultHistory ++ ',' ::
          unlessDefault qos.depth.toNat upstreamDefaultDepth,
        ",".toList, ",".toList, ",,".toList] := by
  have plain := notMem_unlessDefault (c := ':') rfl
  have spread : qosText qos =
      unlessDefault (reliabilityDigit qos.reliability) upstreamDefaultReliability ++ ':' ::
        (unlessDefault (durabilityDigit qos.durability) upstreamDefaultDurability ++ ':' ::
          ((unlessDefault (historyDigit qos.history) upstreamDefaultHistory ++ ',' ::
            unlessDefault qos.depth.toNat upstreamDefaultDepth) ++ ':' :: ",:,:,,".toList)) := by
    simp only [qosText, List.append_assoc, List.cons_append, List.nil_append]
    rfl
  have third : ':' ∉ unlessDefault (historyDigit qos.history) upstreamDefaultHistory ++ ',' ::
      unlessDefault qos.depth.toNat upstreamDefaultDepth := by
    simp [plain]
  rw [spread, List.splitOn_append_cons_self_of_not_mem (plain _ _),
    List.splitOn_append_cons_self_of_not_mem (plain _ _),
    List.splitOn_append_cons_self_of_not_mem third]
  rfl

theorem parseQos_qosText : parseQos (qosText qos) = some qos.granted := by
  have digit : ∀ {v : Nat}, v < 10 ^ 1 → v < 2 ^ 64 := fun small => by omega
  have depth : qos.depth.toNat < 2 ^ 64 := by
    have small := qos.depth.toNat_lt
    omega
  have infinite : window ",".toList = some durationInfiniteMs := by decide
  have automatic : splitOnce ',' ",,".toList = some ([], ",".toList) := by decide
  have unstated : num [] = some none := rfl
  rw [parseQos, splitOn_qosText]
  simp only [num_unlessDefault _ (digit (reliabilityDigit_lt _)),
    num_unlessDefault _ (digit (durabilityDigit_lt _)),
    num_unlessDefault _ (digit (historyDigit_lt _)), num_unlessDefault _ depth,
    Option.bind_eq_bind, Option.bind_some, splitOnce_append (notMem_unlessDefault (c := ',') rfl _ _), depthOf_stated, infinite,
    automatic, unstated, reliabilityOf_stated, durabilityOf_stated, historyOf_stated]
  rfl

end

/-- Neither a read-back sentinel nor a request. -/
structure QoSProfile.Concrete (qos : QoSProfile) : Prop where
  reliability : qos.reliability ≠ .unknown ∧ qos.reliability ≠ .bestAvailable
  durability : qos.durability ≠ .unknown ∧ qos.durability ≠ .bestAvailable
  history : qos.history ≠ .unknown

theorem QoSProfile.Concrete.stated_eq {qos : QoSProfile} (concrete : qos.Concrete) :
    qos.stated = qos := by
  rw [stated, if_neg (not_or.mpr concrete.reliability), if_neg (not_or.mpr concrete.durability),
    if_neg concrete.history]

theorem qosText_stated (qos : QoSProfile) : qosText qos.stated = qosText qos := by
  have reliability : reliabilityDigit qos.stated.reliability = reliabilityDigit qos.reliability := by
    rw [QoSProfile.stated]
    cases qos.reliability <;> rfl
  have durability : durabilityDigit qos.stated.durability = durabilityDigit qos.durability := by
    rw [QoSProfile.stated]
    cases qos.durability <;> rfl
  have history : historyDigit qos.stated.history = historyDigit qos.history := by
    rw [QoSProfile.stated]
    cases qos.history <;> rfl
  rw [qosText, qosText, reliability, durability, history]
  rfl

theorem qosFromKeyexpr_toQosString {N : Nat} (room : 23 ≤ N) (qos : QoSProfile) :
    qosFromKeyexpr (toQosString N qos).text = qos.granted := by
  rw [toQosString_text qos room, qosFromKeyexpr, parseQos_qosText, Option.getD_some]

/-- A chunk decodes to what was encoded and encodes to itself again, and any text is read as the
unknown profile or one with the windows it states, the sum in 128 bits being exact. The longest
chunk has 23 bytes; every buffer it is written to has 32. -/
theorem qosToken_roundTrip {N : Nat} (room : 23 ≤ N) : (∀ qos : FullProfile, qos.Concrete →
      let read := qosFromKeyexpr (toQosString N qos.toQoSProfile).text
      read.reliability = qos.reliability ∧ read.durability = qos.durability ∧
        read.history = qos.history ∧ read.depth = qos.depth ∧
        read.livelinessKind = .automatic ∧ read.deadlineMs = durationInfiniteMs ∧
        read.lifespanMs = durationInfiniteMs ∧ read.livelinessLeaseMs = durationInfiniteMs) ∧
      (∀ s : FixedString N, (∃ qos, toQosString N qos = s) →
        toQosString N (qosFromKeyexpr s.text).toQoSProfile = s) ∧
      (∀ s : Text, qosFromKeyexpr s = qosProfileUnknown ∨
        ∃ rel dur hist deadline lifespan kind lease,
          s.splitOn ':' = [rel, dur, hist, deadline, lifespan, kind ++ ',' :: lease] ∧
            StatesWindow deadline (qosFromKeyexpr s).deadlineMs ∧
            StatesWindow lifespan (qosFromKeyexpr s).lifespanMs ∧
            StatesWindow lease (qosFromKeyexpr s).livelinessLeaseMs) ∧
      ∀ sec nsec : UInt64, (millis sec nsec).toNat = sec.toNat * 1000 + nsec.toNat ⌈/⌉ 1000000 := by
  refine ⟨?_, ?_, qosFromKeyexpr_cases, millis_toNat⟩
  · intro qos concrete
    rw [qosFromKeyexpr_toQosString room, QoSProfile.granted, concrete.stated_eq]
    exact ⟨rfl, rfl, rfl, rfl, rfl, rfl, rfl, rfl⟩
  · rintro s ⟨qos, rfl⟩
    apply FixedString.ext_text
    rw [qosFromKeyexpr_toQosString room, toQosString_text _ room, toQosString_text _ room]
    exact qosText_stated qos

def qosProfileSensor : FullProfile where
  reliability := .bestEffort
  durability := .volatile
  history := .keepLast
  depth := 5
  livelinessKind := .none
  deadlineMs := 0
  lifespanMs := 0
  livelinessLeaseMs := 0
  avoidRosNamespaceConventions := false
  txExpress := false

theorem qosToken_roundTrip_sensor :
    (qosFromKeyexpr (toQosString 32 qosProfileSensor.toQoSProfile).text).reliability = .bestEffort ∧
      toQosString 32 (qosFromKeyexpr
        (toQosString 32 qosProfileSensor.toQoSProfile).text).toQoSProfile =
          toQosString 32 qosProfileSensor.toQoSProfile := by
  obtain ⟨decodes, encodes, _⟩ := qosToken_roundTrip (N := 32) (by decide)
  have concrete : qosProfileSensor.Concrete := ⟨by decide, by decide, by decide⟩
  exact ⟨(decodes qosProfileSensor concrete).1, encodes _ ⟨_, rfl⟩⟩

end NanoRos.Zenoh
