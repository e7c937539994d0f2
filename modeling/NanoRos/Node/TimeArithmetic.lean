import NanoRos.Node.ActionCore

/-! Sums and differences of `Time` and `Duration` (`time.rs`). -/

namespace NanoRos

def nanosPerSec : Int64 := 1000000000

structure Duration where
  sec : Int32
  nanosec : UInt32
  deriving DecidableEq, Repr

namespace Time

/-- The remainder is cast to `u32` with its sign. -/
def fromNanos (nanos : Int64) : Time :=
  ⟨(nanos / nanosPerSec).toInt32, UInt32.ofInt (nanos % nanosPerSec).toInt⟩

def toNanos (t : Time) : Int64 := t.sec.toInt64 * nanosPerSec + Int64.ofNat t.nanosec.toNat

end Time

namespace Duration

/-- Of the remainder the absolute value is cast. -/
def fromNanos (nanos : Int64) : Duration :=
  ⟨(nanos / nanosPerSec).toInt32, UInt32.ofNat (nanos % nanosPerSec).toInt.natAbs⟩

def toNanos (d : Duration) : Int64 := d.sec.toInt64 * nanosPerSec + Int64.ofNat d.nanosec.toNat

instance : Add Duration := ⟨fun d rhs => fromNanos (d.toNanos + rhs.toNanos)⟩

instance : Sub Duration := ⟨fun d rhs => fromNanos (d.toNanos - rhs.toNanos)⟩

end Duration

instance : HAdd Time Duration Time := ⟨fun t rhs => Time.fromNanos (t.toNanos + rhs.toNanos)⟩

instance : HSub Time Duration Time := ⟨fun t rhs => Time.fromNanos (t.toNanos - rhs.toNanos)⟩

instance : HSub Time Time Duration := ⟨fun t rhs => Duration.fromNanos (t.toNanos - rhs.toNanos)⟩

/-- The nanoseconds that `sec` and `nanosec` stand for. -/
def nanosOf (sec : Int32) (nanosec : UInt32) : Int := sec.toInt * 10 ^ 9 + nanosec.toNat

def Time.nanos (t : Time) : Int := nanosOf t.sec t.nanosec

def Duration.nanos (d : Duration) : Int := nanosOf d.sec d.nanosec

def Time.Normalised (t : Time) : Prop := t.nanosec.toNat < 10 ^ 9

def Duration.Normalised (d : Duration) : Prop := d.nanosec.toNat < 10 ^ 9

instance (t : Time) : Decidable t.Normalised := inferInstanceAs (Decidable (_ < _))

instance (d : Duration) : Decidable d.Normalised := inferInstanceAs (Decidable (_ < _))

/-- The seconds of `n` nanoseconds, rounded down, are an `i32`. -/
def InSeconds (n : Int) : Prop := -2 ^ 31 * 10 ^ 9 ≤ n ∧ n < 2 ^ 31 * 10 ^ 9

instance (n : Int) : Decidable (InSeconds n) := inferInstanceAs (Decidable (_ ∧ _))

/-- There is nothing below a second for the truncation to take away from a negative number. -/
def Unborrowed (n : Int) : Prop := 0 ≤ n ∨ (10 ^ 9 : Int) ∣ n

instance (n : Int) : Decidable (Unborrowed n) := inferInstanceAs (Decidable (_ ∨ _))

theorem nanosOf_bounds (sec : Int32) (nanosec : UInt32) :
    -2 ^ 31 * 10 ^ 9 ≤ nanosOf sec nanosec ∧ nanosOf sec nanosec < 2 ^ 31 * 10 ^ 9 + 2 ^ 32 := by
  have low := sec.le_toInt
  have high := sec.toInt_lt
  have small := nanosec.toNat_lt
  rw [nanosOf]
  omega

theorem toNanos_toInt (sec : Int32) (nanosec : UInt32) :
    (sec.toInt64 * nanosPerSec + Int64.ofNat nanosec.toNat).toInt = nanosOf sec nanosec := by
  have low := sec.le_toInt
  have high := sec.toInt_lt
  have small := nanosec.toNat_lt
  have unit : nanosPerSec.toInt = 10 ^ 9 := rfl
  have whole : (sec.toInt64 * nanosPerSec).toInt = sec.toInt * 10 ^ 9 := by
    rw [Int64.toInt_mul, Int32.toInt_toInt64, unit]
    exact Int.bmod_eq_of_le (by omega) (by omega)
  rw [Int64.toInt_add, whole, Int64.toInt_ofNat_of_lt (by omega), nanosOf]
  exact Int.bmod_eq_of_le (by omega) (by omega)

@[simp] theorem Time.toNanos_toInt (t : Time) : t.toNanos.toInt = t.nanos :=
  NanoRos.toNanos_toInt t.sec t.nanosec

@[simp] theorem Duration.toNanos_toInt (d : Duration) : d.toNanos.toInt = d.nanos :=
  NanoRos.toNanos_toInt d.sec d.nanosec

theorem add_toInt {x y : Int64} (first : -2 ^ 62 ≤ x.toInt ∧ x.toInt < 2 ^ 62)
    (second : -2 ^ 62 ≤ y.toInt ∧ y.toInt < 2 ^ 62) :
    (x + y).toInt = x.toInt + y.toInt ∧ (x - y).toInt = x.toInt - y.toInt := by
  rw [Int64.toInt_add, Int64.toInt_sub]
  exact ⟨Int.bmod_eq_of_le (by omega) (by omega), Int.bmod_eq_of_le (by omega) (by omega)⟩

theorem tdiv_of_unborrowed {n : Int} (whole : Unborrowed n) :
    n.tdiv (10 ^ 9) = n / 10 ^ 9 ∧ n.tmod (10 ^ 9) = n % 10 ^ 9 := by
  have same : 0 ≤ n ∨ (10 ^ 9 : Int) ∣ n := whole
  simp only [Int.tdiv_eq_ediv, Int.tmod_eq_emod, if_pos same]
  omega

theorem tdiv_of_borrowed {n : Int} (part : ¬ Unborrowed n) :
    n.tdiv (10 ^ 9) = n / 10 ^ 9 + 1 ∧ n.tmod (10 ^ 9) = n % 10 ^ 9 - 10 ^ 9 ∧
      n < 0 ∧ 0 < n % 10 ^ 9 := by
  have same : ¬ (0 ≤ n ∨ (10 ^ 9 : Int) ∣ n) := part
  simp only [Int.tdiv_eq_ediv, Int.tmod_eq_emod, if_neg same]
  exact ⟨rfl, rfl, by omega, by omega⟩

variable {n : Int64}

theorem sec_toInt (fits : InSeconds n.toInt) :
    (n / nanosPerSec).toInt32.toInt = n.toInt.tdiv (10 ^ 9) := by
  have unit : nanosPerSec.toInt = 10 ^ 9 := rfl
  rw [Int64.toInt_toInt32, Int64.toInt_div_of_ne_right _ _ (by decide), unit]
  rw [InSeconds] at fits
  by_cases whole : Unborrowed n.toInt
  · rw [(tdiv_of_unborrowed whole).1]
    exact Int.bmod_eq_of_le (by omega) (by omega)
  · have negative := (tdiv_of_borrowed whole).2.2.1
    rw [(tdiv_of_borrowed whole).1]
    exact Int.bmod_eq_of_le (by omega) (by omega)

theorem rem_toInt (n : Int64) : (n % nanosPerSec).toInt = n.toInt.tmod (10 ^ 9) :=
  Int64.toInt_mod n nanosPerSec

/-- A time is split off exactly where nothing is borrowed; elsewhere its nanoseconds have wrapped
around. -/
theorem Time.fromNanos_exact_iff (fits : InSeconds n.toInt) :
    ((Time.fromNanos n).Normalised ∧ (Time.fromNanos n).nanos = n.toInt) ↔ Unborrowed n.toInt := by
  have cast : (Time.fromNanos n).nanosec.toNat = (n.toInt.tmod (10 ^ 9) % 2 ^ 32).toNat := by
    rw [Time.fromNanos, rem_toInt]
    exact UInt32.toNat_ofNat_of_lt' (by rw [UInt32.size]; omega)
  rw [Time.nanos, nanosOf, Time.Normalised, cast, Time.fromNanos, sec_toInt fits]
  by_cases whole : Unborrowed n.toInt
  · rw [(tdiv_of_unborrowed whole).1, (tdiv_of_unborrowed whole).2]
    refine iff_of_true ⟨?_, ?_⟩ whole <;> omega
  · have below := (tdiv_of_borrowed whole).2.2.2
    rw [(tdiv_of_borrowed whole).2.1]
    refine iff_of_false ?_ whole
    rintro ⟨small, -⟩
    have rem := Int.emod_lt_of_pos n.toInt (show (0 : Int) < 10 ^ 9 by decide)
    generalize n.toInt % 10 ^ 9 = r at small below rem
    omega

theorem Duration.fromNanos_exact_iff (fits : InSeconds n.toInt) :
    ((Duration.fromNanos n).Normalised ∧ (Duration.fromNanos n).nanos = n.toInt) ↔
      Unborrowed n.toInt := by
  have small : n.toInt.tmod (10 ^ 9) < 10 ^ 9 := Int.tmod_lt_of_pos _ (by decide)
  have large : -10 ^ 9 < n.toInt.tmod (10 ^ 9) := Int.lt_tmod_of_pos _ (by decide)
  have cast : (Duration.fromNanos n).nanosec.toNat = (n.toInt.tmod (10 ^ 9)).natAbs := by
    rw [Duration.fromNanos, rem_toInt]
    exact UInt32.toNat_ofNat_of_lt' (by rw [UInt32.size]; omega)
  rw [Duration.nanos, nanosOf, Duration.Normalised, cast, Duration.fromNanos, sec_toInt fits]
  by_cases whole : Unborrowed n.toInt
  · rw [(tdiv_of_unborrowed whole).1, (tdiv_of_unborrowed whole).2]
    refine iff_of_true ⟨?_, ?_⟩ whole <;> omega
  · have below := (tdiv_of_borrowed whole).2.2
    rw [(tdiv_of_borrowed whole).1, (tdiv_of_borrowed whole).2.1]
    refine iff_of_false ?_ whole
    omega

theorem Time.inSeconds {t : Time} (normal : t.Normalised) : InSeconds t.nanos := by
  have low := t.sec.le_toInt
  have high := t.sec.toInt_lt
  rw [Time.Normalised] at normal
  rw [InSeconds, Time.nanos, nanosOf]
  omega

theorem Time.fromNanos_toNanos_iff {t : Time} (normal : t.Normalised) :
    Time.fromNanos t.toNanos = t ↔ Unborrowed t.nanos := by
  have exact_ := Time.fromNanos_exact_iff (n := t.toNanos) (by simpa using Time.inSeconds normal)
  rw [Time.toNanos_toInt] at exact_
  rw [← exact_]
  constructor
  · intro same
    rw [same]
    exact ⟨normal, rfl⟩
  · rintro ⟨other, same⟩
    generalize Time.fromNanos t.toNanos = made at other same
    rw [Time.Normalised] at normal other
    rw [Time.nanos, Time.nanos, nanosOf, nanosOf] at same
    cases made
    cases t
    simp only [Time.mk.injEq, ← Int32.toInt_inj, ← UInt32.toNat_inj]
    dsimp only at normal other same
    omega

/-- The time is normalised, and is `n` nanoseconds. -/
def Time.Splits (t : Time) (n : Int) : Prop := t.Normalised ∧ t.toNanos.toInt = n

def Duration.Splits (d : Duration) (n : Int) : Prop := d.Normalised ∧ d.toNanos.toInt = n

theorem Time.splits_fromNanos_iff {m : Int} (exact_ : n.toInt = m) (fits : InSeconds m) :
    (Time.fromNanos n).Splits m ↔ Unborrowed m := by
  subst exact_
  rw [Time.Splits, Time.toNanos_toInt, Time.fromNanos_exact_iff fits]

theorem Duration.splits_fromNanos_iff {m : Int} (exact_ : n.toInt = m) (fits : InSeconds m) :
    (Duration.fromNanos n).Splits m ↔ Unborrowed m := by
  subst exact_
  rw [Duration.Splits, Duration.toNanos_toInt, Duration.fromNanos_exact_iff fits]

theorem Time.toNanos_bounds (t : Time) :
    -2 ^ 62 ≤ t.toNanos.toInt ∧ t.toNanos.toInt < 2 ^ 62 := by
  have bounds := nanosOf_bounds t.sec t.nanosec
  rw [Time.toNanos_toInt, Time.nanos]
  omega

theorem Duration.toNanos_bounds (d : Duration) :
    -2 ^ 62 ≤ d.toNanos.toInt ∧ d.toNanos.toInt < 2 ^ 62 := by
  have bounds := nanosOf_bounds d.sec d.nanosec
  rw [Duration.toNanos_toInt, Duration.nanos]
  omega

/-- The laws of the arithmetic, each where its exact result has seconds that are an `i32`. -/
structure Consistent (a b : Time) (d e : Duration) : Prop where
  timeSubTime : InSeconds (a.toNanos.toInt - b.toNanos.toInt) →
    (a - b).Splits (a.toNanos.toInt - b.toNanos.toInt)
  timeAdd : InSeconds (a.toNanos.toInt + d.toNanos.toInt) →
    (a + d).Splits (a.toNanos.toInt + d.toNanos.toInt)
  timeSub : InSeconds (a.toNanos.toInt - d.toNanos.toInt) →
    (a - d).Splits (a.toNanos.toInt - d.toNanos.toInt)
  durationAdd : InSeconds (d.toNanos.toInt + e.toNanos.toInt) →
    (d + e).Splits (d.toNanos.toInt + e.toNanos.toInt)
  durationSub : InSeconds (d.toNanos.toInt - e.toNanos.toInt) →
    (d - e).Splits (d.toNanos.toInt - e.toNanos.toInt)
  addBack : InSeconds (a.toNanos.toInt - b.toNanos.toInt) → b + (a - b) = a
  subBack : InSeconds (a.toNanos.toInt + d.toNanos.toInt) → a + d - d = a

theorem addBack_iff {a b : Time} (normal : a.Normalised)
    (exact_ : (a - b).Splits (a.toNanos.toInt - b.toNanos.toInt)) :
    b + (a - b) = a ↔ Unborrowed a.toNanos.toInt := by
  have sum : b.toNanos + (a - b).toNanos = a.toNanos := by
    rw [← Int64.toInt_inj, (add_toInt b.toNanos_bounds (a - b).toNanos_bounds).1, exact_.2]
    omega
  rw [Time.toNanos_toInt, ← Time.fromNanos_toNanos_iff normal, ← sum]
  rfl

theorem subBack_iff {a : Time} {d : Duration} (normal : a.Normalised)
    (exact_ : (a + d).Splits (a.toNanos.toInt + d.toNanos.toInt)) :
    a + d - d = a ↔ Unborrowed a.toNanos.toInt := by
  have difference : (a + d).toNanos - d.toNanos = a.toNanos := by
    rw [← Int64.toInt_inj, (add_toInt (a + d).toNanos_bounds d.toNanos_bounds).2, exact_.2]
    omega
  rw [Time.toNanos_toInt, ← Time.fromNanos_toNanos_iff normal, ← difference]
  rfl

/-- The exact results of the five operations. -/
def exactResults (a b : Time) (d e : Duration) : List Int :=
  [a.toNanos.toInt - b.toNanos.toInt, a.toNanos.toInt + d.toNanos.toInt,
    a.toNanos.toInt - d.toNanos.toInt, d.toNanos.toInt + e.toNanos.toInt,
    d.toNanos.toInt - e.toNanos.toInt]

theorem splits_iff (a b : Time) (d e : Duration) : (InSeconds (a.toNanos.toInt - b.toNanos.toInt) →
      ((a - b).Splits (a.toNanos.toInt - b.toNanos.toInt) ↔
        Unborrowed (a.toNanos.toInt - b.toNanos.toInt))) ∧
    (InSeconds (a.toNanos.toInt + d.toNanos.toInt) →
      ((a + d).Splits (a.toNanos.toInt + d.toNanos.toInt) ↔
        Unborrowed (a.toNanos.toInt + d.toNanos.toInt))) ∧
    (InSeconds (a.toNanos.toInt - d.toNanos.toInt) →
      ((a - d).Splits (a.toNanos.toInt - d.toNanos.toInt) ↔
        Unborrowed (a.toNanos.toInt - d.toNanos.toInt))) ∧
    (InSeconds (d.toNanos.toInt + e.toNanos.toInt) →
      ((d + e).Splits (d.toNanos.toInt + e.toNanos.toInt) ↔
        Unborrowed (d.toNanos.toInt + e.toNanos.toInt))) ∧
    (InSeconds (d.toNanos.toInt - e.toNanos.toInt) →
      ((d - e).Splits (d.toNanos.toInt - e.toNanos.toInt) ↔
        Unborrowed (d.toNanos.toInt - e.toNanos.toInt))) :=
  ⟨Duration.splits_fromNanos_iff (add_toInt a.toNanos_bounds b.toNanos_bounds).2,
    Time.splits_fromNanos_iff (add_toInt a.toNanos_bounds d.toNanos_bounds).1,
    Time.splits_fromNanos_iff (add_toInt a.toNanos_bounds d.toNanos_bounds).2,
    Duration.splits_fromNanos_iff (add_toInt d.toNanos_bounds e.toNanos_bounds).1,
    Duration.splits_fromNanos_iff (add_toInt d.toNanos_bounds e.toNanos_bounds).2⟩

/-- The laws hold where no result that fits borrows, nor the time that two of them lead back to. -/
theorem consistent_iff (a b : Time) (d e : Duration) (normal : a.Normalised) :
    Consistent a b d e ↔ (∀ n ∈ exactResults a b d e, InSeconds n → Unborrowed n) ∧
      (InSeconds (a.toNanos.toInt - b.toNanos.toInt) ∨
        InSeconds (a.toNanos.toInt + d.toNanos.toInt) → Unborrowed a.toNanos.toInt) := by
  rcases splits_iff a b d e with ⟨timeSubTime, timeAdd, timeSub, durationAdd, durationSub⟩
  constructor
  · intro laws
    constructor
    · simp only [exactResults, List.forall_mem_cons]
      exact ⟨fun fits => (timeSubTime fits).mp (laws.timeSubTime fits),
        fun fits => (timeAdd fits).mp (laws.timeAdd fits),
        fun fits => (timeSub fits).mp (laws.timeSub fits),
        fun fits => (durationAdd fits).mp (laws.durationAdd fits),
        fun fits => (durationSub fits).mp (laws.durationSub fits), nofun⟩
    · rintro (fits | fits)
      · exact (addBack_iff normal (laws.timeSubTime fits)).mp (laws.addBack fits)
      · exact (subBack_iff normal (laws.timeAdd fits)).mp (laws.subBack fits)
  · rintro ⟨whole, back⟩
    simp only [exactResults, List.forall_mem_cons] at whole
    rcases whole with ⟨first, second, third, fourth, fifth, -⟩
    constructor
    · exact fun fits => (timeSubTime fits).mpr (first fits)
    · exact fun fits => (timeAdd fits).mpr (second fits)
    · exact fun fits => (timeSub fits).mpr (third fits)
    · exact fun fits => (durationAdd fits).mpr (fourth fits)
    · exact fun fits => (durationSub fits).mpr (fifth fits)
    · exact fun fits =>
        (addBack_iff normal ((timeSubTime fits).mpr (first fits))).mpr (back (Or.inl fits))
    · exact fun fits =>
        (subBack_iff normal ((timeAdd fits).mpr (second fits))).mpr (back (Or.inr fits))

theorem consistent_iff_half : (⟨2, 500000000⟩ : Time).Normalised ∧
    (Consistent ⟨2, 500000000⟩ ⟨1, 700000000⟩ ⟨1, 0⟩ ⟨0, 5⟩ ↔
      (∀ n ∈ exactResults ⟨2, 500000000⟩ ⟨1, 700000000⟩ ⟨1, 0⟩ ⟨0, 5⟩, InSeconds n → Unborrowed n) ∧
      (InSeconds ((⟨2, 500000000⟩ : Time).toNanos.toInt - (⟨1, 700000000⟩ : Time).toNanos.toInt) ∨
        InSeconds ((⟨2, 500000000⟩ : Time).toNanos.toInt + (⟨1, 0⟩ : Duration).toNanos.toInt) →
        Unborrowed (⟨2, 500000000⟩ : Time).toNanos.toInt)) :=
  ⟨by decide, consistent_iff _ _ _ _ (by decide)⟩

/-- From zero a nanosecond is taken away: as a time it wraps, as a duration it is a nanosecond. -/
theorem consistent_fails :
    (⟨0, 0⟩ : Time).Normalised ∧ (⟨0, 1⟩ : Time).Normalised ∧ (⟨0, 1⟩ : Duration).Normalised ∧
    InSeconds (-1) ∧ ¬ ((⟨0, 0⟩ : Time) - (⟨0, 1⟩ : Duration)).Normalised ∧
    ((⟨0, 0⟩ : Time) - (⟨0, 1⟩ : Time)).toNanos = 1 ∧
    ((⟨0, 0⟩ : Duration) - (⟨0, 1⟩ : Duration)).toNanos = 1 ∧
    (⟨0, 1⟩ : Time) + ((⟨0, 0⟩ : Time) - (⟨0, 1⟩ : Time)) ≠ ⟨0, 0⟩ ∧
    (⟨-1, 5⟩ : Time) + (⟨0, 0⟩ : Duration) - (⟨0, 0⟩ : Duration) ≠ ⟨-1, 5⟩ ∧
    ¬ Consistent ⟨0, 0⟩ ⟨0, 1⟩ ⟨0, 1⟩ ⟨0, 0⟩ := by
  refine ⟨by decide, by decide, by decide, by decide, by decide, by decide, by decide, by decide,
    by decide, ?_⟩
  intro laws
  exact absurd (laws.timeSub (by decide)).1 (by decide)

end NanoRos
