import NanoRos.Params.Values

/-! The integer range predicate (`IntegerRange::contains`) against the lattice it documents. -/

namespace NanoRos

theorem checkedSub_eq (a b : Int64) :
    checkedSub a b =
      if i64Min ≤ a.toInt - b.toInt ∧ a.toInt - b.toInt ≤ i64Max then
        some (Int64.ofInt (a.toInt - b.toInt))
      else none := rfl

theorem toInt_ofInt_i64 {n : Int} (low : i64Min ≤ n) (high : n ≤ i64Max) :
    (Int64.ofInt n).toInt = n := by
  rw [i64Min] at low
  rw [i64Max] at high
  exact Int64.toInt_ofInt_of_le (by omega) (by omega)

namespace IntegerRange

/-- In range, and a whole number of steps from the lower bound; the upper bound always. -/
def Admits (range : IntegerRange) (value : Int64) : Prop :=
  range.min ≤ value ∧ value ≤ range.max ∧
    (value = range.max ∨ range.step = 0 ∨ range.step.toInt ∣ value.toInt - range.min.toInt)

instance (range : IntegerRange) (value : Int64) : Decidable (range.Admits value) :=
  inferInstanceAs (Decidable (_ ∧ _ ∧ (_ ∨ _ ∨ _)))

/-- A lattice point short of the upper bound, further above the lower one than an `i64` counts. -/
def OutOfReach (range : IntegerRange) (value : Int64) : Prop :=
  value < range.max ∧ range.step ≠ 0 ∧ i64Max < value.toInt - range.min.toInt ∧
    range.step.toInt ∣ value.toInt - range.min.toInt

instance (range : IntegerRange) (value : Int64) : Decidable (range.OutOfReach value) :=
  inferInstanceAs (Decidable (_ ∧ _ ∧ _ ∧ _))

variable {range : IntegerRange} {value : Int64}

theorem contains_outside (outside : ¬ (range.min ≤ value ∧ value ≤ range.max)) :
    range.contains value = false := by
  have refused : (!(decide (range.min ≤ value) && decide (value ≤ range.max))) = true := by
    rw [← Bool.decide_and, decide_eq_false outside]
    rfl
  rw [contains, if_pos refused]

theorem contains_inside (low : range.min ≤ value) (high : value ≤ range.max) :
    range.contains value = true ↔ value = range.max ∨ range.step = 0 ∨
      (((checkedSub value range.min).bind fun d => checkedRem d range.step).any
        fun rem => decide (rem = 0)) = true := by
  have passed : ¬ (!(decide (range.min ≤ value) && decide (value ≤ range.max))) = true := by
    simp [low, high]
  rw [contains, if_neg passed, ← or_assoc]
  by_cases direct : value = range.max ∨ range.step = 0
  · simp [direct]
  · rw [if_neg direct, or_iff_right direct]
    cases (checkedSub value range.min).bind fun d => checkedRem d range.step <;> rfl

theorem checkedRem_eq_zero_iff {d step : Int64} (positive : 0 < step) :
    ((checkedRem d step).any fun rem => decide (rem = 0)) = true ↔ step.toInt ∣ d.toInt := by
  have above : 0 < step.toInt := by
    rw [Int64.lt_iff_toInt_lt] at positive
    exact positive
  have nonzero : step ≠ 0 := by
    rintro rfl
    exact absurd above (by decide)
  have upward : step ≠ -1 := by
    rintro rfl
    exact absurd above (by decide)
  have bound : (d.toInt.tmod step.toInt).natAbs < step.toInt.natAbs := by
    rw [Int.natAbs_tmod]
    exact Nat.mod_lt _ (Int.natAbs_pos.mpr above.ne')
  have most := step.toInt_lt
  have value : (Int64.ofInt (d.toInt.tmod step.toInt)).toInt = d.toInt.tmod step.toInt := by
    apply toInt_ofInt_i64
    · rw [i64Min]
      omega
    · rw [i64Max]
      omega
  rw [checkedRem, if_neg (by simp [nonzero, upward]), Option.any_some, decide_eq_true_iff,
    ← Int64.toInt_inj, value, Int.dvd_iff_tmod_eq_zero]
  exact Iff.rfl

/-- The predicate is the documented one, but for lattice points out of an `i64`'s reach. -/
theorem contains_iff_admits (range : IntegerRange) (valid : range.isValid = true) (value : Int64) :
    (range.contains value = true ↔ range.Admits value) ↔ ¬ range.OutOfReach value := by
  rw [isValid, Bool.and_eq_true, decide_eq_true_iff, decide_eq_true_iff] at valid
  by_cases inside : range.min ≤ value ∧ value ≤ range.max
  · rw [contains_inside inside.1 inside.2, Admits, OutOfReach, and_iff_right inside.1,
      and_iff_right inside.2]
    by_cases top : value = range.max
    · simp [top, Int64.lt_irrefl]
    · by_cases still : range.step = 0
      · simp [still]
      · have below : value < range.max := Int64.lt_of_le_of_ne inside.2 top
        have positive : 0 < range.step := Int64.lt_of_le_of_ne valid.2 (Ne.symm still)
        have low := inside.1
        rw [Int64.le_iff_toInt_le] at low
        rw [checkedSub_eq]
        by_cases fits : value.toInt - range.min.toInt ≤ i64Max
        · have least : i64Min ≤ value.toInt - range.min.toInt := by
            rw [i64Min]
            omega
          rw [if_pos ⟨least, fits⟩, Option.bind_some, checkedRem_eq_zero_iff positive,
            toInt_ofInt_i64 least fits]
          simp [fits]
        · rw [if_neg fun both => fits both.2]
          simp [top, still, below, not_le.mp fits]
  · have apart : ¬ range.Admits value := fun admits => inside ⟨admits.1, admits.2.1⟩
    rw [contains_outside inside]
    refine iff_of_true (by simp [apart]) ?_
    rintro ⟨below, _, far, _⟩
    apply inside
    refine ⟨?_, Int64.le_of_lt below⟩
    rw [Int64.le_iff_toInt_le]
    rw [i64Max] at far
    omega

/-- The whole of `i64` by twos, and a point within reach of its lower bound. -/
theorem contains_iff_admits_even : let range : IntegerRange := ⟨Int64.minValue, Int64.maxValue, 2⟩
    range.contains (-4) = true ↔ range.Admits (-4) :=
  (contains_iff_admits ⟨Int64.minValue, Int64.maxValue, 2⟩ (by decide) (-4)).mpr (by decide)

/-- Zero is `2 ^ 62` steps of two above the least `i64`. -/
theorem contains_misses_lattice_point : ¬ ∀ range : IntegerRange, range.isValid = true → ∀ value,
    (range.contains value = true ↔ range.Admits value) := by
  intro exact_
  have here := exact_ ⟨Int64.minValue, Int64.maxValue, 2⟩ (by decide) 0
  have admitted : IntegerRange.Admits ⟨Int64.minValue, Int64.maxValue, 2⟩ 0 := by decide
  have refused : IntegerRange.contains ⟨Int64.minValue, Int64.maxValue, 2⟩ 0 = false := by decide
  rw [here.mpr admitted] at refused
  cases refused

end IntegerRange

end NanoRos
