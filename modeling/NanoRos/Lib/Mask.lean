import Mathlib.Tactic

/-! Machine words as sets of small numbers, one bit a member. -/

namespace NanoRos

/-- A word of `w` bits. -/
abbrev Mask (w : Nat) := BitVec w

namespace Mask

variable {w : Nat}

def has (mask : Mask w) (i : Nat) : Bool := mask.getLsbD i

def insert (mask : Mask w) (i : Nat) : Mask w := mask ||| BitVec.twoPow w i

def diff (mask other : Mask w) : Mask w := mask &&& ~~~other

def erase (mask : Mask w) (i : Nat) : Mask w := mask.diff (BitVec.twoPow w i)

def only (mask : Mask w) (i : Nat) : Mask w := mask &&& BitVec.twoPow w i

/-- The numbers that pass, found by a loop over the bits. -/
def collect (w : Nat) (passes : Nat → Bool) : Mask w :=
  (List.range w).foldl (fun mask i => if passes i then insert mask i else mask) 0#w

theorem has_lt {mask : Mask w} {i : Nat} (member : mask.has i = true) : i < w := by
  by_contra beyond
  have absent := BitVec.getLsbD_of_ge mask i (Nat.not_lt.mp beyond)
  rw [has, absent] at member
  cases member

theorem ext {a b : Mask w} (same : ∀ i, i < w → a.has i = b.has i) : a = b :=
  BitVec.eq_of_getLsbD_eq same

@[simp]
theorem has_zero (i : Nat) : has 0#w i = false := BitVec.getLsbD_zero

@[simp]
theorem has_or (a b : Mask w) (i : Nat) : has (a ||| b) i = (a.has i || b.has i) :=
  BitVec.getLsbD_or

@[simp]
theorem has_and (a b : Mask w) (i : Nat) : has (a &&& b) i = (a.has i && b.has i) :=
  BitVec.getLsbD_and

@[simp]
theorem has_diff (a b : Mask w) (i : Nat) : (a.diff b).has i = (a.has i && !b.has i) := by
  by_cases inside : i < w
  · simp [diff, has, inside]
  · have absent := BitVec.getLsbD_of_ge a i (Nat.not_lt.mp inside)
    simp [diff, has, absent]

variable (mask : Mask w)

@[simp]
theorem has_insert (i j : Nat) :
    (mask.insert i).has j = (mask.has j || (decide (i < w) && decide (i = j))) := by
  rw [insert, has_or]
  congr 1
  exact BitVec.getLsbD_twoPow i j

@[simp]
theorem has_erase (i j : Nat) : (mask.erase i).has j = (mask.has j && !decide (i = j)) := by
  rw [erase, has_diff, has, has, BitVec.getLsbD_twoPow]
  by_cases same : i = j
  · subst same
    by_cases inside : i < w
    · simp [inside]
    · simp [BitVec.getLsbD_of_ge mask i (Nat.not_lt.mp inside)]
  · simp [same]

@[simp]
theorem has_only (i j : Nat) : (mask.only i).has j = (mask.has j && decide (i = j)) := by
  rw [only, has_and, has, has, BitVec.getLsbD_twoPow]
  by_cases same : i = j
  · subst same
    by_cases inside : i < w
    · simp [inside]
    · simp [BitVec.getLsbD_of_ge mask i (Nat.not_lt.mp inside)]
  · simp [same]

theorem has_oneShift (k i : Nat) : has (1#w <<< k) i = (decide (k < w) && decide (i = k)) := by
  rw [has, BitVec.getLsbD_shiftLeft, BitVec.getLsbD_one]
  by_cases inside : i < w
  · by_cases same : i = k
    · subst same
      simp [inside, Nat.zero_lt_of_lt inside]
    · by_cases below : i < k
      · simp [below, same]
      · have apart : i - k ≠ 0 := by omega
        simp [apart, same]
  · by_cases same : i = k
    · subst same
      simp [inside]
    · simp [inside, same]

theorem has_ones_below {k : Nat} (inside : k < w) (i : Nat) :
    has ((1#w <<< k) - 1#w) i = decide (i < k) := by
  have one : 1 < 2 ^ w := Nat.one_lt_two_pow (Nat.ne_zero_of_lt inside)
  have power : 2 ^ k < 2 ^ w := Nat.pow_lt_pow_right Nat.one_lt_two inside
  have positive : 0 < 2 ^ k := Nat.two_pow_pos k
  have shifted : (1#w <<< k).toNat = 2 ^ k := by
    rw [BitVec.toNat_shiftLeft, BitVec.toNat_ofNat, Nat.mod_eq_of_lt one, Nat.one_shiftLeft,
      Nat.mod_eq_of_lt power]
  have unit : (1#w).toNat = 1 := by rw [BitVec.toNat_ofNat, Nat.mod_eq_of_lt one]
  have less : ((1#w <<< k) - 1#w).toNat = 2 ^ k - 1 := by
    rw [BitVec.toNat_sub_of_le (by rw [BitVec.le_def, shifted, unit]; exact positive), shifted, unit]
  rw [has, BitVec.getLsbD, less, Nat.testBit_two_pow_sub_one]

theorem has_ones_from (k i : Nat) :
    has (BitVec.allOnes w <<< k) i = (decide (i < w) && decide (k ≤ i)) := by
  rw [has, BitVec.getLsbD_shiftLeft, BitVec.getLsbD_allOnes]
  by_cases inside : i < w
  · by_cases before : i < k
    · simp [before]
    · simp [before, inside, Nat.not_lt.mp before, (Nat.sub_le i k).trans_lt inside]
  · simp [inside]

theorem and_oneShift_eq_zero_iff (k : Nat) :
    mask &&& (1#w <<< k) = 0#w ↔ mask.has k = false := by
  constructor
  · intro empty
    by_cases inside : k < w
    · have bit := congrArg (fun m => has m k) empty
      simpa [has_oneShift, inside] using bit
    · exact BitVec.getLsbD_of_ge mask k (Nat.not_lt.mp inside)
  · intro absent
    apply ext
    intro i _
    rw [has_and, has_oneShift, has_zero]
    by_cases same : i = k
    · rw [same, absent, Bool.false_and]
    · rw [decide_eq_false same, Bool.and_false, Bool.and_false]

theorem has_foldl_insert (passes : Nat → Bool) (numbers : List Nat) (mask : Mask w) (i : Nat) :
    has (numbers.foldl (fun mask i => if passes i then insert mask i else mask) mask) i =
      (mask.has i || (decide (i < w) && decide (i ∈ numbers) && passes i)) := by
  induction numbers generalizing mask with
  | nil => simp
  | cons first numbers ih =>
    rw [List.foldl_cons, ih]
    by_cases same : first = i
    · subst same
      by_cases inside : first < w <;> by_cases pass : passes first = true <;>
        simp [pass, inside]
    · have other : i ≠ first := fun equal => same equal.symm
      by_cases pass : passes first = true <;> simp [pass, same, other]

@[simp]
theorem has_collect (passes : Nat → Bool) (i : Nat) :
    has (collect w passes) i = (decide (i < w) && passes i) := by
  rw [collect, has_foldl_insert]
  by_cases inside : i < w <;> simp [inside]

end Mask

end NanoRos
