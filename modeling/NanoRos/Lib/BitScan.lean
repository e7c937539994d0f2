import Mathlib.Data.List.MinMax
import NanoRos.Lib.Mask

/-! The members of a word in increasing order, by a loop that clears the lowest bit each time. -/

namespace NanoRos.Mask

variable {w : Nat} {α : Type}

/-- The least member, `w` in an empty word. -/
def lowest (mask : Mask w) : Nat := (BitVec.ctz mask).toNat

def dropLowest (mask : Mask w) : Mask w := mask &&& (mask - 1#w)

/-- `while bits != 0` over the bits of a word, with at most so many rounds. -/
def scan (f : α → Nat → α) : Nat → Mask w → α → α
  | 0, _, acc => acc
  | rounds + 1, mask, acc =>
    if mask = 0#w then acc else scan f rounds mask.dropLowest (f acc mask.lowest)

def members (mask : Mask w) : List Nat := (List.range w).filter mask.has

theorem mem_members {mask : Mask w} {i : Nat} : i ∈ mask.members ↔ mask.has i = true := by
  rw [members, List.mem_filter, List.mem_range]
  exact and_iff_right_of_imp has_lt

theorem members_sorted (mask : Mask w) : mask.members.Pairwise (· < ·) :=
  List.pairwise_lt_range.filter _

theorem length_members_le (mask : Mask w) : mask.members.length ≤ w := by
  calc
    mask.members.length ≤ (List.range w).length := List.length_filter_le _ _
    _ = w := List.length_range

theorem has_lowest {mask : Mask w} (some_ : mask ≠ 0#w) : mask.has mask.lowest = true :=
  BitVec.getLsbD_true_ctz_of_ne_zero some_

theorem has_below_lowest {mask : Mask w} {i : Nat} (below : i < mask.lowest) :
    mask.has i = false :=
  BitVec.getLsbD_false_of_lt_ctz below

theorem eq_of_lowest {n k : Nat} (set : n.testBit k = true)
    (below : ∀ i, i < k → n.testBit i = false) : n = 2 ^ (k + 1) * (n / 2 ^ (k + 1)) + 2 ^ k := by
  have low : n % 2 ^ (k + 1) = 2 ^ k := by
    apply Nat.eq_of_testBit_eq
    intro i
    rw [Nat.testBit_mod_two_pow, Nat.testBit_two_pow]
    rcases Nat.lt_trichotomy i k with before | rfl | after
    · rw [below i before, Bool.and_false, decide_eq_false (Nat.ne_of_gt before)]
    · rw [set, decide_eq_true (Nat.lt_succ_self i), Bool.and_true, decide_eq_true rfl]
    · rw [decide_eq_false (Nat.not_lt.mpr after), Bool.false_and,
        decide_eq_false (Nat.ne_of_lt after)]
  calc
    n = 2 ^ (k + 1) * (n / 2 ^ (k + 1)) + n % 2 ^ (k + 1) := (Nat.div_add_mod n _).symm
    _ = _ := by rw [low]

theorem testBit_pred {n k i : Nat} (set : n.testBit k = true)
    (below : ∀ i, i < k → n.testBit i = false) (from_ : k ≤ i) :
    (n - 1).testBit i = (n.testBit i && !decide (i = k)) := by
  have whole := eq_of_lowest set below
  generalize n / 2 ^ (k + 1) = high at whole
  have positive : 0 < 2 ^ k := Nat.two_pow_pos k
  have double : 2 ^ (k + 1) = 2 ^ k + 2 ^ k := by rw [Nat.pow_succ, Nat.mul_two]
  have less : n - 1 = 2 ^ (k + 1) * high + (2 ^ k - 1) := by omega
  rw [less, Nat.testBit_two_pow_mul_add high (by omega)]
  rcases Nat.eq_or_lt_of_le from_ with rfl | after
  · rw [if_pos (Nat.lt_succ_self k), Nat.testBit_two_pow_sub_one]
    simp
  · rw [if_neg (Nat.not_lt.mpr after), whole, Nat.testBit_two_pow_mul_add high (by omega),
      if_neg (Nat.not_lt.mpr after), decide_eq_false (Nat.ne_of_gt after), Bool.not_false,
      Bool.and_true]

theorem has_dropLowest (mask : Mask w) (i : Nat) :
    mask.dropLowest.has i = (mask.has i && !decide (i = mask.lowest)) := by
  by_cases empty : mask = 0#w
  · subst empty
    simp [dropLowest]
  · rw [dropLowest, has_and]
    rcases Nat.lt_or_ge i mask.lowest with below | from_
    · rw [has_below_lowest below, Bool.false_and, Bool.false_and]
    · have set := has_lowest empty
      have pred : (mask - 1#w).toNat = mask.toNat - 1 := by
        have positive : mask.toNat ≠ 0 := fun zero => empty (BitVec.eq_of_toNat_eq zero)
        have wide : 1 < 2 ^ w := by
          have bound := mask.isLt
          omega
        have one : (1#w).toNat = 1 := by rw [BitVec.toNat_ofNat, Nat.mod_eq_of_lt wide]
        rw [BitVec.toNat_sub_of_le (by rw [BitVec.le_def, one]; omega), one]
      have cleared : has (mask - 1#w) i = (mask.has i && !decide (i = mask.lowest)) := by
        rw [has, has, BitVec.getLsbD, BitVec.getLsbD, pred]
        exact testBit_pred set (fun _ below => has_below_lowest below) from_
      rw [cleared, ← Bool.and_assoc, Bool.and_self]

theorem members_of_ne_zero {mask : Mask w} (some_ : mask ≠ 0#w) :
    mask.members = mask.lowest :: mask.dropLowest.members := by
  have inside := has_lt (has_lowest some_)
  have split : List.range w = List.range mask.lowest ++
      mask.lowest :: List.range' (mask.lowest + 1) (w - mask.lowest - 1) := by
    calc
      List.range w = List.range' 0 (mask.lowest + (w - mask.lowest - 1 + 1)) := by
        rw [List.range_eq_range']
        congr 1
        omega
      _ = List.range' 0 mask.lowest ++
          List.range' (0 + mask.lowest) (w - mask.lowest - 1 + 1) := List.range'_append_1.symm
      _ = _ := by rw [Nat.zero_add, List.range'_succ, List.range_eq_range']
  have before : ∀ other : Mask w, (∀ i, i < mask.lowest → other.has i = false) →
      (List.range mask.lowest).filter other.has = [] := by
    intro other none
    apply List.filter_eq_nil_iff.mpr
    intro i member
    rw [none i (List.mem_range.mp member)]
    exact Bool.false_ne_true
  rw [members, members, split, List.filter_append, List.filter_append,
    before mask fun i below => has_below_lowest below, List.filter_cons_of_pos (has_lowest some_),
    before mask.dropLowest, List.filter_cons_of_neg, List.nil_append, List.nil_append]
  · congr 1
    apply List.filter_congr
    intro i member
    have above := (List.mem_range'_1.mp member).1
    rw [has_dropLowest, decide_eq_false (Nat.ne_of_gt above), Bool.not_false, Bool.and_true]
  · rw [has_dropLowest, decide_eq_true rfl, Bool.not_true, Bool.and_false]
    exact Bool.false_ne_true
  · intro i below
    rw [has_dropLowest, has_below_lowest below, Bool.false_and]

theorem members_zero : members 0#w = [] := by
  apply List.filter_eq_nil_iff.mpr
  intro i _
  rw [has_zero]
  exact Bool.false_ne_true

theorem scan_members (f : α → Nat → α) (rounds : Nat) (mask : Mask w) (acc : α)
    (enough : mask.members.length ≤ rounds) :
    scan f rounds mask acc = mask.members.foldl f acc := by
  induction rounds generalizing mask acc with
  | zero => rw [scan, List.length_eq_zero_iff.mp (Nat.le_zero.mp enough), List.foldl_nil]
  | succ rounds ih =>
    rw [scan]
    by_cases empty : mask = 0#w
    · rw [if_pos empty, empty, members_zero, List.foldl_nil]
    · rw [members_of_ne_zero empty] at enough ⊢
      rw [if_neg empty, ih _ _ (Nat.le_of_succ_le_succ enough), List.foldl_cons]

theorem scan_eq_foldl (f : α → Nat → α) (mask : Mask w) (acc : α) :
    scan f w mask acc = mask.members.foldl f acc :=
  scan_members f w mask acc (length_members_le mask)

end NanoRos.Mask
