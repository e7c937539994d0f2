import Mathlib.Tactic

/-! Machine counters: those that stop at the top and those that wrap. -/

namespace NanoRos

def u32Max : Nat := 2 ^ 32 - 1

theorem toNat_ofNat_u32 (n : Nat) (fits : n ≤ u32Max) : (UInt32.ofNat n).toNat = n := by
  apply UInt32.toNat_ofNat_of_lt
  simp only [u32Max] at fits
  simp only [UInt32.size]
  omega

/-- `u32::saturating_add`. -/
def saturatingAdd (a b : UInt32) : UInt32 := UInt32.ofNat (min (a.toNat + b.toNat) u32Max)

theorem toNat_saturatingAdd (a b : UInt32) :
    (saturatingAdd a b).toNat = min (a.toNat + b.toNat) u32Max :=
  toNat_ofNat_u32 _ (Nat.min_le_right _ _)

def u64Max : Nat := 2 ^ 64 - 1

/-- `u64::saturating_mul`. -/
def saturatingMul (a b : Nat) : Nat := min (a * b) u64Max

theorem saturatingMul_eq (a b : Nat) (fits : a * b ≤ u64Max) : saturatingMul a b = a * b :=
  Nat.min_eq_left fits

/-- `u64::saturating_add`. -/
def saturatingAdd64 (a b : Nat) : Nat := min (a + b) u64Max

theorem saturatingAdd64_eq (a b : Nat) (fits : a + b ≤ u64Max) : saturatingAdd64 a b = a + b :=
  Nat.min_eq_left fits

def i64Min : Int := -2 ^ 63

def i64Max : Int := 2 ^ 63 - 1

/-- `i64::saturating_sub`. -/
def saturatingSubI64 (a b : Int) : Int := max i64Min (min (a - b) i64Max)

/-- `i64::try_from` of an unsigned number, `i64::MAX` where it fails. -/
def i64OfNat (n : Nat) : Int := min (n : Int) i64Max

theorem lt_saturatingMul_div_iff (a b d k : Nat) (positive : 0 < d)
    (small : (k + 1) * d ≤ u64Max) : k < saturatingMul a b / d ↔ k < a * b / d := by
  rw [← Nat.succ_le_iff, Nat.le_div_iff_mul_le positive, saturatingMul, le_min_iff,
    and_iff_left small, ← Nat.le_div_iff_mul_le positive, Nat.succ_le_iff]

theorem toNat_succ_of_lt (a : UInt32) (small : a.toNat + 1 < 2 ^ 32) :
    (a + 1).toNat = a.toNat + 1 := by
  rw [UInt32.toNat_add, UInt32.toNat_one, Nat.mod_eq_of_lt small]

theorem toNat_numbered (total : UInt32) (n k : Nat) (within : n ≤ total.toNat) (inside : k < n) :
    (total - UInt32.ofNat n + 1 + UInt32.ofNat k).toNat = total.toNat - n + 1 + k := by
  have bound := total.toNat_lt
  have length : (UInt32.ofNat n).toNat = n := toNat_ofNat_u32 n (by rw [u32Max]; omega)
  have index : (UInt32.ofNat k).toNat = k := toNat_ofNat_u32 k (by rw [u32Max]; omega)
  rw [UInt32.toNat_add, UInt32.toNat_add, UInt32.toNat_sub, length, index, UInt32.toNat_one]
  omega

end NanoRos
