import Mathlib.Data.BitVec
import Mathlib.Tactic

/-! A counter of `w` bits that wraps, and the slot it names in a ring of `d` slots: the counter
modulo `d`. -/

namespace NanoRos

variable {w d : Nat}

def slotIndex (d : Nat) [NeZero d] (counter : BitVec w) : Fin d := Fin.ofNat d counter.toNat

/-- The counter of this position names the position's own slot. -/
def InStep (w d position : Nat) : Prop := d ∣ 2 ^ w ∨ position < 2 ^ w

theorem InStep.mono {p q : Nat} (inStep : InStep w d q) (below : p ≤ q) : InStep w d p := by
  obtain divides | small := inStep
  · exact .inl divides
  · exact .inr (by omega)

theorem slotIndex_ofNat [NeZero d] {position : Nat} (inStep : InStep w d position) :
    (slotIndex d (BitVec.ofNat w position)).val = position % d := by
  rw [slotIndex, Fin.val_ofNat, BitVec.toNat_ofNat]
  obtain divides | small := inStep
  · exact Nat.mod_mod_of_dvd position divides
  · rw [Nat.mod_eq_of_lt small]

theorem mod_ne_of_lt {p q : Nat} (after : p < q) (near : q < p + d) : p % d ≠ q % d := by
  intro same
  have apart : (q - p) % d = 0 := Nat.sub_mod_eq_zero_of_mod_eq same.symm
  rw [Nat.mod_eq_of_lt (by omega)] at apart
  omega

theorem slotIndex_ne [NeZero d] {p q : Nat} (inStep : InStep w d q) (after : p < q)
    (near : q < p + d) :
    slotIndex d (BitVec.ofNat w p) ≠ slotIndex d (BitVec.ofNat w q) := by
  intro same
  have values := congrArg Fin.val same
  rw [slotIndex_ofNat (inStep.mono after.le), slotIndex_ofNat inStep] at values
  exact mod_ne_of_lt after near values

theorem toNat_sub_ofNat {head tail : Nat} (order : head ≤ tail) (near : tail - head < 2 ^ w) :
    (BitVec.ofNat w tail - BitVec.ofNat w head).toNat = tail - head := by
  have split : BitVec.ofNat w tail = BitVec.ofNat w head + BitVec.ofNat w (tail - head) := by
    rw [← BitVec.ofNat_add, Nat.add_sub_cancel' order]
  rw [split, BitVec.add_comm, BitVec.add_sub_cancel, BitVec.toNat_ofNat, Nat.mod_eq_of_lt near]

theorem ofNat_eq_iff {head tail : Nat} (order : head ≤ tail) (near : tail - head < 2 ^ w) :
    BitVec.ofNat w head = BitVec.ofNat w tail ↔ head = tail := by
  constructor
  · intro same
    have gap := toNat_sub_ofNat order near
    rw [same, BitVec.sub_self, BitVec.toNat_zero] at gap
    omega
  · intro same
    rw [same]

end NanoRos
