import Mathlib.Algebra.BigOperators.Group.List.Basic
import NanoRos.Lib.Wire

/-! Items placed one after another, where an item's stop depends on its start. -/

namespace NanoRos

variable {α : Type}

def placed (stop : α → Nat → Nat) (items : List α) (start : Nat) : Nat :=
  items.foldl (fun offset item => stop item offset) start

theorem placed_le {stop : α → Nat → Nat} {price : α → Nat} (measure : Nat → Nat) {items : List α}
    (each : ∀ item ∈ items, ∀ offset, measure (stop item offset) ≤ measure offset + price item)
    (start : Nat) :
    measure (placed stop items start) ≤ measure start + (items.map price).sum := by
  induction items generalizing start with
  | nil => exact Nat.le_refl _
  | cons item items ih =>
    have first := each item List.mem_cons_self start
    have rest := ih (fun item member => each item (List.mem_cons_of_mem _ member))
      (stop item start)
    rw [List.map_cons, List.sum_cons]
    rw [placed] at rest ⊢
    rw [List.foldl_cons]
    omega

/-- The next multiple of the alignment. -/
def alignUp (alignment offset : Nat) : Nat := offset + padding alignment offset

theorem le_alignUp (alignment offset : Nat) : offset ≤ alignUp alignment offset :=
  Nat.le_add_right _ _

theorem alignUp_lt {alignment : Nat} (positive : 0 < alignment) (offset : Nat) :
    alignUp alignment offset < offset + alignment :=
  Nat.add_lt_add_left (padding_lt alignment offset positive) offset

theorem alignUp_mod {alignment : Nat} (positive : 0 < alignment) (offset : Nat) :
    alignUp alignment offset % alignment = 0 :=
  Nat.mod_eq_zero_of_dvd (dvd_add_padding alignment offset positive)

theorem alignUp_of_mod {alignment offset : Nat} (aligned : offset % alignment = 0) :
    alignUp alignment offset = offset := by
  rw [alignUp, padding, aligned, Nat.sub_zero, Nat.mod_self, Nat.add_zero]

end NanoRos
