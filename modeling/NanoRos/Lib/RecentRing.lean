import Mathlib.Algebra.Group.Fin.Basic
import Mathlib.Tactic

/-! A ring of `w` slots that is written round and round, as the memory of the last `w` writes. -/

namespace NanoRos

variable {α : Type} {w : Nat} [NeZero w]

/-- Going back from `head`, the slots hold `latest`, the last write first. -/
def Remembers (ring : Fin w → α) (head : Fin w) (latest : List α) : Prop :=
  ∀ i : Fin w, latest[i.val]? = some (ring (head - 1 - i))

theorem remembers_fill (a : α) (head : Fin w) :
    Remembers (fun _ => a) head (List.replicate w a) := by
  intro i
  exact List.getElem?_replicate_of_lt i.isLt

theorem Remembers.record {ring : Fin w → α} {head : Fin w} {latest : List α}
    (remembers : Remembers ring head latest) (a : α) :
    Remembers (Function.update ring head a) (head + 1) (a :: latest) := by
  rintro ⟨i, inside⟩
  cases i with
  | zero =>
    have here : head + 1 - 1 - (⟨0, inside⟩ : Fin w) = head := by
      rw [add_sub_cancel_right]
      exact sub_zero head
    rw [here, Function.update_self]
    rfl
  | succ i =>
    have inside' : i < w := Nat.lt_of_succ_lt inside
    have next : (⟨i + 1, inside⟩ : Fin w) = ⟨i, inside'⟩ + 1 := by
      apply Fin.ext
      rw [Fin.val_add, Fin.val_one', Nat.add_mod_mod]
      exact (Nat.mod_eq_of_lt inside).symm
    have back : head + 1 - 1 - (⟨i + 1, inside⟩ : Fin w) = head - 1 - ⟨i, inside'⟩ := by
      rw [next]
      abel
    have elsewhere : head - 1 - (⟨i, inside'⟩ : Fin w) ≠ head := by
      rw [← back, add_sub_cancel_right]
      intro same
      exact absurd (congrArg Fin.val (sub_eq_self.mp same)) (Nat.succ_ne_zero i)
    rw [List.getElem?_cons_succ, back, Function.update_of_ne elsewhere]
    exact remembers ⟨i, inside'⟩

theorem Remembers.mem_iff {ring : Fin w → α} {head : Fin w} {latest : List α}
    (remembers : Remembers ring head latest) (a : α) : (∃ i, ring i = a) ↔ a ∈ latest.take w := by
  constructor
  · rintro ⟨i, rfl⟩
    have back : head - 1 - (head - 1 - i) = i := sub_sub_cancel _ _
    apply List.mem_of_getElem? (i := (head - 1 - i).val)
    rw [List.getElem?_take_of_lt (head - 1 - i).isLt, remembers, back]
  · intro member
    rcases List.getElem?_of_mem member with ⟨i, found⟩
    have inside : i < w := by
      by_contra outside
      rw [List.getElem?_take_eq_none (Nat.not_lt.mp outside)] at found
      cases found
    rw [List.getElem?_take_of_lt inside, remembers ⟨i, inside⟩] at found
    exact ⟨_, Option.some.inj found⟩

end NanoRos
