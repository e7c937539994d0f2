import Mathlib.Data.Finset.Max
import Mathlib.Tactic

/-! A queue as the finite set of what waits in it: the least member of a window. -/

namespace NanoRos.WindowQueue

variable {κ : Type} [LinearOrder κ]

def least (queued : Finset κ) (window : κ → Prop) [DecidablePred window] : Option κ :=
  if there : (queued.filter window).Nonempty then some ((queued.filter window).min' there) else none

variable {queued : Finset κ} {window : κ → Prop} [DecidablePred window] {entry : κ}

theorem least_eq_none_iff : least queued window = none ↔ ∀ e ∈ queued, ¬ window e := by
  rw [← Finset.filter_eq_empty_iff, ← Finset.not_nonempty_iff_eq_empty, least]
  split
  case isTrue there => simp [there]
  case isFalse empty => simp [empty]

theorem least_eq_some_iff :
    least queued window = some entry ↔ IsLeast {e | e ∈ queued ∧ window e} entry := by
  have members : (↑(queued.filter window) : Set κ) = {e | e ∈ queued ∧ window e} := by
    ext e
    simp
  rw [← members, least]
  constructor
  · intro found
    split at found
    case isTrue there =>
      cases found
      exact Finset.isLeast_min' _ there
    case isFalse => cases found
  · intro isLeast
    have there : (queued.filter window).Nonempty := ⟨entry, isLeast.1⟩
    rw [dif_pos there, (Finset.isLeast_min' _ there).unique isLeast]

end NanoRos.WindowQueue
