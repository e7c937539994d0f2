import Mathlib.Data.List.Basic
import Mathlib.Tactic

/-! A queue that keeps the newest of what it is given, while its reader may hold on to the oldest.
-/

namespace NanoRos

variable {α : Type} {d : Nat} {held : Bool} {queued : List α} {a : α}

/-- One more entry for a queue of at most `d`: a full one gives up the oldest, or the newest while
the oldest is held; with one entry, held, there is nothing to give up. -/
def keepLast (d : Nat) (held : Bool) (queued : List α) (a : α) : List α :=
  if queued.length < d then queued ++ [a]
  else if held = false then queued.tail ++ [a]
  else if 2 ≤ d then queued.dropLast ++ [a]
  else queued

theorem keepLast_room (room : queued.length < d) : keepLast d held queued a = queued ++ [a] :=
  if_pos room

theorem keepLast_evict (full : ¬ queued.length < d) :
    keepLast d false queued a = queued.tail ++ [a] := by
  rw [keepLast, if_neg full, if_pos rfl]

theorem keepLast_replace (full : ¬ queued.length < d) (deep : 2 ≤ d) :
    keepLast d true queued a = queued.dropLast ++ [a] := by
  rw [keepLast, if_neg full, if_neg (by decide), if_pos deep]

theorem keepLast_refuse (full : ¬ queued.length < d) (shallow : ¬ 2 ≤ d) :
    keepLast d true queued a = queued := by
  rw [keepLast, if_neg full, if_neg (by decide), if_neg shallow]

theorem keepLast_sublist : (keepLast d held queued a).Sublist (queued ++ [a]) := by
  rw [keepLast]
  split_ifs
  · exact List.Sublist.refl _
  · exact (List.tail_sublist _).append (List.Sublist.refl _)
  · exact (List.dropLast_sublist _).append (List.Sublist.refl _)
  · exact List.sublist_append_left _ _

theorem keepLast_pending {q : List α} {n : α} (reading : held = true → q ≠ []) :
    (if held then (keepLast d held q n).tail else keepLast d held q n).Sublist
      ((if held then q.tail else q) ++ [n]) := by
  cases held with
  | false => exact keepLast_sublist
  | true =>
    cases q with
    | nil => exact absurd rfl (reading rfl)
    | cons first rest =>
      simp only [if_true, List.tail_cons]
      by_cases room : (first :: rest).length < d
      · rw [keepLast_room room]
        exact List.Sublist.refl _
      · by_cases deep : 2 ≤ d
        · rw [keepLast_replace room deep]
          cases rest with
          | nil => simp at room; omega
          | cons second rest =>
            exact (List.dropLast_sublist _).append (List.Sublist.refl _)
        · rw [keepLast_refuse room deep]
          exact List.sublist_append_left _ _

theorem keepLast_head {q : List α} {n : α} (first : q.head? = some a) :
    (keepLast d true q n).head? = some a := by
  obtain ⟨rest, rfl⟩ := List.head?_eq_some_iff.mp first
  by_cases room : (a :: rest).length < d
  · rw [keepLast_room room]
    rfl
  · by_cases deep : 2 ≤ d
    · rw [keepLast_replace room deep]
      cases rest with
      | nil => simp at room; omega
      | cons second rest => rfl
    · rw [keepLast_refuse room deep]
      rfl

end NanoRos
