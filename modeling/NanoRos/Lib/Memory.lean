import Mathlib.Data.List.Basic
import Mathlib.Tactic

/-! Blocks of memory as lists: overwriting a range in place, reading a range back, and the
overlapping copy. -/

namespace NanoRos.Memory

variable {α : Type}

def overwrite (buf : List α) (pos : Nat) (items : List α) : List α :=
  buf.take pos ++ items ++ buf.drop (pos + items.length)

def slice (buf : List α) (pos len : Nat) : List α := (buf.drop pos).take len

/-- Copy `[lo, hi)` to `dst`; the source is read before anything is stored. -/
def copyWithin (buf : List α) (lo hi dst : Nat) : List α :=
  overwrite buf dst (slice buf lo (hi - lo))

variable (buf : List α)

variable (pos : Nat)

variable (items : List α)

theorem getElem?_overwrite (i : Nat) (fits : pos ≤ buf.length) : (overwrite buf pos items)[i]? =
      if pos ≤ i ∧ i < pos + items.length then items[i - pos]? else buf[i]? := by
  unfold overwrite
  simp only [List.getElem?_append, List.length_append, List.length_take, List.getElem?_take,
    List.getElem?_drop, Nat.min_eq_left fits]
  by_cases low : i < pos
  · simp [low, show i < pos + items.length by omega, show ¬ pos ≤ i by omega]
  · by_cases inside : i < pos + items.length
    · simp [low, inside, show pos ≤ i by omega]
    · have index : pos + items.length + (i - (pos + items.length)) = i := by omega
      simp [inside, index]

theorem length_overwrite (fits : pos + items.length ≤ buf.length)
    : (overwrite buf pos items).length = buf.length := by
  simp only [overwrite, List.length_append, List.length_take, List.length_drop]
  omega

theorem overwrite_nil : overwrite buf pos [] = buf := by
  simp [overwrite]

theorem overwrite_append (first second : List α) (fits : pos + first.length ≤ buf.length) :
    overwrite (overwrite buf pos first) (pos + first.length) second =
      overwrite buf pos (first ++ second) := by
  apply List.ext_getElem?
  intro i
  rw [getElem?_overwrite _ _ _ _ (by rw [length_overwrite _ _ _ fits]; exact fits),
    getElem?_overwrite _ _ _ _ (by omega), getElem?_overwrite _ _ _ _ (by omega)]
  by_cases low : i < pos
  · simp [show ¬ pos ≤ i by omega, show ¬ pos + first.length ≤ i by omega]
  · by_cases inFirst : i < pos + first.length
    · simp [show ¬ pos + first.length ≤ i by omega, show pos ≤ i by omega, inFirst,
        show i < pos + (first.length + second.length) by omega,
        List.getElem?_append_left (show i - pos < first.length by omega)]
    · have index : i - pos - first.length = i - (pos + first.length) := by omega
      simp [show pos + first.length ≤ i by omega, show pos ≤ i by omega, inFirst,
        List.getElem?_append_right (show first.length ≤ i - pos by omega), index, Nat.add_assoc]

theorem overwrite_patch (front middle patch back : List α) (same : patch.length = middle.length)
    (fits : pos + (front ++ middle ++ back).length ≤ buf.length) :
    overwrite (overwrite buf pos (front ++ middle ++ back)) (pos + front.length) patch =
      overwrite buf pos (front ++ patch ++ back) := by
  have inside : pos + front.length ≤ buf.length := by
    simp only [List.length_append] at fits
    omega
  apply List.ext_getElem?
  intro i
  rw [getElem?_overwrite _ _ _ _ (by rw [length_overwrite _ _ _ fits]; exact inside),
    getElem?_overwrite _ _ _ _ (by omega), getElem?_overwrite _ _ _ _ (by omega)]
  simp only [List.length_append, same]
  by_cases patched : pos + front.length ≤ i ∧ i < pos + front.length + middle.length
  · have index : i - pos - front.length = i - (pos + front.length) := by omega
    rw [if_pos patched, if_pos (by omega), List.getElem?_append_left (by simp; omega),
      List.getElem?_append_right (by omega), index]
  · rw [if_neg patched]
    by_cases written : pos ≤ i ∧ i < pos + (front.length + middle.length + back.length)
    · rw [if_pos written, if_pos written]
      by_cases low : i < pos + front.length
      · rw [List.append_assoc, List.append_assoc, List.getElem?_append_left (by omega),
          List.getElem?_append_left (by omega)]
      · rw [List.getElem?_append_right (by simp; omega),
          List.getElem?_append_right (by simp; omega)]
        simp [same]
    · rw [if_neg written, if_neg written]

theorem length_slice (pos len : Nat) (fits : pos + len ≤ buf.length) :
    (slice buf pos len).length = len := by
  simp only [slice, List.length_take, List.length_drop]
  omega

theorem getElem?_slice (pos len i : Nat) :
    (slice buf pos len)[i]? = if i < len then buf[pos + i]? else none := by
  simp only [slice, List.getElem?_take, List.getElem?_drop]

theorem slice_overwrite_same (fits : pos ≤ buf.length)
    : slice (overwrite buf pos items) pos items.length = items := by
  apply List.ext_getElem?
  intro i
  rw [getElem?_slice, getElem?_overwrite _ _ _ _ fits]
  by_cases inside : i < items.length
  · simp [inside]
  · simp [inside]

theorem slice_overwrite_disjoint (lo len : Nat) (fits : pos ≤ buf.length)
    (apart : lo + len ≤ pos ∨ pos + items.length ≤ lo) :
    slice (overwrite buf pos items) lo len = slice buf lo len := by
  apply List.ext_getElem?
  intro i
  rw [getElem?_slice, getElem?_slice]
  by_cases inside : i < len
  · rw [if_pos inside, if_pos inside, getElem?_overwrite _ _ _ _ fits, if_neg (by omega)]
  · rw [if_neg inside, if_neg inside]

theorem take_overwrite (fits : pos ≤ buf.length) :
    (overwrite buf pos items).take (pos + items.length) = buf.take pos ++ items := by
  have front : (buf.take pos ++ items).length = pos + items.length := by
    simp [Nat.min_eq_left fits]
  rw [overwrite, ← front, List.take_left]

theorem append_isPrefix_drop (first second : List α) :
    first ++ second <+: buf.drop pos ↔
      first <+: buf.drop pos ∧ second <+: buf.drop (pos + first.length) := by
  constructor
  · rintro ⟨rest, whole⟩
    refine ⟨⟨second ++ rest, by rw [← whole, List.append_assoc]⟩, ⟨rest, ?_⟩⟩
    rw [← List.drop_drop, ← whole, List.append_assoc, List.drop_left]
  · rintro ⟨⟨rest, whole⟩, ⟨tail, after⟩⟩
    refine ⟨tail, ?_⟩
    rw [← List.drop_drop, ← whole, List.drop_left] at after
    rw [List.append_assoc, after, whole]

theorem length_of_isPrefix_drop (present : items <+: buf.drop pos) (within : pos ≤ buf.length) :
    pos + items.length ≤ buf.length := by
  have bound := present.length_le
  rw [List.length_drop] at bound
  omega

theorem slice_of_isPrefix_drop (present : items <+: buf.drop pos)
    : slice buf pos items.length = items := by
  obtain ⟨rest, whole⟩ := present
  rw [slice, ← whole, List.take_left]

theorem getD_of_isPrefix_drop (fill : α) (front : items <+: buf.drop pos) {i : Nat}
    (inside : i < items.length) :
    buf.getD (pos + i) fill = items.getD i fill := by
  rcases front with ⟨rest, split⟩
  rw [List.getD_eq_getElem?_getD, List.getD_eq_getElem?_getD, ← List.getElem?_drop, ← split,
    List.getElem?_append_left inside]

end NanoRos.Memory
