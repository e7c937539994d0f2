import NanoRos.Lib.Memory

/-! A fixed array of slots with a live prefix: append behind the prefix, remove by shifting the tail
down, forget everything at once. -/

namespace NanoRos

open Memory

structure SlotTable (α : Type) where
  slots : List α
  len : Nat
  fits : len ≤ slots.length

namespace SlotTable

variable {α : Type}

def capacity (t : SlotTable α) : Nat := t.slots.length

def live (t : SlotTable α) : List α := t.slots.take t.len

def empty (slots : List α) : SlotTable α := ⟨slots, 0, Nat.zero_le _⟩

theorem length_live (t : SlotTable α) : t.live.length = t.len := by
  rw [live, List.length_take, Nat.min_eq_left t.fits]

theorem getElem?_live (t : SlotTable α) (i : Nat) :
    t.live[i]? = if i < t.len then t.slots[i]? else none := by
  rw [live, List.getElem?_take]

/-- Store behind the live prefix; `none` when every slot is taken. -/
def push (t : SlotTable α) (a : α) : Option (SlotTable α) :=
  if room : t.len < t.slots.length then
    some ⟨t.slots.set t.len a, t.len + 1, by rw [List.length_set]; exact room⟩
  else none

theorem push_of_room (t : SlotTable α) (a : α) (room : t.len < t.capacity) :
    ∃ t', t.push a = some t' ∧ t'.live = t.live ++ [a] := by
  refine ⟨_, dif_pos room, ?_⟩
  apply List.ext_getElem?
  intro i
  rw [getElem?_live, List.getElem?_append, length_live, getElem?_live]
  rcases Nat.lt_trichotomy i t.len with below | same | above
  · simp [below, show i < t.len + 1 by omega, show ¬ t.len = i by omega]
  · have inside : i < t.slots.length := by
      rw [same]
      exact room
    simp [same]
    exact List.getElem?_set_self (by rw [← same]; exact inside)
  · simp [show ¬ i < t.len + 1 by omega, show ¬ i < t.len by omega, show i - t.len ≠ 0 by omega]

theorem capacity_of_push {t t' : SlotTable α} {a : α} (stored : t.push a = some t') :
    t'.capacity = t.capacity := by
  rw [push] at stored
  split at stored
  · cases stored
    exact List.length_set
  · cases stored

theorem length_shift (slots : List α) (len i : Nat) (fits : len ≤ slots.length) :
    (copyWithin slots (i + 1) len i).length = slots.length := by
  by_cases inside : i < len
  · have moved := length_slice slots (i + 1) (len - (i + 1)) (by omega)
    exact length_overwrite _ _ _ (by rw [moved]; omega)
  · have none : len - (i + 1) = 0 := by omega
    simp [copyWithin, none, slice, overwrite_nil]

/-- Shift everything behind slot `i` down by one. -/
def removeAt (t : SlotTable α) (i : Nat) : SlotTable α :=
  ⟨copyWithin t.slots (i + 1) t.len i, t.len - 1, by
    have fits := t.fits
    rw [length_shift t.slots t.len i fits]
    omega⟩

theorem capacity_removeAt (t : SlotTable α) (i : Nat) : (t.removeAt i).capacity = t.capacity :=
  length_shift t.slots t.len i t.fits

theorem live_removeAt (t : SlotTable α) (i : Nat) (inside : i < t.len) :
    (t.removeAt i).live = t.live.eraseIdx i := by
  have fits := t.fits
  have moved := length_slice t.slots (i + 1) (t.len - (i + 1)) (by omega)
  apply List.ext_getElem?
  intro j
  have after : (t.removeAt i).live[j]? =
      if j < t.len - 1 then (copyWithin t.slots (i + 1) t.len i)[j]? else none :=
    getElem?_live _ j
  rw [after, List.getElem?_eraseIdx, getElem?_live, getElem?_live, copyWithin,
    getElem?_overwrite _ _ _ _ (by omega), moved, getElem?_slice]
  by_cases low : j < i
  · simp [low, show j < t.len - 1 by omega, show j < t.len by omega, show ¬ i ≤ j by omega]
  · by_cases high : j < t.len - 1
    · have index : i + 1 + (j - i) = j + 1 := by omega
      rw [if_pos high, if_pos (by omega), if_pos (by omega), if_neg low, if_pos (by omega), index]
    · rw [if_neg high, if_neg low, if_neg (by omega)]

/-- Forget every entry; the slots keep what they hold. -/
def clear (t : SlotTable α) : SlotTable α := ⟨t.slots, 0, Nat.zero_le _⟩

@[simp] theorem live_clear (t : SlotTable α) : t.clear.live = [] := rfl

end SlotTable

theorem eraseIdx_eq_filter {α β : Type} [DecidableEq β] (key : α → β) (entries : List α)
    (distinct : (entries.map key).Nodup) (i : Nat) (entry : α) (placed : entries[i]? = some entry) :
    entries.eraseIdx i = entries.filter fun other => key other != key entry := by
  induction entries generalizing i with
  | nil => cases placed
  | cons head tail ih =>
    rw [List.map_cons, List.nodup_cons] at distinct
    rcases i with _ | i
    · cases placed
      rw [List.eraseIdx_cons_zero, List.filter_cons_of_neg (by simp), List.filter_eq_self.mpr]
      intro other member
      rw [bne_iff_ne]
      intro same
      exact distinct.1 (List.mem_map.mpr ⟨other, member, same⟩)
    · have member : entry ∈ tail := List.mem_of_getElem? placed
      have differs : key head ≠ key entry := fun same =>
        distinct.1 (List.mem_map.mpr ⟨entry, member, same.symm⟩)
      rw [List.eraseIdx_cons_succ, ih distinct.2 i placed,
        List.filter_cons_of_pos (by simpa using differs)]

end NanoRos
