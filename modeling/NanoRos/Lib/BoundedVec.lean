import Mathlib.Data.List.Perm.Basic
import Mathlib.Tactic

/-! A vector of at most `N` items (`heapless::Vec`). -/

namespace NanoRos

structure BoundedVec (α : Type) (N : Nat) where
  items : List α
  fits : items.length ≤ N

/-- Change the first item that passes, as a loop that stops there does. -/
def updateFirst {α : Type} (p : α → Bool) (f : α → α) : List α → List α
  | [] => []
  | a :: rest => if p a then f a :: rest else a :: updateFirst p f rest

theorem map_updateFirst {α β : Type} (p : α → Bool) (f : α → α) (view : α → β)
    (same : ∀ a, view (f a) = view a) (items : List α) :
    (updateFirst p f items).map view = items.map view := by
  induction items with
  | nil => rfl
  | cons a rest ih =>
    rw [updateFirst]
    split
    · rw [List.map_cons, List.map_cons, same]
    · rw [List.map_cons, List.map_cons, ih]

theorem mem_updateFirst {α : Type} {p : α → Bool} {f : α → α} {items : List α} {b : α}
    (member : b ∈ updateFirst p f items) : b ∈ items ∨ ∃ a ∈ items, b = f a := by
  induction items with
  | nil => cases member
  | cons a rest ih =>
    rw [updateFirst] at member
    split at member
    · rcases List.mem_cons.mp member with rfl | later
      · exact .inr ⟨a, List.mem_cons_self, rfl⟩
      · exact .inl (List.mem_cons_of_mem _ later)
    · rcases List.mem_cons.mp member with rfl | later
      · exact .inl List.mem_cons_self
      · rcases ih later with same | ⟨a', listed, changed⟩
        · exact .inl (List.mem_cons_of_mem _ same)
        · exact .inr ⟨a', List.mem_cons_of_mem _ listed, changed⟩

theorem mem_updateFirst_iff {α : Type} {p : α → Bool} {f : α → α} {items : List α} {a b : α}
    (listed : a ∈ items) (passes : p a = true)
    (alone : items.Pairwise fun x y => ¬ (p x = true ∧ p y = true)) :
    b ∈ updateFirst p f items ↔ (b ∈ items ∧ p b = false) ∨ b = f a := by
  induction items with
  | nil => cases listed
  | cons c rest ih =>
    obtain ⟨apart, later⟩ := List.pairwise_cons.mp alone
    rw [updateFirst]
    by_cases first : p c = true
    · have others : ∀ x ∈ rest, p x = false := by
        intro x member
        exact Bool.eq_false_iff.mpr fun too => apart x member ⟨first, too⟩
      have same : c = a := by
        obtain here | there := List.mem_cons.mp listed
        · exact here.symm
        · rw [others a there] at passes
          cases passes
      subst same
      rw [if_pos first, List.mem_cons, List.mem_cons]
      constructor
      · rintro (rfl | member)
        · exact Or.inr rfl
        · exact Or.inl ⟨Or.inr member, others b member⟩
      · rintro (⟨rfl | member, fails⟩ | rfl)
        · rw [first] at fails
          cases fails
        · exact Or.inr member
        · exact Or.inl rfl
    · have there : a ∈ rest := by
        obtain rfl | there := List.mem_cons.mp listed
        · exact absurd passes first
        · exact there
      rw [if_neg first, List.mem_cons, List.mem_cons, ih there later]
      constructor
      · rintro (rfl | ⟨member, fails⟩ | changed)
        · exact Or.inl ⟨Or.inl rfl, Bool.eq_false_iff.mpr first⟩
        · exact Or.inl ⟨Or.inr member, fails⟩
        · exact Or.inr changed
      · rintro (⟨rfl | member, fails⟩ | changed)
        · exact Or.inl rfl
        · exact Or.inr (Or.inl ⟨member, fails⟩)
        · exact Or.inr (Or.inr changed)

namespace BoundedVec

variable {α : Type} {N : Nat}

def empty : BoundedVec α N := ⟨[], Nat.zero_le _⟩

def len (v : BoundedVec α N) : Nat := v.items.length

/-- `none` when the vector is full. -/
def push (v : BoundedVec α N) (a : α) : Option (BoundedVec α N) :=
  if room : v.items.length < N then
    some ⟨v.items ++ [a], by rw [List.length_append, List.length_singleton]; exact room⟩
  else none

theorem push_of_room (v : BoundedVec α N) (a : α) (room : v.len < N) :
    ∃ v', v.push a = some v' ∧ v'.items = v.items ++ [a] := ⟨_, dif_pos room, rfl⟩

theorem items_of_push {v v' : BoundedVec α N} {a : α} (pushed : v.push a = some v') :
    v'.items = v.items ++ [a] := by
  rw [push] at pushed
  split at pushed
  · cases pushed
    rfl
  · cases pushed

def pop (v : BoundedVec α N) : BoundedVec α N :=
  ⟨v.items.dropLast, Nat.le_trans (by rw [List.length_dropLast]; omega) v.fits⟩

def remove (v : BoundedVec α N) (i : Nat) : BoundedVec α N :=
  ⟨v.items.eraseIdx i, Nat.le_trans (List.length_eraseIdx_le _ _) v.fits⟩

@[simp] theorem items_remove (v : BoundedVec α N) (i : Nat) :
    (v.remove i).items = v.items.eraseIdx i := rfl

/-- The last item takes the place of the removed one. -/
def swapRemove (v : BoundedVec α N) (i : Nat) : BoundedVec α N :=
  match v.items.getLast? with
  | none => v
  | some last => ⟨(v.items.set i last).dropLast, by
      have fits := v.fits
      rw [List.length_dropLast, List.length_set]
      omega⟩

def retain (v : BoundedVec α N) (keep : α → Bool) : BoundedVec α N :=
  ⟨v.items.filter keep, Nat.le_trans (List.length_filter_le _ _) v.fits⟩

def update (v : BoundedVec α N) (p : α → Bool) (f : α → α) : BoundedVec α N :=
  ⟨updateFirst p f v.items, by
    have same := congrArg List.length (map_updateFirst p f (fun _ => ()) (fun _ => rfl) v.items)
    rw [List.length_map, List.length_map] at same
    rw [same]
    exact v.fits⟩

variable (v : BoundedVec α N)

theorem swapRemove_items (front : List α) (last : α) (whole : v.items = front ++ [last]) (i : Nat)
    (inside : i ≤ front.length) : (v.swapRemove i).items = front.set i last := by
  have final : v.items.getLast? = some last := by rw [whole, List.getLast?_concat]
  have swapped : (v.swapRemove i).items = (v.items.set i last).dropLast := by
    rw [swapRemove]
    split
    case h_1 empty =>
      rw [empty] at final
      cases final
    case h_2 other same =>
      rw [same] at final
      cases final
      rfl
  rw [swapped, whole]
  rcases Nat.lt_or_eq_of_le inside with inner | rfl
  · rw [List.set_append_left _ _ inner, List.dropLast_concat]
  · rw [List.set_append_right _ _ (Nat.le_refl _), Nat.sub_self, List.set_cons_zero,
      List.dropLast_concat, List.set_eq_of_length_le (Nat.le_refl _)]

theorem swapRemove_perm (i : Nat) (inside : i < v.len) :
    (v.swapRemove i).items.Perm (v.items.eraseIdx i) ∧
      (v.swapRemove i).items.take i = v.items.take i := by
  rcases List.eq_nil_or_concat v.items with empty | ⟨front, last, whole⟩
  · rw [len, empty] at inside
    cases inside
  · rw [List.concat_eq_append] at whole
    have bound : i ≤ front.length := by
      rw [len, whole, List.length_append, List.length_singleton] at inside
      omega
    rw [v.swapRemove_items front last whole i bound, whole]
    rcases Nat.lt_or_eq_of_le bound with inner | rfl
    · constructor
      · rw [List.eraseIdx_append_of_lt_length inner]
        exact (List.set_perm_cons_eraseIdx inner last).trans (List.perm_append_singleton _ _).symm
      · rw [List.take_append_of_le_length (Nat.le_of_lt inner), List.take_set_of_le (Nat.le_refl _)]
    · rw [List.set_eq_of_length_le (Nat.le_refl _)]
      constructor
      · rw [List.eraseIdx_append_of_length_le (Nat.le_refl _), Nat.sub_self,
          List.eraseIdx_cons_zero, List.append_nil]
      · rw [List.take_left, List.take_length]

theorem map_swapRemove {β γ : Type} {M : Nat} {v : BoundedVec α N} {w : BoundedVec β M}
    {f : α → γ} {g : β → γ} (same : v.items.map f = w.items.map g) (i : Nat) (inside : i < v.len) :
    (v.swapRemove i).items.map f = (w.swapRemove i).items.map g := by
  have length := congrArg List.length same
  rw [List.length_map, List.length_map] at length
  rcases List.eq_nil_or_concat v.items with empty | ⟨front, last, whole⟩
  · rw [len, empty] at inside
    cases inside
  rcases List.eq_nil_or_concat w.items with empty | ⟨front', last', whole'⟩
  · rw [len, length, empty] at inside
    cases inside
  rw [List.concat_eq_append] at whole whole'
  rw [len, whole, List.length_append, List.length_singleton] at inside
  rw [whole, whole', List.length_append, List.length_append] at length
  rw [whole, whole', List.map_append, List.map_append] at same
  rcases List.append_inj' same rfl with ⟨fronts, lasts⟩
  rw [List.map_singleton, List.map_singleton, List.singleton_inj] at lasts
  rw [v.swapRemove_items front last whole i (Nat.lt_succ_iff.mp inside),
    w.swapRemove_items front' last' whole' i (by simp at length; omega), List.map_set, List.map_set,
    fronts, lasts]

theorem perm_cons_swapRemove (i : Nat) (a : α) (placed : v.items[i]? = some a)
    : v.items.Perm (a :: (v.swapRemove i).items) := by
  rcases List.getElem?_eq_some_iff.mp placed with ⟨inside, rfl⟩
  have swapped := (v.swapRemove_perm i inside).1
  exact (List.getElem_cons_eraseIdx_perm inside).symm.trans (swapped.symm.cons _)

end BoundedVec

end NanoRos
