import Mathlib.Data.List.Perm.Basic
import Mathlib.Data.List.Nodup
import Mathlib.Logic.Equiv.Basic
import Mathlib.Tactic

/-! A binary heap in the first `len` slots of an array, least key first: sifting keeps the entries
and restores the order around one slot. -/

namespace NanoRos.MinHeap

variable {α κ : Type}

def parent (i : Nat) : Nat := (i - 1) / 2

def swap (heap : Nat → α) (i j : Nat) : Nat → α := fun k => heap (Equiv.swap i j k)

def entries (heap : Nat → α) (len : Nat) : List α := (List.range len).map heap

theorem swap_left (heap : Nat → α) (i j : Nat) : swap heap i j i = heap j :=
  congrArg heap (Equiv.swap_apply_left i j)

theorem swap_right (heap : Nat → α) (i j : Nat) : swap heap i j j = heap i :=
  congrArg heap (Equiv.swap_apply_right i j)

theorem swap_other (heap : Nat → α) {i j k : Nat} (left : k ≠ i) (right : k ≠ j) :
    swap heap i j k = heap k :=
  congrArg heap (Equiv.swap_apply_of_ne_of_ne left right)

theorem swap_entries (heap : Nat → α) {i j len : Nat} (left : i < len) (right : j < len) :
    (entries (swap heap i j) len).Perm (entries heap len) := by
  have slots : ((List.range len).map (Equiv.swap i j)).Perm (List.range len) := by
    have once : ((List.range len).map (Equiv.swap i j)).Nodup :=
      List.nodup_range.map (Equiv.injective _)
    rw [List.perm_ext_iff_of_nodup once List.nodup_range]
    intro k
    rw [List.mem_map, List.mem_range]
    constructor
    · rintro ⟨l, inside, rfl⟩
      rw [Equiv.swap_apply_def]
      split
      · exact right
      · split
        · exact left
        · exact List.mem_range.mp inside
    · intro inside
      refine ⟨Equiv.swap i j k, ?_, Equiv.swap_apply_self i j k⟩
      rw [List.mem_range, Equiv.swap_apply_def]
      split
      · exact right
      · split
        · exact left
        · exact inside
  have moved := slots.map heap
  rw [List.map_map] at moved
  exact moved

theorem mem_entries {heap : Nat → α} {len : Nat} {a : α} :
    a ∈ entries heap len ↔ ∃ i, i < len ∧ heap i = a := by
  simp only [entries, List.mem_map, List.mem_range]

theorem entries_succ (heap : Nat → α) (len : Nat) :
    entries heap (len + 1) = entries heap len ++ [heap len] := by
  rw [entries, List.range_succ, List.map_append]
  rfl

theorem entries_update (heap : Nat → α) (len : Nat) (a : α) :
    entries (Function.update heap len a) len = entries heap len := by
  apply List.map_congr_left
  intro i inside
  exact Function.update_of_ne (List.mem_range.mp inside).ne _ _

section Order

variable [LinearOrder κ] (key : α → κ)

def Heaped (heap : Nat → α) (len : Nat) : Prop :=
  ∀ i, 0 < i → i < len → key (heap (parent i)) ≤ key (heap i)

instance (heap : Nat → α) (len : Nat) : Decidable (Heaped key heap len) :=
  decidable_of_iff (∀ i, i < len → 0 < i → key (heap (parent i)) ≤ key (heap i))
    ⟨fun all i positive inside => all i inside positive,
      fun all i inside positive => all i positive inside⟩

/-- Only the pair of `hole` and its parent may be out of order. -/
structure HeapedAbove (heap : Nat → α) (len hole : Nat) : Prop where
  inside : hole < len
  others : ∀ i, 0 < i → i < len → i ≠ hole → key (heap (parent i)) ≤ key (heap i)
  across : 0 < hole → ∀ i, 0 < i → i < len → parent i = hole →
    key (heap (parent hole)) ≤ key (heap i)

/-- Only the pairs of `hole` and its children may be out of order. -/
structure HeapedBelow (heap : Nat → α) (len hole : Nat) : Prop where
  others : ∀ i, 0 < i → i < len → parent i ≠ hole → key (heap (parent i)) ≤ key (heap i)
  across : 0 < hole → ∀ i, 0 < i → i < len → parent i = hole →
    key (heap (parent hole)) ≤ key (heap i)

variable {i : Nat} {heap : Nat → α} {len hole : Nat}

theorem parent_lt (positive : 0 < i) : parent i < i := by
  rw [parent]
  omega

def siftUp (heap : Nat → α) (i : Nat) : Nat → α :=
  if 0 < i then
    if key (heap i) < key (heap (parent i)) then siftUp (swap heap i (parent i)) (parent i)
    else heap
  else heap
termination_by i
decreasing_by exact parent_lt ‹_›

theorem siftUp_of_less (positive : 0 < i) (less : key (heap i) < key (heap (parent i))) :
    siftUp key heap i = siftUp key (swap heap i (parent i)) (parent i) := by
  rw [siftUp, if_pos positive, if_pos less]

theorem siftUp_of_ordered (positive : 0 < i) (ordered : ¬ key (heap i) < key (heap (parent i))) :
    siftUp key heap i = heap := by
  rw [siftUp, if_pos positive, if_neg ordered]

/-- The child in place of the best slot so far, if it is in the heap and has a smaller key. -/
def lesser (heap : Nat → α) (len best child : Nat) : Nat :=
  if child < len ∧ key (heap child) < key (heap best) then child else best

/-- The one of `i` and its children that has the least key. -/
def smallest (heap : Nat → α) (len i : Nat) : Nat :=
  lesser key heap len (lesser key heap len i (2 * i + 1)) (2 * i + 2)

theorem lesser_cases (heap : Nat → α) (len best child : Nat) :
    lesser key heap len best child = best ∨
      (lesser key heap len best child = child ∧ child < len) := by
  rw [lesser]
  split
  case isTrue chosen => exact .inr ⟨rfl, chosen.1⟩
  case isFalse => exact .inl rfl

theorem lesser_le (heap : Nat → α) (len best child : Nat) :
    key (heap (lesser key heap len best child)) ≤ key (heap best) := by
  rw [lesser]
  split
  case isTrue chosen => exact chosen.2.le
  case isFalse => exact le_rfl

theorem lesser_le_child (heap : Nat → α) {child : Nat} (best : Nat) (inside : child < len) :
    key (heap (lesser key heap len best child)) ≤ key (heap child) := by
  rw [lesser]
  split
  case isTrue => exact le_rfl
  case isFalse kept => exact not_lt.mp fun below => kept ⟨inside, below⟩

theorem smallest_cases (heap : Nat → α) (len i : Nat) :
    smallest key heap len i = i ∨
      (smallest key heap len i < len ∧ i < smallest key heap len i ∧
        parent (smallest key heap len i) = i) := by
  rw [smallest, parent]
  rcases lesser_cases key heap len (lesser key heap len i (2 * i + 1)) (2 * i + 2) with
    same | ⟨right, inside⟩
  · rw [same]
    rcases lesser_cases key heap len i (2 * i + 1) with kept | ⟨left, inside⟩
    · exact .inl kept
    · right
      rw [left]
      exact ⟨inside, by omega, by omega⟩
  · right
    rw [right]
    exact ⟨inside, by omega, by omega⟩

theorem smallest_le (heap : Nat → α) (len i : Nat) :
    key (heap (smallest key heap len i)) ≤ key (heap i) :=
  (lesser_le key heap len _ _).trans (lesser_le key heap len _ _)

theorem children_eq {c : Nat} (positive : 0 < c) (child : parent c = i) :
    c = 2 * i + 1 ∨ c = 2 * i + 2 := by
  rw [parent] at child
  omega

theorem smallest_le_child (heap : Nat → α) {c : Nat} (positive : 0 < c) (inside : c < len)
    (child : parent c = i) : key (heap (smallest key heap len i)) ≤ key (heap c) := by
  rcases children_eq positive child with rfl | rfl
  · exact (lesser_le key heap len _ _).trans (lesser_le_child key heap i inside)
  · exact lesser_le_child key heap _ inside

def siftDown (len : Nat) (heap : Nat → α) (i : Nat) : Nat → α :=
  let least := smallest key heap len i
  if least = i then heap else siftDown len (swap heap i least) least
termination_by len - i
decreasing_by
  rcases smallest_cases key heap len i with same | ⟨inside, below, _⟩
  · exact absurd same ‹_›
  · omega

theorem siftDown_of_stays (stays : smallest key heap len i = i) :
    siftDown key len heap i = heap := by
  rw [siftDown, if_pos stays]

theorem siftDown_of_moves (moves : smallest key heap len i ≠ i) :
    siftDown key len heap i =
      siftDown key len (swap heap i (smallest key heap len i)) (smallest key heap len i) := by
  rw [siftDown, if_neg moves]

theorem heapedAbove_step (above : HeapedAbove key heap len hole) (positive : 0 < hole)
    (less : key (heap hole) < key (heap (parent hole))) :
    HeapedAbove key (swap heap hole (parent hole)) len (parent hole) := by
  have up := parent_lt positive
  refine ⟨up.trans above.inside, fun i later inside apart => ?_, fun top i later inside child => ?_⟩
  · by_cases moved : i = hole
    · rw [moved, swap_right, swap_left]
      exact less.le
    · rw [swap_other heap moved apart]
      by_cases below : parent i = hole
      · rw [below, swap_left]
        exact above.across positive i later inside below
      · by_cases sibling : parent i = parent hole
        · rw [sibling, swap_right]
          apply less.le.trans
          rw [← sibling]
          exact above.others i later inside moved
        · rw [swap_other heap below sibling]
          exact above.others i later inside moved
  · have up' := parent_lt top
    rw [swap_other heap (by omega : parent (parent hole) ≠ hole) up'.ne]
    have outer := above.others (parent hole) top (up.trans above.inside) up.ne
    by_cases moved : i = hole
    · rw [moved, swap_left]
      exact outer
    · have here : i ≠ parent hole := by
        intro same
        rw [same] at child
        omega
      rw [swap_other heap moved here]
      apply outer.trans
      rw [← child]
      exact above.others i later inside moved

theorem siftUp_heaped (above : HeapedAbove key heap len hole) :
    Heaped key (siftUp key heap hole) len := by
  induction heap, hole using siftUp.induct key with
  | case1 heap hole positive less ih =>
    rw [siftUp_of_less key positive less]
    exact ih (heapedAbove_step key above positive less)
  | case2 heap hole positive ordered =>
    rw [siftUp_of_ordered key positive ordered]
    intro i later inside
    by_cases here : i = hole
    · rw [here]
      exact not_lt.mp ordered
    · exact above.others i later inside here
  | case3 heap hole top =>
    rw [siftUp, if_neg top]
    intro i later inside
    exact above.others i later inside (by omega)

theorem siftUp_entries (heap : Nat → α) (inside : i < len) :
    (entries (siftUp key heap i) len).Perm (entries heap len) := by
  induction heap, i using siftUp.induct key with
  | case1 heap i positive less ih =>
    rw [siftUp_of_less key positive less]
    have up := (parent_lt positive).trans inside
    exact (ih up).trans (swap_entries heap inside up)
  | case2 heap i positive ordered => rw [siftUp_of_ordered key positive ordered]
  | case3 heap i top => rw [siftUp, if_neg top]

theorem heapedBelow_step (below : HeapedBelow key heap len hole)
    (moves : smallest key heap len hole ≠ hole) :
    HeapedBelow key (swap heap hole (smallest key heap len hole)) len
      (smallest key heap len hole) := by
  have small := smallest_le key heap len hole
  have least (c : Nat) := @smallest_le_child α κ _ key hole len heap c
  rcases smallest_cases key heap len hole with same | ⟨inside, deeper, child⟩
  · exact absurd same moves
  generalize smallest key heap len hole = chosen at *
  constructor
  · intro i later within apart
    by_cases moved : i = chosen
    · rw [moved, child, swap_left, swap_right]
      exact small
    · by_cases sibling : parent i = hole
      · have here : i ≠ hole := by
          have := parent_lt later
          omega
        rw [sibling, swap_left, swap_other heap here moved]
        exact least i later within sibling
      · rw [swap_other heap sibling apart]
        by_cases here : i = hole
        · subst here
          rw [swap_left]
          exact below.across later chosen (by omega) inside child
        · rw [swap_other heap here moved]
          exact below.others i later within sibling
  · intro _ i later within under
    have deep := parent_lt later
    rw [child, swap_left, swap_other heap (by omega : i ≠ hole) (by omega : i ≠ chosen), ← under]
    exact below.others i later within (by omega)

theorem siftDown_heaped (below : HeapedBelow key heap len hole) :
    Heaped key (siftDown key len heap hole) len := by
  induction heap, hole using siftDown.induct key len with
  | case1 heap hole least stays =>
    rw [siftDown_of_stays key stays]
    intro i later inside
    by_cases child : parent i = hole
    · rw [child]
      have small := smallest_le_child key heap later inside child
      rwa [show smallest key heap len hole = hole from stays] at small
    · exact below.others i later inside child
  | case2 heap hole least moves ih =>
    rw [siftDown_of_moves key moves]
    exact ih (heapedBelow_step key below moves)

theorem siftDown_entries (heap : Nat → α) (inside : i < len) :
    (entries (siftDown key len heap i) len).Perm (entries heap len) := by
  induction heap, i using siftDown.induct key len with
  | case1 heap i least stays => rw [siftDown_of_stays key stays]
  | case2 heap i least moves ih =>
    rw [siftDown_of_moves key moves]
    rcases smallest_cases key heap len i with same | ⟨deeper, _, _⟩
    · exact absurd same moves
    · exact (ih deeper).trans (swap_entries heap inside deeper)

theorem root_le (heaped : Heaped key heap len) (i : Nat) (inside : i < len) :
    key (heap 0) ≤ key (heap i) := by
  induction i using Nat.strong_induction_on with
  | _ i ih =>
    rcases Nat.eq_zero_or_pos i with rfl | positive
    · exact le_rfl
    · have up := parent_lt positive
      exact (ih (parent i) up (up.trans inside)).trans (heaped i positive inside)

theorem heapedAbove_push (heaped : Heaped key heap len) (a : α) :
    HeapedAbove key (Function.update heap len a) (len + 1) len := by
  refine ⟨Nat.lt_succ_self _, fun i later inside apart => ?_, fun _ i later inside child => ?_⟩
  · have up := parent_lt later
    rw [Function.update_of_ne (by omega), Function.update_of_ne apart]
    exact heaped i later (by omega)
  · have up := parent_lt later
    omega

theorem heapedBelow_replace (heaped : Heaped key heap (len + 1)) (a : α) :
    HeapedBelow key (Function.update heap 0 a) len 0 := by
  refine ⟨fun i later inside apart => ?_, fun positive => absurd positive (Nat.lt_irrefl 0)⟩
  rw [Function.update_of_ne apart, Function.update_of_ne later.ne']
  exact heaped i later (by omega)

/-! ### Renaming: sifting looks at keys only -/

section Renaming

variable {β : Type} {key} {key' : β → κ} {f : α → β} {heap : Nat → α} {other : Nat → β}
  {len i : Nat}

/-- The first `len` slots of `other` hold the images of those of `heap`. -/
def Renames (f : α → β) (len : Nat) (heap : Nat → α) (other : Nat → β) : Prop :=
  ∀ i, i < len → other i = f (heap i)

omit [LinearOrder κ] in
theorem Renames.key_eq (renames : Renames f len heap other) (keys : ∀ a, key' (f a) = key a)
    (inside : i < len) : key' (other i) = key (heap i) := by
  rw [renames i inside, keys]

theorem Renames.swap (renames : Renames f len heap other) {j : Nat} (left : i < len)
    (right : j < len) : Renames f len (swap heap i j) (swap other i j) := by
  intro k inside
  apply renames
  rw [Equiv.swap_apply_def]
  split
  · exact right
  · split
    · exact left
    · exact inside

theorem Renames.siftUp (renames : Renames f len heap other) (keys : ∀ a, key' (f a) = key a)
    (inside : i < len) : Renames f len (siftUp key heap i) (siftUp key' other i) := by
  induction heap, i using siftUp.induct key generalizing other with
  | case1 heap i positive less ih =>
    have up := (parent_lt positive).trans inside
    rw [siftUp_of_less key positive less, siftUp_of_less key' positive]
    · exact ih (renames.swap inside up) up
    · rw [renames.key_eq keys inside, renames.key_eq keys up]
      exact less
  | case2 heap i positive ordered =>
    have up := (parent_lt positive).trans inside
    rw [siftUp_of_ordered key positive ordered, siftUp_of_ordered key' positive]
    · exact renames
    · rw [renames.key_eq keys inside, renames.key_eq keys up]
      exact ordered
  | case3 heap i top =>
    rw [MinHeap.siftUp, if_neg top, MinHeap.siftUp, if_neg top]
    exact renames

theorem Renames.lesser (renames : Renames f len heap other) (keys : ∀ a, key' (f a) = key a)
    {best : Nat} (inside : best < len) (child : Nat) :
    lesser key' other len best child = lesser key heap len best child := by
  rw [MinHeap.lesser, MinHeap.lesser, renames.key_eq keys inside]
  by_cases within : child < len
  · rw [renames.key_eq keys within]
  · rw [if_neg fun both => within both.1, if_neg fun both => within both.1]

theorem lesser_lt {best : Nat} (inside : best < len) (child : Nat) :
    lesser key heap len best child < len := by
  rcases lesser_cases key heap len best child with same | ⟨same, within⟩
  · rw [same]
    exact inside
  · rw [same]
    exact within

theorem Renames.smallest (renames : Renames f len heap other) (keys : ∀ a, key' (f a) = key a)
    (inside : i < len) : smallest key' other len i = smallest key heap len i := by
  rw [MinHeap.smallest, renames.lesser keys inside, renames.lesser keys (lesser_lt inside _),
    MinHeap.smallest]

theorem Renames.siftDown (renames : Renames f len heap other) (keys : ∀ a, key' (f a) = key a)
    (inside : i < len) : Renames f len (siftDown key len heap i) (siftDown key' len other i) := by
  revert other
  induction heap, i using siftDown.induct key len with
  | case1 heap i least stays =>
    intro other renames
    have same := (renames.smallest keys inside).trans stays
    rw [siftDown_of_stays key stays, siftDown_of_stays key' same]
    exact renames
  | case2 heap i least moves ih =>
    intro other renames
    have same := renames.smallest keys inside
    have within : MinHeap.smallest key heap len i < len := lesser_lt (lesser_lt inside _) _
    rw [siftDown_of_moves key moves, siftDown_of_moves key' (same.symm ▸ moves), same]
    exact ih within (renames.swap inside within)

end Renaming

end Order

theorem entries_cons (heap : Nat → α) (len : Nat) :
    entries heap (len + 1) = heap 0 :: (List.range len).map fun i => heap (i + 1) := by
  rw [entries, List.range_succ_eq_map, List.map_cons, List.map_map]
  rfl

theorem entries_replace (heap : Nat → α) (len : Nat) :
    (entries heap (len + 2)).Perm
      (heap 0 :: entries (Function.update heap 0 (heap (len + 1))) (len + 1)) := by
  have rest : entries (Function.update heap 0 (heap (len + 1))) (len + 1) =
      heap (len + 1) :: (List.range len).map fun i => heap (i + 1) := by
    rw [entries_cons, Function.update_self]
    apply congrArg
    apply List.map_congr_left
    intro i _
    exact Function.update_of_ne (Nat.succ_ne_zero i) _ _
  rw [rest, entries_succ, entries_cons, List.cons_append]
  exact (List.perm_append_singleton _ _).cons _

end NanoRos.MinHeap
