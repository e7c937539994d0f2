import Mathlib.Data.List.GetD
import Mathlib.Data.List.Rotate
import Mathlib.Tactic

/-! A ring of cells with a writer's and a reader's index and one cell kept free, so that equal
indices mean empty. -/

namespace NanoRos

structure Ring (α : Type) where
  cells : List α
  head : Nat
  tail : Nat
  headInside : head < cells.length
  tailInside : tail < cells.length

namespace Ring

variable {α : Type}

def capacity (r : Ring α) : Nat := r.cells.length

theorem capacity_pos (r : Ring α) : 0 < r.capacity := Nat.zero_lt_of_lt r.headInside

def full (r : Ring α) : Bool := (r.head + 1) % r.capacity == r.tail

def isEmpty (r : Ring α) : Bool := r.head == r.tail

/-- Change the cell at `head`, which is not the reader's to see yet. -/
def modifyHead (r : Ring α) (f : α → α) : Ring α where
  cells := r.cells.modify r.head f
  head := r.head
  tail := r.tail
  headInside := by rw [List.length_modify]; exact r.headInside
  tailInside := by rw [List.length_modify]; exact r.tailInside

def commit (r : Ring α) : Ring α :=
  { r with head := (r.head + 1) % r.capacity, headInside := Nat.mod_lt _ r.capacity_pos }

def front (r : Ring α) : α := r.cells.get ⟨r.tail, r.tailInside⟩

def headCell (r : Ring α) : α := r.cells.get ⟨r.head, r.headInside⟩

def release (r : Ring α) : Ring α :=
  { r with tail := (r.tail + 1) % r.capacity, tailInside := Nat.mod_lt _ r.capacity_pos }

/-- The accesses of a party that goes by an index it loaded earlier. -/
def cellAt [Inhabited α] (r : Ring α) (i : Nat) : α := r.cells.getD i default

def modifyAt (r : Ring α) (i : Nat) (f : α → α) : Ring α where
  cells := r.cells.modify i f
  head := r.head
  tail := r.tail
  headInside := by rw [List.length_modify]; exact r.headInside
  tailInside := by rw [List.length_modify]; exact r.tailInside

def storeHead (r : Ring α) (loaded : Nat) : Ring α :=
  { r with head := (loaded + 1) % r.capacity, headInside := Nat.mod_lt _ r.capacity_pos }

def storeTail (r : Ring α) (loaded : Nat) : Ring α :=
  { r with tail := (loaded + 1) % r.capacity, tailInside := Nat.mod_lt _ r.capacity_pos }

def count (r : Ring α) : Nat :=
  if r.tail ≤ r.head then r.head - r.tail else r.head + r.capacity - r.tail

def contents (r : Ring α) : List α := (r.cells.rotate r.tail).take r.count

theorem succ_mod (i n : Nat) (inside : i < n) : (i + 1) % n = if i + 1 = n then 0 else i + 1 := by
  split
  case isTrue last => rw [last, Nat.mod_self]
  case isFalse => exact Nat.mod_eq_of_lt (by omega)

theorem add_mod_of_lt (i j n : Nat) (left : i < n) (right : j < n) :
    (i + j) % n = if i + j < n then i + j else i + j - n := by
  split
  case isTrue below => exact Nat.mod_eq_of_lt below
  case isFalse above =>
    rw [Nat.mod_eq_sub_mod (Nat.not_lt.mp above)]
    exact Nat.mod_eq_of_lt (by omega)

variable (r : Ring α)

theorem count_lt : r.count < r.capacity := by
  have head := r.headInside
  have tail := r.tailInside
  simp only [count, capacity]
  split <;> omega

theorem length_contents : r.contents.length = r.count := by
  rw [contents, List.length_take, List.length_rotate, Nat.min_eq_left]
  exact Nat.le_of_lt r.count_lt

theorem getElem?_contents (i : Nat) :
    r.contents[i]? = if i < r.count then r.cells[(i + r.tail) % r.capacity]? else none := by
  rw [contents, List.getElem?_take]
  split
  case isTrue inside => exact List.getElem?_rotate (lt_trans inside r.count_lt)
  case isFalse => rfl

theorem full_iff : r.full = true ↔ r.count + 1 = r.capacity := by
  have head := r.headInside
  have tail := r.tailInside
  simp only [full, beq_iff_eq, capacity, succ_mod _ _ head, count]
  split <;> split <;> omega

theorem isEmpty_iff : r.isEmpty = true ↔ r.contents = [] := by
  have head := r.headInside
  have tail := r.tailInside
  rw [← List.length_eq_zero_iff, length_contents]
  simp only [isEmpty, beq_iff_eq, count, capacity]
  split <;> omega

variable (f : α → α)

@[simp] theorem capacity_modifyHead :
    (r.modifyHead f).capacity = r.capacity := List.length_modify ..

@[simp] theorem capacity_commit : r.commit.capacity = r.capacity := rfl

@[simp] theorem capacity_release : r.release.capacity = r.capacity := rfl

theorem count_modifyHead : (r.modifyHead f).count = r.count := by
  rw [count, capacity_modifyHead]
  rfl

theorem index_ne_head (i : Nat) (inside : i < r.count) : (i + r.tail) % r.capacity ≠ r.head := by
  have head := r.headInside
  have tail := r.tailInside
  have wrapped := add_mod_of_lt i r.tail r.cells.length (lt_trans inside r.count_lt) tail
  rw [capacity, wrapped]
  simp only [count, capacity] at inside
  by_cases low : i + r.tail < r.cells.length
  · rw [if_pos low]
    split at inside <;> omega
  · rw [if_neg low]
    split at inside <;> omega

theorem contents_modifyHead : (r.modifyHead f).contents = r.contents := by
  apply List.ext_getElem?
  intro i
  rw [getElem?_contents, getElem?_contents, count_modifyHead, capacity_modifyHead]
  by_cases inside : i < r.count
  · rw [if_pos inside, if_pos inside]
    exact List.getElem?_modify_ne _ _ (r.index_ne_head i inside).symm
  · rw [if_neg inside, if_neg inside]

theorem count_commit (room : r.full = false) : r.commit.count = r.count + 1 := by
  have head := r.headInside
  have tail := r.tailInside
  have notFull : ¬ r.count + 1 = r.capacity := by
    rw [← full_iff, room]
    decide
  simp only [count, commit, capacity, succ_mod _ _ head] at notFull ⊢
  split at notFull <;> split <;> split <;> omega

theorem index_count : (r.count + r.tail) % r.capacity = r.head := by
  have head := r.headInside
  have tail := r.tailInside
  rw [add_mod_of_lt _ _ _ r.count_lt tail]
  simp only [count, capacity]
  split <;> split <;> omega

theorem contents_commit (room : r.full = false) :
    r.commit.contents = r.contents ++ [r.headCell] := by
  have counted := r.count_commit room
  apply List.ext_getElem?
  intro i
  rw [getElem?_contents, List.getElem?_append, length_contents, getElem?_contents, counted,
    capacity_commit]
  rcases Nat.lt_trichotomy i r.count with below | rfl | above
  · rw [if_pos (Nat.lt_succ_of_lt below), if_pos below, if_pos below]
    rfl
  · rw [if_pos (Nat.lt_succ_self _), if_neg (Nat.lt_irrefl _), Nat.sub_self]
    simp only [commit, List.getElem?_cons_zero, r.index_count]
    exact List.getElem?_eq_getElem r.headInside
  · rw [if_neg (by omega), if_neg (by omega)]
    exact (List.getElem?_eq_none (by simp only [List.length_cons, List.length_nil]; omega)).symm

theorem headCell_modifyHead : (r.modifyHead f).headCell = f r.headCell := by
  simp only [headCell, modifyHead, List.get_eq_getElem, List.getElem_modify_eq]

theorem contents_release (some' : r.isEmpty = false) :
    r.contents = r.front :: r.release.contents := by
  have head := r.headInside
  have tail := r.tailInside
  have different : r.head ≠ r.tail := by
    intro same
    simp [isEmpty, same] at some'
  have counted : r.count = r.release.count + 1 := by
    simp only [count, release, capacity, succ_mod _ _ tail]
    split <;> split <;> split <;> omega
  apply List.ext_getElem?
  intro i
  cases i with
  | zero =>
    rw [getElem?_contents, if_pos (by omega), Nat.zero_add, List.getElem?_cons_zero,
      Nat.mod_eq_of_lt (show r.tail < r.capacity from tail)]
    exact List.getElem?_eq_getElem tail
  | succ i =>
    rw [List.getElem?_cons_succ, getElem?_contents, getElem?_contents, counted]
    by_cases inside : i < r.release.count
    · have index : (i + (r.tail + 1) % r.capacity) % r.capacity =
          (i + 1 + r.tail) % r.capacity := by
        rw [Nat.add_mod_mod]
        congr 1
        omega
      rw [if_pos (by omega), if_pos inside]
      exact congrArg (fun n => r.cells[n]?) index.symm
    · rw [if_neg (by omega), if_neg inside]

theorem cellAt_head [Inhabited α] : r.cellAt r.head = r.headCell := by
  rw [cellAt, List.getD_eq_getElem _ _ r.headInside]
  rfl

theorem cellAt_tail [Inhabited α] : r.cellAt r.tail = r.front := by
  rw [cellAt, List.getD_eq_getElem _ _ r.tailInside]
  rfl

@[simp] theorem full_modifyHead : (r.modifyHead f).full = r.full := by
  rw [full, capacity_modifyHead]
  rfl

theorem head_ne_tail (some' : r.isEmpty = false) : r.head ≠ r.tail := by
  intro same
  rw [isEmpty, same, beq_self_eq_true] at some'
  cases some'

theorem front_modifyHead (some' : r.isEmpty = false) : (r.modifyHead f).front = r.front := by
  have before := r.contents_release some'
  have after := (r.modifyHead f).contents_release some'
  rw [contents_modifyHead, before] at after
  exact (List.cons.inj after).1.symm

theorem isEmpty_commit (room : r.full = false) : r.commit.isEmpty = false := by
  apply Bool.eq_false_iff.mpr
  intro empty
  have nothing := (isEmpty_iff _).mp empty
  rw [r.contents_commit room] at nothing
  exact List.append_ne_nil_of_right_ne_nil _ (List.cons_ne_nil _ _) nothing

theorem full_release (some' : r.isEmpty = false) : r.release.full = false := by
  apply Bool.eq_false_iff.mpr
  intro full
  have counted := (full_iff _).mp full
  have fewer := congrArg List.length (r.contents_release some')
  have bound := r.count_lt
  rw [List.length_cons, length_contents, length_contents] at fewer
  rw [capacity_release] at counted
  omega

end Ring

end NanoRos
