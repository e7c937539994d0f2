import Mathlib.Data.List.Basic
import Mathlib.Tactic

/-! A fixed table of slots, each empty or holding an item with a key. -/

namespace NanoRos

namespace KeyedSlots

variable {α κ : Type} [DecidableEq κ] (key : α → κ)

def find (slots : List (Option α)) (k : κ) : Option Nat :=
  slots.findIdx? fun slot => slot.any fun a => decide (key a = k)

def lookup (slots : List (Option α)) (k : κ) : Option α :=
  (find key slots k).bind fun i => (slots[i]?).bind id

def free (slots : List (Option α)) : Option Nat := slots.findIdx? Option.isNone

def occupied (slots : List (Option α)) : Nat := slots.countP Option.isSome

def Distinct (slots : List (Option α)) : Prop :=
  ∀ (i j : Nat) (a b : α), slots[i]? = some (some a) → slots[j]? = some (some b) →
    key a = key b → i = j

variable {key} {slots : List (Option α)} {k : κ}

theorem find_eq_some {i : Nat} (found : find key slots k = some i) :
    ∃ a, slots[i]? = some (some a) ∧ key a = k := by
  obtain ⟨inside, hit, _⟩ := List.findIdx?_eq_some_iff_getElem.mp found
  obtain ⟨a, held, same⟩ := (Option.any_eq_true _ _).mp hit
  refine ⟨a, ?_, of_decide_eq_true same⟩
  rw [List.getElem?_eq_getElem inside, held]

theorem find_eq_none (missing : find key slots k = none) {i : Nat} {a : α}
    (held : slots[i]? = some (some a)) : key a ≠ k := by
  intro same
  have missed := List.findIdx?_eq_none_iff.mp missing (some a) (List.mem_of_getElem? held)
  simp [same] at missed

theorem lookup_eq_some (distinct : Distinct key slots) {a : α} :
    lookup key slots k = some a ↔ ∃ i : Nat, slots[i]? = some (some a) ∧ key a = k := by
  constructor
  · intro looked
    obtain ⟨i, found, held⟩ := Option.bind_eq_some_iff.mp looked
    obtain ⟨b, here, same⟩ := find_eq_some found
    rw [here] at held
    cases held
    exact ⟨i, here, same⟩
  · rintro ⟨i, held, same⟩
    cases found : find key slots k with
    | none => exact absurd same (find_eq_none found held)
    | some j =>
      obtain ⟨b, here, agrees⟩ := find_eq_some found
      cases distinct i j a b held here (same.trans agrees.symm)
      rw [held] at here
      cases here
      simp [lookup, found, held]

theorem lookup_eq_none : lookup key slots k = none ↔ find key slots k = none := by
  constructor
  · intro missing
    cases found : find key slots k with
    | none => rfl
    | some i =>
      obtain ⟨a, here, _⟩ := find_eq_some found
      simp [lookup, found, here] at missing
  · intro missing
    simp [lookup, missing]

/-- The slot a key may be written to: its own, or an empty one if it has none. -/
structure Target (key : α → κ) (slots : List (Option α)) (k : κ) (i : Nat) : Prop where
  inside : i < slots.length
  own : ∀ a, slots[i]? = some (some a) → key a = k
  only : ∀ (j : Nat) (a : α), slots[j]? = some (some a) → key a = k → j = i

theorem target_of_find (distinct : Distinct key slots) {i : Nat}
    (found : find key slots k = some i) : Target key slots k i := by
  obtain ⟨a, held, same⟩ := find_eq_some found
  refine ⟨(List.getElem?_eq_some_iff.mp held).1, ?_, ?_⟩
  · intro b here
    rw [held] at here
    cases here
    exact same
  · intro j b there agrees
    exact distinct j i b a there held (agrees.trans same.symm)

theorem free_eq_some {i : Nat} (found : free slots = some i) : slots[i]? = some none := by
  obtain ⟨inside, hit, _⟩ := List.findIdx?_eq_some_iff_getElem.mp found
  rw [List.getElem?_eq_getElem inside, Option.isNone_iff_eq_none.mp hit]

theorem target_of_free {i : Nat} (missing : find key slots k = none)
    (found : free slots = some i) : Target key slots k i := by
  have empty := free_eq_some found
  refine ⟨(List.getElem?_eq_some_iff.mp empty).1, ?_, ?_⟩
  · intro a held
    rw [empty] at held
    cases held
  · intro j a held same
    exact absurd same (find_eq_none missing held)

namespace Target

variable {i : Nat} {new : Option α}

section

variable (target : Target key slots k i)
include target

theorem getElem?_set (agrees : ∀ a, new = some a → key a = k) (j : Nat) (a : α) :
    (slots.set i new)[j]? = some (some a) ↔
      if key a = k then j = i ∧ new = some a else slots[j]? = some (some a) := by
  by_cases here : i = j
  · subst here
    rw [List.getElem?_set_self target.inside]
    split
    · simp
    next other =>
      constructor
      · intro placed
        exact absurd (agrees a (Option.some.inj placed)) other
      · intro held
        exact absurd (target.own a held) other
  · rw [List.getElem?_set_ne here]
    split
    next same =>
      constructor
      · intro held
        exact absurd (target.only j a held same).symm here
      · exact fun placed => absurd placed.1.symm here
    · exact Iff.rfl

theorem distinct_set (distinct : Distinct key slots) (agrees : ∀ a, new = some a → key a = k)
    : Distinct key (slots.set i new) := by
  intro p q a b left right same
  rw [target.getElem?_set agrees] at left right
  by_cases own : key a = k
  · rw [if_pos own] at left
    rw [if_pos (same.symm.trans own)] at right
    exact left.1.trans right.1.symm
  · rw [if_neg own] at left
    rw [if_neg (fun other => own (same.trans other))] at right
    exact distinct p q a b left right same

theorem lookup_set (distinct : Distinct key slots) (agrees : ∀ a, new = some a → key a = k)
    (k' : κ) :
    lookup key (slots.set i new) k' = if k' = k then new else lookup key slots k' := by
  apply Option.ext
  intro a
  rw [lookup_eq_some (target.distinct_set distinct agrees)]
  simp only [target.getElem?_set agrees]
  by_cases own : k' = k
  · rw [if_pos own]
    constructor
    · rintro ⟨j, placed, same⟩
      rw [if_pos (same.trans own)] at placed
      exact placed.2
    · intro placed
      refine ⟨i, ?_, (agrees a placed).trans own.symm⟩
      rw [if_pos (agrees a placed)]
      exact ⟨rfl, placed⟩
  · rw [if_neg own, lookup_eq_some distinct]
    constructor
    · rintro ⟨j, placed, same⟩
      rw [if_neg (fun other => own (same.symm.trans other))] at placed
      exact ⟨j, placed, same⟩
    · rintro ⟨j, held, same⟩
      refine ⟨j, ?_, same⟩
      rw [if_neg (fun other => own (same.symm.trans other))]
      exact held

end

end Target

theorem occupied_set {i : Nat} {old : Option α} (held : slots[i]? = some old) (new : Option α) :
    occupied (slots.set i new) + old.isSome.toNat = occupied slots + new.isSome.toNat := by
  induction slots generalizing i with
  | nil => cases held
  | cons slot slots ih =>
    cases i with
    | zero =>
      cases held
      simp only [occupied, List.set_cons_zero, List.countP_cons]
      cases old <;> cases new <;> simp
    | succ i =>
      have rest := ih held
      simp only [occupied, List.set_cons_succ, List.countP_cons] at rest ⊢
      omega

theorem free_isSome_iff : (free slots).isSome = true ↔ occupied slots < slots.length := by
  rw [free, List.findIdx?_isSome, List.any_eq_true, occupied,
    lt_iff_le_and_ne, and_iff_right List.countP_le_length, Ne, List.countP_eq_length]
  constructor
  · rintro ⟨slot, member, empty⟩ all
    rw [Option.isNone_iff_eq_none.mp empty] at member
    cases all none member
  · intro notAll
    push Not at notAll
    obtain ⟨slot, member, empty⟩ := notAll
    exact ⟨slot, member, by simpa using empty⟩

/-! A walk over the slots that shows some of the items. -/

section

variable {β : Type} (view : α → Option β)

def listed (slots : List (Option α)) : List β := slots.filterMap fun slot => slot.bind view

/-- How many items are shown before a slot. -/
def rank (slots : List (Option α)) (i : Nat) : Nat := (listed view (slots.take i)).length

variable {view}

theorem mem_listed {b : β} :
    b ∈ listed view slots ↔ ∃ (i : Nat) (a : α), slots[i]? = some (some a) ∧ view a = some b := by
  rw [listed, List.mem_filterMap]
  constructor
  · rintro ⟨slot, member, shown⟩
    obtain ⟨a, rfl, same⟩ := Option.bind_eq_some_iff.mp shown
    obtain ⟨i, held⟩ := List.mem_iff_getElem?.mp member
    exact ⟨i, a, held, same⟩
  · rintro ⟨i, a, held, same⟩
    exact ⟨some a, List.mem_of_getElem? held, same⟩

theorem take_listed_set {i k : Nat} (behind : k ≤ rank view slots i) (new : Option α) :
    (listed view (slots.set i new)).take k = (listed view slots).take k := by
  have front : (slots.set i new).take i = slots.take i := List.take_set_of_le (Nat.le_refl i)
  have parts (items : List (Option α)) :
      listed view items = listed view (items.take i) ++ listed view (items.drop i) := by
    rw [listed, listed, listed, ← List.filterMap_append, List.take_append_drop]
  rw [parts (slots.set i new), parts slots, front, List.take_append_of_le_length behind,
    List.take_append_of_le_length behind]

theorem listed_set_hidden {i : Nat} {new : Option α} (inside : i < slots.length)
    (hidden : ∀ a, slots[i]? = some (some a) → view a = none)
    (still : ∀ a, new = some a → view a = none) : listed view (slots.set i new) = listed view slots := by
  rw [List.set_eq_take_append_cons_drop, if_pos inside]
  have whole : slots = slots.take i ++ slots[i] :: slots.drop (i + 1) := by
    rw [List.getElem_cons_drop, List.take_append_drop]
  have before : slots[i].bind view = none := by
    cases held : slots[i] with
    | none => rfl
    | some a => exact hidden a (by rw [List.getElem?_eq_getElem inside, held])
  have after : new.bind view = none := by
    cases new with
    | none => rfl
    | some a => exact still a rfl
  conv_rhs => rw [whole]
  rw [listed, listed, List.filterMap_append, List.filterMap_append, List.filterMap_cons,
    List.filterMap_cons, after, before]

end

end KeyedSlots

end NanoRos
