import Mathlib.Data.List.Basic
import Mathlib.Tactic

/-! Position-dependent encodings. -/

namespace NanoRos

abbrev Wire (α : Type) := Nat → List α

/-- The bytes between `offset` and the next multiple of `alignment`. -/
def padding (alignment offset : Nat) : Nat := (alignment - offset % alignment) % alignment

theorem padding_lt (alignment offset : Nat) (positive : 0 < alignment) :
    padding alignment offset < alignment := Nat.mod_lt _ positive

theorem dvd_add_padding (alignment offset : Nat) (positive : 0 < alignment) :
    alignment ∣ offset + padding alignment offset := by
  have rest := Nat.mod_lt offset positive
  apply Nat.dvd_of_mod_eq_zero
  by_cases aligned : offset % alignment = 0
  · simp [padding, aligned]
  · have pad : padding alignment offset = alignment - offset % alignment := by
      rw [padding, Nat.mod_eq_of_lt (by omega)]
    rw [pad, Nat.add_mod, Nat.mod_eq_of_lt (show alignment - offset % alignment < alignment by omega)]
    have whole : offset % alignment + (alignment - offset % alignment) = alignment := by omega
    rw [whole, Nat.mod_self]

/-- Starting later never ends the padding earlier: both ends are multiples of the alignment,
and a shorter one would lie strictly inside the padding of the first. -/
theorem add_padding_mono (alignment : Nat) (positive : 0 < alignment) {first second : Nat}
    (order : first ≤ second) :
    first + padding alignment first ≤ second + padding alignment second := by
  by_contra later
  have gap := Nat.dvd_sub (dvd_add_padding alignment first positive)
    (dvd_add_padding alignment second positive)
  have wide := Nat.le_of_dvd (by omega) gap
  have narrow := padding_lt alignment first positive
  omega

theorem padding_add_of_dvd {alignment period : Nat} (divides : alignment ∣ period) (offset : Nat) :
    padding alignment (offset + period) = padding alignment offset := by
  rcases divides with ⟨k, rfl⟩
  rw [padding, padding, Nat.add_mul_mod_self_left]

namespace Wire

variable {α β : Type}

def empty : Wire α := fun _ => []

def lit (items : List α) : Wire α := fun _ => items

def align (fill : α) (alignment : Nat) : Wire α :=
  fun offset => List.replicate (padding alignment offset) fill

/-- `second` starts where `first` ends. -/
def andThen (first second : Wire α) : Wire α :=
  fun offset => first offset ++ second (offset + (first offset).length)

def many (encode : β → Wire α) : List β → Wire α
  | [] => empty
  | item :: items => (encode item).andThen (many encode items)

def stop (wire : Wire α) (offset : Nat) : Nat := offset + (wire offset).length

@[simp] theorem stop_lit (items : List α) (offset : Nat) :
    (lit items).stop offset = offset + items.length := rfl

@[simp] theorem stop_align (fill : α) (alignment offset : Nat) :
    (align fill alignment).stop offset = offset + padding alignment offset := by
  simp [stop, align]

@[simp] theorem stop_andThen (first second : Wire α) (offset : Nat) :
    (first.andThen second).stop offset = second.stop (first.stop offset) := by
  simp [stop, andThen, Nat.add_assoc]

theorem andThen_assoc (first second third : Wire α) :
    (first.andThen second).andThen third = first.andThen (second.andThen third) := by
  funext offset
  simp [andThen, Nat.add_assoc]

theorem andThen_empty (wire : Wire α) : wire.andThen empty = wire := by
  funext offset
  simp [andThen, empty]

theorem empty_andThen (wire : Wire α) : empty.andThen wire = wire := by
  funext offset
  simp [andThen, empty]

/-- The encoding repeats itself every `period` offsets. -/
def Periodic (period : Nat) (wire : Wire α) : Prop := ∀ offset, wire (offset + period) = wire offset

variable {period : Nat}

theorem periodic_empty : (empty : Wire α).Periodic period := fun _ => rfl

theorem periodic_lit (items : List α) : (lit items).Periodic period := fun _ => rfl

theorem periodic_align (fill : α) {alignment : Nat} (divides : alignment ∣ period) :
    (align fill alignment).Periodic period := by
  intro offset
  rw [align, align, padding_add_of_dvd divides]

theorem Periodic.andThen {first second : Wire α} (left : first.Periodic period)
    (right : second.Periodic period) : (first.andThen second).Periodic period := by
  intro offset
  rw [Wire.andThen, Wire.andThen, left offset, Nat.add_right_comm, right]

theorem periodic_many {encode : β → Wire α} {items : List β}
    (each : ∀ item ∈ items, (encode item).Periodic period) :
    (many encode items).Periodic period := by
  induction items with
  | nil => exact periodic_empty
  | cons item items ih =>
    exact (each item List.mem_cons_self).andThen
      (ih fun later member => each later (List.mem_cons_of_mem item member))

end Wire

end NanoRos
