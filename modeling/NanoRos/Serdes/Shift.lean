import Mathlib.Data.List.GetD
import NanoRos.Lib.Loops
import NanoRos.Serdes.Cdr

/-! A reader that starts further into a buffer reads the same. -/

namespace NanoRos

namespace CdrReader

open Memory

/-- The same reader behind `front`. -/
def shift (front : List UInt8) (r : CdrReader) : CdrReader :=
  ⟨front ++ r.buf, front.length + r.pos, front.length + r.origin, r.version⟩

variable {α β : Type}

/-- `read` does not look at where in the buffer it is. -/
def Shifts (read : CdrReader → Except DeserError (α × CdrReader)) : Prop :=
  ∀ front r, read (r.shift front) = (fun got => (got.1, got.2.shift front)) <$> read r

variable (front : List UInt8)

@[simp] theorem remaining_shift (r : CdrReader) :
    (r.shift front).remaining = r.remaining := by
  rw [remaining, remaining, shift, List.length_append, Nat.add_sub_add_left]

@[simp] theorem slice_shift (r : CdrReader) (len : Nat) :
    slice (r.shift front).buf (r.shift front).pos len = slice r.buf r.pos len := by
  rw [slice, slice, shift, List.drop_append, List.drop_of_length_le (Nat.le_add_right _ _),
    List.nil_append, Nat.add_sub_cancel_left]

theorem advance_shift (r : CdrReader) (n : Nat) :
    { r.shift front with pos := (r.shift front).pos + n } =
      ({ r with pos := r.pos + n } : CdrReader).shift front := by
  simp only [shift, Nat.add_assoc]

theorem align_shift (r : CdrReader) (alignment : Nat) :
    (r.shift front).align alignment = shift front <$> r.align alignment := by
  have pad : padding (alignCap (r.shift front).version alignment)
      ((r.shift front).pos - (r.shift front).origin) =
      padding (alignCap r.version alignment) (r.pos - r.origin) := by
    rw [shift, Nat.add_sub_add_left]
  unfold align
  dsimp only
  rw [pad, remaining_shift, advance_shift]
  split <;> rfl

namespace Shifts

variable {read : CdrReader → Except DeserError (α × CdrReader)}

theorem bind (shifts : Shifts read) {next : α × CdrReader → Except DeserError (β × CdrReader)}
    (later : ∀ a, Shifts fun r => next (a, r)) : Shifts fun r => read r >>= next := by
  intro front r
  dsimp only
  rw [shifts front r]
  cases read r with
  | error e => rfl
  | ok got => exact later got.1 front got.2

theorem pure (a : α) : Shifts fun r => (.ok (a, r) : Except DeserError (α × CdrReader)) :=
  fun _ _ => rfl

theorem map (shifts : Shifts read) (f : α → β) :
    Shifts fun r => read r >>= fun got => Except.ok (f got.1, got.2) :=
  shifts.bind fun a => pure (f a)

end Shifts

theorem readU8_shifts : Shifts readU8 := by
  intro front r
  have byte : (r.shift front).buf.getD (r.shift front).pos 0 = r.buf.getD r.pos 0 := by
    rw [shift, List.getD_append_right _ _ _ _ (Nat.le_add_right _ _), Nat.add_sub_cancel_left]
  rw [readU8, readU8, remaining_shift, byte, advance_shift]
  split <;> rfl

theorem readWord_shifts (width : Nat) : Shifts (readWord width) := by
  intro front r
  rw [readWord, readWord, align_shift]
  cases r.align width with
  | error e => rfl
  | ok r =>
    rw [ok_map, ok_bind, ok_bind, remaining_shift, slice_shift, advance_shift]
    split <;> rfl

theorem readBool_shifts : Shifts readBool := readU8_shifts.map fun value => value != 0

theorem readU32_shifts : Shifts readU32 := (readWord_shifts 4).map UInt32.ofNat

theorem readU64_shifts : Shifts readU64 := (readWord_shifts 8).map UInt64.ofNat

theorem readI64_shifts : Shifts readI64 := readU64_shifts.map UInt64.toInt64

theorem readF64_shifts : Shifts readF64 := readU64_shifts.map F64.mk

theorem readString_shifts : Shifts readString := by
  apply readU32_shifts.bind
  intro prefixed front r
  dsimp only
  rw [remaining_shift, slice_shift, advance_shift]
  split
  · rfl
  split
  · rfl
  cases fromUtf8 (slice r.buf r.pos (prefixed.toNat - 1)) <;> rfl

end CdrReader

end NanoRos
