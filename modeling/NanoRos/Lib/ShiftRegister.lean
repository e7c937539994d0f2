import Mathlib.Data.List.Basic
import Mathlib.Tactic

/-! A shift register over the two-element field: one bit falls out at the low end, and where it is
set the taps are added. -/

namespace NanoRos.ShiftRegister

variable {w : Nat}

def shift (taps s : BitVec w) : BitVec w := if s.getLsbD 0 then (s >>> 1) ^^^ taps else s >>> 1

def shifts (taps : BitVec w) : Nat → BitVec w → BitVec w
  | 0, s => s
  | n + 1, s => shifts taps n (shift taps s)

/-- One bit is added at the low end before each shift. -/
def feed (taps : BitVec w) : BitVec w → List Bool → BitVec w
  | s, [] => s
  | s, b :: bits => feed taps (shift taps (s ^^^ BitVec.setWidth w (BitVec.ofBool b))) bits

/-- The bits as a word, the first one lowest. -/
def word : List Bool → BitVec w
  | [] => 0#w
  | b :: bits => BitVec.setWidth w (BitVec.ofBool b) ^^^ (word bits <<< 1)

variable (taps : BitVec w)

theorem xor_middle (a b c d : BitVec w) : a ^^^ b ^^^ (c ^^^ d) = a ^^^ c ^^^ (b ^^^ d) := by
  rw [BitVec.xor_assoc, BitVec.xor_assoc, ← BitVec.xor_assoc b, ← BitVec.xor_assoc c,
    BitVec.xor_comm b c]

/-! ### Linearity -/

theorem shift_xor (s t : BitVec w) : shift taps (s ^^^ t) = shift taps s ^^^ shift taps t := by
  have low := BitVec.getLsbD_xor (x := s) (y := t) (i := 0)
  rw [shift, shift, shift, low, BitVec.ushiftRight_xor_distrib]
  cases s.getLsbD 0 with
  | false => cases t.getLsbD 0 <;> simp [BitVec.xor_assoc]
  | true =>
    cases t.getLsbD 0 with
    | false =>
      simp only [Bool.xor_false, if_true, Bool.false_eq_true, if_false]
      rw [BitVec.xor_assoc, BitVec.xor_assoc, BitVec.xor_comm taps]
    | true =>
      simp only [Bool.xor_self, Bool.false_eq_true, if_false, if_true]
      rw [xor_middle, BitVec.xor_self, BitVec.xor_zero]

theorem shift_zero : shift taps 0#w = 0#w := by simp [shift]

theorem shifts_xor (n : Nat) (s t : BitVec w) :
    shifts taps n (s ^^^ t) = shifts taps n s ^^^ shifts taps n t := by
  induction n generalizing s t with
  | zero => rfl
  | succ n ih => rw [shifts, shifts, shifts, shift_xor, ih]

theorem shifts_zero (n : Nat) : shifts taps n 0#w = 0#w := by
  induction n with
  | zero => rfl
  | succ n ih => rw [shifts, shift_zero, ih]

theorem feed_append (s : BitVec w) (first second : List Bool) :
    feed taps s (first ++ second) = feed taps (feed taps s first) second := by
  induction first generalizing s with
  | nil => rfl
  | cons b first ih => rw [List.cons_append, feed, feed, ih]

theorem ofBool_xor (a b : Bool) : BitVec.setWidth w (BitVec.ofBool (a ^^ b)) =
    BitVec.setWidth w (BitVec.ofBool a) ^^^ BitVec.setWidth w (BitVec.ofBool b) := by
  rw [BitVec.ofBool_xor_ofBool.symm, BitVec.setWidth_xor]

theorem feed_xor (s t : BitVec w) {first second : List Bool} (same : first.length = second.length) :
    feed taps s first ^^^ feed taps t second =
      feed taps (s ^^^ t) (List.zipWith (· ^^ ·) first second) := by
  induction first generalizing s t second with
  | nil =>
    rw [List.length_eq_zero_iff.mp same.symm]
    rfl
  | cons a first ih =>
    cases second with
    | nil => cases same
    | cons b second =>
      rw [List.zipWith_cons_cons, feed, feed, feed, ih _ _ (Nat.succ.inj same), ofBool_xor,
        ← xor_middle, ← shift_xor, xor_middle]

theorem feed_replicate_false (n : Nat) (s : BitVec w) :
    feed taps s (List.replicate n false) = shifts taps n s := by
  induction n generalizing s with
  | zero => rfl
  | succ n ih =>
    rw [List.replicate_succ, feed, ih, shifts]
    simp

/-! ### Words -/

theorem getLsbD_word (bits : List Bool) (i : Nat) :
    (word bits : BitVec w).getLsbD i = (decide (i < w) && bits.getD i false) := by
  induction bits generalizing i with
  | nil => simp [word]
  | cons b bits ih =>
    rw [word, BitVec.getLsbD_xor, BitVec.getLsbD_setWidth, BitVec.getLsbD_shiftLeft, ih]
    cases i with
    | zero => simp
    | succ i =>
      by_cases inside : i + 1 < w
      · have before : i < w := by omega
        simp [inside, before]
      · simp [inside]

theorem word_ne_zero {bits : List Bool} (short : bits.length ≤ w) (marked : true ∈ bits) :
    (word bits : BitVec w) ≠ 0#w := by
  intro empty
  rcases List.getElem_of_mem marked with ⟨i, inside, set⟩
  have bit : (word bits : BitVec w).getLsbD i = true := by
    simp [getLsbD_word, inside.trans_le short, List.getElem?_eq_getElem inside, set]
  rw [empty, BitVec.getLsbD_zero] at bit
  cases bit

theorem shift_shiftLeft (s : BitVec w) (clear : s.getLsbD (w - 1) = false) :
    shift taps (s <<< 1) = s := by
  have low : (s <<< 1).getLsbD 0 = false := by simp
  rw [shift, low, if_neg Bool.false_ne_true]
  apply BitVec.eq_of_getLsbD_eq
  intro i inside
  rw [BitVec.getLsbD_ushiftRight, BitVec.getLsbD_shiftLeft]
  by_cases last : 1 + i < w
  · simp [last]
  · have top : i = w - 1 := by omega
    simp [top, clear]

theorem feed_eq_shifts (s : BitVec w) {bits : List Bool} (short : bits.length ≤ w) :
    feed taps s bits = shifts taps bits.length (s ^^^ word bits) := by
  induction bits generalizing s with
  | nil => simp [feed, shifts, word]
  | cons b bits ih =>
    have fits : bits.length < w := short
    have clear : (word bits : BitVec w).getLsbD (w - 1) = false := by
      have past : bits.length ≤ w - 1 := Nat.le_pred_of_lt fits
      simp [getLsbD_word, past]
    rw [feed, ih _ fits.le, List.length_cons, shifts, word, ← BitVec.xor_assoc,
      shift_xor taps _ (word bits <<< 1), shift_shiftLeft taps _ clear]

/-- The low `n` bits. -/
def low (n : Nat) (s : BitVec w) : BitVec w := s ^^^ ((s >>> n) <<< n)

theorem shifts_shiftLeft (n : Nat) (s : BitVec w)
    (clear : ∀ i, w ≤ i + n → s.getLsbD i = false) : shifts taps n (s <<< n) = s := by
  induction n with
  | zero => rw [shifts, BitVec.shiftLeft_zero]
  | succ n ih =>
    rw [shifts, BitVec.shiftLeft_add, shift_shiftLeft, ih]
    · exact fun i high => clear i (by omega)
    · rw [BitVec.getLsbD_shiftLeft]
      by_cases inside : w - 1 < n
      · simp [inside]
      · rw [clear (w - 1 - n) (by omega), Bool.and_false]

theorem shifts_eq_low (n : Nat) (s : BitVec w) :
    shifts taps n s = (s >>> n) ^^^ shifts taps n (low n s) := by
  have back : shifts taps n ((s >>> n) <<< n) = s >>> n := by
    apply shifts_shiftLeft
    intro i high
    rw [BitVec.getLsbD_ushiftRight]
    exact BitVec.getLsbD_of_ge _ _ (by omega)
  rw [low, shifts_xor, back, BitVec.xor_comm, BitVec.xor_assoc, BitVec.xor_self, BitVec.xor_zero]

/-! ### Nothing is forgotten -/

variable {taps}

section

variable (top : taps.getLsbD (w - 1) = true)
include top

theorem shift_ne_zero {s : BitVec w} (some_ : s ≠ 0#w) :
    shift taps s ≠ 0#w := by
  intro gone
  apply some_
  apply BitVec.eq_of_getLsbD_eq
  intro i inside
  rw [BitVec.getLsbD_zero]
  have bit (k : Nat) := congrArg (fun t => t.getLsbD k) gone
  cases lowest : s.getLsbD 0 with
  | true =>
    have high := bit (w - 1)
    simp [shift, lowest, top, BitVec.getLsbD_of_ge s (1 + (w - 1)) (by omega)] at high
  | false =>
    cases i with
    | zero => exact lowest
    | succ i =>
      have moved := bit i
      simp [shift, lowest, Nat.add_comm 1 i] at moved
      exact moved

theorem shifts_ne_zero (n : Nat) {s : BitVec w} (some_ : s ≠ 0#w) : shifts taps n s ≠ 0#w := by
  induction n generalizing s with
  | zero => exact some_
  | succ n ih => exact ih (shift_ne_zero top some_)

theorem feed_burst_ne_zero (before after : Nat) {burst : List Bool} (short : burst.length ≤ w)
    (marked : true ∈ burst) :
    feed taps 0#w (List.replicate before false ++ burst ++ List.replicate after false) ≠ 0#w := by
  rw [feed_append, feed_append, feed_replicate_false taps before, shifts_zero,
    feed_eq_shifts taps 0#w short, feed_replicate_false, BitVec.zero_xor]
  exact shifts_ne_zero top after (shifts_ne_zero top _ (word_ne_zero short marked))

end

end NanoRos.ShiftRegister
