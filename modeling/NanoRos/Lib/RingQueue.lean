import NanoRos.Lib.WrapCounter

/-! A ring of `d` slots between two wrapping counters, read as the queue of what its slots hold from
the head on. -/

namespace NanoRos

variable {α : Type} {w d : Nat} [NeZero d]

/-- The slots from `h` on hold `q`, between the counters of its two ends. -/
structure Queues (slots : Fin d → α) (head tail : BitVec w) (h : Nat) (q : List α) : Prop where
  head : head = BitVec.ofNat w h
  tail : tail = BitVec.ofNat w (h + q.length)
  fits : q.length ≤ d
  holds : ∀ i (inside : i < q.length), slots (slotIndex d (BitVec.ofNat w (h + i))) = q[i]

/-- What a reader of the counters takes the queue to be. -/
def ringEntries (slots : Fin d → α) (head tail : BitVec w) : List α :=
  (List.range (tail - head).toNat).map fun i => slots (slotIndex d (head + BitVec.ofNat w i))

namespace Queues

variable {slots : Fin d → α} {head tail : BitVec w} {h : Nat} {q : List α}

section

variable (queues : Queues slots head tail h q)
include queues

theorem length_eq (small : d < 2 ^ w) : (tail - head).toNat = q.length := by
  have fits := queues.fits
  rw [queues.head, queues.tail, toNat_sub_ofNat (Nat.le_add_right _ _) (by omega)]
  omega

theorem entries_eq (small : d < 2 ^ w) :
    ringEntries slots head tail = q := by
  rw [ringEntries, queues.length_eq small]
  apply List.ext_getElem
  · simp
  · intro i _ inside
    rw [List.getElem_map, List.getElem_range, queues.head, ← BitVec.ofNat_add]
    exact queues.holds i inside

theorem empty_iff (small : d < 2 ^ w) :
    head = tail ↔ q = [] := by
  have fits := queues.fits
  rw [queues.head, queues.tail, ofNat_eq_iff (Nat.le_add_right _ _) (by omega),
    ← List.length_eq_zero_iff]
  omega

theorem push (room : q.length < d) (inStep : InStep w d (h + q.length)) (a : α) :
    Queues (Function.update slots (slotIndex d tail) a) head (tail + 1) h (q ++ [a]) := by
  have next : BitVec.ofNat w (h + q.length) + 1 = BitVec.ofNat w (h + (q ++ [a]).length) := by
    rw [List.length_append, List.length_singleton, ← Nat.add_assoc, BitVec.ofNat_add (h + q.length)]
    rfl
  refine ⟨queues.head, by rw [queues.tail, next], ?_, ?_⟩
  · rw [List.length_append, List.length_singleton]
    exact room
  · intro i inside
    rw [List.length_append, List.length_singleton] at inside
    rw [queues.tail]
    obtain before | last := Nat.lt_succ_iff_lt_or_eq.mp inside
    · rw [Function.update_of_ne (slotIndex_ne inStep (by omega) (by omega)), queues.holds i before,
        List.getElem_append_left before]
    · subst last
      rw [Function.update_self, List.getElem_concat_length rfl]

end

theorem pop {a : α} {rest : List α} (queues : Queues slots head tail h (a :: rest)) :
    slots (slotIndex d head) = a ∧ Queues slots (head + 1) tail (h + 1) rest := by
  constructor
  · rw [queues.head]
    exact queues.holds 0 (Nat.succ_pos _)
  · have fits := queues.fits
    refine ⟨?_, ?_, (Nat.le_succ _).trans fits, fun i inside => ?_⟩
    · rw [queues.head, BitVec.ofNat_add]
      rfl
    · rw [queues.tail, List.length_cons, Nat.add_assoc, Nat.add_comm 1]
    · have later := queues.holds (i + 1) (Nat.succ_lt_succ inside)
      rw [List.getElem_cons_succ] at later
      rw [Nat.add_assoc, Nat.add_comm 1 i]
      exact later

theorem fresh (slots : Fin d → α) : Queues slots (0 : BitVec w) 0 0 [] :=
  ⟨rfl, rfl, Nat.zero_le _, nofun⟩

end Queues

end NanoRos
