import Mathlib.Data.List.Basic
import Mathlib.Tactic

/-! Fallible computations and the counted loop `for _ in 0..n`. -/

namespace NanoRos

variable {α β ε ε' : Type}

@[simp] theorem ok_bind (a : α) (next : α → Except ε β) : (Except.ok a >>= next) = next a := rfl

@[simp] theorem error_bind (e : ε) (next : α → Except ε β) :
    (Except.error e >>= next) = Except.error e := rfl

@[simp] theorem pure_eq_ok (a : α) : (pure a : Except ε α) = .ok a := rfl

@[simp] theorem ok_map (f : α → β) (a : α) : (f <$> (Except.ok a : Except ε α)) = .ok (f a) := rfl

theorem bind_eq_ok {first : Except ε α} {next : α → Except ε β} {b : β} :
    first >>= next = .ok b ↔ ∃ a, first = .ok a ∧ next a = .ok b := by
  cases first <;> simp

theorem map_bind_eq (f : α → β) (first : Except ε α) {γ : Type} (next : β → Except ε γ) :
    (f <$> first) >>= next = first >>= fun a => next (f a) := by
  cases first <;> rfl

theorem forM_eq_ok {check : α → Except ε Unit} {items : List α} :
    items.forM check = .ok () ↔ ∀ item ∈ items, check item = .ok () := by
  induction items with
  | nil => simp
  | cons item items ih =>
    rw [List.forall_mem_cons, List.forM, bind_eq_ok]
    constructor
    · rintro ⟨⟨⟩, first, rest⟩
      exact ⟨first, ih.mp rest⟩
    · intro all
      exact ⟨(), all.1, ih.mpr all.2⟩

/-- `for _ in 0..n { body }` with an early return on error. -/
def repeatM : Nat → (α → Except ε α) → α → Except ε α
  | 0, _, state => .ok state
  | n + 1, body, state => body state >>= repeatM n body

end NanoRos
