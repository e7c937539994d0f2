import Mathlib.Data.List.Basic
import Mathlib.Tactic

/-! Texts a value can be read off the front of: what is emitted for it ends where it ends, whatever
follows. -/

namespace NanoRos

variable {α β γ : Type}

/-- No emitted text is the beginning of another's. -/
def ReadsOff (emit : α → List γ) : Prop :=
  ∀ a b rest rest', emit a ++ rest = emit b ++ rest' → a = b ∧ rest = rest'

variable {emit : α → List γ}

theorem ReadsOff.injective (reads : ReadsOff emit) : Function.Injective emit := by
  intro a b same
  exact (reads a b [] [] (by rw [same])).1

theorem ReadsOff.congr {other : α → List γ} (reads : ReadsOff emit)
    (same : ∀ a, other a = emit a) : ReadsOff other := by
  rwa [show other = emit from funext same]

theorem readsOff_of_read (read : List γ → Option (α × List γ))
    (undoes : ∀ a rest, read (emit a ++ rest) = some (a, rest)) : ReadsOff emit := by
  intro a b rest rest' same
  have both : some (a, rest) = some (b, rest') := by
    rw [← undoes a rest, same, undoes b rest']
  cases both
  exact ⟨rfl, rfl⟩

section

variable (reads : ReadsOff emit)
include reads

theorem ReadsOff.comp {f : β → α} (injective : Function.Injective f) :
    ReadsOff fun b => emit (f b) := by
  intro a b rest rest' same
  obtain ⟨equal, left⟩ := reads _ _ _ _ same
  exact ⟨injective equal, left⟩

theorem ReadsOff.after (before : List γ) :
    ReadsOff fun a => before ++ emit a := by
  intro a b rest rest' same
  rw [List.append_assoc, List.append_assoc] at same
  exact reads _ _ _ _ (List.append_cancel_left same)

theorem ReadsOff.before (after : List γ) :
    ReadsOff fun a => emit a ++ after := by
  intro a b rest rest' same
  rw [List.append_assoc, List.append_assoc] at same
  obtain ⟨equal, left⟩ := reads _ _ _ _ same
  exact ⟨equal, List.append_cancel_left left⟩

theorem ReadsOff.pair {other : β → List γ} (readsToo : ReadsOff other) :
    ReadsOff fun pair : α × β => emit pair.1 ++ other pair.2 := by
  intro a b rest rest' same
  rw [List.append_assoc, List.append_assoc] at same
  obtain ⟨first, left⟩ := reads _ _ _ _ same
  obtain ⟨second, left⟩ := readsToo _ _ _ _ left
  exact ⟨Prod.ext first second, left⟩

end

theorem readsOff_stopped (injective : Function.Injective emit) {after : List γ} {stop : γ}
    (stops : after.head? = some stop) (clear : ∀ a, stop ∉ emit a) :
    ReadsOff fun a => emit a ++ after := by
  have read : ∀ (xs ys rest rest' : List γ), stop ∉ xs → stop ∉ ys →
      xs ++ stop :: rest = ys ++ stop :: rest' → xs = ys ∧ rest = rest' := by
    intro xs
    induction xs with
    | nil =>
      intro ys rest rest' _ clearToo same
      cases ys with
      | nil => exact ⟨rfl, List.cons.inj same |>.2⟩
      | cons y ys =>
        obtain ⟨rfl, -⟩ := List.cons.inj same
        exact absurd List.mem_cons_self clearToo
    | cons x xs ih =>
      intro ys rest rest' clear clearToo same
      cases ys with
      | nil =>
        obtain ⟨rfl, -⟩ := List.cons.inj same
        exact absurd List.mem_cons_self clear
      | cons y ys =>
        obtain ⟨rfl, tails⟩ := List.cons.inj same
        obtain ⟨rfl, left⟩ := ih ys rest rest' (fun member => clear (List.mem_cons_of_mem _ member))
          (fun member => clearToo (List.mem_cons_of_mem _ member)) tails
        exact ⟨rfl, left⟩
  intro a b rest rest' same
  obtain ⟨tail, rfl⟩ := List.head?_eq_some_iff.mp stops
  rw [List.append_assoc, List.append_assoc, List.cons_append, List.cons_append] at same
  obtain ⟨equal, left⟩ := read _ _ _ _ (clear a) (clear b) same
  exact ⟨injective equal, List.append_cancel_left left⟩

theorem ReadsOff.list (reads : ReadsOff emit) {stop : γ}
    (starts : ∀ a, ∃ first tail, emit a = first :: tail ∧ first ≠ stop) :
    ReadsOff fun items : List α => items.flatMap emit ++ [stop] := by
  intro items
  induction items with
  | nil =>
    intro others rest rest' same
    cases others with
    | nil => exact ⟨rfl, List.cons.inj same |>.2⟩
    | cons other others =>
      obtain ⟨first, tail, emitted, differs⟩ := starts other
      simp only [List.flatMap_cons, emitted, List.cons_append] at same
      exact absurd (List.cons.inj same).1.symm differs
  | cons item items ih =>
    intro others rest rest' same
    cases others with
    | nil =>
      obtain ⟨first, tail, emitted, differs⟩ := starts item
      simp only [List.flatMap_cons, emitted, List.cons_append] at same
      exact absurd (List.cons.inj same).1 differs
    | cons other others =>
      simp only [List.flatMap_cons, List.append_assoc] at same
      obtain ⟨rfl, same⟩ := reads _ _ _ _ same
      obtain ⟨rfl, left⟩ := ih others rest rest' (by simpa using same)
      exact ⟨rfl, left⟩

/-- The items with a separator between them. -/
def separated (sep : List γ) (emit : α → List γ) : List α → List γ
  | [] => []
  | item :: items => emit item ++ items.flatMap fun item => sep ++ emit item

theorem ReadsOff.separated (reads : ReadsOff emit) (sep : List γ) (stop : γ)
    (starts : ∀ a, ∃ first tail, emit a = first :: tail ∧ first ≠ stop)
    (sepStarts : ∃ first tail, sep = first :: tail ∧ first ≠ stop) :
    ReadsOff fun items : List α => NanoRos.separated sep emit items ++ [stop] := by
  obtain ⟨first, tail, rfl, differs⟩ := sepStarts
  have later : ReadsOff fun items : List α =>
      items.flatMap (fun item => (first :: tail) ++ emit item) ++ [stop] := by
    exact (reads.after (first :: tail)).list fun item => ⟨first, tail ++ emit item, rfl, differs⟩
  intro items others rest rest' same
  cases items with
  | nil =>
    cases others with
    | nil => exact ⟨rfl, List.cons.inj same |>.2⟩
    | cons other others =>
      obtain ⟨x, xs, emitted, apart⟩ := starts other
      simp only [NanoRos.separated, emitted, List.cons_append] at same
      exact absurd (List.cons.inj same).1.symm apart
  | cons item items =>
    cases others with
    | nil =>
      obtain ⟨x, xs, emitted, apart⟩ := starts item
      simp only [NanoRos.separated, emitted, List.cons_append] at same
      exact absurd (List.cons.inj same).1 apart
    | cons other others =>
      simp only [NanoRos.separated, List.append_assoc] at same
      obtain ⟨rfl, same⟩ := reads _ _ _ _ same
      obtain ⟨rfl, left⟩ := later items others rest rest' (by simpa using same)
      exact ⟨rfl, left⟩

end NanoRos
