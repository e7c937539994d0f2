import Mathlib.Tactic

/-! The chunks of a list cut at a separator. -/

namespace NanoRos

variable {α : Type} [BEq α] {sep : α}

theorem mem_chunk [LawfulBEq α] {xs chunk : List α} (member : chunk ∈ xs.splitOn sep) :
    sep ∉ chunk ∧ chunk ⊆ xs := by
  induction xs generalizing chunk with
  | nil =>
    rw [List.splitOn_nil, List.mem_singleton] at member
    subst member
    exact ⟨List.not_mem_nil, List.nil_subset _⟩
  | cons x rest ih =>
    rw [List.splitOn_cons_eq_if_modifyHead] at member
    by_cases cut : (x == sep) = true
    · rw [if_pos cut] at member
      obtain rfl | later := List.mem_cons.mp member
      · exact ⟨List.not_mem_nil, List.nil_subset _⟩
      · exact ⟨(ih later).1, fun _ inside => List.mem_cons_of_mem _ ((ih later).2 inside)⟩
    · rw [if_neg cut] at member
      obtain ⟨first, others, chunks⟩ :=
        List.exists_cons_of_ne_nil (List.splitOn_ne_nil sep rest)
      rw [chunks, List.modifyHead_cons] at member
      obtain rfl | later := List.mem_cons.mp member
      · obtain ⟨clean, inside⟩ := ih (chunks ▸ List.mem_cons_self)
        have apart : sep ≠ x := fun same => cut (by simp [same])
        exact ⟨by simp [apart, clean], List.cons_subset_cons x inside⟩
      · obtain ⟨clean, inside⟩ := ih (chunks ▸ List.mem_cons_of_mem _ later)
        exact ⟨clean, fun _ held => List.mem_cons_of_mem _ (inside held)⟩

theorem length_splitOn (xs : List α) : (xs.splitOn sep).length = xs.count sep + 1 := by
  induction xs with
  | nil => rfl
  | cons x rest ih =>
    rw [List.splitOn_cons_eq_if_modifyHead, List.count_cons]
    by_cases cut : (x == sep) = true
    · rw [if_pos cut, if_pos cut, List.length_cons, ih]
    · rw [if_neg cut, if_neg cut, List.length_modifyHead, ih]

end NanoRos
