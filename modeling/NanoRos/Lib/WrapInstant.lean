import Mathlib.Tactic

/-! Instants of a `u32` clock that wraps. -/

namespace NanoRos

theorem toNat_sub_of_le {now at_ : UInt32} (before : at_ ≤ now) :
    (now - at_).toNat = now.toNat - at_.toNat := UInt32.toNat_sub_of_le now at_ before

theorem toNat_sub_of_lt {now at_ : UInt32} (wrapped : now < at_) :
    (now - at_).toNat = 2 ^ 32 + now.toNat - at_.toNat := by
  have below := UInt32.lt_iff_toNat_lt.mp wrapped
  have small := at_.toNat_lt
  rw [UInt32.toNat_sub, Nat.mod_eq_of_lt (by omega)]
  omega

theorem toNat_sub_stamps {first second : Nat} (order : first ≤ second)
    (brief : second - first < 2 ^ 32) :
    (UInt32.ofNat second - UInt32.ofNat first).toNat = second - first := by
  rw [UInt32.toNat_sub, UInt32.toNat_ofNat', UInt32.toNat_ofNat']
  omega

/-- How long ago the oldest of the instants was. -/
def longestAgo (now : UInt32) (times : List UInt32) : Nat :=
  (times.map fun at_ => (now - at_).toNat).foldr max 0

/-- The least reading of the instants, if there is one. -/
def Least (times : List UInt32) : Option UInt32 → Prop
  | none => times = []
  | some at_ => at_ ∈ times ∧ ∀ other ∈ times, at_ ≤ other

variable {now at_ : UInt32} {times : List UInt32}

theorem le_longestAgo (member : at_ ∈ times) : (now - at_).toNat ≤ longestAgo now times := by
  induction times with
  | nil => cases member
  | cons first times ih =>
    rw [longestAgo, List.map_cons, List.foldr_cons]
    rcases List.mem_cons.mp member with rfl | later
    · exact le_max_left _ _
    · exact (ih later).trans (le_max_right _ _)

theorem longestAgo_mem (some_ : times ≠ []) :
    ∃ at_ ∈ times, longestAgo now times = (now - at_).toNat := by
  induction times with
  | nil => exact absurd rfl some_
  | cons first times ih =>
    rw [longestAgo, List.map_cons, List.foldr_cons]
    by_cases last : times = []
    · subst last
      refine ⟨first, List.mem_cons_self, ?_⟩
      exact max_eq_left (Nat.zero_le _)
    · rcases ih last with ⟨at_, member, longest⟩
      rw [longestAgo] at longest
      rw [longest]
      rcases max_choice (now - first).toNat (now - at_).toNat with here | there
      · exact ⟨first, List.mem_cons_self, here⟩
      · exact ⟨at_, List.mem_cons_of_mem first member, there⟩

/-- The wrap of the clock lies before all of the instants, or after all. -/
def OneSide (now : UInt32) (times : List UInt32) : Prop :=
  (∀ at_ ∈ times, at_ ≤ now) ∨ ∀ at_ ∈ times, now < at_

-- Over the list, not over all the instants there are.
instance (now : UInt32) (times : List UInt32) : Decidable (OneSide now times) :=
  @instDecidableOr _ _ (List.decidableBAll _ times) (List.decidableBAll _ times)

theorem sub_le_sub_of_oneSide (sides : OneSide now times) {other : UInt32} (here : at_ ∈ times)
    (there : other ∈ times) (least : at_ ≤ other) : (now - other).toNat ≤ (now - at_).toNat := by
  rw [UInt32.le_iff_toNat_le] at least
  rcases sides with before | wrapped
  · rw [toNat_sub_of_le (before at_ here), toNat_sub_of_le (before other there)]
    omega
  · rw [toNat_sub_of_lt (wrapped at_ here), toNat_sub_of_lt (wrapped other there)]
    omega

theorem sub_least_eq_longestAgo_iff (least : Least times (some at_)) :
    (now - at_).toNat = longestAgo now times ↔ OneSide now times := by
  rcases least with ⟨member, below⟩
  constructor
  · intro longest
    by_cases before : at_ ≤ now
    · left
      intro other there
      by_contra wrapped
      have later := @le_longestAgo now other times there
      rw [← longest, toNat_sub_of_le before, toNat_sub_of_lt (UInt32.not_le.mp wrapped)] at later
      have small := other.toNat_lt
      omega
    · right
      intro other there
      exact UInt32.lt_of_lt_of_le (UInt32.not_le.mp before) (below other there)
  · intro sides
    apply le_antisymm (le_longestAgo member)
    rcases @longestAgo_mem now times (List.ne_nil_of_mem member) with ⟨other, there, longest⟩
    rw [longest]
    exact sub_le_sub_of_oneSide sides member there (below other there)

end NanoRos
