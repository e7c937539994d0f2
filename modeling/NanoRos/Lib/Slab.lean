import NanoRos.Lib.Memory

/-! A bump region of memory shared by entries that know where their bytes lie. -/

namespace NanoRos

open Memory

/-- Entries of type `ε` hold the bytes `[offset, offset + len)`. -/
structure Extents (ε : Type) where
  offset : ε → Nat
  len : ε → Nat
  place : ε → Nat → ε
  offset_place : ∀ e n, offset (place e n) = n
  len_place : ∀ e n, len (place e n) = len e

namespace Extents

variable {ε β : Type} (x : Extents ε)

def held (slab : List β) (e : ε) : List β := slice slab (x.offset e) (x.len e)

def total (entries : List ε) : Nat := (entries.map x.len).sum

/-- Back to back from `base` on: the offsets are the prefix sums of the lengths. -/
def Stacked : Nat → List ε → Prop
  | _, [] => True
  | base, e :: rest => x.offset e = base ∧ Stacked (base + x.len e) rest

/-- In order and apart, from `low` on, with holes. -/
def Ascending : Nat → List ε → Prop
  | _, [] => True
  | low, e :: rest => low ≤ x.offset e ∧ Ascending (x.offset e + x.len e) rest

/-- Move every entry down to the first free byte: the bytes used, the entries, the memory. -/
def compact : Nat → List ε → List β → Nat × List ε × List β
  | write, [], slab => (write, [], slab)
  | write, e :: rest, slab =>
    let moved :=
      if x.offset e ≠ write then
        (x.place e write, copyWithin slab (x.offset e) (x.offset e + x.len e) write)
      else (e, slab)
    let (used, entries, slab) := compact (write + x.len e) rest moved.2
    (used, moved.1 :: entries, slab)

theorem length_compact (write : Nat) (entries : List ε) (slab : List β) :
    (x.compact write entries slab).2.1.length = entries.length := by
  induction entries generalizing write slab with
  | nil => rfl
  | cons e rest ih => rw [compact, List.length_cons, List.length_cons, ih]

variable {x}

variable {low : Nat} {entries : List ε} {base : Nat} {e : ε} {slab : List β}

theorem Ascending.lower {low' : Nat} (ascending : x.Ascending low entries) (less : low' ≤ low) :
    x.Ascending low' entries := by
  cases entries with
  | nil => trivial
  | cons e rest => exact ⟨Nat.le_trans less ascending.1, ascending.2⟩

theorem Stacked.ascending (stacked : x.Stacked base entries) :
    x.Ascending base entries := by
  induction entries generalizing base with
  | nil => trivial
  | cons e rest ih =>
    rcases stacked with ⟨rfl, behind⟩
    exact ⟨Nat.le_refl _, ih behind⟩

theorem Ascending.sublist {kept : List ε} (fewer : kept.Sublist entries)
    (ascending : x.Ascending low entries) : x.Ascending low kept := by
  induction fewer generalizing low with
  | slnil => trivial
  | cons e _ ih => exact (ih ascending.2).lower (Nat.le_trans ascending.1 (Nat.le_add_right _ _))
  | cons_cons e _ ih => exact ⟨ascending.1, ih ascending.2⟩

theorem Stacked.append (stacked : x.Stacked base entries)
    (next : x.offset e = base + x.total entries) : x.Stacked base (entries ++ [e]) := by
  induction entries generalizing base with
  | nil => exact ⟨next, trivial⟩
  | cons head rest ih =>
    refine ⟨stacked.1, ih stacked.2 ?_⟩
    rw [next, total, total, List.map_cons, List.sum_cons, Nat.add_assoc]

theorem Stacked.congr {entries' : List ε} (stacked : x.Stacked base entries)
    (same : entries'.map (fun e => (x.offset e, x.len e)) =
      entries.map (fun e => (x.offset e, x.len e))) : x.Stacked base entries' := by
  induction entries generalizing base entries' with
  | nil =>
    rw [List.map_eq_nil_iff.mp same]
    trivial
  | cons e rest ih =>
    rcases List.map_eq_cons_iff.mp same with ⟨e', rest', rfl, head, tail⟩
    rcases Prod.mk.inj head with ⟨offset, len⟩
    refine ⟨offset.trans stacked.1, ?_⟩
    rw [len]
    exact ih stacked.2 tail

theorem Ascending.offset_ge (ascending : x.Ascending low entries) (member : e ∈ entries) :
    low ≤ x.offset e := by
  induction entries generalizing low with
  | nil => cases member
  | cons head rest ih =>
    rcases List.mem_cons.mp member with rfl | later
    · exact ascending.1
    · exact Nat.le_trans (Nat.le_trans ascending.1 (Nat.le_add_right _ _)) (ih ascending.2 later)

theorem Stacked.stop_le (stacked : x.Stacked base entries) (member : e ∈ entries) :
    x.offset e + x.len e ≤ base + x.total entries := by
  induction entries generalizing base with
  | nil => cases member
  | cons head rest ih =>
    rw [total, List.map_cons, List.sum_cons]
    rcases List.mem_cons.mp member with rfl | later
    · rw [stacked.1]
      omega
    · have behind := ih stacked.2 later
      rw [total] at behind
      omega

theorem Stacked.offset_eq (stacked : x.Stacked base entries) {i : Nat}
    (placed : entries[i]? = some e) :
    x.offset e = base + x.total (entries.take i) := by
  induction entries generalizing base i with
  | nil => cases placed
  | cons head rest ih =>
    rcases i with _ | i
    · cases placed
      exact stacked.1
    · rw [ih stacked.2 placed, List.take_succ_cons, total, total, List.map_cons, List.sum_cons,
        Nat.add_assoc]

theorem total_sublist {kept : List ε} (fewer : kept.Sublist entries) :
    x.total kept ≤ x.total entries := (fewer.map x.len).sum_le_sum (fun _ _ => Nat.zero_le _)

theorem held_overwrite {items : List β} {pos : Nat} (fits : pos ≤ slab.length)
    (apart : x.offset e + x.len e ≤ pos ∨ pos + items.length ≤ x.offset e) :
    x.held (overwrite slab pos items) e = x.held slab e :=
  slice_overwrite_disjoint slab pos items _ _ fits apart

theorem held_moved (slab : List β) (write : Nat) (e : ε) (down : write ≤ x.offset e)
    (inside : x.offset e + x.len e ≤ slab.length) :
    x.held (copyWithin slab (x.offset e) (x.offset e + x.len e) write) (x.place e write) =
      x.held slab e := by
  have length : (slice slab (x.offset e) (x.len e)).length = x.len e :=
    length_slice slab _ _ inside
  have copied := slice_overwrite_same slab write (slice slab (x.offset e) (x.len e)) (by omega)
  rw [length] at copied
  rw [held, held, x.offset_place, x.len_place, copyWithin, Nat.add_sub_cancel_left]
  exact copied

/-- What compaction promises, for entries in order from `write` on. -/
structure Compacted (x : Extents ε) (write : Nat) (entries : List ε) (slab : List β)
    (result : Nat × List ε × List β) : Prop where
  used : result.1 = write + x.total entries
  stacked : x.Stacked write result.2.1
  moved : List.Forall₂ (fun e e' => e' = x.place e (x.offset e') ∨ e' = e) entries result.2.1
  held : result.2.1.map (x.held result.2.2) = entries.map (x.held slab)
  length : result.2.2.length = slab.length
  below : ∀ lo len, lo + len ≤ write → slice result.2.2 lo len = slice slab lo len

theorem compact_spec (entries : List ε) (write : Nat) (slab : List β)
    (ascending : x.Ascending write entries)
    (inside : ∀ e ∈ entries, x.offset e + x.len e ≤ slab.length) :
    x.Compacted write entries slab (x.compact write entries slab) := by
  induction entries generalizing write slab with
  | nil => exact ⟨rfl, trivial, .nil, rfl, rfl, fun _ _ _ => rfl⟩
  | cons e rest ih =>
    have first := inside e List.mem_cons_self
    have size : (slice slab (x.offset e) (x.len e)).length = x.len e :=
      length_slice slab _ _ first
    have down := ascending.1
    -- The move stores into `[write, write + len)`, below every entry that has not moved yet.
    have step : ∃ e' : ε, ∃ slab' : List β, (if x.offset e ≠ write then
          (x.place e write, copyWithin slab (x.offset e) (x.offset e + x.len e) write)
        else (e, slab)) = (e', slab') ∧
        x.offset e' = write ∧ x.len e' = x.len e ∧ (e' = x.place e (x.offset e') ∨ e' = e) ∧
        x.held slab' e' = x.held slab e ∧ slab'.length = slab.length ∧
        (∀ lo len, lo + len ≤ write ∨ write + x.len e ≤ lo →
          slice slab' lo len = slice slab lo len) := by
      by_cases hole : x.offset e ≠ write
      · refine ⟨_, _, if_pos hole, x.offset_place e write, x.len_place e write, .inl ?_,
          held_moved slab write e down first, ?_, ?_⟩
        · rw [x.offset_place]
        · exact length_overwrite _ _ _ (by rw [Nat.add_sub_cancel_left, size]; omega)
        · intro lo len apart
          apply slice_overwrite_disjoint _ _ _ _ _ (by omega)
          rw [Nat.add_sub_cancel_left, size]
          exact apart
      · exact ⟨_, _, if_neg hole, not_not.mp hole, rfl, .inr rfl, rfl, rfl, fun _ _ _ => rfl⟩
    rcases step with ⟨e', slab', moved, offset, len, same, held, length, frame⟩
    have behind : x.Ascending (write + x.len e) rest := ascending.2.lower (by omega)
    have kept : rest.map (x.held slab') = rest.map (x.held slab) := by
      apply List.map_congr_left
      intro later member
      exact frame _ _ (.inr (behind.offset_ge member))
    have done := ih (write + x.len e) slab' behind (by
      intro later member
      rw [length]
      exact inside later (List.mem_cons_of_mem _ member))
    rw [compact]
    simp only [moved]
    refine ⟨?_, ⟨offset, ?_⟩, .cons same done.moved, ?_, done.length.trans length, ?_⟩
    · rw [done.used, total, total, List.map_cons, List.sum_cons, Nat.add_assoc]
    · rw [len]
      exact done.stacked
    · rw [List.map_cons, List.map_cons, done.held, kept, ← held]
      congr 1
      exact done.below _ _ (by rw [offset, len])
    · intro lo size below
      rw [done.below lo size (by omega), frame lo size (.inl below)]

theorem Compacted.map_eq {write : Nat} {result : Nat × List ε × List β}
    (compacted : x.Compacted write entries slab result) {γ : Type} (view : ε → List β → γ)
    (fixed : ∀ e n bytes, view (x.place e n) bytes = view e bytes) :
    result.2.1.map (fun e => view e (x.held result.2.2 e)) =
      entries.map (fun e => view e (x.held slab e)) := by
  have moved := compacted.moved
  have held := compacted.held
  clear compacted
  generalize result.2.1 = after at moved held
  induction moved with
  | nil => rfl
  | cons step _ ih =>
    rw [List.map_cons, List.map_cons] at held
    rcases List.cons.inj held with ⟨first, rest⟩
    rw [List.map_cons, List.map_cons, ih rest, first]
    congr 1
    rcases step with placed | same
    · rw [placed, fixed]
    · rw [same]

theorem Compacted.total_eq {write : Nat} {result : Nat × List ε × List β}
    (compacted : x.Compacted write entries slab result) :
    x.total result.2.1 = x.total entries :=
  congrArg List.sum (compacted.map_eq (fun e _ => x.len e) (fun e n _ => x.len_place e n))

end Extents

end NanoRos
