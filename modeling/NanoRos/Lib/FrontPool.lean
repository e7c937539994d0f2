import NanoRos.Lib.PoolAllocator

/-! An allocator that keeps the contract: it hands out the memory behind the last block, in units of
a granularity, and moves a block only by shrinking it where it is. -/

namespace NanoRos

def roundUp (n unit : Nat) : Nat := (n + unit - 1) / unit * unit

theorem le_roundUp (n unit : Nat) (positive : 0 < unit) : n ≤ roundUp n unit := by
  have rest := Nat.lt_div_mul_add positive (a := n + unit - 1)
  rw [roundUp]
  omega

def ceiling (base : Nat) (blocks : List PoolBlock) : Nat :=
  blocks.foldr (fun b top => max (b.addr + b.usable) top) base

theorem le_ceiling (base : Nat) (blocks : List PoolBlock) :
    base ≤ ceiling base blocks ∧ ∀ b ∈ blocks, b.addr + b.usable ≤ ceiling base blocks := by
  induction blocks with
  | nil => exact ⟨Nat.le_refl _, by simp⟩
  | cons a blocks ih =>
    refine ⟨Nat.le_trans ih.1 (Nat.le_max_right _ _), ?_⟩
    rw [List.forall_mem_cons]
    refine ⟨Nat.le_max_left _ _, ?_⟩
    intro b member
    exact Nat.le_trans (ih.2 b member) (Nat.le_max_right _ _)

section FrontPool

variable (pool : Pool) (overhead granularity : Nat)

/-- The bytes a block of `size` bytes has: it fills up its last unit. -/
def filled (size : Nat) : Nat := roundUp (size + overhead) granularity - overhead

def nextBlock (blocks : List PoolBlock) (size : Nat) : PoolBlock where
  addr := roundUp (ceiling pool.base blocks) pool.align + overhead
  request := size
  usable := filled overhead granularity size

def frontPool : PoolAllocator where
  State := List PoolBlock
  new := []
  insertFreeBlock blocks memory := (pool.stop - pool.base, blocks, memory)
  allocate blocks memory size :=
    let b := nextBlock pool overhead granularity blocks size
    if b.addr + b.usable ≤ pool.stop then (some b.addr, b :: blocks, memory)
    else (none, blocks, memory)
  deallocate blocks memory ptr := (without blocks ptr, memory)
  reallocate blocks memory ptr size :=
    match blocks.find? fun b => b.addr = ptr with
    | some b =>
      if size ≤ b.usable then
        (some ptr, ⟨ptr, size, min b.usable (filled overhead granularity size)⟩ ::
          without blocks ptr, memory)
      else (none, blocks, memory)
    | none => (none, blocks, memory)
  usableSize blocks ptr := ((blocks.find? fun b => b.addr = ptr).map PoolBlock.usable).getD 0
  blocks := id

end FrontPool

theorem find_addr {blocks : List PoolBlock} (distinct : (blocks.map PoolBlock.addr).Nodup)
    {b : PoolBlock} (member : b ∈ blocks) :
    (blocks.find? fun b' => b'.addr = b.addr) = some b := by
  induction blocks with
  | nil => cases member
  | cons a blocks ih =>
    rw [List.map_cons, List.nodup_cons] at distinct
    rcases List.mem_cons.mp member with rfl | later
    · rw [List.find?_cons_of_pos (by simp)]
    · have other : a.addr ≠ b.addr := by
        intro same
        rw [same] at distinct
        exact distinct.1 (List.mem_map_of_mem later)
      rw [List.find?_cons_of_neg (by simp [other])]
      exact ih distinct.2 later

theorem frontPool_lawful (pool : Pool) (overhead granularity : Nat)
    (behind : pool.first = pool.base + overhead) (even : pool.align ∣ overhead)
    (unit : 0 < pool.align) (grain : 0 < granularity) :
    (frontPool pool overhead granularity).Lawful pool where
  new_blocks := rfl
  inserted := fun m => ⟨rfl, .refl m⟩
  usable := by
    intro (blocks : List PoolBlock) (placed : Placed pool blocks) b (member : b ∈ blocks)
    change ((blocks.find? _).map PoolBlock.usable).getD 0 = _
    rw [find_addr placed.addr_nodup member]
    rfl
  allocated := by
    intro (blocks : List PoolBlock) m size p blocks' m' (placed : Placed pool blocks) positive done
    have top := le_ceiling pool.base blocks
    have rounded := le_roundUp (ceiling pool.base blocks) pool.align unit
    have fits := le_roundUp (size + overhead) granularity grain
    simp only [frontPool] at done
    split at done
    case isFalse => cases done
    case isTrue room =>
      cases done
      refine ⟨filled overhead granularity size, .refl _, ?_, .refl _⟩
      apply placed.cons
      · intro b member
        refine .inr ((top.2 b member).trans (rounded.trans ?_))
        exact Nat.le_add_right _ _
      · refine ⟨?_, room⟩
        rw [behind]
        exact Nat.add_le_add_right (top.1.trans rounded) _
      · exact Nat.dvd_add (Nat.dvd_mul_left _ _) even
      · change size ≤ filled overhead granularity size
        rw [filled]
        omega
      · exact positive
  refused := by
    intro blocks m size blocks' m' placed done
    simp only [frontPool] at done
    split at done
    case isTrue => cases done
    case isFalse =>
      cases done
      exact ⟨.refl _, .refl _⟩
  deallocated := by
    intro (blocks : List PoolBlock) m b blocks' m' (placed : Placed pool blocks)
      (member : b ∈ blocks) done
    cases done
    exact ⟨perm_without placed.addr_nodup member, .refl _⟩
  reallocated := by
    intro (blocks : List PoolBlock) m b size q blocks' m' (placed : Placed pool blocks)
      (member : b ∈ blocks) positive done
    have found := find_addr placed.addr_nodup member
    have own := perm_without placed.addr_nodup member
    have apart := placed.perm own
    have fits := le_roundUp (size + overhead) granularity grain
    simp only [frontPool, found] at done
    split at done
    case isFalse => cases done
    case isTrue room =>
      cases done
      have large : size ≤ min b.usable (filled overhead granularity size) := by
        rw [filled]
        omega
      refine ⟨_, _, own, .refl _, ?_, .refl _, fun _ _ => rfl⟩
      apply apart.tail.cons
      · intro b' listed
        rcases (List.pairwise_cons.mp apart.apart).1 b' listed with low | high
        · refine .inl (Nat.le_trans (Nat.add_le_add_left ?_ _) low)
          exact Nat.min_le_left _ _
        · exact .inr high
      · have inside := placed.inside b member
        refine ⟨inside.1, Nat.le_trans (Nat.add_le_add_left ?_ _) inside.2⟩
        exact Nat.min_le_left _ _
      · exact placed.aligned b member
      · exact large
      · exact positive
  preserved := by
    intro (blocks : List PoolBlock) m b size blocks' m' (placed : Placed pool blocks)
      (member : b ∈ blocks) done
    have found := find_addr placed.addr_nodup member
    simp only [frontPool, found] at done
    split at done
    case isTrue => cases done
    case isFalse =>
      cases done
      exact ⟨.refl _, .refl _⟩

end NanoRos
