import NanoRos.Lib.LittleEndian
import NanoRos.Lib.Memory
import NanoRos.Lib.Runs
import NanoRos.Lib.Tiling

/-! The executor's arena: a bump pointer over one byte slice, and a free list whose nodes lie in the
released regions themselves. -/

namespace NanoRos

open LittleEndian Memory Tiling

def roundedUp (x m : Nat) : Nat := if x % m = 0 then x else x + (m - x % m)

/-- The bytes of a `usize` and the alignment of a `u64` (`ARENA_GRAIN`) on the target. -/
structure ArenaTarget where
  wordBytes : Nat
  grain : Nat
  wordPos : 0 < wordBytes
  grainPos : 0 < grain

structure Arena where
  bytes : List UInt8
  used : Nat
  freeHead : Nat

inductive ArenaError where
  | bufferTooSmall
  deriving DecidableEq

namespace ArenaTarget

variable (t : ArenaTarget)

def modulus : Nat := 256 ^ t.wordBytes

def add (x y : Nat) : Nat := (x + y) % t.modulus

def sub (x y : Nat) : Nat := (x + t.modulus - y) % t.modulus

def nextMultipleOf (x m : Nat) : Nat := roundedUp x m % t.modulus

/-- `ARENA_MIN_REGION`: a node of the free list, rounded to the grain. -/
def minRegion : Nat := roundedUp (2 * t.wordBytes) t.grain

/-- `ARENA_FREE_NONE`, `usize::MAX`. -/
def freeNone : Nat := t.modulus - 1

def arenaRegionLen (len : Nat) : Nat :=
  let len := t.nextMultipleOf len t.grain
  if len < t.minRegion then t.minRegion else len

def word (bytes : List UInt8) (offset : Nat) : Nat := leNat (slice bytes offset t.wordBytes)

/-- `arena_hole`: the next node and the length. -/
def arenaHole (bytes : List UInt8) (offset : Nat) : Nat × Nat :=
  (t.word bytes offset, t.word bytes (offset + t.wordBytes))

def arenaSetHole (bytes : List UInt8) (offset next len : Nat) : List UInt8 :=
  overwrite bytes offset (leBytes t.wordBytes next ++ leBytes t.wordBytes len)

def arenaLink (a : Arena) (prev next : Nat) : Arena :=
  if prev = t.freeNone then { a with freeHead := next }
  else { a with bytes := t.arenaSetHole a.bytes prev next (t.arenaHole a.bytes prev).2 }

/-- What `arena_take_freed` does with a hole that fits: the head slack and the tail stay listed. -/
def splitHole (a : Arena) (size start prev cur next len : Nat) : Block × Arena :=
  let head := t.sub start cur
  let tail := t.sub (t.add cur len) (t.add start size)
  let granted := if tail < t.minRegion then t.add size tail else size
  let tailed := if t.minRegion ≤ tail then
      ({ a with bytes := t.arenaSetHole a.bytes (t.add start size) next tail }, t.add start size)
    else (a, next)
  if 0 < head then
    (⟨start, granted⟩, { tailed.1 with bytes := t.arenaSetHole tailed.1.bytes cur tailed.2 head })
  else (⟨start, granted⟩, t.arenaLink tailed.1 prev tailed.2)

/-- The loop of `arena_take_freed`; it turns once for every node it reads. -/
def takeFreedFrom (a : Arena) (size align : Nat) :
    Nat → Nat → Nat → Option (Option (Block × Arena))
  | 0, _, _ => none
  | turns + 1, prev, cur =>
    if cur = t.freeNone then some none
    else
      let node := t.arenaHole a.bytes cur
      let start := t.nextMultipleOf cur align
      let head := t.sub start cur
      if t.add start size ≤ t.add cur node.2 ∧ (head = 0 ∨ t.minRegion ≤ head) then
        some (some (t.splitHole a size start prev cur node.1 node.2))
      else takeFreedFrom a size align turns cur node.1

def arenaTakeFreed (a : Arena) (size align : Nat) : Option (Option (Block × Arena)) :=
  t.takeFreedFrom a size align (a.bytes.length + 1) t.freeNone a.freeHead

/-- The end of both allocators, with the region a fresh entry would take from the top. -/
def bump (a : Arena) (start size : Nat) : Except ArenaError Block × Arena :=
  let newUsed := t.add start size
  if a.bytes.length < newUsed then (.error .bufferTooSmall, a)
  else (.ok ⟨start, size⟩, { a with used := newUsed })

/-- `arena_alloc`; the region is what `note_entry_region` records. -/
def arenaAlloc (a : Arena) (typeSize typeAlign : Nat) :
    Option (Except ArenaError Block × Arena) := do
  let align := max typeAlign t.grain
  let size := t.arenaRegionLen typeSize
  match ← t.arenaTakeFreed a size align with
  | some (block, a) => return (.ok block, a)
  | none =>
    -- `& !(align - 1)` with a power of two
    let raised := t.sub (t.add a.used align) 1
    return t.bump a (raised - raised % align) size

/-- `arena_alloc_with_trailing`, with the offset of the trailing bytes. -/
def arenaAllocWithTrailing (a : Arena) (typeSize typeAlign trailing : Nat) :
    Option (Except ArenaError (Block × Nat) × Arena) := do
  let align := max typeAlign t.grain
  let whole := t.arenaRegionLen (t.add (t.nextMultipleOf typeSize t.grain) trailing)
  let placed := fun (block : Block) =>
    (block, t.nextMultipleOf (t.add block.start typeSize) t.grain)
  match ← t.arenaTakeFreed a whole align with
  | some (block, a) => return (.ok (placed block), a)
  | none =>
    let result := t.bump a (t.nextMultipleOf a.used align) whole
    return (result.1.map placed, result.2)

/-- The loop of `arena_release`: the two nodes before `offset` and the one behind it. -/
def releaseSeek (bytes : List UInt8) (offset : Nat) :
    Nat → Nat → Nat → Nat → Option (Nat × Nat × Nat)
  | 0, _, _, _ => none
  | turns + 1, pprev, prev, cur =>
    if cur ≠ t.freeNone ∧ cur < offset then
      releaseSeek bytes offset turns prev cur (t.arenaHole bytes cur).1
    else some (pprev, prev, cur)

def arenaRelease (a : Arena) (offset len : Nat) : Option Arena := do
  let (pprev, prev, cur) ←
    t.releaseSeek a.bytes offset (a.bytes.length + 1) t.freeNone t.freeNone a.freeHead
  let (size, next) := if cur ≠ t.freeNone ∧ t.add offset len = cur then
      (t.add len (t.arenaHole a.bytes cur).2, (t.arenaHole a.bytes cur).1)
    else (len, cur)
  let (start, size, prev) :=
    if prev ≠ t.freeNone ∧ t.add prev (t.arenaHole a.bytes prev).2 = offset then
      (prev, t.add size (t.arenaHole a.bytes prev).2, pprev)
    else (offset, size, prev)
  if t.add start size = a.used then
    return t.arenaLink { a with used := start } prev next
  else
    return t.arenaLink { a with bytes := t.arenaSetHole a.bytes start next size } prev start

/-- The walk of `arena_released` and `arena_holes`. -/
def freeListFrom (bytes : List UInt8) : Nat → Nat → Option (List Block)
  | 0, _ => none
  | turns + 1, cur =>
    if cur = t.freeNone then some []
    else
      let node := t.arenaHole bytes cur
      (freeListFrom bytes turns node.1).map (⟨cur, node.2⟩ :: ·)

def freeList (a : Arena) : Option (List Block) :=
  t.freeListFrom a.bytes (a.bytes.length + 1) a.freeHead

def arenaReleased (a : Arena) : Option Nat :=
  (t.freeList a).map fun holes => (holes.map Block.len).sum

/-- The nodes from `cur` to `stop` are those of `holes`. -/
def Segment (bytes : List UInt8) : Nat → List Block → Nat → Prop
  | cur, [], stop => cur = stop
  | cur, hole :: holes, stop =>
    cur = hole.start ∧ (t.arenaHole bytes cur).2 = hole.len ∧
      Segment bytes (t.arenaHole bytes cur).1 holes stop

/-- Blocks of one arena that can all hold a node. -/
structure Listable (extent : Nat) (holes : List Block) : Prop where
  ordered : holes.Pairwise fun a b => a.stop ≤ b.start
  sizes : ∀ hole ∈ holes, t.minRegion ≤ hole.len ∧ hole.stop ≤ extent

def lastStart (holes : List Block) : Nat := (holes.getLast?.map Block.start).getD t.freeNone

def firstStart (holes : List Block) : Nat := (holes.head?.map Block.start).getD t.freeNone

end ArenaTarget

theorem le_roundedUp (x m : Nat) : x ≤ roundedUp x m := by
  rw [roundedUp]
  split <;> omega

theorem dvd_roundedUp (x m : Nat) (positive : 0 < m) : m ∣ roundedUp x m := by
  rw [roundedUp]
  split
  case isTrue zero => exact Nat.dvd_of_mod_eq_zero zero
  case isFalse =>
    have parts := Nat.div_add_mod x m
    have below := Nat.mod_lt x positive
    refine ⟨x / m + 1, ?_⟩
    rw [Nat.mul_add, Nat.mul_one]
    omega

theorem roundedUp_of_dvd {x m : Nat} (divides : m ∣ x) : roundedUp x m = x := by
  rw [roundedUp, if_pos (Nat.mod_eq_zero_of_dvd divides)]

theorem roundedUp_add {x m : Nat} (divides : m ∣ x) (y : Nat) :
    roundedUp (x + y) m = x + roundedUp y m := by
  have same : (x + y) % m = y % m := by
    rw [Nat.add_mod, Nat.mod_eq_zero_of_dvd divides, Nat.zero_add, Nat.mod_mod]
  rw [roundedUp, roundedUp, same]
  split <;> omega

namespace ArenaTarget

variable {t : ArenaTarget} {bytes : List UInt8} {extent cur mid stop : Nat}
  {holes before after : List Block}

theorem node_fits (t : ArenaTarget) : 2 * t.wordBytes ≤ t.minRegion := le_roundedUp _ _

theorem minRegion_pos (t : ArenaTarget) : 0 < t.minRegion := by
  have fits := t.node_fits
  have word := t.wordPos
  omega

variable {offset next len : Nat} {b : Block} {a : Arena} {x : Nat}

theorem arenaHole_set (inside : offset + 2 * t.wordBytes ≤ bytes.length) (low : next < t.modulus)
    (small : len < t.modulus) :
    t.arenaHole (t.arenaSetHole bytes offset next len) offset = (next, len) := by
  have first : (leBytes t.wordBytes next).length = t.wordBytes := length_leBytes _ _
  have second : (leBytes t.wordBytes len).length = t.wordBytes := length_leBytes _ _
  have fits : offset + (leBytes t.wordBytes next).length ≤ bytes.length := by omega
  have size : (overwrite bytes offset (leBytes t.wordBytes next)).length = bytes.length :=
    length_overwrite _ _ _ fits
  rw [arenaHole, arenaSetHole, ← overwrite_append _ _ _ _ fits, first, word, word]
  have lower : slice (overwrite (overwrite bytes offset (leBytes t.wordBytes next))
      (offset + t.wordBytes) (leBytes t.wordBytes len)) offset t.wordBytes =
      leBytes t.wordBytes next := by
    rw [slice_overwrite_disjoint _ _ _ _ _ (by omega) (.inl (le_refl _))]
    have same := slice_overwrite_same bytes offset (leBytes t.wordBytes next) (by omega)
    rw [first] at same
    exact same
  have upper : slice (overwrite (overwrite bytes offset (leBytes t.wordBytes next))
      (offset + t.wordBytes) (leBytes t.wordBytes len)) (offset + t.wordBytes) t.wordBytes =
      leBytes t.wordBytes len := by
    have same := slice_overwrite_same (overwrite bytes offset (leBytes t.wordBytes next))
      (offset + t.wordBytes) (leBytes t.wordBytes len) (by omega)
    rw [second] at same
    exact same
  rw [lower, upper, leNat_leBytes, leNat_leBytes]
  exact congrArg₂ Prod.mk (Nat.mod_eq_of_lt low) (Nat.mod_eq_of_lt small)

theorem arenaHole_overwrite {pos : Nat} {items : List UInt8} (fits : pos ≤ bytes.length)
    (apart : offset + 2 * t.wordBytes ≤ pos ∨ pos + items.length ≤ offset) :
    t.arenaHole (overwrite bytes pos items) offset = t.arenaHole bytes offset := by
  rw [arenaHole, arenaHole, word, word, word, word,
    slice_overwrite_disjoint _ _ _ _ _ fits (by omega),
    slice_overwrite_disjoint _ _ _ _ _ fits (by omega)]

theorem length_arenaSetHole (inside : offset + 2 * t.wordBytes ≤ bytes.length) :
    (t.arenaSetHole bytes offset next len).length = bytes.length := by
  apply length_overwrite
  rw [List.length_append, length_leBytes, length_leBytes]
  omega

theorem arenaHole_set_apart {a : Block} (apart : a.Disjoint b)
    (fits : t.minRegion ≤ a.len ∧ a.stop ≤ bytes.length) (room : t.minRegion ≤ b.len) :
    t.arenaHole (t.arenaSetHole bytes a.start next len) b.start = t.arenaHole bytes b.start := by
  have node := t.node_fits
  have size : (leBytes t.wordBytes next ++ leBytes t.wordBytes len).length = 2 * t.wordBytes := by
    rw [List.length_append, length_leBytes, length_leBytes]
    omega
  simp only [Block.Disjoint, Block.stop] at apart fits
  apply arenaHole_overwrite (by omega)
  rw [size]
  omega

namespace Segment

theorem append :
    t.Segment bytes cur (before ++ after) stop ↔
      ∃ mid, t.Segment bytes cur before mid ∧ t.Segment bytes mid after stop := by
  induction before generalizing cur with
  | nil =>
    constructor
    · intro whole
      exact ⟨cur, rfl, whole⟩
    · rintro ⟨mid, rfl, whole⟩
      exact whole
  | cons hole before ih =>
    rw [List.cons_append, Segment, ih]
    constructor
    · rintro ⟨start, len, mid, first, second⟩
      exact ⟨mid, ⟨start, len, first⟩, second⟩
    · rintro ⟨mid, ⟨start, len, first⟩, second⟩
      exact ⟨start, len, mid, first, second⟩

theorem congr {other : List UInt8}
    (same : ∀ hole ∈ holes, t.arenaHole other hole.start = t.arenaHole bytes hole.start)
    (segment : t.Segment bytes cur holes stop) : t.Segment other cur holes stop := by
  induction holes generalizing cur with
  | nil => exact segment
  | cons hole holes ih =>
    rcases segment with ⟨rfl, len, rest⟩
    rw [Segment, same hole List.mem_cons_self]
    exact ⟨rfl, len, ih (fun later member => same later (List.mem_cons_of_mem _ member)) rest⟩

theorem cur_eq (segment : t.Segment bytes cur holes t.freeNone) : cur = t.firstStart holes := by
  cases holes with
  | nil => exact segment
  | cons hole holes => exact segment.1

end Segment

namespace Listable

theorem start_lt (listable : t.Listable extent holes) (small : extent < t.modulus) (hole : Block)
    (member : hole ∈ holes) :
    hole.start < t.freeNone ∧ hole.len < t.modulus ∧ hole.stop < t.modulus := by
  have size := listable.sizes hole member
  have least := t.minRegion_pos
  simp only [Block.stop, freeNone] at size ⊢
  omega

theorem firstStart_lt (listable : t.Listable extent holes) (small : extent < t.modulus) :
    t.firstStart holes < t.modulus := by
  cases holes with
  | nil => exact show t.modulus - 1 < t.modulus by omega
  | cons hole holes =>
    have bound := (listable.start_lt small hole List.mem_cons_self).1
    exact show hole.start < t.modulus by rw [freeNone] at bound; omega

section

variable (listable : t.Listable extent (before ++ after))
include listable

theorem left : t.Listable extent before :=
  ⟨(List.pairwise_append.mp listable.ordered).1,
    fun hole member => listable.sizes hole (List.mem_append_left _ member)⟩

theorem right : t.Listable extent after :=
  ⟨(List.pairwise_append.mp listable.ordered).2.1,
    fun hole member => listable.sizes hole (List.mem_append_right _ member)⟩

theorem disjoint {a b : Block} (first : a ∈ before) (second : b ∈ after) : a.Disjoint b :=
  .inl ((List.pairwise_append.mp listable.ordered).2.2 a first b second)

end

theorem drop {hole : Block} (listable : t.Listable extent (before ++ hole :: after)) :
    t.Listable extent (before ++ after) := by
  have fewer : (before ++ after).Sublist (before ++ hole :: after) :=
    (List.Sublist.refl _).append (List.sublist_cons_self _ _)
  exact ⟨List.Pairwise.sublist fewer listable.ordered,
    fun other member => listable.sizes other (fewer.subset member)⟩

theorem replace {a b : Block} (listable : t.Listable extent (before ++ a :: after))
    (room : t.minRegion ≤ b.len) (low : a.start ≤ b.start) (high : b.stop ≤ a.stop) :
    t.Listable extent (before ++ b :: after) := by
  have others := listable.drop
  have middle := listable.sizes a (by simp)
  have behind : ∀ hole ∈ after, a.stop ≤ hole.start := fun hole member =>
    List.rel_of_pairwise_cons (List.pairwise_append.mp listable.ordered).2.1 member
  refine ⟨?_, ?_⟩
  · apply List.pairwise_append.mpr
    refine ⟨others.left.ordered, List.Pairwise.cons ?_ others.right.ordered, ?_⟩
    · intro hole member
      exact high.trans (behind hole member)
    · intro hole earlier other member
      have order := (List.pairwise_append.mp listable.ordered).2.2 hole earlier
      rcases List.mem_cons.mp member with rfl | later
      · exact (order a List.mem_cons_self).trans low
      · exact order other (List.mem_cons_of_mem _ later)
  · intro hole member
    simp only [List.mem_append, List.mem_cons] at member
    rcases member with earlier | rfl | later
    · exact others.sizes hole (List.mem_append_left _ earlier)
    · exact ⟨room, high.trans middle.2⟩
    · exact others.sizes hole (List.mem_append_right _ later)

theorem length_le (listable : t.Listable extent holes) : holes.length ≤ extent := by
  have sum : ∀ place, (∀ hole ∈ holes, place ≤ hole.start) → place ≤ extent →
      holes.length + place ≤ extent := by
    have ordered := listable.ordered
    have sizes := listable.sizes
    clear listable
    induction holes with
    | nil =>
      intro place _ below
      rwa [List.length_nil, Nat.zero_add]
    | cons hole holes ih =>
      intro place above _
      have size := sizes hole List.mem_cons_self
      have least := t.minRegion_pos
      have start := above hole List.mem_cons_self
      have later := ih (List.Pairwise.of_cons ordered)
        (fun other member => sizes other (List.mem_cons_of_mem _ member)) hole.stop
        (fun other member => List.rel_of_pairwise_cons ordered member) size.2
      rw [List.length_cons]
      simp only [Block.stop] at later size
      omega
  have bound := sum 0 (fun _ _ => Nat.zero_le _) (Nat.zero_le _)
  omega

end Listable

theorem freeListFrom_eq (turns : Nat) (small : extent < t.modulus)
    (segment : t.Segment bytes cur holes t.freeNone) (listable : t.Listable extent holes)
    (enough : holes.length < turns) : t.freeListFrom bytes turns cur = some holes := by
  induction holes generalizing cur turns with
  | nil =>
    rcases turns with _ | turns
    · exact absurd enough (Nat.not_lt_zero _)
    · rw [freeListFrom, if_pos (show cur = t.freeNone from segment)]
  | cons hole holes ih =>
    rcases turns with _ | turns
    · exact absurd enough (Nat.not_lt_zero _)
    · rcases segment with ⟨rfl, len, rest⟩
      have bound := listable.start_lt small hole List.mem_cons_self
      have later : t.Listable extent ([hole] ++ holes) := listable
      rw [freeListFrom, if_neg (Nat.ne_of_lt bound.1)]
      dsimp only
      rw [ih turns rest later.right (Nat.lt_of_succ_lt_succ enough), len]
      rfl

theorem lastStart_concat (t : ArenaTarget) (front : List Block) (last : Block) :
    t.lastStart (front ++ [last]) = last.start := by
  rw [lastStart, List.getLast?_concat]
  rfl

/-- The list now goes on from `before` to `next`, and nothing outside `before` was written. -/
structure Relinked (t : ArenaTarget) (a a' : Arena) (before : List Block) (next : Nat) : Prop where
  segment : t.Segment a'.bytes a'.freeHead before next
  used : a'.used = a.used
  length : a'.bytes.length = a.bytes.length
  frame : ∀ b : Block, t.minRegion ≤ b.len → (∀ hole ∈ before, hole.Disjoint b) →
    t.arenaHole a'.bytes b.start = t.arenaHole a.bytes b.start

section

variable (small : a.bytes.length < t.modulus)
include small

theorem arenaLink_spec (segment : t.Segment a.bytes a.freeHead before cur)
    (listable : t.Listable a.bytes.length before) (low : next < t.modulus) :
    Relinked t a (t.arenaLink a (t.lastStart before) next) before next := by
  rcases List.eq_nil_or_concat before with rfl | ⟨front, last, rfl⟩
  · have linked : t.arenaLink a (t.lastStart []) next = { a with freeHead := next } := if_pos rfl
    rw [linked]
    exact ⟨rfl, rfl, rfl, fun _ _ _ => rfl⟩
  · rw [List.concat_eq_append] at segment listable ⊢
    have member : last ∈ front ++ [last] := List.mem_append_right _ (List.mem_singleton.mpr rfl)
    have bound := listable.start_lt small last member
    have fits := listable.sizes last member
    have node := t.node_fits
    have inside : last.start + 2 * t.wordBytes ≤ a.bytes.length := by
      have stop := fits.2
      rw [Block.stop] at stop
      omega
    have prev := t.lastStart_concat front last
    rcases Segment.append.mp segment with ⟨mid, ahead, rfl, len, _⟩
    have linked : t.arenaLink a (t.lastStart (front ++ [last])) next =
        { a with bytes := t.arenaSetHole a.bytes last.start next last.len } := by
      rw [prev, arenaLink, if_neg (by omega), len]
    rw [linked]
    refine ⟨Segment.append.mpr ⟨last.start, ?_, rfl, ?_⟩, rfl, length_arenaSetHole inside, ?_⟩
    · apply Segment.congr _ ahead
      intro hole earlier
      have apart := listable.disjoint earlier (List.mem_singleton.mpr rfl)
      exact arenaHole_set_apart apart.symm fits
        (listable.sizes hole (List.mem_append_left _ earlier)).1
    · rw [arenaHole_set inside low bound.2.1]
      exact ⟨rfl, rfl⟩
    · intro b room apart
      exact arenaHole_set_apart (apart last member) fits room

theorem Segment.setHole (segment : t.Segment a.bytes cur after t.freeNone)
    (listable : t.Listable a.bytes.length (b :: after)) :
    t.Segment (t.arenaSetHole a.bytes b.start cur b.len) b.start (b :: after) t.freeNone := by
  have bound := listable.start_lt small b List.mem_cons_self
  have fits := listable.sizes b List.mem_cons_self
  have node := t.node_fits
  have stop := fits.2
  rw [Block.stop] at stop
  have rest : t.Listable a.bytes.length ([b] ++ after) := listable
  have low := rest.right.firstStart_lt small
  rw [← segment.cur_eq] at low
  refine ⟨rfl, ?_, ?_⟩
  · rw [arenaHole_set (by omega) low bound.2.1]
  · rw [arenaHole_set (by omega) low bound.2.1]
    apply Segment.congr _ segment
    intro hole member
    exact arenaHole_set_apart (rest.disjoint (List.mem_singleton.mpr rfl) member) fits
      (rest.right.sizes hole member).1

/-- The list is `holes`; the rest of the arena is as it was. -/
structure Lists (t : ArenaTarget) (a a' : Arena) (holes : List Block) : Prop where
  segment : t.Segment a'.bytes a'.freeHead holes t.freeNone
  used : a'.used = a.used
  length : a'.bytes.length = a.bytes.length

theorem arenaLink_lists (first : t.Segment a.bytes a.freeHead before cur)
    (second : t.Segment a.bytes next after t.freeNone)
    (listable : t.Listable a.bytes.length (before ++ after)) :
    Lists t a (t.arenaLink a (t.lastStart before) next) (before ++ after) := by
  have low := listable.right.firstStart_lt small
  rw [← second.cur_eq] at low
  have relinked := arenaLink_spec small first listable.left low
  refine ⟨Segment.append.mpr ⟨next, relinked.segment, ?_⟩, relinked.used, relinked.length⟩
  apply Segment.congr _ second
  intro hole member
  apply relinked.frame hole (listable.right.sizes hole member).1
  intro earlier member'
  exact listable.disjoint member' member

theorem setHole_lists (first : t.Segment a.bytes a.freeHead before cur)
    (second : t.Segment a.bytes next after t.freeNone)
    (listable : t.Listable a.bytes.length (before ++ b :: after)) :
    Lists t a (t.arenaLink { a with bytes := t.arenaSetHole a.bytes b.start next b.len }
      (t.lastStart before) b.start) (before ++ b :: after) := by
  have fits := listable.right.sizes b List.mem_cons_self
  have node := t.node_fits
  have stop := fits.2
  rw [Block.stop] at stop
  have length : (t.arenaSetHole a.bytes b.start next b.len).length = a.bytes.length :=
    length_arenaSetHole (by omega)
  have kept : t.Segment (t.arenaSetHole a.bytes b.start next b.len) a.freeHead before cur := by
    apply Segment.congr _ first
    intro hole member
    exact arenaHole_set_apart (listable.disjoint member List.mem_cons_self).symm fits
      (listable.left.sizes hole member).1
  have lists := arenaLink_lists
    (a := { a with bytes := t.arenaSetHole a.bytes b.start next b.len })
    (by rw [length]; exact small) kept (second.setHole small listable.right)
    (by rw [length]; exact listable)
  exact ⟨lists.segment, lists.used, lists.length.trans length⟩

end

theorem add_eq {y : Nat} (small : x + y < t.modulus) : t.add x y = x + y :=
  Nat.mod_eq_of_lt small

theorem sub_eq {y : Nat} (order : y ≤ x) (small : x < t.modulus) : t.sub x y = x - y := by
  have turn : x + t.modulus - y = t.modulus + (x - y) := by omega
  rw [sub, turn, Nat.add_mod_left]
  exact Nat.mod_eq_of_lt (by omega)

/-- What is left of a hole after `size` bytes of it are given out. -/
def leftOver (t : ArenaTarget) (hole : Block) (size : Nat) : List Block :=
  if hole.len - size < t.minRegion then [] else [⟨hole.start + size, hole.len - size⟩]

def grantedOf (t : ArenaTarget) (hole : Block) (size : Nat) : Nat :=
  if hole.len - size < t.minRegion then hole.len else size

theorem splitHole_spec {hole : Block} {size : Nat} (small : a.bytes.length < t.modulus)
    (segment : t.Segment a.bytes a.freeHead (before ++ hole :: after) t.freeNone)
    (listable : t.Listable a.bytes.length (before ++ hole :: after)) (fits : size ≤ hole.len) :
    ∃ a', t.splitHole a size hole.start (t.lastStart before) hole.start (t.firstStart after)
        hole.len = (⟨hole.start, t.grantedOf hole size⟩, a') ∧
      Lists t a a' (before ++ (t.leftOver hole size ++ after)) := by
  rcases Segment.append.mp segment with ⟨mid, first, rfl, len, second⟩
  have bound := listable.start_lt small hole (by simp)
  have size' := listable.sizes hole (by simp)
  simp only [Block.stop] at bound size'
  have next := second.cur_eq
  have noHead : t.sub hole.start hole.start = 0 := by
    rw [sub_eq (le_refl _) (by rw [freeNone] at bound; omega), Nat.sub_self]
  have stop : t.add hole.start hole.len = hole.start + hole.len := add_eq (by omega)
  have taken : t.add hole.start size = hole.start + size := add_eq (by omega)
  have tail : t.sub (hole.start + hole.len) (hole.start + size) = hole.len - size := by
    rw [sub_eq (by omega) (by omega)]
    omega
  have whole : size + (hole.len - size) = hole.len := by omega
  rw [splitHole, noHead, stop, taken, tail, grantedOf, leftOver]
  by_cases short : hole.len - size < t.minRegion
  · simp only [if_pos short, if_neg (Nat.not_le.mpr short), Nat.lt_irrefl, if_false]
    refine ⟨_, ?_, arenaLink_lists small first second listable.drop⟩
    rw [add_eq (by omega), whole, next]
  · have room : t.minRegion ≤ hole.len - size := Nat.not_lt.mp short
    have smaller : t.Listable a.bytes.length
        (before ++ ⟨hole.start + size, hole.len - size⟩ :: after) := by
      apply listable.replace room (Nat.le_add_right _ _)
      exact show hole.start + size + (hole.len - size) ≤ hole.start + hole.len by omega
    simp only [if_neg short, if_pos room, Nat.lt_irrefl, if_false, ← next]
    exact ⟨_, rfl, setHole_lists small first second smaller⟩

theorem nextMultipleOf_eq (divides : t.grain ∣ x) (small : x < t.modulus) :
    t.nextMultipleOf x t.grain = x := by
  rw [nextMultipleOf, roundedUp_of_dvd divides]
  exact Nat.mod_eq_of_lt small

theorem takeFreedFrom_eq (size turns : Nat) (small : a.bytes.length < t.modulus) (prev : Nat)
    (segment : t.Segment a.bytes cur holes t.freeNone) (listable : t.Listable a.bytes.length holes)
    (aligned : ∀ hole ∈ holes, t.grain ∣ hole.start)
    (room : ∀ hole ∈ holes, hole.start + size < t.modulus) (enough : holes.length < turns) :
    t.takeFreedFrom a size t.grain turns prev cur = some ((firstFit size holes).map fun found =>
        t.splitHole a size found.2.1.start ((found.1.getLast?.map Block.start).getD prev)
          found.2.1.start (t.firstStart found.2.2) found.2.1.len) := by
  induction holes generalizing prev cur turns with
  | nil =>
    rcases turns with _ | turns
    · exact absurd enough (Nat.not_lt_zero _)
    · rw [takeFreedFrom, if_pos (show cur = t.freeNone from segment)]
      rfl
  | cons hole holes ih =>
    rcases turns with _ | turns
    · exact absurd enough (Nat.not_lt_zero _)
    · rcases segment with ⟨rfl, len, rest⟩
      have bound := listable.start_lt small hole List.mem_cons_self
      have ends := room hole List.mem_cons_self
      simp only [Block.stop] at bound
      have start : t.nextMultipleOf hole.start t.grain = hole.start :=
        nextMultipleOf_eq (aligned hole List.mem_cons_self) (by omega)
      have noHead : t.sub hole.start hole.start = 0 := by
        rw [sub_eq (le_refl _) (by omega), Nat.sub_self]
      have later : t.Listable a.bytes.length ([hole] ++ holes) := listable
      rw [takeFreedFrom, if_neg (Nat.ne_of_lt bound.1)]
      simp only [start, noHead, true_or, and_true, len, add_eq ends, add_eq bound.2.2,
        Nat.add_le_add_iff_left, firstFit]
      split
      case isTrue =>
        rw [rest.cur_eq]
        rfl
      case isFalse =>
        rw [ih turns hole.start rest later.right
          (fun other member => aligned other (List.mem_cons_of_mem _ member))
          (fun other member => room other (List.mem_cons_of_mem _ member))
          (Nat.lt_of_succ_lt_succ enough)]
        cases firstFit size holes with
        | none => rfl
        | some found =>
          simp only [Option.map_some, List.getLast?_cons]
          cases found.1.getLast? with
          | none => rfl
          | some last => rfl

theorem releaseSeek_eq (turns : Nat) (small : extent < t.modulus) (passed : List Block)
    (segment : t.Segment bytes cur (before ++ after) t.freeNone)
    (listable : t.Listable extent (before ++ after)) (low : ∀ hole ∈ before, hole.start < offset)
    (high : ∀ hole ∈ after, offset ≤ hole.start) (enough : before.length < turns) :
    t.releaseSeek bytes offset turns (t.lastStart passed.dropLast) (t.lastStart passed) cur =
      some (t.lastStart (passed ++ before).dropLast, t.lastStart (passed ++ before),
        t.firstStart after) := by
  induction before generalizing passed cur turns with
  | nil =>
    rcases turns with _ | turns
    · exact absurd enough (Nat.not_lt_zero _)
    · have place := segment.cur_eq
      rw [List.nil_append] at place
      rw [releaseSeek, place, if_neg, List.append_nil]
      rintro ⟨some', below⟩
      cases after with
      | nil => exact some' rfl
      | cons hole after =>
        have above := high hole List.mem_cons_self
        exact absurd below (Nat.not_lt.mpr above)
  | cons hole before ih =>
    rcases turns with _ | turns
    · exact absurd enough (Nat.not_lt_zero _)
    · rcases segment with ⟨rfl, _, rest⟩
      have bound := listable.start_lt small hole (by simp)
      have later : t.Listable extent ([hole] ++ (before ++ after)) := listable
      have onward := ih turns (passed ++ [hole]) rest later.right
        (fun other member => low other (List.mem_cons_of_mem _ member))
        (Nat.lt_of_succ_lt_succ enough)
      rw [List.dropLast_concat, lastStart_concat, List.append_assoc, List.singleton_append]
        at onward
      rw [releaseSeek, if_pos ⟨Nat.ne_of_lt bound.1, low hole List.mem_cons_self⟩]
      exact onward

theorem Listable.merge {a : Block} (listable : t.Listable extent (before ++ a :: b :: after))
    (touch : a.stop = b.start) :
    t.Listable extent (before ++ ⟨a.start, a.len + b.len⟩ :: after) := by
  have first := listable.sizes a (by simp)
  have second := listable.sizes b (by simp)
  have order := List.pairwise_append.mp listable.ordered
  have stop : Block.stop ⟨a.start, a.len + b.len⟩ = b.stop := by
    simp only [Block.stop] at touch ⊢
    omega
  refine ⟨?_, ?_⟩
  · apply List.pairwise_append.mpr
    refine ⟨order.1, List.Pairwise.cons ?_ (List.Pairwise.of_cons order.2.1).of_cons, ?_⟩
    · intro hole member
      rw [stop]
      exact List.rel_of_pairwise_cons (List.Pairwise.of_cons order.2.1) member
    · intro hole earlier other member
      rcases List.mem_cons.mp member with rfl | later
      · exact order.2.2 hole earlier a List.mem_cons_self
      · exact order.2.2 hole earlier other
          (List.mem_cons_of_mem _ (List.mem_cons_of_mem _ later))
  · intro hole member
    simp only [List.mem_append, List.mem_cons] at member
    rcases member with earlier | rfl | later
    · exact listable.sizes hole (by simp [earlier])
    · rw [stop]
      exact ⟨show t.minRegion ≤ a.len + b.len by omega, second.2⟩
    · exact listable.sizes hole (by simp [later])

theorem release_next (small : extent < t.modulus) (segment : t.Segment bytes cur after t.freeNone)
    (listable : t.Listable extent (before ++ b :: after)) :
    (if cur ≠ t.freeNone ∧ t.add b.start b.len = cur then
        (t.add b.len (t.arenaHole bytes cur).2, (t.arenaHole bytes cur).1) else (b.len, cur)) =
        ((joinNext b after).1.len, t.firstStart (joinNext b after).2) ∧
      (joinNext b after).1.start = b.start ∧
      t.Segment bytes (t.firstStart (joinNext b after).2) (joinNext b after).2 t.freeNone ∧
      t.Listable extent (before ++ (joinNext b after).1 :: (joinNext b after).2) := by
  have place := segment.cur_eq
  have bound := listable.start_lt small b (by simp)
  have stop : t.add b.start b.len = b.stop := add_eq bound.2.2
  cases after with
  | nil =>
    have none' : ¬ (cur ≠ t.freeNone ∧ t.add b.start b.len = cur) := fun found => found.1 place
    rw [if_neg none']
    refine ⟨?_, rfl, ?_, listable⟩
    · rw [place]
      rfl
    · exact rfl
  | cons next after =>
    change cur = next.start at place
    rcases segment with ⟨_, len, rest⟩
    have below := listable.start_lt small next (by simp)
    subst place
    rw [joinNext, stop]
    by_cases touch : b.stop = next.start
    · have merged := listable.merge touch
      have bound' := merged.start_lt small ⟨b.start, b.len + next.len⟩ (by simp)
      rw [if_pos touch, if_pos ⟨Nat.ne_of_lt below.1, touch⟩, len, add_eq bound'.2.1, rest.cur_eq]
      rw [rest.cur_eq] at rest
      exact ⟨rfl, rfl, rest, merged⟩
    · rw [if_neg touch, if_neg (fun found => touch found.2)]
      exact ⟨rfl, rfl, ⟨rfl, len, rest⟩, listable⟩

theorem release_prev {head : Nat} (small : extent < t.modulus)
    (segment : t.Segment bytes head before mid)
    (listable : t.Listable extent (before ++ b :: after)) : (if t.lastStart before ≠ t.freeNone ∧
          t.add (t.lastStart before) (t.arenaHole bytes (t.lastStart before)).2 = b.start then
        (t.lastStart before, t.add b.len (t.arenaHole bytes (t.lastStart before)).2,
          t.lastStart before.dropLast)
      else (b.start, b.len, t.lastStart before)) =
        ((joinPrev before b).2.start, (joinPrev before b).2.len,
          t.lastStart (joinPrev before b).1) ∧
      (∃ other, t.Segment bytes head (joinPrev before b).1 other) ∧
      t.Listable extent ((joinPrev before b).1 ++ (joinPrev before b).2 :: after) := by
  rcases List.eq_nil_or_concat before with rfl | ⟨front, last, rfl⟩
  · have none' : ¬ (t.lastStart [] ≠ t.freeNone ∧
        t.add (t.lastStart []) (t.arenaHole bytes (t.lastStart [])).2 = b.start) :=
      fun found => found.1 rfl
    rw [if_neg none']
    exact ⟨rfl, ⟨mid, segment⟩, listable⟩
  · rw [List.concat_eq_append] at segment listable ⊢
    have bound := listable.start_lt small last (by simp)
    rcases Segment.append.mp segment with ⟨_, ahead, rfl, len, _⟩
    have split : t.Listable extent (front ++ last :: b :: after) := by
      rw [List.append_assoc, List.singleton_append] at listable
      exact listable
    rw [lastStart_concat, List.dropLast_concat, joinPrev, List.getLast?_concat,
      List.dropLast_concat, len, add_eq bound.2.2]
    dsimp only
    by_cases touch : last.stop = b.start
    · have merged := split.merge touch
      have sum : last.len + b.len = b.len + last.len := Nat.add_comm _ _
      have bound' := merged.start_lt small ⟨last.start, last.len + b.len⟩ (by simp)
      rw [if_pos touch, if_pos ⟨Nat.ne_of_lt bound.1, touch⟩, ← sum,
        add_eq (by rw [← sum]; exact bound'.2.1), ← sum]
      exact ⟨rfl, ⟨_, ahead⟩, merged⟩
    · rw [if_neg touch, if_neg (fun found => touch found.2)]
      refine ⟨?_, ⟨_, segment⟩, listable⟩
      rw [lastStart_concat]

theorem arenaRelease_spec (small : a.bytes.length < t.modulus)
    (segment : t.Segment a.bytes a.freeHead (before ++ after) t.freeNone)
    (listable : t.Listable a.bytes.length (before ++ b :: after)) :
    ∃ a', t.arenaRelease a b.start b.len = some a' ∧ a'.used = (giveBack a.used before after b).2 ∧
      t.Segment a'.bytes a'.freeHead (giveBack a.used before after b).1 t.freeNone ∧
      a'.bytes.length = a.bytes.length := by
  have order := List.pairwise_append.mp listable.ordered
  have least := t.minRegion_pos
  have low : ∀ hole ∈ before, hole.start < b.start := by
    intro hole member
    have below := order.2.2 hole member b List.mem_cons_self
    have size := (listable.sizes hole (List.mem_append_left _ member)).1
    rw [Block.stop] at below
    omega
  have high : ∀ hole ∈ after, b.start ≤ hole.start := by
    intro hole member
    have above := List.rel_of_pairwise_cons order.2.1 member
    rw [Block.stop] at above
    omega
  have few := listable.drop.left.length_le
  have sought := releaseSeek_eq (a.bytes.length + 1) small [] segment listable.drop low
    high (by omega)
  rcases Segment.append.mp segment with ⟨mid, first, second⟩
  rcases release_next small second listable with ⟨next, start, rest, listable'⟩
  rcases release_prev small first listable' with ⟨prev, ⟨other, front⟩, listable''⟩
  have bound := listable''.start_lt small (joinPrev before (joinNext b after).1).2 (by simp)
  rw [second.cur_eq] at next
  rw [start] at prev
  simp only [List.dropLast_nil, List.nil_append] at sought
  change t.releaseSeek a.bytes b.start (a.bytes.length + 1) t.freeNone t.freeNone a.freeHead = _
    at sought
  have stop : t.add (joinPrev before (joinNext b after).1).2.start
      (joinPrev before (joinNext b after).1).2.len =
      (joinPrev before (joinNext b after).1).2.stop := add_eq bound.2.2
  simp only [arenaRelease, sought, Option.bind_eq_bind, Option.bind_some, next, prev, giveBack,
    stop]
  split
  case isTrue =>
    have lists := arenaLink_lists
      (a := { a with used := (joinPrev before (joinNext b after).1).2.start })
      small front rest listable''.drop
    exact ⟨_, rfl, lists.used, lists.segment, lists.length⟩
  case isFalse =>
    have lists := setHole_lists small front rest listable''
    exact ⟨_, rfl, lists.used, lists.segment, lists.length⟩

end ArenaTarget

end NanoRos
