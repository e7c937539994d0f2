import NanoRos.Node.Arena

/-! Runs of the arena: requests, releases of regions as they were recorded, and what the entries do
in their own regions in between. -/

namespace NanoRos

open Memory Tiling

/-- The layout of an entry type; none is aligned more coarsely than the grain. -/
structure EntryLayout (t : ArenaTarget) where
  size : Nat
  align : Nat
  fine : align ≤ t.grain

/-- A recorded region, and where the bytes its owner was promised end. -/
structure Grant where
  region : Block
  ends : Nat
  deriving DecidableEq

structure ArenaRun where
  arena : Arena
  live : List Grant

inductive ArenaEvent (t : ArenaTarget) where
  | alloc (entry : EntryLayout t)
  | allocWithTrailing (entry : EntryLayout t) (trailing : Nat)
  | release (grant : Grant)
  | write (grant : Grant) (pos : Nat) (bytes : List UInt8)

namespace ArenaRun

variable (t : ArenaTarget)

def start (bytes : List UInt8) : ArenaRun := ⟨⟨bytes, 0, t.freeNone⟩, []⟩

def regions (s : ArenaRun) : List Block := s.live.map Grant.region

/-- Releases and writes are of live regions; a write stays inside its region. -/
def owned (s : ArenaRun) : ArenaEvent t → Prop
  | .alloc _ | .allocWithTrailing _ _ => True
  | .release grant => grant ∈ s.live
  | .write grant pos bytes =>
    grant ∈ s.live ∧ grant.region.start ≤ pos ∧ pos + bytes.length ≤ grant.region.stop

instance (s : ArenaRun) : DecidablePred (s.owned t)
  | .alloc _ | .allocWithTrailing _ _ => isTrue trivial
  | .release grant => inferInstanceAs (Decidable (grant ∈ s.live))
  | .write grant pos bytes => inferInstanceAs (Decidable (grant ∈ s.live ∧
      grant.region.start ≤ pos ∧ pos + bytes.length ≤ grant.region.stop))

def step (s : ArenaRun) (e : ArenaEvent t) : Option ArenaRun :=
  if s.owned t e then
    match e with
    | .alloc entry => do
      match ← t.arenaAlloc s.arena entry.size entry.align with
      | (.error _, arena) => return { s with arena := arena }
      | (.ok region, arena) => return ⟨arena, s.live ++ [⟨region, region.start + entry.size⟩]⟩
    | .allocWithTrailing entry trailing => do
      match ← t.arenaAllocWithTrailing s.arena entry.size entry.align trailing with
      | (.error _, arena) => return { s with arena := arena }
      | (.ok (region, place), arena) => return ⟨arena, s.live ++ [⟨region, place + trailing⟩]⟩
    | .release grant => do
      let arena ← t.arenaRelease s.arena grant.region.start grant.region.len
      return ⟨arena, s.live.erase grant⟩
    | .write _ pos bytes =>
      return { s with arena := { s.arena with bytes := overwrite s.arena.bytes pos bytes } }
  else none

end ArenaRun

/-- The region a request of `len` bytes takes, before any wrap. -/
def ArenaTarget.regionFor (t : ArenaTarget) (len : Nat) : Nat :=
  max t.minRegion (roundedUp len t.grain)

/-- The end of a region on top of the arena is a `usize`. -/
def ArenaRun.addressable (t : ArenaTarget) (s : ArenaRun) : ArenaEvent t → Prop
  | .alloc entry => s.arena.used + t.regionFor entry.size < t.modulus
  | .allocWithTrailing entry trailing =>
    s.arena.used + t.regionFor (roundedUp entry.size t.grain + trailing) < t.modulus
  | .release _ | .write _ _ _ => True

instance (t : ArenaTarget) (s : ArenaRun) : DecidablePred (s.addressable t)
  | .alloc entry => inferInstanceAs (Decidable (s.arena.used + t.regionFor entry.size < t.modulus))
  | .allocWithTrailing entry trailing => inferInstanceAs (Decidable
      (s.arena.used + t.regionFor (roundedUp entry.size t.grain + trailing) < t.modulus))
  | .release _ | .write _ _ _ => isTrue trivial

/-- What an allocator over one stretch of memory owes its users. -/
structure CorrectAllocator (t : ArenaTarget) (s : ArenaRun) (holes : List Block) : Prop where
  listed : t.freeList s.arena = some holes
  disjoint : (s.regions ++ holes).Pairwise Block.Disjoint
  inside : ∀ b ∈ s.regions ++ holes, b.stop ≤ s.arena.used
  cover : ∀ i < s.arena.used, ∃ b ∈ s.regions ++ holes, b.Covers i
  aligned : ∀ b ∈ s.regions, t.grain ∣ b.start
  served : ∀ grant ∈ s.live, grant.ends ≤ grant.region.stop
  apart : holes.Pairwise fun a b => a.stop < b.start
  sizes : ∀ hole ∈ holes, t.minRegion ≤ hole.len ∧ hole.stop < s.arena.used
  emptied : s.live = [] → s.arena.used = 0 ∧ holes = []
  returns : ∀ e, s.owned t e → s.addressable t e → (s.step t e).isSome = true

/-- The arena is laid out as `tiles` say, and its free list is the free ones. -/
structure Laid (t : ArenaTarget) (a : Arena) (tiles : List Tile) : Prop where
  small : a.bytes.length < t.modulus
  used : a.used = span tiles
  inside : a.used ≤ a.bytes.length
  packed : Packed t.minRegion t.grain tiles
  segment : t.Segment a.bytes a.freeHead (blocks true 0 tiles) t.freeNone

namespace Laid

variable {t : ArenaTarget} {a a' : Arena} {tiles : List Tile}

theorem listable (laid : Laid t a tiles) : t.Listable a.bytes.length (blocks true 0 tiles) := by
  refine ⟨blocks_ordered true 0 tiles, ?_⟩
  intro hole member
  have bounds := (laid.packed.holes t.minRegion_pos 0).2 hole member
  have top := laid.used
  have inside := laid.inside
  exact ⟨bounds.1, by omega⟩

theorem grain_le (t : ArenaTarget) : t.grain ≤ t.minRegion :=
  Nat.le_of_dvd t.minRegion_pos (dvd_roundedUp _ _ t.grainPos)

section

variable (laid : Laid t a tiles)
include laid

theorem takeHole {size : Nat} {before after : List Block} {hole : Block}
    (fits : t.minRegion ≤ size ∧ t.grain ∣ size)
    (shape : blocks true 0 tiles = before ++ hole :: after) (long : size ≤ hole.len)
    (lists : ArenaTarget.Lists t a a' (before ++ (t.leftOver hole size ++ after))) :
    ∃ tiles', Laid t a' tiles' ∧
      (blocks false 0 tiles').Perm (⟨hole.start, t.grantedOf hole size⟩ :: blocks false 0 tiles) ∧
      size ≤ t.grantedOf hole size := by
  have packed := laid.packed
  have used := laid.used
  have inside := laid.inside
  rcases exists_split shape with ⟨front, back, rfl, place, rfl, rfl⟩
  rw [Nat.zero_add] at place
  have own := packed.sizes ⟨true, hole.len⟩ (by simp)
  dsimp only at own
  have whole : ∀ granted rest, granted + span rest = hole.len →
      t.leftOver hole size = blocks true (hole.start + granted) rest →
      blocks false (hole.start + granted) rest = [] → t.grantedOf hole size = granted →
      Packed t.minRegion t.grain (front ++ ⟨false, granted⟩ :: (rest ++ back)) →
      ∃ tiles', Laid t a' tiles' ∧ (blocks false 0 tiles').Perm
        (⟨hole.start, t.grantedOf hole size⟩ ::
          blocks false 0 (front ++ ⟨true, hole.len⟩ :: back)) := by
    intro granted rest sum holes none' amount packed'
    refine ⟨_, ⟨?_, ?_, ?_, packed', ?_⟩, ?_⟩
    · rw [lists.length]
      exact laid.small
    · rw [lists.used, used]
      simp only [span_append, span_cons]
      omega
    · rw [lists.used, lists.length]
      exact inside
    · have behind : hole.start + granted + span rest = hole.stop := by
        rw [Block.stop]
        omega
      have same : blocks true 0 (front ++ ⟨false, granted⟩ :: (rest ++ back)) =
          blocks true 0 front ++ (t.leftOver hole size ++ blocks true hole.stop back) := by
        rw [blocks_append, blocks_true_used, blocks_append, Nat.zero_add, ← place, behind, holes]
      rw [same]
      exact lists.segment
    · have behind : hole.start + granted + span rest = hole.start + hole.len := by omega
      rw [blocks_append, blocks_same, blocks_append, Nat.zero_add, ← place, behind, none',
        List.nil_append, blocks_append, blocks_false_free, Nat.zero_add, ← place, amount]
      exact List.perm_middle
  by_cases short : hole.len - size < t.minRegion
  · have amount : t.grantedOf hole size = hole.len := if_pos short
    rcases whole hole.len [] rfl (if_pos short) rfl amount
      (packed.take own [] (.inl rfl)) with ⟨tiles', laid', perm⟩
    exact ⟨tiles', laid', perm, by rw [amount]; exact long⟩
  · have amount : t.grantedOf hole size = size := if_neg short
    have packed' := packed.take fits [⟨true, hole.len - size⟩]
      (.inr ⟨_, rfl, Nat.not_lt.mp short, Nat.dvd_sub own.2 fits.2⟩)
    rcases whole size [⟨true, hole.len - size⟩] (by rw [span_cons, span_nil]; dsimp only; omega)
      (if_neg short) rfl amount packed' with ⟨tiles', laid', perm⟩
    exact ⟨tiles', laid', perm, by rw [amount]⟩

theorem take {size : Nat} (fits : t.minRegion ≤ size ∧ t.grain ∣ size)
    (room : a.used + size < t.modulus) :
    t.arenaTakeFreed a size t.grain = some none ∨
      ∃ region a' tiles', t.arenaTakeFreed a size t.grain = some (some (region, a')) ∧
        Laid t a' tiles' ∧ (blocks false 0 tiles').Perm (region :: blocks false 0 tiles) ∧
        size ≤ region.len := by
  have bounds := (laid.packed.holes t.minRegion_pos 0).2
  have top := laid.used
  have few := laid.listable.length_le
  have found := ArenaTarget.takeFreedFrom_eq size (a.bytes.length + 1) laid.small t.freeNone
    laid.segment laid.listable (laid.packed.aligned (Nat.dvd_zero _)) (fun hole member => by
      have bound := bounds hole member
      simp only [Block.stop] at bound
      omega) (by omega)
  rw [ArenaTarget.arenaTakeFreed, found]
  cases fit : firstFit size (blocks true 0 tiles) with
  | none => exact .inl rfl
  | some parts =>
    rcases parts with ⟨before, hole, after⟩
    rcases firstFit_eq_some fit with ⟨shape, long⟩
    have segment := laid.segment
    have listable := laid.listable
    rw [shape] at segment listable
    rcases ArenaTarget.splitHole_spec laid.small segment listable long with ⟨a', split, lists⟩
    rcases laid.takeHole fits shape long lists with ⟨tiles', laid', perm, enough⟩
    refine .inr ⟨_, a', tiles', ?_, laid', perm, enough⟩
    exact congrArg (fun x => some (some x)) split

theorem bump {size : Nat} (fits : t.minRegion ≤ size ∧ t.grain ∣ size)
    (room : a.used + size < t.modulus) :
    t.bump a a.used size = (.error .bufferTooSmall, a) ∨
      ∃ a' tiles', t.bump a a.used size = (.ok ⟨a.used, size⟩, a') ∧ Laid t a' tiles' ∧
        (blocks false 0 tiles').Perm (⟨a.used, size⟩ :: blocks false 0 tiles) := by
  rw [ArenaTarget.bump, ArenaTarget.add_eq room]
  split
  case isTrue => exact .inl rfl
  case isFalse enough =>
    refine .inr ⟨_, tiles ++ [⟨false, size⟩], rfl,
      ⟨laid.small, ?_, ?_, laid.packed.bump fits, ?_⟩, ?_⟩
    · rw [span_append, span_cons, span_nil, Nat.add_zero, ← laid.used]
    · exact Nat.not_lt.mp enough
    · rw [blocks_append, blocks_true_used, blocks, List.append_nil]
      exact laid.segment
    · rw [blocks_append, blocks_same, blocks, Nat.zero_add, ← laid.used]
      exact List.perm_append_singleton _ _

theorem release {region : Block} (live : region ∈ blocks false 0 tiles) :
    ∃ a' tiles', t.arenaRelease a region.start region.len = some a' ∧ Laid t a' tiles' ∧
      (blocks false 0 tiles).Perm (region :: blocks false 0 tiles') := by
  have packed := laid.packed
  have used := laid.used
  have inside := laid.inside
  have segment := laid.segment
  rcases List.append_of_mem live with ⟨_, _, shape⟩
  rcases exists_split shape with ⟨front, back, rfl, place, rfl, rfl⟩
  rw [Nat.zero_add] at place
  have own := packed.sizes ⟨false, region.len⟩ (by simp)
  have top : span (front ++ ⟨false, region.len⟩ :: back) = region.stop + span back := by
    simp only [span_append, span_cons, Block.stop]
    omega
  have holes : blocks true 0 (front ++ ⟨false, region.len⟩ :: back) =
      blocks true 0 front ++ blocks true region.stop back := by
    rw [blocks_append, blocks_true_used, Nat.zero_add, ← place]
    rfl
  have listable : t.Listable a.bytes.length
      (blocks true 0 front ++ region :: blocks true region.stop back) := by
    have all := laid.listable
    rw [holes] at all
    refine ⟨?_, ?_⟩
    · apply List.pairwise_append.mpr
      refine ⟨blocks_ordered _ _ _, List.Pairwise.cons ?_ (blocks_ordered _ _ _), ?_⟩
      · intro hole member
        exact (blocks_within member).1
      · intro hole earlier other member
        have below := (blocks_within earlier).2
        rcases List.mem_cons.mp member with rfl | later
        · omega
        · have above := (blocks_within later).1
          rw [Block.stop] at above
          omega
    · intro hole member
      simp only [List.mem_append, List.mem_cons] at member
      rcases member with earlier | rfl | later
      · exact all.sizes hole (List.mem_append_left _ earlier)
      · exact ⟨own.1, by omega⟩
      · exact all.sizes hole (List.mem_append_right _ later)
  rw [holes] at segment
  rcases ArenaTarget.arenaRelease_spec laid.small segment listable with
    ⟨a', released, used', segment', length'⟩
  rcases giveBack_tiles t.minRegion_pos packed with ⟨tiles', given, kept, packed'⟩
  have same : giveBack a.used (blocks true 0 front) (blocks true region.stop back) region =
      (blocks true 0 tiles', span tiles') := by
    rw [used, Block.stop, place]
    have block : region = ⟨span front, region.len⟩ := by rw [← place]
    rw [← given]
    exact congrArg _ block
  rw [same] at used' segment'
  have smaller := giveBack_le a.used (blocks true 0 front) (blocks true region.stop back) region
  rw [same] at smaller
  refine ⟨a', tiles', released, ⟨?_, used', ?_, packed', segment'⟩, ?_⟩
  · rw [length']
    exact laid.small
  · rw [used', length']
    exact smaller.trans inside
  · rw [kept, blocks_append, blocks_same, Nat.zero_add, ← place]
    exact List.perm_middle

theorem write {region : Block} {pos : Nat} {bytes : List UInt8}
    (live : region ∈ blocks false 0 tiles) (low : region.start ≤ pos)
    (high : pos + bytes.length ≤ region.stop) :
    Laid t { a with bytes := overwrite a.bytes pos bytes } tiles := by
  have within := (blocks_within live).2
  have used := laid.used
  have inside := laid.inside
  have length : (overwrite a.bytes pos bytes).length = a.bytes.length :=
    length_overwrite _ _ _ (by omega)
  refine ⟨?_, laid.used, ?_, laid.packed, ?_⟩
  · rw [length]
    exact laid.small
  · rw [length]
    exact inside
  · apply ArenaTarget.Segment.congr _ laid.segment
    intro hole member
    have apart := blocks_disjoint member live
    have size := (laid.listable.sizes hole member).1
    have node := t.node_fits
    simp only [Block.Disjoint, Block.stop] at apart high within
    apply ArenaTarget.arenaHole_overwrite (by omega)
    omega

end

end Laid

namespace ArenaTarget

variable {t : ArenaTarget} {a : Arena} {tiles : List Tile}

theorem regionFor_fits (t : ArenaTarget) (len : Nat) :
    t.minRegion ≤ t.regionFor len ∧ t.grain ∣ t.regionFor len ∧ len ≤ t.regionFor len := by
  have whole := le_roundedUp len t.grain
  refine ⟨Nat.le_max_left _ _, ?_, whole.trans (Nat.le_max_right _ _)⟩
  rw [regionFor]
  rcases max_choice t.minRegion (roundedUp len t.grain) with least | rounded
  · rw [least]
    exact dvd_roundedUp _ _ t.grainPos
  · rw [rounded]
    exact dvd_roundedUp _ _ t.grainPos

theorem arenaRegionLen_eq {len : Nat} (small : t.regionFor len < t.modulus) :
    t.arenaRegionLen len = t.regionFor len := by
  have rounded : roundedUp len t.grain < t.modulus := lt_of_le_of_lt (Nat.le_max_right _ _) small
  rw [arenaRegionLen, nextMultipleOf, Nat.mod_eq_of_lt rounded, regionFor]
  split
  case isTrue short => exact (Nat.max_eq_left (Nat.le_of_lt short)).symm
  case isFalse long => exact (Nat.max_eq_right (Nat.not_lt.mp long)).symm

/-- What a request for `size` bytes comes to: no room, or a region that is added to the live ones. -/
structure Served (t : ArenaTarget) (a a' : Arena) (tiles : List Tile) (size : Nat)
    (result : Except ArenaError Block) : Prop where
  refused : ∀ e, result = .error e → a' = a
  granted : ∀ region, result = .ok region → size ≤ region.len ∧ ∃ tiles', Laid t a' tiles' ∧
    (blocks false 0 tiles').Perm (region :: blocks false 0 tiles)

theorem serve (laid : Laid t a tiles) {size : Nat} (fits : t.minRegion ≤ size ∧ t.grain ∣ size)
    (room : a.used + size < t.modulus) :
    ∃ result a', (do
        match ← t.arenaTakeFreed a size t.grain with
        | some (region, a) => return (.ok region, a)
        | none => return t.bump a a.used size) = some (result, a') ∧
      Served t a a' tiles size result := by
  rcases laid.take fits room with none' | ⟨region, a', tiles', found, laid', perm, enough⟩
  · rw [none']
    rcases laid.bump fits room with full | ⟨a', tiles', bumped, laid', perm⟩
    · refine ⟨_, _, congrArg some full, fun _ _ => rfl, ?_⟩
      intro region ok
      cases ok
    · refine ⟨_, _, congrArg some bumped, ?_, ?_⟩
      · intro e failed
        cases failed
      · intro region ok
        cases ok
        exact ⟨le_refl _, tiles', laid', perm⟩
  · rw [found]
    refine ⟨.ok region, a', rfl, ?_, ?_⟩
    · intro e failed
      cases failed
    · intro other ok
      cases ok
      exact ⟨enough, tiles', laid', perm⟩

theorem arenaAlloc_spec (laid : Laid t a tiles) (entry : EntryLayout t)
    (room : a.used + t.regionFor entry.size < t.modulus) :
    ∃ result a', t.arenaAlloc a entry.size entry.align = some (result, a') ∧
      Served t a a' tiles (t.regionFor entry.size) result := by
  have fits := t.regionFor_fits entry.size
  have level : t.grain ∣ a.used := by
    rw [laid.used]
    exact laid.packed.dvd_span
  have short := Laid.grain_le t
  have raised : t.sub (t.add a.used t.grain) 1 = a.used + (t.grain - 1) := by
    have positive := t.grainPos
    rw [add_eq (by omega), sub_eq (by omega) (by omega)]
    omega
  have aligned : a.used + (t.grain - 1) - (a.used + (t.grain - 1)) % t.grain = a.used := by
    have positive := t.grainPos
    rw [Nat.add_mod, Nat.mod_eq_zero_of_dvd level, Nat.zero_add, Nat.mod_mod,
      Nat.mod_eq_of_lt (by omega), Nat.add_sub_cancel]
  rcases serve laid ⟨fits.1, fits.2.1⟩ room with ⟨result, a', served, holds⟩
  refine ⟨result, a', ?_, holds⟩
  rw [arenaAlloc, Nat.max_eq_right entry.fine, arenaRegionLen_eq (by omega)]
  dsimp only
  rw [raised, aligned]
  exact served

theorem arenaAllocWithTrailing_spec (laid : Laid t a tiles) (entry : EntryLayout t) (trailing : Nat)
    (room : a.used + t.regionFor (roundedUp entry.size t.grain + trailing) < t.modulus) :
    ∃ result a', t.arenaAllocWithTrailing a entry.size entry.align trailing =
        some (result.map fun region => (region, region.start + roundedUp entry.size t.grain), a') ∧
      Served t a a' tiles (t.regionFor (roundedUp entry.size t.grain + trailing)) result := by
  have fits := t.regionFor_fits (roundedUp entry.size t.grain + trailing)
  have least := le_roundedUp entry.size t.grain
  have level : t.grain ∣ a.used := by
    rw [laid.used]
    exact laid.packed.dvd_span
  have entrySize : t.nextMultipleOf entry.size t.grain = roundedUp entry.size t.grain :=
    Nat.mod_eq_of_lt (by omega)
  rcases serve laid ⟨fits.1, fits.2.1⟩ room with ⟨result, a', served, holds⟩
  refine ⟨result, a', ?_, holds⟩
  have mapped : t.arenaAllocWithTrailing a entry.size entry.align trailing =
      some (result.map fun region =>
        (region, t.nextMultipleOf (t.add region.start entry.size) t.grain), a') := by
    rw [arenaAllocWithTrailing, Nat.max_eq_right entry.fine, entrySize, add_eq (by omega),
      arenaRegionLen_eq (by omega), nextMultipleOf_eq level (by omega)]
    cases taken : t.arenaTakeFreed a (t.regionFor (roundedUp entry.size t.grain + trailing))
      t.grain with
    | none =>
      rw [taken] at served
      cases served
    | some outcome =>
      rw [taken] at served
      cases outcome with
      | none =>
        have bumped := Option.some.inj served
        change some (Except.map _ (t.bump a a.used _).1, (t.bump a a.used _).2) = _
        rw [bumped]
      | some granted =>
        cases served
        rfl
  rw [mapped]
  cases result with
  | error e => rfl
  | ok region =>
    -- the region is live in the new layout, so its start is aligned and its end addressable
    rcases holds.granted region rfl with ⟨enough, tiles', laid', perm⟩
    have member : region ∈ blocks false 0 tiles' := perm.mem_iff.mpr List.mem_cons_self
    have start := laid'.packed.aligned (Nat.dvd_zero _) region member
    have stop := (blocks_within member).2
    have top := laid'.used
    have inside := laid'.inside
    have small := laid'.small
    rw [Block.stop] at stop
    have place : t.nextMultipleOf (t.add region.start entry.size) t.grain =
        region.start + roundedUp entry.size t.grain := by
      rw [add_eq (by omega), nextMultipleOf, roundedUp_add start]
      exact Nat.mod_eq_of_lt (by omega)
    exact congrArg (fun p => some (Except.ok (region, p), a')) place

end ArenaTarget

namespace ArenaRun

variable {t : ArenaTarget} {s next : ArenaRun} {tiles : List Tile}

structure Inv (t : ArenaTarget) (s : ArenaRun) (tiles : List Tile) : Prop where
  laid : Laid t s.arena tiles
  live : s.regions.Perm (blocks false 0 tiles)
  served : ∀ grant ∈ s.live, grant.ends ≤ grant.region.stop

namespace Inv

theorem start {bytes : List UInt8} (small : bytes.length < t.modulus) :
    Inv t (start t bytes) [] where
  laid := ⟨small, rfl, Nat.zero_le _, Packed.nil, rfl⟩
  live := List.Perm.nil
  served := fun _ member => absurd member List.not_mem_nil

theorem grant (inv : Inv t s tiles) {arena : Arena} {size : Nat} {result : Except ArenaError Block}
    (served : ArenaTarget.Served t s.arena arena tiles size result) (ends : Block → Nat)
    (held : ∀ region : Block, size ≤ region.len → ends region ≤ region.stop) :
    ∃ tiles', match result with
      | .error _ => Inv t { s with arena := arena } tiles'
      | .ok region => Inv t ⟨arena, s.live ++ [⟨region, ends region⟩]⟩ tiles' := by
  cases result with
  | error e =>
    rw [served.refused e rfl]
    exact ⟨tiles, inv⟩
  | ok region =>
    rcases served.granted region rfl with ⟨enough, tiles', laid', perm⟩
    refine ⟨tiles', laid', ?_, ?_⟩
    · change ((s.live ++ [(⟨region, ends region⟩ : Grant)]).map Grant.region).Perm _
      rw [List.map_append, List.map_singleton]
      exact (List.perm_append_singleton _ _).trans ((inv.live.cons region).trans perm.symm)
    · intro grant member
      rcases List.mem_append.mp member with earlier | now
      · exact inv.served grant earlier
      · rw [List.mem_singleton.mp now]
        exact held region enough

theorem step (inv : Inv t s tiles) (e : ArenaEvent t) (owned : s.owned t e)
    (addressable : s.addressable t e) :
    ∃ next tiles', s.step t e = some next ∧ Inv t next tiles' := by
  unfold ArenaRun.step
  rw [if_pos owned]
  cases e with
  | alloc entry =>
    rcases ArenaTarget.arenaAlloc_spec inv.laid entry addressable with
      ⟨result, arena, called, served⟩
    have fits := (t.regionFor_fits entry.size).2.2
    rcases inv.grant served (fun region => region.start + entry.size)
      (fun region enough => Nat.add_le_add_left (fits.trans enough) _) with ⟨tiles', inv'⟩
    simp only [called]
    cases result with
    | error e | ok region => exact ⟨_, tiles', rfl, inv'⟩
  | allocWithTrailing entry trailing =>
    rcases ArenaTarget.arenaAllocWithTrailing_spec inv.laid entry trailing addressable with
      ⟨result, arena, called, served⟩
    have fits := (t.regionFor_fits (roundedUp entry.size t.grain + trailing)).2.2
    rcases inv.grant served (fun region => region.start + roundedUp entry.size t.grain + trailing)
      (fun region enough => by
        rw [Nat.add_assoc]
        exact Nat.add_le_add_left (fits.trans enough) _) with ⟨tiles', inv'⟩
    simp only [called]
    cases result with
    | error e | ok region => exact ⟨_, tiles', rfl, inv'⟩
  | release grant =>
    have live : grant.region ∈ blocks false 0 tiles :=
      inv.live.mem_iff.mp (List.mem_map_of_mem owned)
    rcases inv.laid.release live with ⟨arena, tiles', released, laid', perm⟩
    simp only [released]
    refine ⟨_, tiles', rfl, laid', ?_, ?_⟩
    · have split := (List.perm_cons_erase owned).map Grant.region
      exact ((split.symm.trans inv.live).trans perm).cons_inv
    · intro other member
      exact inv.served other (List.mem_of_mem_erase member)
  | write grant pos bytes =>
    have live : grant.region ∈ blocks false 0 tiles :=
      inv.live.mem_iff.mp (List.mem_map_of_mem owned.1)
    exact ⟨_, tiles, rfl, inv.laid.write live owned.2.1 owned.2.2, inv.live, inv.served⟩

theorem correct (inv : Inv t s tiles) : CorrectAllocator t s (blocks true 0 tiles) where
  listed := by
    have few := inv.laid.listable.length_le
    exact ArenaTarget.freeListFrom_eq _ inv.laid.small inv.laid.segment inv.laid.listable (by omega)
  disjoint := by
    apply List.pairwise_append.mpr
    refine ⟨?_, ?_, ?_⟩
    · apply (inv.live.pairwise_iff (fun apart => Block.Disjoint.symm apart)).mpr
      exact (blocks_ordered false 0 tiles).imp .inl
    · exact (blocks_ordered true 0 tiles).imp .inl
    · intro region live hole member
      exact (blocks_disjoint member (inv.live.mem_iff.mp live)).symm
  inside := by
    intro b member
    rw [inv.laid.used]
    rcases List.mem_append.mp member with live | hole
    · have within := (blocks_within (inv.live.mem_iff.mp live)).2
      omega
    · have within := (blocks_within hole).2
      omega
  cover := by
    intro i below
    rw [inv.laid.used] at below
    rcases @blocks_cover tiles 0 i (Nat.zero_le i) (by omega) with ⟨b, member, covers⟩
    refine ⟨b, ?_, covers⟩
    rcases List.mem_append.mp member with hole | live
    · exact List.mem_append_right _ hole
    · exact List.mem_append_left _ (inv.live.mem_iff.mpr live)
  aligned := by
    intro b live
    exact inv.laid.packed.aligned (Nat.dvd_zero _) b (inv.live.mem_iff.mp live)
  served := inv.served
  apart := (inv.laid.packed.holes t.minRegion_pos 0).1
  sizes := by
    intro hole member
    have bounds := (inv.laid.packed.holes t.minRegion_pos 0).2 hole member
    rw [inv.laid.used]
    omega
  emptied := by
    intro none'
    have live := inv.live
    rw [regions, none', List.map_nil] at live
    have bare := inv.laid.packed.eq_nil (List.nil_perm.mp live)
    subst bare
    exact ⟨inv.laid.used, rfl⟩
  returns := by
    intro e owned addressable
    rcases inv.step e owned addressable with ⟨next, tiles', called, _⟩
    rw [called]
    rfl

end Inv

theorem owned_of_step {e : ArenaEvent t} (stepped : s.step t e = some next) : s.owned t e := by
  by_contra refused
  unfold step at stepped
  rw [if_neg refused] at stepped
  cases stepped

/-- As long as the end of every request is addressable, the arena is a correct allocator. -/
theorem arena_correct_allocator (t : ArenaTarget) (bytes : List UInt8)
    (small : bytes.length < t.modulus) (events : List (ArenaEvent t)) (last : ArenaRun)
    (met : Along (step t) (addressable t) (start t bytes) events)
    (reached : run (step t) (start t bytes) events = some last) :
    ∃ holes, CorrectAllocator t last holes := by
  have keeps : ∀ s e next, (∃ tiles, Inv t s tiles) → s.addressable t e →
      s.step t e = some next → ∃ tiles, Inv t next tiles := by
    rintro s e next ⟨tiles, inv⟩ room stepped
    rcases inv.step e (owned_of_step stepped) room with ⟨next', tiles', called, inv'⟩
    rw [stepped] at called
    cases called
    exact ⟨tiles', inv'⟩
  rcases run_invariant_along keeps _ _ events ⟨[], Inv.start small⟩ met reached with ⟨tiles, inv⟩
  exact ⟨_, inv.correct⟩

def wide : ArenaTarget := ⟨8, 8, by decide, by decide⟩

def bytesOf (size : Nat) : EntryLayout wide := ⟨size, 8, by decide⟩

/-- Three regions, the middle one released, split by a smaller request and coalesced again. -/
def churn : List (ArenaEvent wide) :=
  [.alloc (bytesOf 20), .allocWithTrailing (bytesOf 12) 30, .alloc (bytesOf 8),
    .write ⟨⟨72, 16⟩, 80⟩ 72 [1, 2, 3], .release ⟨⟨24, 48⟩, 70⟩, .alloc (bytesOf 16),
    .release ⟨⟨0, 24⟩, 20⟩, .release ⟨⟨24, 16⟩, 40⟩]

theorem arena_correct_allocator_churn :
    Along (step wide) (addressable wide) (start wide (List.replicate 128 7)) churn ∧
      ∃ last, run (step wide) (start wide (List.replicate 128 7)) churn = some last ∧
        last.arena.used = 88 ∧ wide.freeList last.arena = some [⟨0, 72⟩] ∧
        last.regions = [⟨72, 16⟩] ∧ ∃ holes, CorrectAllocator wide last holes := by
  have met : Along (step wide) (addressable wide) (start wide (List.replicate 128 7)) churn := by
    decide +kernel
  have ends : (run (step wide) (start wide (List.replicate 128 7)) churn).map
      (fun s => (s.arena.used, wide.freeList s.arena, s.regions)) =
      some (88, some [⟨0, 72⟩], [⟨72, 16⟩]) := by
    decide +kernel
  rcases Option.map_eq_some_iff.mp ends with ⟨last, reached, shape⟩
  simp only [Prod.mk.injEq] at shape
  exact ⟨met, last, reached, shape.1, shape.2.1, shape.2.2,
    arena_correct_allocator wide _ (by decide +kernel) churn last met reached⟩

/-- A trailing length so large that the end of the region wraps to zero. -/
def wrapping : List (ArenaEvent wide) :=
  [.alloc (bytesOf 16), .allocWithTrailing (bytesOf 8) (2 ^ 64 - 24), .alloc (bytesOf 16)]

theorem arena_regions_overlap :
    ∃ last, run (step wide) (start wide (List.replicate 128 0)) wrapping = some last ∧
      last.regions = [⟨0, 16⟩, ⟨16, 2 ^ 64 - 16⟩, ⟨0, 16⟩] ∧
      ¬ ∃ holes, CorrectAllocator wide last holes := by
  have ends : (run (step wide) (start wide (List.replicate 128 0)) wrapping).map
      (fun s => s.regions) = some [⟨0, 16⟩, ⟨16, 2 ^ 64 - 16⟩, ⟨0, 16⟩] := by
    decide +kernel
  rcases Option.map_eq_some_iff.mp ends with ⟨last, reached, shape⟩
  refine ⟨last, reached, shape, ?_⟩
  rintro ⟨holes, fine⟩
  have apart := (List.pairwise_append.mp fine.disjoint).1
  rw [shape] at apart
  have overlap : Block.Disjoint ⟨0, 16⟩ ⟨0, 16⟩ := List.rel_of_pairwise_cons apart (by simp)
  simp only [Block.Disjoint, Block.stop] at overlap
  omega

end ArenaRun

end NanoRos
