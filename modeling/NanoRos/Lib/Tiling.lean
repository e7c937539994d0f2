import Mathlib.Data.List.Chain
import Mathlib.Tactic

/-! A stretch of memory laid out from zero in tiles, each free or in use. -/

namespace NanoRos

structure Block where
  start : Nat
  len : Nat
  deriving DecidableEq, Repr

namespace Block

def stop (b : Block) : Nat := b.start + b.len

def Covers (b : Block) (i : Nat) : Prop := b.start ≤ i ∧ i < b.stop

def Disjoint (a b : Block) : Prop := a.stop ≤ b.start ∨ b.stop ≤ a.start

theorem Disjoint.symm {a b : Block} (apart : a.Disjoint b) : b.Disjoint a := Or.symm apart

end Block

structure Tile where
  free : Bool
  len : Nat

namespace Tiling

def span (tiles : List Tile) : Nat := (tiles.map Tile.len).sum

/-- The tiles of one kind, where they lie when the first one lies at `place`. -/
def blocks (kind : Bool) : Nat → List Tile → List Block
  | _, [] => []
  | place, tile :: tiles =>
    if tile.free = kind then ⟨place, tile.len⟩ :: blocks kind (place + tile.len) tiles
    else blocks kind (place + tile.len) tiles

def Apart (a b : Tile) : Prop := a.free = true → b.free = false

def top : Tile := ⟨true, 0⟩

structure Packed (least grain : Nat) (tiles : List Tile) : Prop where
  sizes : ∀ tile ∈ tiles, least ≤ tile.len ∧ grain ∣ tile.len
  apart : (tiles ++ [top]).IsChain Apart

variable {least grain : Nat} {tiles front back : List Tile} {kind : Bool} {place : Nat}

@[simp] theorem span_nil : span [] = 0 := rfl

@[simp] theorem span_cons (tile : Tile) (tiles : List Tile) :
    span (tile :: tiles) = tile.len + span tiles := by
  rw [span, List.map_cons, List.sum_cons]
  rfl

@[simp] theorem span_append (front back : List Tile) :
    span (front ++ back) = span front + span back := by
  rw [span, List.map_append, List.sum_append]
  rfl

@[simp] theorem blocks_same (kind : Bool) (place n : Nat) (tiles : List Tile) :
    blocks kind place (⟨kind, n⟩ :: tiles) = ⟨place, n⟩ :: blocks kind (place + n) tiles := by
  rw [blocks, if_pos rfl]

@[simp] theorem blocks_true_used (place n : Nat) (tiles : List Tile) :
    blocks true place (⟨false, n⟩ :: tiles) = blocks true (place + n) tiles := rfl

@[simp] theorem blocks_false_free (place n : Nat) (tiles : List Tile) :
    blocks false place (⟨true, n⟩ :: tiles) = blocks false (place + n) tiles := rfl

theorem blocks_append (kind : Bool) (place : Nat) (front back : List Tile) :
    blocks kind place (front ++ back) =
      blocks kind place front ++ blocks kind (place + span front) back := by
  induction front generalizing place with
  | nil => rfl
  | cons tile front ih =>
    rw [List.cons_append, blocks, blocks, ih, span_cons, Nat.add_assoc]
    split
    · rfl
    · rfl

theorem blocks_within {b : Block} (member : b ∈ blocks kind place tiles) :
    place ≤ b.start ∧ b.stop ≤ place + span tiles := by
  induction tiles generalizing place with
  | nil => exact absurd member List.not_mem_nil
  | cons tile tiles ih =>
    rw [blocks] at member
    rw [span_cons]
    split at member
    · rcases List.mem_cons.mp member with rfl | later
      · exact ⟨le_refl _, show place + tile.len ≤ _ by omega⟩
      · have within := ih later
        omega
    · have within := ih member
      omega

theorem blocks_ordered (kind : Bool) (place : Nat) (tiles : List Tile) :
    (blocks kind place tiles).Pairwise fun a b => a.stop ≤ b.start := by
  induction tiles generalizing place with
  | nil => exact List.Pairwise.nil
  | cons tile tiles ih =>
    rw [blocks]
    split
    · apply List.Pairwise.cons _ (ih _)
      intro b member
      exact (blocks_within member).1
    · exact ih _

theorem blocks_disjoint {a b : Block} (first : a ∈ blocks true place tiles)
    (second : b ∈ blocks false place tiles) : a.Disjoint b := by
  induction tiles generalizing place with
  | nil => exact absurd first List.not_mem_nil
  | cons tile tiles ih =>
    rw [blocks] at first second
    cases kind : tile.free with
    | true =>
      rw [if_pos kind] at first
      rw [if_neg (by rw [kind]; decide)] at second
      rcases List.mem_cons.mp first with rfl | later
      · exact .inl (blocks_within second).1
      · exact ih later second
    | false =>
      rw [if_neg (by rw [kind]; decide)] at first
      rw [if_pos kind] at second
      rcases List.mem_cons.mp second with rfl | later
      · exact .inr (blocks_within first).1
      · exact ih first later

theorem blocks_cover (i : Nat) (low : place ≤ i) (high : i < place + span tiles) :
    ∃ b ∈ blocks true place tiles ++ blocks false place tiles, b.Covers i := by
  induction tiles generalizing place with
  | nil => exact absurd high (by rw [span_nil]; omega)
  | cons tile tiles ih =>
    rw [span_cons] at high
    by_cases here : i < place + tile.len
    · refine ⟨⟨place, tile.len⟩, ?_, low, here⟩
      cases kind : tile.free with
      | true | false => simp [blocks, kind]
    · rcases @ih (place + tile.len) (by omega) (by omega) with ⟨b, member, covers⟩
      refine ⟨b, ?_, covers⟩
      cases kind : tile.free with
      | true =>
        simp only [blocks, kind, if_true, List.cons_append]
        exact List.mem_cons_of_mem _ member
      | false =>
        simp only [blocks, kind, Bool.false_eq_true, if_false, if_true, List.mem_append,
          List.mem_cons]
        rcases List.mem_append.mp member with hole | used
        · exact .inl hole
        · exact .inr (.inr used)

theorem exists_split {before after : List Block} {b : Block}
    (shape : blocks kind place tiles = before ++ b :: after) :
    ∃ front back, tiles = front ++ ⟨kind, b.len⟩ :: back ∧ b.start = place + span front ∧
      before = blocks kind place front ∧ after = blocks kind b.stop back := by
  induction tiles generalizing place before with
  | nil => cases before <;> cases shape
  | cons tile tiles ih =>
    rw [blocks] at shape
    split at shape
    case isTrue same =>
      cases before with
      | nil =>
        rcases List.cons.inj shape with ⟨rfl, rest⟩
        refine ⟨[], tiles, ?_, ?_, rfl, rest.symm⟩
        · rw [List.nil_append, ← same]
        · rfl
      | cons first before =>
        rcases List.cons.inj shape with ⟨rfl, rest⟩
        rcases ih rest with ⟨front, back, rfl, start, rfl, rfl⟩
        refine ⟨tile :: front, back, rfl, ?_, ?_, rfl⟩
        · rw [start, span_cons, Nat.add_assoc]
        · rw [blocks, if_pos same]
    case isFalse other =>
      rcases ih shape with ⟨front, back, rfl, start, rfl, rfl⟩
      refine ⟨tile :: front, back, rfl, ?_, ?_, rfl⟩
      · rw [start, span_cons, Nat.add_assoc]
      · rw [blocks, if_neg other]

theorem apart_last {a b : Tile} (weaker : b.free = true → a.free = true)
    (chain : (front ++ [a]).IsChain Apart) : (front ++ [b]).IsChain Apart := by
  rw [List.isChain_append] at chain ⊢
  refine ⟨chain.1, List.IsChain.singleton _, ?_⟩
  intro x last y first free
  have other := chain.2.2 x last a rfl free
  rw [List.head?_cons, Option.mem_some_iff] at first
  subst first
  cases kind : b.free with
  | false => rfl
  | true => exact absurd (weaker kind) (by rw [other]; decide)

theorem apart_first {a b : Tile} (weaker : b.free = true → a.free = true)
    (chain : (a :: back).IsChain Apart) : (b :: back).IsChain Apart := by
  cases back with
  | nil => exact List.IsChain.singleton _
  | cons next back =>
    rw [List.isChain_cons_cons] at chain ⊢
    exact ⟨fun free => chain.1 (weaker free), chain.2⟩

namespace Packed

theorem nil : Packed least grain [] :=
  ⟨fun _ member => absurd member List.not_mem_nil, List.IsChain.singleton _⟩

theorem split {tile : Tile} (packed : Packed least grain (front ++ tile :: back)) :
    (front ++ [tile]).IsChain Apart ∧ (tile :: (back ++ [top])).IsChain Apart := by
  have chain := packed.apart
  rw [List.append_assoc, List.cons_append] at chain
  exact List.isChain_split.mp chain

theorem tail {tile : Tile} (packed : Packed least grain (tile :: tiles)) :
    Packed least grain tiles :=
  ⟨fun other member => packed.sizes other (List.mem_cons_of_mem _ member),
    List.IsChain.tail packed.apart⟩

theorem used_next {n : Nat} (packed : Packed least grain (⟨true, n⟩ :: tiles)) :
    ∃ m rest, tiles = ⟨false, m⟩ :: rest ∧ least ≤ m := by
  have chain := packed.apart
  cases tiles with
  | nil => exact absurd ((List.isChain_cons_cons.mp chain).1 rfl) (by decide)
  | cons next rest =>
    have used := (List.isChain_cons_cons.mp chain).1 rfl
    rcases next with ⟨free, m⟩
    change free = false at used
    subst used
    exact ⟨m, rest, rfl, (packed.sizes ⟨false, m⟩ (by simp)).1⟩

section

variable (packed : Packed least grain tiles)
include packed

theorem holes (positive : 0 < least) (place : Nat) :
    (blocks true place tiles).Pairwise (fun a b => a.stop < b.start) ∧
      ∀ b ∈ blocks true place tiles, least ≤ b.len ∧ b.stop < place + span tiles := by
  induction tiles generalizing place with
  | nil => exact ⟨List.Pairwise.nil, fun _ member => absurd member List.not_mem_nil⟩
  | cons tile tiles ih =>
    rcases ih packed.tail (place + tile.len) with ⟨ordered, bounds⟩
    rcases tile with ⟨free, len⟩
    cases free with
    | false =>
      rw [span_cons, ← Nat.add_assoc]
      exact ⟨ordered, bounds⟩
    | true =>
      rcases packed.used_next with ⟨m, rest, rfl, size⟩
      have own := (packed.sizes ⟨true, len⟩ (by simp)).1
      refine ⟨List.Pairwise.cons ?_ ordered, ?_⟩
      · intro b member
        have later : b ∈ blocks true (place + len + m) rest := member
        have within := (blocks_within later).1
        exact show place + len < b.start by omega
      · intro b member
        rw [span_cons, span_cons]
        rw [span_cons] at bounds
        rcases List.mem_cons.mp member with rfl | later
        · exact ⟨own, show place + len < _ by dsimp only; omega⟩
        · have bound := bounds b later
          exact ⟨bound.1, by dsimp only at bound ⊢; omega⟩

theorem eq_nil (none : blocks false place tiles = []) :
    tiles = [] := by
  cases tiles with
  | nil => rfl
  | cons tile tiles =>
    rcases tile with ⟨free, len⟩
    cases free with
    | false => cases none
    | true =>
      rcases packed.used_next with ⟨m, rest, rfl, _⟩
      cases none

theorem dvd_span : grain ∣ span tiles := by
  induction tiles with
  | nil => exact Nat.dvd_zero _
  | cons tile tiles ih =>
    rw [span_cons]
    exact Nat.dvd_add (packed.sizes tile List.mem_cons_self).2 (ih packed.tail)

theorem aligned (level : grain ∣ place) :
    ∀ b ∈ blocks kind place tiles, grain ∣ b.start := by
  induction tiles generalizing place with
  | nil => exact fun _ member => absurd member List.not_mem_nil
  | cons tile tiles ih =>
    intro b member
    have later := ih packed.tail (Nat.dvd_add level (packed.sizes tile List.mem_cons_self).2)
    rw [blocks] at member
    split at member
    · rcases List.mem_cons.mp member with rfl | rest
      · exact level
      · exact later b rest
    · exact later b member

end

theorem take {len granted : Nat} (packed : Packed least grain (front ++ ⟨true, len⟩ :: back))
    (size : least ≤ granted ∧ grain ∣ granted) (rest : List Tile)
    (shape : rest = [] ∨ ∃ left, rest = [⟨true, left⟩] ∧ least ≤ left ∧ grain ∣ left) :
    Packed least grain (front ++ ⟨false, granted⟩ :: (rest ++ back)) where
  sizes := by
    intro tile member
    have others := packed.sizes tile
    simp only [List.mem_append, List.mem_cons] at member others
    rcases member with earlier | rfl | left' | later
    · exact others (.inl earlier)
    · exact size
    · rcases shape with rfl | ⟨left, rfl, bounds⟩
      · exact absurd left' List.not_mem_nil
      · rw [List.mem_singleton.mp left']
        exact bounds
    · exact others (.inr (.inr later))
  apart := by
    rcases packed.split with ⟨first, second⟩
    rw [List.append_assoc, List.cons_append, List.isChain_split]
    refine ⟨apart_last (fun free => nomatch free) first, ?_⟩
    rcases shape with rfl | ⟨left, rfl, _⟩
    · exact apart_first (fun free => nomatch free) second
    · rw [List.singleton_append, List.cons_append, List.isChain_cons_cons]
      exact ⟨(fun free => nomatch free), apart_first (fun _ => rfl) second⟩

theorem bump {len : Nat} (packed : Packed least grain tiles) (size : least ≤ len ∧ grain ∣ len) :
    Packed least grain (tiles ++ [⟨false, len⟩]) where
  sizes := by
    intro tile member
    rcases List.mem_append.mp member with earlier | now
    · exact packed.sizes tile earlier
    · rw [List.mem_singleton.mp now]
      exact size
  apart := by
    rw [List.append_assoc, List.singleton_append, List.isChain_split]
    refine ⟨apart_last (fun free => nomatch free) packed.apart, ?_⟩
    rw [List.isChain_cons_cons]
    exact ⟨(fun free => nomatch free), List.IsChain.singleton _⟩

end Packed

/-- The first hole that is long enough, with the holes before and behind it. -/
def firstFit (size : Nat) : List Block → Option (List Block × Block × List Block)
  | [] => none
  | hole :: holes =>
    if size ≤ hole.len then some ([], hole, holes)
    else (firstFit size holes).map fun found => (hole :: found.1, found.2)

theorem firstFit_eq_some {size : Nat} {holes before after : List Block} {hole : Block}
    (found : firstFit size holes = some (before, hole, after)) :
    holes = before ++ hole :: after ∧ size ≤ hole.len := by
  induction holes generalizing before with
  | nil => cases found
  | cons first holes ih =>
    rw [firstFit] at found
    split at found
    case isTrue fits =>
      cases found
      exact ⟨rfl, fits⟩
    case isFalse =>
      rcases Option.map_eq_some_iff.mp found with ⟨⟨front, rest⟩, later, same⟩
      cases same
      rcases ih later with ⟨rfl, fits⟩
      exact ⟨rfl, fits⟩

/-- A block given back takes in the hole right behind it. -/
def joinNext (b : Block) : List Block → Block × List Block
  | [] => (b, [])
  | next :: after =>
    if b.stop = next.start then (⟨b.start, b.len + next.len⟩, after) else (b, next :: after)

/-- And goes into the hole right before it. -/
def joinPrev (before : List Block) (b : Block) : List Block × Block :=
  match before.getLast? with
  | none => (before, b)
  | some prev =>
    if prev.stop = b.start then (before.dropLast, ⟨prev.start, b.len + prev.len⟩)
    else (before, b)

/-- The holes after a block between `before` and `after` is given back, and the new top. -/
def giveBack (used : Nat) (before after : List Block) (b : Block) : List Block × Nat :=
  let next := joinNext b after
  let prev := joinPrev before next.1
  if prev.2.stop = used then (prev.1 ++ next.2, prev.2.start)
  else (prev.1 ++ prev.2 :: next.2, used)

theorem giveBack_le (used : Nat) (before after : List Block) (b : Block) :
    (giveBack used before after b).2 ≤ used := by
  rw [giveBack]
  split
  case isTrue top => exact (Nat.le_add_right _ _).trans (le_of_eq top)
  case isFalse => exact le_refl used

theorem joinNext_tiles {len : Nat} (start : Nat) (positive : 0 < least)
    (packed : Packed least grain (⟨false, len⟩ :: back)) :
    ∃ len' back', joinNext ⟨start, len⟩ (blocks true (start + len) back) =
        (⟨start, len'⟩, blocks true (start + len') back') ∧
      blocks false (start + len') back' = blocks false (start + len) back ∧
      len' + span back' = len + span back ∧ least ≤ len' ∧ grain ∣ len' ∧
      Packed least grain back' ∧ ∀ tile ∈ back'.head?, tile.free = false := by
  have own := packed.sizes ⟨false, len⟩ (by simp)
  cases back with
  | nil => exact ⟨len, [], rfl, rfl, rfl, own.1, own.2, packed.tail, by simp⟩
  | cons tile back =>
    rcases tile with ⟨free, n⟩
    have next := packed.tail.sizes ⟨free, n⟩ (by simp)
    dsimp only at own next
    cases free with
    | true =>
      refine ⟨len + n, back, ?_, ?_, ?_, by omega, Nat.dvd_add own.2 next.2, packed.tail.tail, ?_⟩
      · rw [blocks_same, joinNext]
        simp only [Block.stop, if_true, Nat.add_assoc]
      · rw [← Nat.add_assoc]
        rfl
      · rw [span_cons, Nat.add_assoc]
      · rcases packed.tail.used_next with ⟨m, rest, rfl, _⟩
        intro tile first
        rw [List.head?_cons, Option.mem_some_iff] at first
        rw [← first]
    | false =>
      refine ⟨len, ⟨false, n⟩ :: back, ?_, rfl, rfl, own.1, own.2, packed.tail, ?_⟩
      · cases holes : blocks true (start + len) (⟨false, n⟩ :: back) with
        | nil => rfl
        | cons hole rest =>
          have member : hole ∈ blocks true (start + len + n) back := by
            change blocks true (start + len + n) back = hole :: rest at holes
            rw [holes]
            exact List.mem_cons_self
          have within := (blocks_within member).1
          rw [joinNext, if_neg]
          exact show start + len ≠ hole.start by omega
      · intro tile first
        rw [List.head?_cons, Option.mem_some_iff] at first
        rw [← first]

theorem joinPrev_tiles {len : Nat} (positive : 0 < least) (size : least ≤ len ∧ grain ∣ len)
    (sizes : ∀ tile ∈ front, least ≤ tile.len ∧ grain ∣ tile.len) (chain : front.IsChain Apart) :
    ∃ front' len', joinPrev (blocks true 0 front) ⟨span front, len⟩ =
        (blocks true 0 front', ⟨span front', len'⟩) ∧
      blocks false 0 front' = blocks false 0 front ∧ span front' + len' = span front + len ∧
      least ≤ len' ∧ grain ∣ len' ∧ Packed least grain front' := by
  rcases List.eq_nil_or_concat front with rfl | ⟨front, tile, rfl⟩
  · exact ⟨[], len, rfl, rfl, rfl, size.1, size.2, Packed.nil⟩
  · rcases tile with ⟨free, n⟩
    rw [List.concat_eq_append] at sizes chain ⊢
    have last := sizes ⟨free, n⟩ (by simp)
    dsimp only at last
    have smaller : ∀ tile ∈ front, least ≤ tile.len ∧ grain ∣ tile.len :=
      fun tile member => sizes tile (List.mem_append_left _ member)
    cases free with
    | true =>
      refine ⟨front, len + n, ?_, ?_, ?_, by omega, Nat.dvd_add size.2 last.2, smaller,
        apart_last (fun _ => rfl) chain⟩
      · rw [blocks_append, blocks_same, blocks, joinPrev, List.getLast?_concat,
          List.dropLast_concat, Nat.zero_add]
        simp only [Block.stop, span_append, span_cons, span_nil, Nat.add_zero, if_true]
      · rw [blocks_append, blocks_false_free, blocks, List.append_nil]
      · simp only [span_append, span_cons, span_nil]
        omega
    | false =>
      refine ⟨front ++ [⟨false, n⟩], len, ?_, rfl, rfl, size.1, size.2, sizes, ?_⟩
      · have holes : blocks true 0 (front ++ [⟨false, n⟩]) = blocks true 0 front := by
          rw [blocks_append, blocks_true_used, blocks, List.append_nil]
        rw [holes, joinPrev]
        cases found : (blocks true 0 front).getLast? with
        | none => rfl
        | some prev =>
          have within := (blocks_within (List.mem_of_getLast? found)).2
          have below : prev.stop ≠ span (front ++ [⟨false, n⟩]) := by
            simp only [span_append, span_cons, span_nil]
            omega
          simp only [if_neg below]
      · rw [List.append_assoc, List.singleton_append, List.isChain_split]
        refine ⟨chain, ?_⟩
        rw [List.isChain_cons_cons]
        exact ⟨(fun free => nomatch free), List.IsChain.singleton _⟩

theorem giveBack_tiles {len : Nat} (positive : 0 < least)
    (packed : Packed least grain (front ++ ⟨false, len⟩ :: back)) :
    ∃ tiles', giveBack (span (front ++ ⟨false, len⟩ :: back)) (blocks true 0 front)
          (blocks true (span front + len) back) ⟨span front, len⟩ =
        (blocks true 0 tiles', span tiles') ∧
      blocks false 0 tiles' = blocks false 0 front ++ blocks false (span front + len) back ∧
      Packed least grain tiles' := by
  rcases packed.split with ⟨first, second⟩
  have behind : Packed least grain (⟨false, len⟩ :: back) :=
    ⟨fun tile member => packed.sizes tile (List.mem_append_right _ member), second⟩
  rcases joinNext_tiles (span front) positive behind with
    ⟨len', back', joined, used, sum, least', grain', packedBack, starts⟩
  rcases joinPrev_tiles positive ⟨least', grain'⟩
    (fun tile member => packed.sizes tile (List.mem_append_left _ member))
    (List.isChain_append.mp first).1 with
    ⟨front', len'', joined', used', sum', least'', grain'', packedFront⟩
  have whole : span (front ++ ⟨false, len⟩ :: back) = span front' + len'' + span back' := by
    rw [span_append, span_cons]
    dsimp only
    omega
  have place : span front + len' = span front' + len'' := sum'.symm
  rw [giveBack, joined, joined', whole]
  dsimp only
  cases back' with
  | nil =>
    refine ⟨front', ?_, ?_, packedFront⟩
    · have full : Block.stop ⟨span front', len''⟩ = span front' + len'' + span [] := rfl
      rw [if_pos full]
      exact congrArg (·, span front') (List.append_nil _)
    · rw [used', ← used]
      exact (List.append_nil _).symm
  | cons tile rest =>
    have size := (packedBack.sizes tile (by simp)).1
    have inUse := starts tile rfl
    have short : ¬ Block.stop ⟨span front', len''⟩ = span front' + len'' + span (tile :: rest) := by
      rw [span_cons]
      exact show ¬ span front' + len'' = _ by omega
    refine ⟨front' ++ ⟨true, len''⟩ :: tile :: rest, ?_, ?_, ?_, ?_⟩
    · rw [if_neg short, blocks_append, blocks_same, span_append, span_cons _ (tile :: rest),
        place, Nat.zero_add, ← Nat.add_assoc]
    · rw [blocks_append, blocks_false_free, used', ← used, place, Nat.zero_add]
    · intro other member
      rcases List.mem_append.mp member with earlier | later
      · exact packedFront.sizes other earlier
      · rcases List.mem_cons.mp later with rfl | after
        · exact ⟨least'', grain''⟩
        · exact packedBack.sizes other after
    · rw [List.append_assoc, List.cons_append, List.isChain_split]
      refine ⟨apart_last (fun _ => rfl) packedFront.apart, ?_⟩
      rw [List.cons_append, List.isChain_cons_cons]
      exact ⟨fun _ => inUse, packedBack.apart⟩

end Tiling

end NanoRos
