import NanoRos.Serdes.Layout

/-! Sequences of numbers read as a view of the buffer (`read_le_slice`), and element by element. -/

namespace NanoRos

open LittleEndian Memory

/-- An element type of two, four or eight bytes, with its own reader. -/
class LeDecode (T : Type) where
  size : Nat
  ofNat : Nat → T
  read : CdrReader → Except DeserError (T × CdrReader)
  read_eq : ∀ r, read r = CdrReader.readWord size r >>= fun x => .ok (ofNat x.1, x.2)
  size_cases : size = 2 ∨ size = 4 ∨ size = 8

instance : LeDecode UInt16 := ⟨2, UInt16.ofNat, CdrReader.readU16, fun _ => rfl, .inl rfl⟩

instance : LeDecode UInt32 := ⟨4, UInt32.ofNat, CdrReader.readU32, fun _ => rfl, .inr (.inl rfl)⟩

instance : LeDecode UInt64 := ⟨8, UInt64.ofNat, CdrReader.readU64, fun _ => rfl, .inr (.inr rfl)⟩

namespace LeDecode

theorem read_again {T S : Type} (f : T → S) (ofNat : Nat → T) (width : Nat) (r : CdrReader) :
    ((CdrReader.readWord width r >>= fun x => (.ok (ofNat x.1, x.2) : Except DeserError _)) >>=
        fun x => .ok (f x.1, x.2)) =
      CdrReader.readWord width r >>= fun x => .ok (f (ofNat x.1), x.2) := by
  cases CdrReader.readWord width r <;> rfl

end LeDecode

instance : LeDecode Int16 :=
  ⟨2, fun n => (UInt16.ofNat n).toInt16, CdrReader.readI16,
    LeDecode.read_again UInt16.toInt16 UInt16.ofNat 2, .inl rfl⟩

instance : LeDecode Int32 :=
  ⟨4, fun n => (UInt32.ofNat n).toInt32, CdrReader.readI32,
    LeDecode.read_again UInt32.toInt32 UInt32.ofNat 4, .inr (.inl rfl)⟩

instance : LeDecode Int64 :=
  ⟨8, fun n => (UInt64.ofNat n).toInt64, CdrReader.readI64,
    LeDecode.read_again UInt64.toInt64 UInt64.ofNat 8, .inr (.inr rfl)⟩

instance : LeDecode F32 :=
  ⟨4, fun n => ⟨UInt32.ofNat n⟩, CdrReader.readF32,
    LeDecode.read_again F32.mk UInt32.ofNat 4, .inr (.inl rfl)⟩

instance : LeDecode F64 :=
  ⟨8, fun n => ⟨UInt64.ofNat n⟩, CdrReader.readF64,
    LeDecode.read_again F64.mk UInt64.ofNat 8, .inr (.inr rfl)⟩

structure LeSliceView (T : Type) where
  bytes : List UInt8

variable {T : Type} [LeDecode T]

def fromLe (bytes : List UInt8) : T := LeDecode.ofNat (leNat bytes)

namespace LeSliceView

def len (view : LeSliceView T) : Nat := view.bytes.length / LeDecode.size T

/-- The checked product and sum of the source answer nothing where they overflow. -/
def get (view : LeSliceView T) (index : Nat) : Option T :=
  let start := index * LeDecode.size T
  let stop := start + LeDecode.size T
  if usizeMax < start ∨ usizeMax < stop then none
  else if stop ≤ view.bytes.length then
    some (fromLe (slice view.bytes start (LeDecode.size T)))
  else none

def iter (view : LeSliceView T) : List T :=
  (List.range (view.bytes.length / LeDecode.size T)).map fun i =>
    fromLe (slice view.bytes (i * LeDecode.size T) (LeDecode.size T))

end LeSliceView

namespace CdrReader

def readSliceU8 (r : CdrReader) : Except DeserError (List UInt8 × CdrReader) := do
  let (len, r) ← r.readU32
  r.readBytes len.toNat

variable (T)

/-- Behind the length: nothing is aligned for an empty sequence. -/
def readView (len : Nat) (r : CdrReader) : Except DeserError (LeSliceView T × CdrReader) := do
  let byteLen := len * LeDecode.size T
  if usizeMax < byteLen then throw .invalidData
  let r ← if 0 < len then r.align (LeDecode.size T) else .ok r
  let (bytes, r) ← r.readBytes byteLen
  return (⟨bytes⟩, r)

def readLeSlice (r : CdrReader) : Except DeserError (LeSliceView T × CdrReader) := do
  let (len, r) ← r.readU32
  readView T len.toNat r

def readElements : Nat → CdrReader → Except DeserError (List T × CdrReader)
  | 0, r => .ok ([], r)
  | n + 1, r => do
    let (item, r) ← LeDecode.read r
    let (items, r) ← readElements n r
    return (item :: items, r)

def readOwned (r : CdrReader) : Except DeserError (List T × CdrReader) := do
  let (len, r) ← r.readU32
  readElements T len.toNat r

variable {T}

/-- At a multiple of the element's alignment. -/
structure Aligned (r : CdrReader) (width : Nat) : Prop where
  ready : r.Ready
  padding : padding (alignCap r.version width) r.offset = 0

theorem alignCap_dvd (version : EncodingVersion) :
    alignCap version (LeDecode.size T) ∣ LeDecode.size T := by
  rcases LeDecode.size_cases (T := T) with size | size | size <;> rw [size] <;> cases version <;>
    decide

theorem alignCap_size_pos (version : EncodingVersion) : 0 < alignCap version (LeDecode.size T) := by
  rcases LeDecode.size_cases (T := T) with size | size | size <;> rw [size] <;> cases version <;>
    decide

theorem size_pos : 0 < LeDecode.size T := by
  rcases LeDecode.size_cases (T := T) with size | size | size <;> rw [size] <;> decide

theorem padding_of_dvd {alignment offset : Nat} (divides : alignment ∣ offset) :
    NanoRos.padding alignment offset = 0 := by
  rw [NanoRos.padding, Nat.mod_eq_zero_of_dvd divides, Nat.sub_zero, Nat.mod_self]

variable {r : CdrReader}

theorem Aligned.align {width : Nat} (aligned : r.Aligned width) :
    r.align width = .ok r := by
  have none := aligned.padding
  rw [offset] at none
  rw [CdrReader.align, none]
  rfl

theorem aligned_of_align {r' : CdrReader} (ready : r.Ready)
    (done : r.align (LeDecode.size T) = .ok r') : r'.Aligned (LeDecode.size T) := by
  have order := ready.origin_le
  have within := ready.within
  rw [CdrReader.align] at done
  split at done
  case isTrue => cases done
  case isFalse room =>
    cases done
    rw [remaining] at room
    refine ⟨⟨order.trans (Nat.le_add_right _ _), ?_⟩, ?_⟩
    · dsimp only
      omega
    · apply padding_of_dvd
      have divides := dvd_add_padding (alignCap r.version (LeDecode.size T)) (r.pos - r.origin)
        (alignCap_size_pos r.version)
      rw [offset]
      dsimp only
      rwa [Nat.sub_add_comm order]

/-- The elements behind a reader that is aligned, `n` of them. -/
def elementsAt (r : CdrReader) (n : Nat) : List T :=
  (List.range n).map fun i =>
    fromLe (slice r.buf (r.pos + i * LeDecode.size T) (LeDecode.size T))

def advance (r : CdrReader) (count : Nat) : CdrReader := { r with pos := r.pos + count }

theorem Aligned.advance (aligned : r.Aligned (LeDecode.size T))
    (room : r.pos + LeDecode.size T ≤ r.buf.length) :
    (r.advance (LeDecode.size T)).Aligned (LeDecode.size T) where
  ready := ⟨aligned.ready.origin_le.trans (Nat.le_add_right _ _), room⟩
  padding := by
    have order := aligned.ready.origin_le
    have next : (r.advance (LeDecode.size T)).offset = r.offset + LeDecode.size T :=
      Nat.sub_add_comm order
    rw [next]
    exact (padding_add_of_dvd (alignCap_dvd r.version) _).trans aligned.padding

theorem read_aligned (aligned : r.Aligned (LeDecode.size T)) :
    LeDecode.read r = if r.remaining < LeDecode.size T then .error .unexpectedEof
      else .ok ((fromLe (slice r.buf r.pos (LeDecode.size T)) : T), r.advance (LeDecode.size T)) := by
  rw [LeDecode.read_eq, readWord, aligned.align]
  by_cases short : r.remaining < LeDecode.size T
  · rw [if_pos short]
    change (if r.remaining < LeDecode.size T then _ else _) >>= _ = _
    rw [if_pos short]
    rfl
  · rw [if_neg short]
    change (if r.remaining < LeDecode.size T then _ else _) >>= _ = _
    rw [if_neg short]
    rfl

theorem elementsAt_succ (r : CdrReader) (n : Nat) :
    elementsAt (T := T) r (n + 1) = fromLe (slice r.buf r.pos (LeDecode.size T)) ::
      elementsAt (r.advance (LeDecode.size T)) n := by
  rw [elementsAt, List.range_succ_eq_map, List.map_cons, List.map_map, Nat.zero_mul, Nat.add_zero]
  apply congrArg
  apply List.map_congr_left
  intro i _
  have place : r.pos + (i + 1) * LeDecode.size T =
      r.pos + LeDecode.size T + i * LeDecode.size T := by ring
  change fromLe (slice r.buf (r.pos + (i + 1) * LeDecode.size T) _) = _
  rw [place]
  rfl

theorem readElements_aligned (n : Nat) (aligned : r.Aligned (LeDecode.size T)) :
    readElements T n r = if r.remaining < n * LeDecode.size T then .error .unexpectedEof
      else .ok (elementsAt r n, r.advance (n * LeDecode.size T)) := by
  induction n generalizing r with
  | zero =>
    rw [Nat.zero_mul, if_neg (Nat.not_lt_zero _)]
    rfl
  | succ n ih =>
    have within := aligned.ready.within
    have whole : (n + 1) * LeDecode.size T = n * LeDecode.size T + LeDecode.size T := by ring
    rw [readElements, read_aligned aligned]
    by_cases short : r.remaining < LeDecode.size T
    · rw [if_pos short, if_pos (by omega)]
      rfl
    · have room : r.pos + LeDecode.size T ≤ r.buf.length := by
        have positive := size_pos (T := T)
        rw [remaining] at short
        omega
      have left : (r.advance (LeDecode.size T)).remaining = r.remaining - LeDecode.size T := by
        rw [remaining, remaining, advance, Nat.sub_add_eq]
      rw [if_neg short, ok_bind]
      dsimp only
      rw [ih (aligned.advance room), left]
      by_cases enough : r.remaining < (n + 1) * LeDecode.size T
      · rw [if_pos enough, if_pos (by omega)]
        rfl
      · rw [if_neg enough, if_neg (by omega), elementsAt_succ, whole]
        change Except.ok _ = _
        rw [advance, advance, advance, Nat.add_assoc, Nat.add_comm (LeDecode.size T)]

theorem readElements_align (n : Nat) (ready : r.Ready) :
    readElements T (n + 1) r = r.align (LeDecode.size T) >>= readElements T (n + 1) := by
  cases aligned : r.align (LeDecode.size T) with
  | error e =>
    rw [readElements, LeDecode.read_eq, readWord, aligned]
    rfl
  | ok r' =>
    have again := (aligned_of_align ready aligned).align
    rw [ok_bind, readElements, readElements, LeDecode.read_eq, LeDecode.read_eq, readWord,
      readWord, aligned, again]

/-- The view over the bytes of `n` elements. -/
def viewAt (r : CdrReader) (n : Nat) : LeSliceView T := ⟨slice r.buf r.pos (n * LeDecode.size T)⟩

theorem readBytes_eq (r : CdrReader) (count : Nat) : r.readBytes count =
    if r.remaining < count then .error .unexpectedEof
    else .ok (slice r.buf r.pos count, r.advance count) := rfl

/-- The view shows these elements, at every index and in order. -/
structure Shows (view : LeSliceView T) (items : List T) : Prop where
  len : view.len = items.length
  iter : view.iter = items
  get : ∀ index, view.get index = items[index]?

theorem slice_slice (buf : List UInt8) (pos outer start len : Nat) (inside : start + len ≤ outer) :
    slice (slice buf pos outer) start len = slice buf (pos + start) len := by
  rw [slice, slice, slice, List.drop_take, List.take_take, List.drop_drop,
    Nat.min_eq_left (by omega)]

theorem length_slice (buf : List UInt8) (pos len : Nat) (inside : pos + len ≤ buf.length) :
    (slice buf pos len).length = len := by
  rw [slice, List.length_take, List.length_drop]
  omega

theorem shows_viewAt {n : Nat} (word : n * LeDecode.size T ≤ usizeMax)
    (room : r.pos + n * LeDecode.size T ≤ r.buf.length) :
    Shows (viewAt r n) (elementsAt (T := T) r n) := by
  have positive := size_pos (T := T)
  have length := length_slice r.buf r.pos _ room
  have count : (slice r.buf r.pos (n * LeDecode.size T)).length / LeDecode.size T = n := by
    rw [length]
    exact Nat.mul_div_cancel n positive
  have element (i : Nat) (inside : i < n) :
      slice (slice r.buf r.pos (n * LeDecode.size T)) (i * LeDecode.size T) (LeDecode.size T) =
        slice r.buf (r.pos + i * LeDecode.size T) (LeDecode.size T) := by
    apply slice_slice
    rw [← Nat.succ_mul]
    exact Nat.mul_le_mul_right _ inside
  refine ⟨?_, ?_, fun index => ?_⟩
  · rw [LeSliceView.len, viewAt, count, elementsAt, List.length_map, List.length_range]
  · rw [LeSliceView.iter, viewAt, count, elementsAt]
    apply List.map_congr_left
    intro i member
    rw [element i (List.mem_range.mp member)]
  · have stop : index * LeDecode.size T + LeDecode.size T = (index + 1) * LeDecode.size T :=
      (Nat.succ_mul _ _).symm
    rw [LeSliceView.get, viewAt, elementsAt, List.getElem?_map]
    dsimp only
    rw [stop, length]
    by_cases inside : index < n
    · have within : (index + 1) * LeDecode.size T ≤ n * LeDecode.size T :=
        Nat.mul_le_mul_right _ inside
      have small : ¬ (usizeMax < index * LeDecode.size T ∨
          usizeMax < (index + 1) * LeDecode.size T) := by
        rw [← stop] at within ⊢
        omega
      rw [if_neg small, if_pos within, element index inside, List.getElem?_range inside]
      rfl
    · have beyond : ¬ (index + 1) * LeDecode.size T ≤ n * LeDecode.size T := by
        intro within
        exact inside (Nat.le_of_mul_le_mul_right within positive)
      have none : (List.range n)[index]? = none := by
        rw [List.getElem?_eq_none_iff, List.length_range]
        exact Nat.not_lt.mp inside
      rw [if_neg beyond, none, ite_self]
      rfl

/-- Behind the length, either both reads fail or both take the elements from one place. -/
inductive Same (view : Except DeserError (LeSliceView T × CdrReader))
    (owned : Except DeserError (List T × CdrReader)) : Prop where
  | fails (e e' : DeserError) (first : view = .error e) (second : owned = .error e')
  | reads (start : CdrReader) (n : Nat) (word : n * LeDecode.size T ≤ usizeMax)
      (room : start.pos + n * LeDecode.size T ≤ start.buf.length)
      (first : view = .ok (viewAt start n, start.advance (n * LeDecode.size T)))
      (second : owned = .ok (elementsAt start n, start.advance (n * LeDecode.size T)))

theorem readBytes_same (aligned : r.Aligned (LeDecode.size T)) (n : Nat)
    (word : n * LeDecode.size T ≤ usizeMax) :
    Same (r.readBytes (n * LeDecode.size T) >>= fun x => .ok ((⟨x.1⟩ : LeSliceView T), x.2))
      (readElements T n r) := by
  have within := aligned.ready.within
  rw [readBytes_eq, readElements_aligned n aligned]
  by_cases short : r.remaining < n * LeDecode.size T
  · rw [if_pos short, if_pos short]
    exact .fails _ _ rfl rfl
  · rw [if_neg short, if_neg short]
    rw [remaining] at short
    exact .reads r n word (by omega) rfl rfl

theorem same_behind (ready : r.Ready) (n : Nat) (word : n * LeDecode.size T ≤ usizeMax) :
    Same (readView T n r) (readElements T n r) := by
  have wide : ¬ usizeMax < n * LeDecode.size T := Nat.not_lt.mpr word
  cases n with
  | zero =>
    have empty : 0 * LeDecode.size T = 0 := Nat.zero_mul _
    have view : readView T 0 r = .ok (viewAt r 0, r) := by
      rw [readView, if_neg wide, if_neg (Nat.lt_irrefl 0), ok_bind]
      dsimp only
      rw [readBytes_eq, viewAt, empty, if_neg (Nat.not_lt_zero _)]
      rfl
    refine .reads r 0 word ?_ ?_ ?_
    · rw [empty]
      exact ready.within
    · rw [view, empty]
      rfl
    · rw [empty]
      rfl
  | succ n =>
    have view : readView T (n + 1) r = r.align (LeDecode.size T) >>= fun r =>
        r.readBytes ((n + 1) * LeDecode.size T) >>= fun x => .ok (⟨x.1⟩, x.2) := by
      rw [readView, if_neg wide, if_pos (Nat.succ_pos n)]
      rfl
    rw [view, readElements_align n ready]
    cases aligned : r.align (LeDecode.size T) with
    | error e => exact .fails e e rfl rfl
    | ok r' => exact readBytes_same (aligned_of_align ready aligned) _ word

theorem ready_of_readU32 {r' : CdrReader} {len : UInt32} (ready : r.Ready)
    (done : r.readU32 = .ok (len, r')) : r'.Ready := by
  have order := ready.origin_le
  rw [readU32, readWord, align] at done
  split at done
  · cases done
  · rw [ok_bind] at done
    split at done
    · cases done
    case isFalse room enough =>
      cases done
      rw [remaining] at enough
      refine ⟨order.trans ?_, ?_⟩
      · exact (Nat.le_add_right _ _).trans (Nat.le_add_right _ _)
      · dsimp only at enough ⊢
        omega

theorem same_read (ready : r.Ready) : Same (readLeSlice T r) (readOwned T r) := by
  rw [readLeSlice, readOwned]
  cases length : r.readU32 with
  | error e => exact .fails e e rfl rfl
  | ok x =>
    apply same_behind (ready_of_readU32 ready length)
    have small := x.1.toNat_lt
    have bytes : LeDecode.size T ≤ 8 := by
      rcases LeDecode.size_cases (T := T) with size | size | size <;> rw [size] <;> decide
    calc
      _ ≤ 2 ^ 32 * 8 := Nat.mul_le_mul small.le bytes
      _ ≤ usizeMax := by decide

/-- The borrowed read of a sequence of numbers and the read of its elements succeed together, show
the same elements and stop at the same place. -/
theorem borrowed_agrees (T : Type) [LeDecode T] (r : CdrReader) (ready : r.Ready) :
    (∀ items r', readOwned T r = .ok (items, r') →
      ∃ view, readLeSlice T r = .ok (view, r') ∧ Shows view items) ∧
    ∀ view r', readLeSlice T r = .ok (view, r') →
      readOwned T r = .ok (view.iter, r') ∧ Shows view view.iter := by
  rcases same_read (T := T) ready with ⟨e, e', first, second⟩ | ⟨start, n, word, room, first, second⟩
  · rw [first, second]
    exact ⟨nofun, nofun⟩
  · have shows' := shows_viewAt word room
    rw [first, second]
    constructor
    · intro items r' same
      cases same
      exact ⟨_, rfl, shows'⟩
    · intro view r' same
      cases same
      rw [shows'.iter]
      exact ⟨rfl, shows'⟩

/-- Two eight-byte numbers behind their length, under the alignment of XCDR2. -/
theorem borrowed_agrees_doubles :
    ∃ view, readLeSlice UInt64 ⟨[2, 0, 0, 0, 7, 0, 0, 0, 0, 0, 0, 0, 9, 0, 0, 0, 0, 0, 0, 0], 0, 0,
        .xcdr2⟩ = .ok (view, ⟨[2, 0, 0, 0, 7, 0, 0, 0, 0, 0, 0, 0, 9, 0, 0, 0, 0, 0, 0, 0], 20, 0,
        .xcdr2⟩) ∧ Shows view [7, 9] := by
  refine (borrowed_agrees UInt64 _ ⟨le_rfl, by decide⟩).1 [7, 9] _ ?_
  rfl

end CdrReader

end NanoRos
