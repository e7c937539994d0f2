import NanoRos.Node.BufferedSub

/-! One writer and one reader on a `TripleBuffer`, interleaved at every load and store. -/

namespace NanoRos

/-- Where the writer is: between calls, with the slot of `write_slot`, in `writer_publish`. The
message is what that slot held when `writer_publish` was called. -/
inductive Writer where
  | idle
  | filling (slot : UInt8)
  | publishing (old : UInt8) (message : SlotMessage)
  | measured (old : UInt8) (message : SlotMessage)
  deriving DecidableEq

/-- Where the reader is: between calls, in `reader_acquire`, with a sample. -/
inductive Reader where
  | idle
  | acquiring (old : UInt8)
  | swapped (slot : UInt8)
  | holding (slot : UInt8) (len : Nat)
  deriving DecidableEq

def Writer.slot : Writer → Option UInt8
  | .idle => none
  | .filling slot => some slot
  | .publishing old _ | .measured old _ => some (unpackWrite old)

def Writer.loaded : Writer → Option UInt8
  | .idle | .filling _ => none
  | .publishing old _ | .measured old _ => some old

def Reader.slot : Reader → Option UInt8
  | .idle | .acquiring _ => none
  | .swapped slot | .holding slot _ => some slot

def Reader.loaded : Reader → Option UInt8
  | .acquiring old => some old
  | _ => none

inductive WriterStep where
  | loadSlot
  | write (offset : Nat) (byte : UInt8)
  | giveUp
  | publish (len : Nat)
  | storeLen
  | storeState
  deriving DecidableEq

inductive ReaderStep where
  | loadState
  | storeState
  | loadLen
  | letGo
  deriving DecidableEq

inductive TripleStep where
  | writer (step : WriterStep)
  | reader (step : ReaderStep)
  deriving DecidableEq

/-- A swap of the reader, with how many messages were published by then and the last of them. -/
structure Swap where
  number : Nat
  latest : Option SlotMessage
  deriving DecidableEq

structure TripleRun where
  tb : TripleBuffer
  writer : Writer
  reader : Reader
  published : List SlotMessage
  swaps : List Swap
  returned : List SlotMessage

namespace TripleRun

/-- `init` over a region that holds anything. -/
def start (slots : UInt8 → SampleSlot) : TripleRun :=
  ⟨⟨slots, packState 0 1 2 false⟩, .idle, .idle, [], [], []⟩

def setSlot (s : TripleRun) (i : UInt8) (slot : SampleSlot) : TripleRun :=
  { s with tb := { s.tb with slots := Function.update s.tb.slots i slot } }

def setState (s : TripleRun) (word : UInt8) : TripleRun :=
  { s with tb := { s.tb with state := word } }

/-- One access of the writer. A length beyond the slot is not one `writer_publish` is given. -/
def write (s : TripleRun) (step : WriterStep) : Option TripleRun :=
  match step, s.writer with
  | .loadSlot, .idle => some { s with writer := .filling (unpackWrite s.tb.state) }
  | .write offset byte, .filling i =>
    let slot := s.tb.slots i
    some (s.setSlot i { slot with data := slot.data.set offset byte })
  | .giveUp, .filling _ => some { s with writer := .idle }
  | .publish len, .filling i =>
    if len ≤ (s.tb.slots i).data.length then
      some { s with writer := .publishing s.tb.state ((s.tb.slots i).shows len) }
    else none
  | .storeLen, .publishing old message =>
    let w := unpackWrite old
    some { s.setSlot w { s.tb.slots w with len := message.len } with
      writer := .measured old message }
  | .storeState, .measured old message =>
    some { s.setState (packState (unpackMiddle old) (unpackWrite old) (unpackRead old) true) with
      writer := .idle
      published := s.published ++ [message] }
  | _, _ => none

def read (s : TripleRun) (step : ReaderStep) : Option TripleRun :=
  match step, s.reader with
  | .loadState, .idle =>
    if isDirty s.tb.state then some { s with reader := .acquiring s.tb.state } else some s
  | .storeState, .acquiring old =>
    some { s.setState (packState (unpackWrite old) (unpackRead old) (unpackMiddle old) false) with
      reader := .swapped (unpackMiddle old)
      swaps := s.swaps ++ [⟨s.published.length, s.published.getLast?⟩] }
  | .loadLen, .swapped i =>
    let len := (s.tb.slots i).len
    some { s with
      reader := .holding i len
      returned := s.returned ++ [(s.tb.slots i).shows len] }
  | .letGo, .holding _ _ => some { s with reader := .idle }
  | _, _ => none

def step (s : TripleRun) : TripleStep → Option TripleRun
  | .writer access => s.write access
  | .reader access => s.read access

/-- What the slice of `reader_acquire` shows the reader at this moment. -/
def shown (s : TripleRun) : Option SlotMessage :=
  match s.reader with
  | .holding i len => some ((s.tb.slots i).shows len)
  | _ => none

/-- A store of the state word finds the word its own call loaded. -/
def current (s : TripleRun) : TripleStep → Prop
  | .writer .storeState => ∀ old ∈ s.writer.loaded, s.tb.state = old
  | .reader .storeState => ∀ old ∈ s.reader.loaded, s.tb.state = old
  | _ => True

instance (s : TripleRun) : DecidablePred s.current
  | .writer .storeState => inferInstanceAs (Decidable (∀ old ∈ s.writer.loaded, s.tb.state = old))
  | .reader .storeState => inferInstanceAs (Decidable (∀ old ∈ s.reader.loaded, s.tb.state = old))
  | .writer .loadSlot | .writer (.write _ _) | .writer .giveUp | .writer (.publish _)
  | .writer .storeLen | .reader .loadState | .reader .loadLen | .reader .letGo => isTrue trivial

end TripleRun

/-- Three slots with a role each. -/
def Roles (w m r : UInt8) : Prop := [w, m, r].Perm [0, 1, 2]

/-- What the triple buffer promises one writer and one reader. -/
structure NeverShared (s : TripleRun) : Prop where
  roles : Roles (unpackWrite s.tb.state) (unpackMiddle s.tb.state) (unpackRead s.tb.state)
  apart : ∀ i j, s.writer.slot = some i → s.reader.slot = some j → i ≠ j
  latest : ∀ (k : Nat) (message : SlotMessage), s.returned[k]? = some message →
    ∃ swap : Swap, s.swaps[k]? = some swap ∧ swap.latest = some message
  once : (s.swaps.map Swap.number).Pairwise (· < ·)
  intact : ∀ message, s.shown = some message → s.returned.getLast? = some message

namespace Roles

variable {w m r : UInt8}

theorem publish (roles : Roles w m r) : Roles m w r := (List.Perm.swap w m [r]).trans roles

theorem acquire (roles : Roles w m r) : Roles w r m :=
  ((List.Perm.swap m r []).cons w).trans roles

theorem distinct (roles : Roles w m r) : w ≠ m ∧ w ≠ r ∧ m ≠ r := by
  have nodup : [w, m, r].Nodup := roles.nodup_iff.mpr (by decide)
  simp only [List.nodup_cons, List.mem_cons, List.not_mem_nil, or_false, not_or] at nodup
  exact ⟨nodup.1.1, nodup.1.2, nodup.2.1⟩

theorem exists_fin {i : UInt8} (member : i ∈ [w, m, r]) (roles : Roles w m r) :
    ∃ j : Fin 3, i = j.val.toUInt8 := by
  have inside := roles.mem_iff.mp member
  simp only [List.mem_cons, List.not_mem_nil, or_false] at inside
  rcases inside with rfl | rfl | rfl
  · exact ⟨0, rfl⟩
  · exact ⟨1, rfl⟩
  · exact ⟨2, rfl⟩

theorem unpack (roles : Roles w m r) (dirty : Bool) :
    unpackWrite (packState w m r dirty) = w ∧ unpackMiddle (packState w m r dirty) = m ∧
      unpackRead (packState w m r dirty) = r ∧ isDirty (packState w m r dirty) = dirty := by
  rcases roles.exists_fin (i := w) (by simp) with ⟨w, rfl⟩
  rcases roles.exists_fin (i := m) (by simp) with ⟨m, rfl⟩
  rcases roles.exists_fin (i := r) (by simp) with ⟨r, rfl⟩
  exact unpack_packState w m r dirty

end Roles

namespace TripleRun

def writerInv (w : UInt8) (slot : SampleSlot) : Writer → Prop
  | .idle => True
  | .filling i => i = w
  | .publishing old message => unpackWrite old = w ∧ message = slot.shows message.len
  | .measured old message => unpackWrite old = w ∧ message = slot.message

def readerInv (s : TripleRun) (r : UInt8) : Reader → Prop
  | .idle => s.returned.map some = s.swaps.map Swap.latest
  | .acquiring old => isDirty old = true ∧ s.returned.map some = s.swaps.map Swap.latest
  | .swapped i =>
    i = r ∧ (s.returned ++ [(s.tb.slots r).message]).map some = s.swaps.map Swap.latest
  | .holding i len =>
    i = r ∧ s.returned.map some = s.swaps.map Swap.latest ∧
      s.returned.getLast? = some ((s.tb.slots r).shows len)

structure Inv (s : TripleRun) (w m r : UInt8) (dirty : Bool) : Prop where
  roles : Roles w m r
  word : s.tb.state = packState w m r dirty
  writer : writerInv w (s.tb.slots w) s.writer
  reader : readerInv s r s.reader
  waiting : dirty = true → s.published.getLast? = some (s.tb.slots m).message
  numbered : ∀ swap ∈ s.swaps, swap.number ≤ s.published.length
  behind : dirty = true → ∀ swap ∈ s.swaps, swap.number < s.published.length
  once : (s.swaps.map Swap.number).Pairwise (· < ·)

def Held (s : TripleRun) : Prop := ∃ w m r dirty, Inv s w m r dirty

variable {s next : TripleRun} {w m r : UInt8} {dirty : Bool}

theorem readerInv_congr {other : TripleRun} (reader : Reader)
    (slot : other.tb.slots r = s.tb.slots r) (returned : other.returned = s.returned)
    (swaps : other.swaps = s.swaps) (holds : readerInv s r reader) : readerInv other r reader := by
  cases reader with
  | idle | acquiring old =>
    rw [readerInv, returned, swaps]
    exact holds
  | swapped i | holding i len =>
    rw [readerInv, slot, returned, swaps]
    exact holds

namespace Inv

section

variable (inv : Inv s w m r dirty)
include inv

theorem unpack :
    unpackWrite s.tb.state = w ∧ unpackMiddle s.tb.state = m ∧ unpackRead s.tb.state = r ∧
      isDirty s.tb.state = dirty := by
  rw [inv.word]
  exact inv.roles.unpack dirty

theorem setSlot (slot : SampleSlot) (writer : Writer) (holds : writerInv w slot writer) :
    Inv { s.setSlot w slot with writer := writer } w m r dirty := by
  rcases inv.roles.distinct with ⟨notMiddle, notRead, _⟩
  have middle : (s.setSlot w slot).tb.slots m = s.tb.slots m :=
    Function.update_of_ne notMiddle.symm _ _
  have read : (s.setSlot w slot).tb.slots r = s.tb.slots r :=
    Function.update_of_ne notRead.symm _ _
  have own : (s.setSlot w slot).tb.slots w = slot := Function.update_self _ _ _
  refine ⟨inv.roles, inv.word, ?_, ?_, ?_, inv.numbered, inv.behind, inv.once⟩
  · change writerInv w ((s.setSlot w slot).tb.slots w) writer
    rw [own]
    exact holds
  · exact readerInv_congr s.reader read rfl rfl inv.reader
  · intro waits
    change s.published.getLast? = some ((s.setSlot w slot).tb.slots m).message
    rw [middle]
    exact inv.waiting waits

theorem setWriter (writer : Writer) (holds : writerInv w (s.tb.slots w) writer)
    : Inv { s with writer := writer } w m r dirty :=
  ⟨inv.roles, inv.word, holds, readerInv_congr s.reader rfl rfl rfl inv.reader, inv.waiting,
    inv.numbered, inv.behind, inv.once⟩

theorem publish (message : SlotMessage) (written : message = (s.tb.slots w).message) :
    Inv { s.setState (packState m w r true) with
      writer := .idle, published := s.published ++ [message] } m w r true where
  roles := inv.roles.publish
  word := rfl
  writer := trivial
  reader := readerInv_congr s.reader rfl rfl rfl inv.reader
  waiting := by
    intro _
    rw [List.getLast?_concat, written]
    rfl
  numbered := by
    intro swap member
    rw [List.length_append]
    exact Nat.le_add_right_of_le (inv.numbered swap member)
  behind := by
    intro _ swap member
    rw [List.length_append]
    exact Nat.lt_succ_of_le (inv.numbered swap member)
  once := inv.once

theorem write (access : WriterStep) (met : s.current (.writer access))
    (stepped : s.write access = some next) : Held next := by
  have holds := inv.writer
  cases access with
  | loadSlot =>
    cases at_ : s.writer <;> simp only [TripleRun.write, at_, reduceCtorEq] at stepped
    cases stepped
    exact ⟨w, m, r, dirty, inv.setWriter _ inv.unpack.1⟩
  | write offset byte =>
    cases at_ : s.writer with
    | filling i =>
      simp only [TripleRun.write, at_] at stepped
      rw [at_] at holds
      change i = w at holds
      subst holds
      cases stepped
      have kept := inv.setSlot
        { s.tb.slots i with data := (s.tb.slots i).data.set offset byte } (.filling i) rfl
      rw [← at_] at kept
      exact ⟨i, m, r, dirty, kept⟩
    | _ => simp only [TripleRun.write, at_, reduceCtorEq] at stepped
  | giveUp =>
    cases at_ : s.writer <;> simp only [TripleRun.write, at_, reduceCtorEq] at stepped
    cases stepped
    exact ⟨w, m, r, dirty, inv.setWriter .idle trivial⟩
  | publish len =>
    cases at_ : s.writer with
    | filling i =>
      simp only [TripleRun.write, at_] at stepped
      rw [at_] at holds
      change i = w at holds
      subst holds
      split at stepped
      · cases stepped
        exact ⟨i, m, r, dirty, inv.setWriter (.publishing _ _) ⟨inv.unpack.1, rfl⟩⟩
      · cases stepped
    | _ => simp only [TripleRun.write, at_, reduceCtorEq] at stepped
  | storeLen =>
    cases at_ : s.writer <;> simp only [TripleRun.write, at_, reduceCtorEq] at stepped
    rw [at_] at holds
    rcases holds with ⟨rfl, showed⟩
    cases stepped
    exact ⟨_, m, r, dirty, inv.setSlot _ _ ⟨rfl, showed⟩⟩
  | storeState =>
    cases at_ : s.writer <;> simp only [TripleRun.write, at_, reduceCtorEq] at stepped
    rw [at_] at holds
    have unchanged := met _ (by rw [at_]; rfl)
    subst unchanged
    rcases inv.unpack with ⟨write, middle, read, _⟩
    rw [write, middle, read] at stepped
    cases stepped
    exact ⟨m, w, r, true, inv.publish _ holds.2⟩

theorem setReader (reader : Reader) (holds : readerInv s r reader) :
    Inv { s with reader := reader } w m r dirty :=
  ⟨inv.roles, inv.word, inv.writer, readerInv_congr reader rfl rfl rfl holds, inv.waiting,
    inv.numbered, inv.behind, inv.once⟩

end

theorem swap (inv : Inv s w m r true) (settled : s.returned.map some = s.swaps.map Swap.latest) :
    Inv { s.setState (packState w r m false) with
      reader := .swapped m
      swaps := s.swaps ++ [⟨s.published.length, s.published.getLast?⟩] } w r m false where
  roles := inv.roles.acquire
  word := rfl
  writer := inv.writer
  reader := by
    refine ⟨rfl, ?_⟩
    change (s.returned ++ [(s.tb.slots m).message]).map some = _
    simp only [List.map_append, List.map_cons, List.map_nil, inv.waiting rfl, settled]
  waiting := fun dirty => nomatch dirty
  numbered := by
    intro swap member
    rcases List.mem_append.mp member with earlier | now
    · exact inv.numbered swap earlier
    · rw [List.mem_singleton.mp now]
      exact le_refl s.published.length
  behind := fun dirty => nomatch dirty
  once := by
    rw [List.map_append, List.pairwise_append]
    refine ⟨inv.once, List.pairwise_singleton _ _, ?_⟩
    intro number earlier last now
    rcases List.mem_map.mp earlier with ⟨swap, member, rfl⟩
    rw [List.map_singleton, List.mem_singleton] at now
    rw [now]
    exact inv.behind rfl swap member

section

variable (inv : Inv s w m r dirty)
include inv

theorem read (access : ReaderStep) (met : s.current (.reader access))
    (stepped : s.read access = some next) : Held next := by
  have holds := inv.reader
  cases access with
  | loadState =>
    cases at_ : s.reader <;> simp only [TripleRun.read, at_, reduceCtorEq] at stepped
    rw [at_] at holds
    split at stepped
    case isTrue waits =>
      cases stepped
      exact ⟨w, m, r, dirty, inv.setReader (.acquiring _) ⟨waits, holds⟩⟩
    case isFalse =>
      cases stepped
      exact ⟨w, m, r, dirty, inv⟩
  | storeState =>
    cases at_ : s.reader with
    | acquiring old =>
      simp only [TripleRun.read, at_] at stepped
      rw [at_] at holds
      have unchanged := met old (by rw [at_]; rfl)
      subst unchanged
      rcases inv.unpack with ⟨write, middle, read, waits⟩
      rw [write, middle, read] at stepped
      cases stepped
      obtain rfl : dirty = true := waits.symm.trans holds.1
      exact ⟨w, r, m, false, inv.swap holds.2⟩
    | _ => simp only [TripleRun.read, at_, reduceCtorEq] at stepped
  | loadLen =>
    cases at_ : s.reader with
    | swapped i =>
      simp only [TripleRun.read, at_] at stepped
      rw [at_] at holds
      rcases holds with ⟨rfl, settled⟩
      cases stepped
      refine ⟨w, m, i, dirty, inv.roles, inv.word, inv.writer, ⟨rfl, settled, ?_⟩, inv.waiting,
        inv.numbered, inv.behind, inv.once⟩
      exact List.getLast?_concat
    | _ => simp only [TripleRun.read, at_, reduceCtorEq] at stepped
  | letGo =>
    cases at_ : s.reader <;> simp only [TripleRun.read, at_, reduceCtorEq] at stepped
    rw [at_] at holds
    cases stepped
    exact ⟨w, m, r, dirty, inv.setReader .idle holds.2.1⟩

theorem writer_slot {i : UInt8} (given : s.writer.slot = some i) :
    i = w := by
  have holds := inv.writer
  cases at_ : s.writer <;> rw [at_] at given holds
  case idle => cases given
  case filling =>
    cases given
    exact holds
  case publishing =>
    cases given
    exact holds.1
  case measured =>
    cases given
    exact holds.1

theorem reader_slot {j : UInt8} (given : s.reader.slot = some j) :
    j = r := by
  have holds := inv.reader
  cases at_ : s.reader <;> rw [at_] at given holds
  case idle => cases given
  case acquiring => cases given
  case swapped =>
    cases given
    exact holds.1
  case holding =>
    cases given
    exact holds.1

theorem returned_isPrefix :
    s.returned.map some <+: s.swaps.map Swap.latest := by
  have holds := inv.reader
  cases at_ : s.reader <;> rw [at_] at holds
  case idle => exact holds ▸ List.prefix_rfl
  case acquiring => exact holds.2 ▸ List.prefix_rfl
  case swapped =>
    rw [← holds.2, List.map_append]
    exact List.prefix_append _ _
  case holding => exact holds.2.1 ▸ List.prefix_rfl

theorem neverShared : NeverShared s where
  roles := by
    rcases inv.unpack with ⟨write, middle, read, _⟩
    rw [write, middle, read]
    exact inv.roles
  apart := by
    intro i j written read
    rw [inv.writer_slot written, inv.reader_slot read]
    exact inv.roles.distinct.2.1
  latest := by
    intro k message returned
    have found : (s.returned.map some)[k]? = some (some message) := by
      rw [List.getElem?_map, returned]
      rfl
    have inside := (List.getElem?_eq_some_iff.mp found).1
    rcases inv.returned_isPrefix with ⟨ahead, split⟩
    have same : (s.swaps.map Swap.latest)[k]? = some (some message) := by
      rw [← split, List.getElem?_append_left inside, found]
    rw [List.getElem?_map] at same
    exact Option.map_eq_some_iff.mp same
  once := inv.once
  intact := by
    intro message shown
    have holds := inv.reader
    cases at_ : s.reader <;> simp only [TripleRun.shown, at_, reduceCtorEq] at shown
    rw [at_] at holds
    rcases holds with ⟨rfl, _, last⟩
    rw [last]
    exact shown

end

end Inv

theorem Held.step (held : Held s) (e : TripleStep) (met : s.current e)
    (stepped : s.step e = some next) : Held next := by
  rcases held with ⟨w, m, r, dirty, inv⟩
  cases e with
  | writer access => exact inv.write access met stepped
  | reader access => exact inv.read access met stepped

theorem held_start (slots : UInt8 → SampleSlot) : Held (start slots) :=
  ⟨0, 1, 2, false, List.Perm.refl _, rfl, trivial, rfl, (fun dirty => nomatch dirty),
    fun _ member => absurd member List.not_mem_nil, (fun dirty => nomatch dirty), List.Pairwise.nil⟩

/-- In a run in which no store of the word overtakes a store of the other side, the two sides never
share a slot and every acquire has the last message published. -/
theorem triple_buffer_never_shared (slots : UInt8 → SampleSlot) (steps : List TripleStep)
    (last : TripleRun) (met : Along step current (start slots) steps)
    (reached : run step (start slots) steps = some last) : NeverShared last := by
  have held : Held last :=
    run_invariant_along (fun s e next held met stepped => Held.step held e met stepped) _ _ steps
      (held_start slots) met reached
  rcases held with ⟨w, m, r, dirty, inv⟩
  exact inv.neverShared

def emptySlots : UInt8 → SampleSlot := fun _ => ⟨[0, 0], 0⟩

/-- The accesses of a whole publication of one byte. -/
def publication (byte : UInt8) : List TripleStep :=
  [.loadSlot, .write 0 byte, .publish 1, .storeLen, .storeState].map .writer

/-- The reader swaps while the next message is being written. -/
def apart : List TripleStep :=
  publication 1 ++ [.writer .loadSlot, .reader .loadState, .writer (.write 0 2),
    .reader .storeState, .writer (.publish 1), .reader .loadLen, .writer .storeLen,
    .writer .storeState] ++ publication 3 ++ [.reader .letGo, .reader .loadState,
    .reader .storeState, .writer .loadSlot, .reader .loadLen]

theorem triple_buffer_never_shared_apart :
    Along step current (start emptySlots) apart ∧
      ∃ last, run step (start emptySlots) apart = some last ∧
        last.returned = [⟨1, [1]⟩, ⟨1, [3]⟩] ∧ NeverShared last := by
  have met : Along step current (start emptySlots) apart := by decide +kernel
  have ends : (run step (start emptySlots) apart).map (fun s => s.returned) =
      some [⟨1, [1]⟩, ⟨1, [3]⟩] := by decide +kernel
  rcases Option.map_eq_some_iff.mp ends with ⟨last, reached, returned⟩
  exact ⟨met, last, reached, returned, triple_buffer_never_shared _ apart last met reached⟩

/-- The writer publishes and goes on to the next slot between the reader's load and its store. -/
def overtaken : List TripleStep :=
  publication 1 ++ [.reader .loadState] ++ publication 2 ++
    [.writer .loadSlot, .reader .storeState, .reader .loadLen]

theorem triple_buffer_shared_slot :
    ∃ last, run step (start emptySlots) overtaken = some last ∧
      last.writer.slot = some 0 ∧ last.reader.slot = some 0 ∧ last.returned = [⟨1, [1]⟩] ∧
      last.published = [⟨1, [1]⟩, ⟨1, [2]⟩] ∧ ¬ NeverShared last := by
  have ends : (run step (start emptySlots) overtaken).map
      (fun s => (s.writer.slot, s.reader.slot, s.returned, s.published)) =
      some (some 0, some 0, [⟨1, [1]⟩], [⟨1, [1]⟩, ⟨1, [2]⟩]) := by decide +kernel
  rcases Option.map_eq_some_iff.mp ends with ⟨last, reached, shape⟩
  simp only [Prod.mk.injEq] at shape
  refine ⟨last, reached, shape.1, shape.2.1, shape.2.2.1, shape.2.2.2, ?_⟩
  intro fine
  exact fine.apart 0 0 shape.1 shape.2.1 rfl

end TripleRun

end NanoRos
