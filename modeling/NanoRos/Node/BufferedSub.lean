import Mathlib.Data.List.TakeWhile
import NanoRos.Lib.Memory
import NanoRos.Lib.Ring
import NanoRos.Lib.Runs

/-! Buffered subscriptions: samples are drained from the backend into a triple buffer or a ring,
decoded there and handed to the callback (`sub_buffered_try_process`,
`sub_buffered_typed_c_try_process`). -/

namespace NanoRos

open Memory

inductive TakeError where
  | bufferTooSmall
  | transport (code : Nat)
  | deserializationError
  deriving DecidableEq

/-- What the backend has for the subscription. -/
inductive Arrival where
  | sample (bytes : List UInt8)
  | failure (code : Nat)
  deriving DecidableEq

/-- One slot of a buffer, with the length written beside it. -/
structure SampleSlot where
  data : List UInt8
  len : Nat

def SampleSlot.sample (slot : SampleSlot) : List UInt8 := slot.data.take slot.len

/-- The length that goes with a slot, and the bytes of that length it shows. -/
structure SlotMessage where
  len : Nat
  bytes : List UInt8
  deriving DecidableEq

def SampleSlot.shows (slot : SampleSlot) (len : Nat) : SlotMessage := ⟨len, slot.data.take len⟩

def SampleSlot.message (slot : SampleSlot) : SlotMessage := slot.shows slot.len

/-- `take_serialized`: a sample that does not fit the slot is refused and gone. -/
def takeSerialized (slot : List UInt8) (inbox : List Arrival) :
    Except TakeError (Option Nat) × List UInt8 × List Arrival :=
  match inbox with
  | [] => (.ok none, slot, [])
  | .failure code :: rest => (.error (.transport code), slot, rest)
  | .sample bytes :: rest =>
    if bytes.length ≤ slot.length then
      (.ok (some bytes.length), overwrite slot 0 bytes, rest)
    else (.error .bufferTooSmall, slot, rest)

abbrev SpscRing : Type := Ring SampleSlot

namespace SpscRing

def init (slotSize depth : Nat) : SpscRing where
  cells := List.replicate (depth + 1) ⟨List.replicate slotSize 0, 0⟩
  head := 0
  tail := 0
  headInside := by simp
  tailInside := by simp

/-- The slot to write into; `none` when the head has caught up with the tail. -/
def tryPush (ring : SpscRing) : Option (List UInt8) :=
  if ring.full then none else some ring.headCell.data

/-- The backend wrote into the slot `tryPush` gave out. -/
def writeSlot (ring : SpscRing) (data : List UInt8) : SpscRing :=
  ring.modifyHead fun slot => { slot with data := data }

def commitPush (ring : SpscRing) (len : Nat) : SpscRing :=
  (ring.modifyHead fun slot => { slot with len := len }).commit

def tryPop (ring : SpscRing) : Option (List UInt8) :=
  if ring.isEmpty then none else some ring.front.sample

def commitPop (ring : SpscRing) : SpscRing := ring.release

end SpscRing

def dirtyBit : UInt8 := (1 : UInt8) <<< 6

def packState (write middle read : UInt8) (dirty : Bool) : UInt8 :=
  write ||| (middle <<< 2) ||| (read <<< 4) ||| (if dirty then dirtyBit else 0)

def unpackWrite (state : UInt8) : UInt8 := state &&& 0x03

def unpackMiddle (state : UInt8) : UInt8 := (state >>> 2) &&& 0x03

def unpackRead (state : UInt8) : UInt8 := (state >>> 4) &&& 0x03

def isDirty (state : UInt8) : Bool := state &&& dirtyBit != 0

/-- Three slots, their roles packed into one byte. -/
structure TripleBuffer where
  slots : UInt8 → SampleSlot
  state : UInt8

namespace TripleBuffer

def init (slotSize : Nat) : TripleBuffer where
  slots := fun _ => ⟨List.replicate slotSize 0, 0⟩
  state := packState 0 1 2 false

def writeSlot (tb : TripleBuffer) : List UInt8 := (tb.slots (unpackWrite tb.state)).data

/-- The backend wrote into the slot `writeSlot` gave out. -/
def fillSlot (tb : TripleBuffer) (data : List UInt8) : TripleBuffer :=
  let w := unpackWrite tb.state
  { tb with slots := Function.update tb.slots w { tb.slots w with data := data } }

def writerPublish (tb : TripleBuffer) (len : Nat) : TripleBuffer :=
  let w := unpackWrite tb.state
  { slots := Function.update tb.slots w { tb.slots w with len := len }
    state := packState (unpackMiddle tb.state) w (unpackRead tb.state) true }

def readerAcquire (tb : TripleBuffer) : Option (List UInt8) × TripleBuffer :=
  if !isDirty tb.state then (none, tb)
  else
    let m := unpackMiddle tb.state
    (some (tb.slots m).sample,
      { tb with state := packState (unpackWrite tb.state) (unpackRead tb.state) m false })

end TripleBuffer

inductive BufferStrategy where
  | triple (tb : TripleBuffer)
  | ring (ring : SpscRing)

/-- The loop of the ring's drain; the last list is what it committed. It pushes or ends, so it
turns at most once for every slot. -/
def drainRing : Nat → SpscRing → List Arrival → List (List UInt8) →
    Except TakeError Unit × SpscRing × List Arrival × List (List UInt8)
  | 0, ring, inbox, taken => (.ok (), ring, inbox, taken)
  | n + 1, ring, inbox, taken =>
    match ring.tryPush with
    | none => (.ok (), ring, inbox, taken)
    | some slot =>
      match takeSerialized slot inbox with
      | (.error e, data, inbox) => (.error e, ring.writeSlot data, inbox, taken)
      | (.ok none, data, inbox) => (.ok (), ring.writeSlot data, inbox, taken)
      | (.ok (some len), data, inbox) =>
        drainRing n ((ring.writeSlot data).commitPush len) inbox (taken ++ [data.take len])

def drainTriple (tb : TripleBuffer) (inbox : List Arrival) :
    Except TakeError Unit × TripleBuffer × List Arrival × List (List UInt8) :=
  match takeSerialized tb.writeSlot inbox with
  | (.error e, data, inbox) => (.error e, tb.fillSlot data, inbox, [])
  | (.ok none, data, inbox) => (.ok (), tb.fillSlot data, inbox, [])
  | (.ok (some len), data, inbox) =>
    (.ok (), (tb.fillSlot data).writerPublish len, inbox, [data.take len])

/-- `drain_into_buffer` and its typed C copy. -/
def drainIntoBuffer (buffer : BufferStrategy) (inbox : List Arrival) :
    Except TakeError Unit × BufferStrategy × List Arrival × List (List UInt8) :=
  match buffer with
  | .triple tb =>
    match drainTriple tb inbox with
    | (result, tb, inbox, taken) => (result, .triple tb, inbox, taken)
  | .ring ring =>
    match drainRing ring.capacity ring inbox [] with
    | (result, ring, inbox, taken) => (result, .ring ring, inbox, taken)

section Dispatch

variable {μ : Type} (decode : List UInt8 → Option μ)

def dispatchTriple (tb : TripleBuffer) :
    Except TakeError Bool × List μ × TripleBuffer :=
  match tb.readerAcquire with
  | (none, tb) => (.ok false, [], tb)
  | (some bytes, tb) =>
    match decode bytes with
    | none => (.error .deserializationError, [], tb)
    | some msg => (.ok true, [msg], tb)

/-- The ring's dispatch loop; `refuse` is what becomes of the ring when a sample does not
decode. -/
def dispatchRingLoop (refuse : SpscRing → SpscRing) : Nat → SpscRing → Bool → List μ →
    Except TakeError Bool × List μ × SpscRing
  | 0, ring, didWork, handed => (.ok didWork, handed, ring)
  | n + 1, ring, didWork, handed =>
    match ring.tryPop with
    | none => (.ok didWork, handed, ring)
    | some bytes =>
      match decode bytes with
      | none => (.error .deserializationError, handed, refuse ring)
      | some msg => dispatchRingLoop refuse n ring.commitPop true (handed ++ [msg])

/-- The typed Rust copy: a sample that does not decode leaves by `?`, before `commit_pop`. -/
def dispatchRing (ring : SpscRing) : Except TakeError Bool × List μ × SpscRing :=
  dispatchRingLoop decode (fun ring => ring) ring.capacity ring false []

/-- The typed C copy releases the slot whatever the decoder said. -/
def dispatchRingTypedC (ring : SpscRing) : Except TakeError Bool × List μ × SpscRing :=
  dispatchRingLoop decode SpscRing.commitPop ring.capacity ring false []

inductive EntryKind where
  | typedRust
  | typedC
  deriving DecidableEq

def dispatchFromBuffer (kind : EntryKind) (buffer : BufferStrategy) :
    Except TakeError Bool × List μ × BufferStrategy :=
  match buffer with
  | .triple tb =>
    match dispatchTriple decode tb with
    | (result, handed, tb) => (result, handed, .triple tb)
  | .ring ring =>
    match (match kind with
      | .typedRust => dispatchRing decode ring
      | .typedC => dispatchRingTypedC decode ring) with
    | (result, handed, ring) => (result, handed, .ring ring)

end Dispatch

structure BufferedSub where
  inbox : List Arrival
  buffer : BufferStrategy

/-- What a pass returned, took into the buffer and handed to the callback; `drained` tells that
it came to the dispatch. -/
structure Pass (μ : Type) where
  drained : Bool
  result : Except TakeError Bool
  taken : List (List UInt8)
  handed : List μ

/-- `sub_buffered_try_process` and `sub_buffered_typed_c_try_process`. -/
def subBufferedTryProcess {μ : Type} (kind : EntryKind) (decode : List UInt8 → Option μ)
    (entry : BufferedSub) : Pass μ × BufferedSub :=
  match drainIntoBuffer entry.buffer entry.inbox with
  | (.error e, buffer, inbox, taken) => (⟨false, .error e, taken, []⟩, ⟨inbox, buffer⟩)
  | (.ok _, buffer, inbox, taken) =>
    match dispatchFromBuffer decode kind buffer with
    | (result, handed, buffer) => (⟨true, result, taken, handed⟩, ⟨inbox, buffer⟩)

/-- The samples a ring holds, oldest first. -/
def SpscRing.samples (ring : SpscRing) : List (List UInt8) := ring.contents.map SampleSlot.sample

def SpscRing.Sized (ring : SpscRing) (slotSize : Nat) : Prop :=
  ∀ slot ∈ ring.cells, slot.data.length = slotSize

def Arrival.fits (slotSize : Nat) : Arrival → Bool
  | .sample bytes => bytes.length ≤ slotSize
  | .failure _ => false

def Arrival.bytes : Arrival → List UInt8
  | .sample bytes => bytes
  | .failure _ => []

theorem Arrival.length_bytes_le (slotSize : Nat) (arrival : Arrival)
    (fits : arrival.fits slotSize = true) : arrival.bytes.length ≤ slotSize := by
  cases arrival with
  | failure code => cases fits
  | sample bytes => simpa [Arrival.fits, Arrival.bytes] using fits

theorem takeSerialized_fits (slot : List UInt8) (arrival : Arrival) (rest : List Arrival)
    (fits : arrival.fits slot.length = true) :
    takeSerialized slot (arrival :: rest) =
      (.ok (some arrival.bytes.length), overwrite slot 0 arrival.bytes, rest) := by
  cases arrival with
  | failure code => cases fits
  | sample bytes => exact if_pos (by simpa [Arrival.fits] using fits)

theorem takeSerialized_refuses (slot : List UInt8) (arrival : Arrival) (rest : List Arrival)
    (refused : arrival.fits slot.length = false) :
    ∃ e, takeSerialized slot (arrival :: rest) = (.error e, slot, rest) := by
  cases arrival with
  | failure code => exact ⟨_, rfl⟩
  | sample bytes => exact ⟨_, if_neg (by simpa [Arrival.fits] using refused)⟩

theorem take_overwrite_slot (slot bytes : List UInt8) :
    (overwrite slot 0 bytes).take bytes.length = bytes := by
  have written := take_overwrite slot 0 bytes (Nat.zero_le _)
  simpa using written

namespace SpscRing

variable {ring : SpscRing} {slotSize : Nat}

theorem sized_modifyHead (sized : Sized ring slotSize) (f : SampleSlot → SampleSlot)
    (same : ∀ slot, slot.data.length = slotSize → (f slot).data.length = slotSize) :
    Sized (ring.modifyHead f) slotSize := by
  intro slot member
  rcases List.getElem_of_mem member with ⟨i, inside, rfl⟩
  simp only [Ring.modifyHead, List.getElem_modify]
  have before : i < ring.cells.length := by simpa [Ring.modifyHead] using inside
  split
  · exact same _ (sized _ (List.getElem_mem before))
  · exact sized _ (List.getElem_mem before)

theorem push_samples (sized : Sized ring slotSize) (room : ring.full = false)
    (bytes : List UInt8) (fits : bytes.length ≤ slotSize) :
    samples ((writeSlot ring (overwrite ring.headCell.data 0 bytes)).commitPush bytes.length) =
        samples ring ++ [bytes] ∧
      Sized ((writeSlot ring (overwrite ring.headCell.data 0 bytes)).commitPush bytes.length)
        slotSize ∧
      ((writeSlot ring (overwrite ring.headCell.data 0 bytes)).commitPush
        bytes.length).capacity = ring.capacity := by
  have slot : ring.headCell.data.length = slotSize := sized _ (List.get_mem _ _)
  have length : (overwrite ring.headCell.data 0 bytes).length = slotSize := by
    rw [length_overwrite _ _ _ (by omega), slot]
  refine ⟨?_, ?_, ?_⟩
  · have notFull : ((writeSlot ring (overwrite ring.headCell.data 0 bytes)).modifyHead
        fun slot => { slot with len := bytes.length }).full = false := by
      simpa [Ring.full, writeSlot, Ring.modifyHead, Ring.capacity] using room
    rw [samples, commitPush, Ring.contents_commit _ notFull, Ring.contents_modifyHead, writeSlot,
      Ring.contents_modifyHead, Ring.headCell_modifyHead, Ring.headCell_modifyHead, List.map_append,
      List.map_singleton, SampleSlot.sample, take_overwrite_slot]
    rfl
  · exact sized_modifyHead (sized_modifyHead sized _ fun _ _ => length) _ fun _ same => same
  · rw [commitPush, Ring.capacity_commit, Ring.capacity_modifyHead, writeSlot,
      Ring.capacity_modifyHead]

theorem writeSlot_spec (sized : Sized ring slotSize) (data : List UInt8)
    (length : data.length = slotSize) :
    samples (writeSlot ring data) = samples ring ∧ Sized (writeSlot ring data) slotSize ∧
      (writeSlot ring data).capacity = ring.capacity := by
  refine ⟨?_, sized_modifyHead sized _ fun _ _ => length, Ring.capacity_modifyHead _ _⟩
  rw [samples, writeSlot, Ring.contents_modifyHead]
  rfl

theorem tryPop_cases (ring : SpscRing) : (samples ring = [] ∧ tryPop ring = none) ∨
    ∃ bytes, tryPop ring = some bytes ∧ samples ring = bytes :: samples (commitPop ring) := by
  cases empty : ring.isEmpty with
  | true =>
    refine .inl ⟨?_, ?_⟩
    · rw [samples, (ring.isEmpty_iff).mp empty, List.map_nil]
    · simp only [tryPop, empty, if_true]
  | false =>
    refine .inr ⟨ring.front.sample, ?_, ?_⟩
    · simp only [tryPop, empty, Bool.false_eq_true, if_false]
    · rw [samples, ring.contents_release empty]
      rfl

theorem length_samples (ring : SpscRing) : (samples ring).length = ring.count := by
  rw [samples, List.length_map, Ring.length_contents]

end SpscRing

theorem drainRing_spec (n slotSize : Nat) (ring : SpscRing) (inbox : List Arrival)
    (taken : List (List UInt8)) (sized : ring.Sized slotSize)
    (turns : ring.capacity ≤ n + ring.count) :
    ∃ result ring' inbox' admitted,
      drainRing n ring inbox taken = (result, ring', inbox', taken ++ admitted) ∧
      ring'.samples = ring.samples ++ admitted ∧ ring'.Sized slotSize ∧
      ring'.capacity = ring.capacity ∧ ((∃ e, result = .error e) ∧
          (inbox.take (ring.capacity - 1 - ring.count)).all (Arrival.fits slotSize) = false ∨
        result = .ok () ∧
          (inbox.take (ring.capacity - 1 - ring.count)).all (Arrival.fits slotSize) = true ∧
          admitted = (inbox.take (ring.capacity - 1 - ring.count)).map Arrival.bytes) := by
  induction n generalizing ring inbox taken with
  | zero =>
    have bound := ring.count_lt
    omega
  | succ n ih =>
    have bound := ring.count_lt
    have slot : ring.headCell.data.length = slotSize := sized _ (List.get_mem _ _)
    have offered : ring.full = false → ring.tryPush = some ring.headCell.data := by
      intro notFull
      simp only [SpscRing.tryPush, notFull, Bool.false_eq_true, if_false]
    cases full : ring.full with
    | true =>
      have none : ring.capacity - 1 - ring.count = 0 := by
        have last := ring.full_iff.mp full
        omega
      refine ⟨.ok (), ring, inbox, [], ?_, by simp, sized, rfl, .inr ⟨rfl, ?_, ?_⟩⟩
      · simp only [drainRing, SpscRing.tryPush, full, if_true, List.append_nil]
      · rw [none, List.take_zero, List.all_nil]
      · rw [none, List.take_zero, List.map_nil]
    | false =>
      have room : ring.capacity - 1 - ring.count = ring.capacity - 2 - ring.count + 1 := by
        have notFull : ¬ ring.count + 1 = ring.capacity := by
          rw [← ring.full_iff, full]
          decide
        omega
      rcases SpscRing.writeSlot_spec sized ring.headCell.data slot with
        ⟨sameSamples, sameSize, sameCapacity⟩
      rcases inbox with _ | ⟨arrival, rest⟩
      · refine ⟨.ok (), ring.writeSlot ring.headCell.data, [], [], ?_, ?_, sameSize,
          sameCapacity, .inr ⟨rfl, by simp, by simp⟩⟩
        · simp only [drainRing, offered full, takeSerialized, List.append_nil]
        · rw [sameSamples, List.append_nil]
      cases fits : arrival.fits slotSize with
      | false =>
        rcases takeSerialized_refuses ring.headCell.data arrival rest
          (by rw [slot]; exact fits) with ⟨e, refused⟩
        refine ⟨.error e, ring.writeSlot ring.headCell.data, rest, [], ?_, ?_, sameSize,
          sameCapacity, .inl ⟨⟨e, rfl⟩, ?_⟩⟩
        · simp only [drainRing, offered full, refused, List.append_nil]
        · rw [sameSamples, List.append_nil]
        · rw [room, List.take_succ_cons, List.all_cons, fits, Bool.false_and]
      | true =>
        have accepted := takeSerialized_fits ring.headCell.data arrival rest
          (by rw [slot]; exact fits)
        rcases SpscRing.push_samples sized full arrival.bytes
          (arrival.length_bytes_le slotSize fits) with ⟨appended, sized', capacity'⟩
        have counted := congrArg List.length appended
        rw [SpscRing.length_samples, List.length_append, SpscRing.length_samples] at counted
        rcases ih _ rest (taken ++ [arrival.bytes]) sized'
          (by rw [capacity', counted]; simp only [List.length_singleton]; omega) with
          ⟨result, ring', inbox', admitted, looped, grown, sized'', capacity'', outcome⟩
        refine ⟨result, ring', inbox', arrival.bytes :: admitted, ?_, ?_, sized'',
          capacity''.trans capacity', ?_⟩
        · simp only [drainRing, offered full, accepted, take_overwrite_slot]
          rw [looped, List.append_assoc, List.singleton_append]
        · rw [grown, appended, List.append_assoc, List.singleton_append]
        · have left : ring.capacity - 1 - (ring.count + 1) =
              ring.capacity - 2 - ring.count := by omega
          rw [capacity', counted, List.length_singleton, left] at outcome
          rw [room, List.take_succ_cons, List.all_cons, fits, Bool.true_and, List.map_cons]
          rcases outcome with failed | ⟨done, all, same⟩
          · exact .inl failed
          · exact .inr ⟨done, all, by rw [same]⟩

section Law

variable {μ : Type} (decode : List UInt8 → Option μ)

def decodes (bytes : List UInt8) : Bool := (decode bytes).isSome

/-- One verdict for a pass over `waiting`: an error as soon as a sample does not decode. -/
def verdictOn (waiting : List (List UInt8)) : Except TakeError Bool :=
  if waiting.all (decodes decode) then .ok (!waiting.isEmpty) else .error .deserializationError

/-- The well-formed samples in front of the first malformed one. -/
def handedOf (waiting : List (List UInt8)) : List μ :=
  (waiting.takeWhile (decodes decode)).filterMap decode

/-- What a pass is to leave: the first malformed sample ends it and is gone. -/
def leftOf (waiting : List (List UInt8)) : List (List UInt8) :=
  (waiting.dropWhile (decodes decode)).tail

variable {decode}

theorem dispatchRingLoop_spec (refuse : SpscRing → SpscRing) (n slotSize : Nat) (ring : SpscRing)
    (didWork : Bool) (handed : List μ) (sized : ring.Sized slotSize)
    (turns : ring.samples.length < n) :
    ∃ stopped : SpscRing, dispatchRingLoop decode refuse n ring didWork handed =
        (if ring.samples.all (decodes decode) then .ok (didWork || !ring.samples.isEmpty)
            else .error .deserializationError,
          handed ++ handedOf decode ring.samples,
          if ring.samples.all (decodes decode) then stopped else refuse stopped) ∧
      stopped.samples = ring.samples.dropWhile (decodes decode) ∧ stopped.Sized slotSize ∧
      stopped.capacity = ring.capacity := by
  induction n generalizing ring didWork handed with
  | zero => cases turns
  | succ n ih =>
    rcases SpscRing.tryPop_cases ring with ⟨empty, nothing⟩ | ⟨bytes, popped, held⟩
    · refine ⟨ring, ?_, ?_, sized, rfl⟩
      · simp only [dispatchRingLoop, nothing, empty, handedOf, List.takeWhile_nil,
          List.filterMap_nil, List.append_nil, List.all_nil, if_true, List.isEmpty_nil,
          Bool.not_true, Bool.or_false]
      · simp only [empty, List.dropWhile_nil]
    · cases decoded : decode bytes with
      | none =>
        have bad : decodes decode bytes = false := by simp [decodes, decoded]
        refine ⟨ring, ?_, ?_, sized, rfl⟩
        · simp only [dispatchRingLoop, popped, decoded, held, handedOf, List.takeWhile_cons,
            bad, Bool.false_eq_true, if_false, List.filterMap_nil, List.append_nil,
            List.all_cons, Bool.false_and]
        · simp only [held, List.dropWhile_cons, bad, Bool.false_eq_true, if_false]
      | some msg =>
        have good : decodes decode bytes = true := by simp [decodes, decoded]
        have fewer : ring.commitPop.samples.length < n := by
          rw [held, List.length_cons] at turns
          omega
        rcases ih ring.commitPop true (handed ++ [msg]) sized fewer with
          ⟨stopped, looped, left, sized', capacity'⟩
        refine ⟨stopped, ?_, ?_, sized', capacity'⟩
        · simp only [dispatchRingLoop, popped, decoded, looped, held, handedOf,
            List.takeWhile_cons, good, if_true, List.filterMap_cons, List.append_assoc,
            List.singleton_append, List.all_cons, Bool.true_and, Bool.true_or,
            List.isEmpty_cons, Bool.not_false, Bool.or_true]
        · simp only [left, held, List.dropWhile_cons, good, if_true]

theorem samples_lt_capacity (ring : SpscRing) : ring.samples.length < ring.capacity := by
  rw [SpscRing.length_samples]
  exact ring.count_lt

theorem dropWhile_eq_nil_iff_all {waiting : List (List UInt8)} :
    waiting.dropWhile (decodes decode) = [] ↔ waiting.all (decodes decode) = true := by
  rw [List.dropWhile_eq_nil_iff, List.all_eq_true]

theorem dispatchRingTypedC_spec (slotSize : Nat) (ring : SpscRing) (sized : ring.Sized slotSize) :
    ∃ ring' : SpscRing, dispatchRingTypedC decode ring =
        (verdictOn decode ring.samples, handedOf decode ring.samples, ring') ∧
      ring'.samples = leftOf decode ring.samples ∧ ring'.Sized slotSize ∧
      ring'.capacity = ring.capacity := by
  rcases dispatchRingLoop_spec SpscRing.commitPop ring.capacity slotSize ring false [] sized
    (samples_lt_capacity ring) with ⟨stopped, looped, left, sized', capacity'⟩
  rw [dispatchRingTypedC, looped]
  refine ⟨_, rfl, ?_, ?_, ?_⟩
  · rw [leftOf, ← left]
    split
    case isTrue all => rw [left, dropWhile_eq_nil_iff_all.mpr all, List.tail_nil]
    case isFalse refused =>
      rcases SpscRing.tryPop_cases stopped with ⟨empty, _⟩ | ⟨bytes, _, held⟩
      · rw [left, dropWhile_eq_nil_iff_all] at empty
        exact absurd empty refused
      · rw [held, List.tail_cons]
  · split
    · exact sized'
    · exact sized'
  · split
    · exact capacity'
    · exact capacity'

theorem dispatchRing_spec (slotSize : Nat) (ring : SpscRing) (sized : ring.Sized slotSize) :
    ∃ ring' : SpscRing, dispatchRing decode ring =
        (verdictOn decode ring.samples, handedOf decode ring.samples, ring') ∧
      ring'.samples = ring.samples.dropWhile (decodes decode) ∧ ring'.Sized slotSize ∧
      ring'.capacity = ring.capacity := by
  rcases dispatchRingLoop_spec (fun ring => ring) ring.capacity slotSize ring false [] sized
    (samples_lt_capacity ring) with ⟨stopped, looped, left, sized', capacity'⟩
  refine ⟨stopped, ?_, left, sized', capacity'⟩
  rw [dispatchRing, looped, ite_self]
  rfl

end Law

section Roles

variable (w m r : Fin 3) (dirty : Bool)

theorem unpack_packState :
    unpackWrite (packState w.val.toUInt8 m.val.toUInt8 r.val.toUInt8 dirty) = w.val.toUInt8 ∧
      unpackMiddle (packState w.val.toUInt8 m.val.toUInt8 r.val.toUInt8 dirty) = m.val.toUInt8 ∧
      unpackRead (packState w.val.toUInt8 m.val.toUInt8 r.val.toUInt8 dirty) = r.val.toUInt8 ∧
      isDirty (packState w.val.toUInt8 m.val.toUInt8 r.val.toUInt8 dirty) = dirty := by
  revert w m r dirty
  decide

end Roles

namespace TripleBuffer

/-- Between passes: roles are slots, every slot has its size, nothing is waiting. -/
structure Clean (tb : TripleBuffer) (slotSize : Nat) : Prop where
  sized : ∀ i, (tb.slots i).data.length = slotSize
  roles : ∃ w m r : Fin 3, tb.state = packState w.val.toUInt8 m.val.toUInt8 r.val.toUInt8 false

variable {tb : TripleBuffer} {slotSize : Nat}

theorem clean_fillSlot (clean : tb.Clean slotSize) (data : List UInt8)
    (length : data.length = slotSize) : (tb.fillSlot data).Clean slotSize := by
  refine ⟨?_, clean.roles⟩
  intro i
  simp only [fillSlot, Function.update_apply]
  split
  · exact length
  · exact clean.sized i

theorem readerAcquire_clean (clean : tb.Clean slotSize) : tb.readerAcquire = (none, tb) := by
  rcases clean.roles with ⟨w, m, r, packed⟩
  have notDirty : isDirty tb.state = false := by
    rw [packed]
    exact (unpack_packState w m r false).2.2.2
  simp only [readerAcquire, notDirty, Bool.not_false, if_true]

theorem readerAcquire_published (clean : tb.Clean slotSize) (data : List UInt8)
    (length : data.length = slotSize) (len : Nat) :
    ∃ tb', ((tb.fillSlot data).writerPublish len).readerAcquire = (some (data.take len), tb') ∧
      tb'.Clean slotSize := by
  rcases clean.roles with ⟨w, m, r, packed⟩
  rcases unpack_packState w m r false with ⟨write, middle, read, _⟩
  rcases unpack_packState m w r true with ⟨write', middle', read', dirty'⟩
  have filled : (tb.fillSlot data).state = tb.state := rfl
  refine ⟨{ slots := ((tb.fillSlot data).writerPublish len).slots
            state := packState m.val.toUInt8 r.val.toUInt8 w.val.toUInt8 false }, ?_, ?_, ?_⟩
  · simp only [readerAcquire, writerPublish, filled, packed, write, middle, read, write', middle',
      read', dirty', Bool.not_true, Bool.false_eq_true, if_false]
    simp only [fillSlot, packed, write, Function.update_self, SampleSlot.sample]
  · intro i
    have kept := (clean_fillSlot clean data length).sized
    simp only [writerPublish, Function.update_apply]
    split
    · exact kept _
    · exact kept i
  · exact ⟨m, r, w, rfl⟩

end TripleBuffer

def BufferStrategy.samples : BufferStrategy → List (List UInt8)
  | .triple tb => if isDirty tb.state then [(tb.slots (unpackMiddle tb.state)).sample] else []
  | .ring spsc => spsc.samples

def BufferStrategy.room : BufferStrategy → Nat
  | .triple _ => 1
  | .ring spsc => spsc.capacity - 1 - spsc.count

def BufferStrategy.Ready (slotSize : Nat) : BufferStrategy → Prop
  | .triple tb => tb.Clean slotSize
  | .ring spsc => spsc.Sized slotSize

def BufferStrategy.isRing : BufferStrategy → Bool
  | .triple _ => false
  | .ring _ => true

theorem samples_clean {tb : TripleBuffer} {slotSize : Nat} (clean : tb.Clean slotSize) :
    (BufferStrategy.triple tb).samples = [] := by
  rcases clean.roles with ⟨w, m, r, packed⟩
  rw [BufferStrategy.samples, packed, (unpack_packState w m r false).2.2.2]
  rfl

section Pass

variable {μ : Type} (decode : List UInt8 → Option μ) (slotSize : Nat)

/-- The one copy that does not release the slot of a malformed sample. -/
def keepsMalformed (kind : EntryKind) (buffer : BufferStrategy) : Bool :=
  decide (kind = .typedRust) && buffer.isRing

/-- What a pass does, in terms of the queue: it stops at a failed take with everything it took
still queued, or it dispatches the queue. -/
structure Passes (kind : EntryKind) (entry next : BufferedSub) (pass : Pass μ) : Prop where
  ready : next.buffer.Ready slotSize
  same : next.buffer.isRing = entry.buffer.isRing
  stopped : pass.drained = false →
    (entry.inbox.take entry.buffer.room).all (Arrival.fits slotSize) = false ∧
      pass.handed = [] ∧ next.buffer.samples = entry.buffer.samples ++ pass.taken
  dispatched : pass.drained = true →
    (entry.inbox.take entry.buffer.room).all (Arrival.fits slotSize) = true ∧
      pass.taken = (entry.inbox.take entry.buffer.room).map Arrival.bytes ∧
      pass.result = verdictOn decode (entry.buffer.samples ++ pass.taken) ∧
      pass.handed = handedOf decode (entry.buffer.samples ++ pass.taken) ∧
      next.buffer.samples = if keepsMalformed kind entry.buffer then
          (entry.buffer.samples ++ pass.taken).dropWhile (decodes decode)
        else leftOf decode (entry.buffer.samples ++ pass.taken)

variable {decode slotSize}

variable (kind : EntryKind)

theorem ring_passes (ring : SpscRing) (inbox : List Arrival) (sized : ring.Sized slotSize) :
    Passes decode slotSize kind ⟨inbox, .ring ring⟩
      (subBufferedTryProcess kind decode ⟨inbox, .ring ring⟩).2
      (subBufferedTryProcess kind decode ⟨inbox, .ring ring⟩).1 := by
  rcases drainRing_spec ring.capacity slotSize ring inbox [] sized (Nat.le_add_right _ _) with
    ⟨result, filled, rest, admitted, drained, grown, sized', _,
      ⟨⟨e, rfl⟩, refused⟩ | ⟨rfl, all, same⟩⟩
  · simp only [subBufferedTryProcess, drainIntoBuffer, drained]
    exact ⟨sized', rfl, fun _ => ⟨refused, rfl, grown⟩, by simp⟩
  · cases kind with
    | typedRust =>
      rcases @dispatchRing_spec μ decode slotSize filled sized' with
        ⟨left, dispatched, remaining, sized'', _⟩
      simp only [subBufferedTryProcess, drainIntoBuffer, drained, dispatchFromBuffer, dispatched]
      rw [grown] at remaining ⊢
      exact ⟨sized'', rfl, by simp,
        fun _ => ⟨all, same, rfl, rfl, remaining⟩⟩
    | typedC =>
      rcases @dispatchRingTypedC_spec μ decode slotSize filled sized' with
        ⟨left, dispatched, remaining, sized'', _⟩
      simp only [subBufferedTryProcess, drainIntoBuffer, drained, dispatchFromBuffer, dispatched]
      rw [grown] at remaining ⊢
      exact ⟨sized'', rfl, by simp,
        fun _ => ⟨all, same, rfl, rfl, remaining⟩⟩

theorem dispatchTriple_clean {tb : TripleBuffer} (clean : tb.Clean slotSize) :
    dispatchTriple decode tb = (.ok false, [], tb) := by
  simp only [dispatchTriple, tb.readerAcquire_clean clean]

theorem dispatchTriple_published {tb tb' : TripleBuffer} {bytes : List UInt8}
    (acquired : tb.readerAcquire = (some bytes, tb')) :
    dispatchTriple decode tb = (verdictOn decode [bytes], handedOf decode [bytes], tb') ∧
      leftOf decode [bytes] = [] := by
  cases decoded : decode bytes with
  | none =>
    have bad : decodes decode bytes = false := by simp [decodes, decoded]
    simp [dispatchTriple, acquired, decoded, verdictOn, handedOf, leftOf, bad]
  | some msg =>
    have good : decodes decode bytes = true := by simp [decodes, decoded]
    simp [dispatchTriple, acquired, decoded, verdictOn, handedOf, leftOf, good]

theorem triple_passes (tb : TripleBuffer) (inbox : List Arrival) (clean : tb.Clean slotSize) :
    Passes decode slotSize kind ⟨inbox, .triple tb⟩
      (subBufferedTryProcess kind decode ⟨inbox, .triple tb⟩).2
      (subBufferedTryProcess kind decode ⟨inbox, .triple tb⟩).1 := by
  have slot : tb.writeSlot.length = slotSize := clean.sized _
  have kept := tb.clean_fillSlot clean tb.writeSlot slot
  have empty := samples_clean clean
  have notRing : keepsMalformed kind (.triple tb) = false := by simp [keepsMalformed,
    BufferStrategy.isRing]
  rcases inbox with _ | ⟨arrival, rest⟩
  · simp only [subBufferedTryProcess, drainIntoBuffer, drainTriple, takeSerialized,
      dispatchFromBuffer, dispatchTriple_clean kept]
    refine ⟨kept, rfl, by simp, fun _ => ⟨by simp, by simp, ?_, ?_, ?_⟩⟩
    · simp [empty, verdictOn]
    · simp [empty, handedOf]
    · simp [empty, samples_clean kept, leftOf, notRing]
  cases fits : arrival.fits slotSize with
  | false =>
    rcases takeSerialized_refuses tb.writeSlot arrival rest (by rw [slot]; exact fits) with
      ⟨e, refused⟩
    simp only [subBufferedTryProcess, drainIntoBuffer, drainTriple, refused]
    refine ⟨kept, rfl, fun _ => ⟨?_, rfl, ?_⟩, by simp⟩
    · simp [BufferStrategy.room, fits]
    · simp [empty, samples_clean kept]
  | true =>
    have accepted := takeSerialized_fits tb.writeSlot arrival rest (by rw [slot]; exact fits)
    have length : (overwrite tb.writeSlot 0 arrival.bytes).length = slotSize := by
      have small := arrival.length_bytes_le slotSize fits
      rw [length_overwrite _ _ _ (by omega), slot]
    rcases tb.readerAcquire_published clean _ length arrival.bytes.length with
      ⟨tb', acquired, clean'⟩
    rw [take_overwrite_slot] at acquired
    rcases @dispatchTriple_published μ decode _ _ _ acquired with ⟨dispatched, gone⟩
    simp only [subBufferedTryProcess, drainIntoBuffer, drainTriple, accepted, dispatchFromBuffer,
      dispatched, take_overwrite_slot]
    refine ⟨clean', rfl, by simp, fun _ => ⟨?_, ?_, ?_, ?_, ?_⟩⟩
    · simp [BufferStrategy.room, fits]
    · simp [BufferStrategy.room]
    · simp [empty]
    · simp [empty]
    · simp [empty, samples_clean clean', notRing, gone]

theorem tryProcess_passes (entry : BufferedSub) (ready : entry.buffer.Ready slotSize) :
    Passes decode slotSize kind entry (subBufferedTryProcess kind decode entry).2
      (subBufferedTryProcess kind decode entry).1 := by
  rcases entry with ⟨inbox, tb | ring⟩
  · exact triple_passes kind tb inbox ready
  · exact ring_passes kind ring inbox ready

end Pass

/-- A pass with the queue it found after its drain and the queue it left. -/
structure PassRecord (μ : Type) where
  pass : Pass μ
  waiting : List (List UInt8)
  left : List (List UInt8)

structure SubRun (μ : Type) where
  entry : BufferedSub
  /-- Every sample taken into the buffer. -/
  taken : List (List UInt8)
  passes : List (PassRecord μ)

inductive SubEvent where
  | deliver (arrival : Arrival)
  | tryProcess

/-- A triple buffer, or a ring of a depth. -/
def newBuffer (slotSize : Nat) : Option Nat → BufferStrategy
  | none => .triple (TripleBuffer.init slotSize)
  | some depth => .ring (SpscRing.init slotSize depth)

namespace SubRun

variable {μ : Type} (kind : EntryKind) (decode : List UInt8 → Option μ) (slotSize : Nat)

def init (depth : Option Nat) : SubRun μ := ⟨⟨[], newBuffer slotSize depth⟩, [], []⟩

def step (s : SubRun μ) : SubEvent → Option (SubRun μ)
  | .deliver arrival =>
    some { s with entry := { s.entry with inbox := s.entry.inbox ++ [arrival] } }
  | .tryProcess =>
    match subBufferedTryProcess kind decode s.entry with
    | (pass, entry) => some
        { entry := entry
          taken := s.taken ++ pass.taken
          passes := s.passes ++
            [⟨pass, s.entry.buffer.samples ++ pass.taken, entry.buffer.samples⟩] }

def handed (s : SubRun μ) : List μ := s.passes.flatMap fun record => record.pass.handed

/-- The passes that reported a sample as malformed. -/
def refusals (s : SubRun μ) : Nat :=
  (s.passes.filter fun record =>
    record.pass.drained && !record.waiting.all (decodes decode)).length

end SubRun

variable {μ : Type} (kind : EntryKind) (decode : List UInt8 → Option μ) (slotSize : Nat)

/-- A pass whose take failed dispatches nothing and loses nothing. Any other hands over what is
in front of the first malformed sample, reports that one if there is one, and drops it. -/
def PassRecord.Lawful (record : PassRecord μ) : Prop :=
  if record.pass.drained then
    record.pass.result = verdictOn decode record.waiting ∧
      record.pass.handed = handedOf decode record.waiting ∧
      record.left = leftOf decode record.waiting
  else record.pass.handed = [] ∧ record.left = record.waiting

/-- Each sample that left the buffer was handed over once, in order, or cost one error. -/
structure SubRun.OneSampleEach (s : SubRun μ) : Prop where
  inOrder : ∃ consumed, s.taken = consumed ++ s.entry.buffer.samples ∧
    s.handed = consumed.filterMap decode ∧
    s.refusals decode = (consumed.filter fun bytes => !decodes decode bytes).length
  lawful : ∀ record ∈ s.passes, record.Lawful decode

/-- The queue a dispatch is going to find holds no malformed sample, where one would stay. -/
def SubRun.NoneStuck (s : SubRun μ) : SubEvent → Prop
  | .deliver _ => True
  | .tryProcess =>
    keepsMalformed kind s.entry.buffer = true →
      (s.entry.inbox.take s.entry.buffer.room).all (Arrival.fits slotSize) = true →
      (s.entry.buffer.samples ++
        (s.entry.inbox.take s.entry.buffer.room).map Arrival.bytes).all (decodes decode) = true

variable {kind decode slotSize}

theorem consumed_of_leftOf (waiting : List (List UInt8)) :
    ∃ consumed, waiting = consumed ++ leftOf decode waiting ∧
      handedOf decode waiting = consumed.filterMap decode ∧
      (consumed.filter fun bytes => !decodes decode bytes).length =
        if waiting.all (decodes decode) then 0 else 1 := by
  have split := List.takeWhile_append_dropWhile (p := decodes decode) (l := waiting)
  have good : (waiting.takeWhile (decodes decode)).filter
      (fun bytes => !decodes decode bytes) = [] := by
    rw [List.filter_eq_nil_iff]
    intro bytes member
    simp [List.mem_takeWhile_imp member]
  by_cases all : waiting.all (decodes decode) = true
  · have nothing := dropWhile_eq_nil_iff_all.mpr all
    refine ⟨waiting.takeWhile (decodes decode), ?_, rfl, ?_⟩
    · rw [leftOf, nothing, List.tail_nil, List.append_nil]
      rw [nothing, List.append_nil] at split
      exact split.symm
    · rw [good, if_pos all, List.length_nil]
  · cases rest : waiting.dropWhile (decodes decode) with
    | nil => exact absurd (dropWhile_eq_nil_iff_all.mp rest) all
    | cons bad later =>
      have malformed : decodes decode bad = false := by
        have first := List.head_dropWhile_not (decodes decode) (l := waiting) (by simp [rest])
        simpa [rest] using first
      have undecoded : decode bad = none := by
        simpa [decodes] using malformed
      refine ⟨waiting.takeWhile (decodes decode) ++ [bad], ?_, ?_, ?_⟩
      · rw [leftOf, rest, List.tail_cons, List.append_assoc, List.singleton_append, ← rest]
        exact split.symm
      · rw [handedOf, List.filterMap_append]
        simp [undecoded]
      · rw [List.filter_append, good, if_neg all]
        simp [malformed]

namespace SubRun

/-- What a run keeps to: a buffer as it is between passes, and the property itself. -/
structure Keeps (decode : List UInt8 → Option μ) (slotSize : Nat) (s : SubRun μ) : Prop where
  ready : s.entry.buffer.Ready slotSize
  sound : s.OneSampleEach decode

def Faulty (decode : List UInt8 → Option μ) (s : SubRun μ) : Prop :=
  ∃ record ∈ s.passes, ¬ record.Lawful decode

theorem keeps_init (depth : Option Nat) : (init slotSize depth : SubRun μ).Keeps decode slotSize := by
  cases depth with
  | none =>
    have clean : (TripleBuffer.init slotSize).Clean slotSize :=
      ⟨fun _ => List.length_replicate, ⟨0, 1, 2, rfl⟩⟩
    refine ⟨clean, ⟨[], ?_, rfl, rfl⟩, by simp [init]⟩
    exact (samples_clean clean).symm
  | some depth =>
    refine ⟨?_, ⟨[], ?_, rfl, rfl⟩, by simp [init]⟩
    · intro slot member
      rw [List.eq_of_mem_replicate member]
      exact List.length_replicate
    · exact (List.map_eq_nil_iff.mpr ((Ring.isEmpty_iff _).mp rfl)).symm

variable {s next : SubRun μ}

theorem step_tryProcess (stepped : s.step kind decode .tryProcess = some next)
    (ready : s.entry.buffer.Ready slotSize) :
    ∃ pass, Passes decode slotSize kind s.entry next.entry pass ∧
      next.taken = s.taken ++ pass.taken ∧ next.passes = s.passes ++
        [⟨pass, s.entry.buffer.samples ++ pass.taken, next.entry.buffer.samples⟩] := by
  have passes := @tryProcess_passes μ decode slotSize kind s.entry ready
  simp only [step] at stepped
  cases stepped
  exact ⟨_, passes, rfl, rfl⟩

theorem record_lawful {pass : Pass μ} (passes : Passes decode slotSize kind s.entry next.entry pass)
    (met : s.NoneStuck kind decode slotSize .tryProcess) :
    (PassRecord.mk pass (s.entry.buffer.samples ++ pass.taken)
      next.entry.buffer.samples).Lawful decode := by
  rw [PassRecord.Lawful]
  cases drained : pass.drained with
  | false =>
    rcases passes.stopped drained with ⟨_, nothing, left⟩
    simp only [Bool.false_eq_true, if_false]
    exact ⟨nothing, left⟩
  | true =>
    rcases passes.dispatched drained with ⟨fit, taken, result, handed, left⟩
    simp only [if_true]
    refine ⟨result, handed, ?_⟩
    rw [left]
    split
    case isTrue keeps =>
      have all := met keeps fit
      rw [← taken] at all
      rw [leftOf, dropWhile_eq_nil_iff_all.mpr all, List.tail_nil]
    case isFalse => rfl

theorem step_keeps (s : SubRun μ) (e : SubEvent) (next : SubRun μ)
    (keeps : s.Keeps decode slotSize) (met : s.NoneStuck kind decode slotSize e)
    (stepped : s.step kind decode e = some next) : next.Keeps decode slotSize := by
  cases e with
  | deliver arrival =>
    cases stepped
    exact ⟨keeps.ready, keeps.sound.inOrder, keeps.sound.lawful⟩
  | tryProcess =>
    rcases step_tryProcess stepped keeps.ready with ⟨pass, passes, taken, recorded⟩
    have lawful := record_lawful passes met
    rcases keeps.sound.inOrder with ⟨before, held, given, refused⟩
    refine ⟨passes.ready, ?_, ?_⟩
    · -- a stopped pass consumes nothing, a dispatching one what `consumed_of_leftOf` tells
      rw [taken, handed, refusals, recorded]
      simp only [List.flatMap_append, List.filter_append, List.length_append,
        List.flatMap_singleton]
      rw [PassRecord.Lawful] at lawful
      cases drained : pass.drained with
      | false =>
        simp only [drained, Bool.false_eq_true, if_false] at lawful
        refine ⟨before, ?_, ?_, ?_⟩
        · rw [lawful.2, held, List.append_assoc]
        · rw [lawful.1, List.append_nil]
          exact given
        · simp only [List.filter_cons, drained, Bool.false_and, Bool.false_eq_true, if_false,
            List.filter_nil, List.length_nil, Nat.add_zero]
          exact refused
      | true =>
        simp only [drained, if_true] at lawful
        rcases consumed_of_leftOf (s.entry.buffer.samples ++ pass.taken) with
          ⟨consumed, parts, handedOver, malformed⟩
        refine ⟨before ++ consumed, ?_, ?_, ?_⟩
        · rw [lawful.2.2, List.append_assoc, ← parts, held, List.append_assoc]
        · rw [lawful.2.1, List.filterMap_append, ← handedOver]
          exact congrArg (· ++ _) given
        · rw [List.filter_append, List.length_append, ← refused, malformed]
          simp only [List.filter_cons, drained, Bool.true_and, List.filter_nil]
          cases (s.entry.buffer.samples ++ pass.taken).all (decodes decode) <;> rfl
    · intro record member
      rw [recorded] at member
      rcases List.mem_append.mp member with old | new
      · exact keeps.sound.lawful record old
      · rw [List.mem_singleton.mp new]
        exact lawful

theorem step_breaks (s : SubRun μ) (e : SubEvent) (next : SubRun μ)
    (keeps : s.Keeps decode slotSize) (missed : ¬ s.NoneStuck kind decode slotSize e)
    (stepped : s.step kind decode e = some next) : next.Faulty decode := by
  cases e with
  | deliver arrival => exact absurd trivial missed
  | tryProcess =>
    rcases step_tryProcess stepped keeps.ready with ⟨pass, passes, _, recorded⟩
    simp only [NoneStuck, Classical.not_imp] at missed
    rcases missed with ⟨stays, fit, malformed⟩
    have drained : pass.drained = true := by
      by_contra stopped
      have failed := (passes.stopped (Bool.eq_false_iff.mpr stopped)).1
      rw [fit] at failed
      cases failed
    rcases passes.dispatched drained with ⟨_, taken, _, _, left⟩
    rw [← taken] at malformed
    refine ⟨_, by rw [recorded]; exact List.mem_append_right _ (List.mem_singleton.mpr rfl), ?_⟩
    intro lawful
    simp only [PassRecord.Lawful, drained, if_true] at lawful
    have both := lawful.2.2
    rw [left, if_pos stays, leftOf] at both
    -- the queue the copy leaves is one sample longer than the lawful one
    cases rest : (s.entry.buffer.samples ++ pass.taken).dropWhile (decodes decode) with
    | nil => exact malformed (dropWhile_eq_nil_iff_all.mp rest)
    | cons bad later =>
      rw [rest, List.tail_cons] at both
      exact absurd both (List.cons_ne_self bad later)

theorem step_lasts (s : SubRun μ) (e : SubEvent) (next : SubRun μ) (faulty : s.Faulty decode)
    (stepped : s.step kind decode e = some next) : next.Faulty decode := by
  rcases faulty with ⟨record, member, unlawful⟩
  cases e with
  | deliver arrival =>
    cases stepped
    exact ⟨record, member, unlawful⟩
  | tryProcess =>
    simp only [step] at stepped
    cases stepped
    exact ⟨record, List.mem_append_left _ member, unlawful⟩

/-- Every run of every copy, and when one bad sample costs one sample in it. -/
theorem one_bad_sample_costs_one_iff (kind : EntryKind) (decode : List UInt8 → Option μ)
    (slotSize : Nat) (depth : Option Nat) (events : List SubEvent) (last : SubRun μ)
    (reached : run (step kind decode) (init slotSize depth) events = some last) :
    last.OneSampleEach decode ↔
      Along (step kind decode) (NoneStuck kind decode slotSize) (init slotSize depth) events := by
  have started := @keeps_init μ decode slotSize depth
  constructor
  · intro sound
    have clean : ∀ s : SubRun μ, s.Keeps decode slotSize → ¬ s.Faulty decode := by
      rintro s keeps ⟨record, member, unlawful⟩
      exact unlawful (keeps.sound.lawful record member)
    apply (run_sound_iff clean step_keeps step_breaks step_lasts _ last events started reached).mp
    rintro ⟨record, member, unlawful⟩
    exact unlawful (sound.lawful record member)
  · intro met
    exact (run_invariant_along step_keeps _ last events started met reached).sound

/-- The typed C copy over a ring: the malformed sample is reported once, the one behind it is
handed over by the next pass. -/
theorem one_bad_sample_costs_one_in_typedC :
    ∃ last : SubRun Unit,
      run (step .typedC fun bytes => if bytes = [7] then some () else none) (init 4 (some 2))
        [.deliver (.sample [0]), .deliver (.sample [7]), .tryProcess, .tryProcess] = some last ∧
      last.taken = [[0], [7]] ∧ last.handed = [()] ∧
      last.OneSampleEach fun bytes => if bytes = [7] then some () else none := by
  refine ⟨_, rfl, by decide, by decide, ?_⟩
  apply (one_bad_sample_costs_one_iff .typedC _ 4 (some 2)
    [.deliver (.sample [0]), .deliver (.sample [7]), .tryProcess, .tryProcess] _ rfl).mpr
  apply along_of_always
  intro e _ s
  cases e with
  | deliver arrival => trivial
  | tryProcess => exact fun keeps => nomatch keeps

/-- The typed Rust copy over the same ring: the malformed sample stays at the head, every pass
reports it, and the one behind it is never handed over. -/
theorem malformed_sample_stuck :
    ∃ last : SubRun Unit,
      run (step .typedRust fun bytes => if bytes = [7] then some () else none) (init 4 (some 2))
        [.deliver (.sample [0]), .deliver (.sample [7]), .tryProcess, .tryProcess] = some last ∧
      last.handed = [] ∧ last.entry.buffer.samples = [[0], [7]] ∧
      ¬ last.OneSampleEach fun bytes => if bytes = [7] then some () else none := by
  refine ⟨_, rfl, by decide, by decide, ?_⟩
  intro sound
  rcases sound.inOrder with ⟨consumed, parts, _, counted⟩
  -- two reports, and nothing left the ring
  have nothing : consumed = [] := by
    have lengths : 2 = consumed.length + 2 :=
      (congrArg List.length parts).trans List.length_append
    exact List.length_eq_zero_iff.mp (Nat.right_eq_add.mp lengths)
  rw [nothing] at counted
  revert counted
  decide

end SubRun

end NanoRos