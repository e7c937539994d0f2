import NanoRos.Node.BufferedSub

/-! One producer and one consumer on an `SpscRing`, interleaved at every load and store. -/

namespace NanoRos

instance : Inhabited SampleSlot := ⟨⟨[], 0⟩⟩

def SpscRing.messages (ring : SpscRing) : List SlotMessage := ring.contents.map SampleSlot.message

/-- Where the producer is: between calls, in `try_push`, with a slot to fill, in `commit_push`. The
message is what the slot held when `commit_push` was called. -/
inductive Producer where
  | idle
  | pushing (head : Nat)
  | filling (slot : Nat)
  | committing (head : Nat) (message : SlotMessage)
  | measured (head : Nat) (message : SlotMessage)
  deriving DecidableEq

/-- Where the consumer is: between calls, in `try_pop`, with a sample, in `commit_pop`. The message
is what the sample showed when `commit_pop` was called. -/
inductive Consumer where
  | idle
  | popping (head : Nat)
  | found (slot : Nat)
  | reading (slot len : Nat)
  | releasing (tail : Nat) (message : SlotMessage)
  deriving DecidableEq

def Producer.slot : Producer → Option Nat
  | .idle | .pushing _ => none
  | .filling slot => some slot
  | .committing head _ | .measured head _ => some head

def Consumer.slot : Consumer → Option Nat
  | .idle | .popping _ => none
  | .found slot | .reading slot _ => some slot
  | .releasing tail _ => some tail

inductive PushStep where
  | loadHead
  | loadTail
  | write (offset : Nat) (byte : UInt8)
  | giveUp
  | commit (len : Nat)
  | storeLen
  | storeHead
  deriving DecidableEq

inductive PopStep where
  | loadHead
  | loadTail
  | loadLen
  | giveUp
  | release
  | storeTail
  deriving DecidableEq

inductive SpscStep where
  | producer (step : PushStep)
  | consumer (step : PopStep)
  deriving DecidableEq

/-- The ring and its two parties, with a record of what was committed and popped, and for every
`try_push` that returned `None` of how many messages were held then. -/
structure SpscRun where
  ring : SpscRing
  producer : Producer
  consumer : Consumer
  committed : List SlotMessage
  popped : List SlotMessage
  refusals : List Nat

namespace SpscRun

def start (ring : SpscRing) : SpscRun := ⟨ring, .idle, .idle, [], [], []⟩

def held (s : SpscRun) : Nat := s.committed.length - s.popped.length

/-- One access of the producer. A length beyond the slot is not one `commit_push` is given. -/
def push (s : SpscRun) (step : PushStep) : Option SpscRun :=
  match step, s.producer with
  | .loadHead, .idle => some { s with producer := .pushing s.ring.head }
  | .loadTail, .pushing head =>
    if (head + 1) % s.ring.capacity = s.ring.tail then
      some { s with producer := .idle, refusals := s.refusals ++ [s.held] }
    else some { s with producer := .filling head }
  | .write offset byte, .filling slot =>
    some { s with ring := s.ring.modifyAt slot fun cell =>
      { cell with data := cell.data.set offset byte } }
  | .giveUp, .filling _ => some { s with producer := .idle }
  | .commit len, .filling slot =>
    if len ≤ (s.ring.cellAt slot).data.length then
      some { s with producer := .committing s.ring.head ((s.ring.cellAt slot).shows len) }
    else none
  | .storeLen, .committing head message =>
    some { s with
      ring := s.ring.modifyAt head fun cell => { cell with len := message.len }
      producer := .measured head message }
  | .storeHead, .measured head message =>
    some { s with
      ring := s.ring.storeHead head
      producer := .idle
      committed := s.committed ++ [message] }
  | _, _ => none

def pop (s : SpscRun) (step : PopStep) : Option SpscRun :=
  match step, s.consumer with
  | .loadHead, .idle => some { s with consumer := .popping s.ring.head }
  | .loadTail, .popping head =>
    if head = s.ring.tail then some { s with consumer := .idle }
    else some { s with consumer := .found s.ring.tail }
  | .loadLen, .found slot =>
    some { s with consumer := .reading slot (s.ring.cellAt slot).len }
  | .giveUp, .reading _ _ => some { s with consumer := .idle }
  | .release, .reading slot len =>
    some { s with consumer := .releasing s.ring.tail ((s.ring.cellAt slot).shows len) }
  | .storeTail, .releasing tail message =>
    some { s with
      ring := s.ring.storeTail tail
      consumer := .idle
      popped := s.popped ++ [message] }
  | _, _ => none

def step (s : SpscRun) : SpscStep → Option SpscRun
  | .producer access => s.push access
  | .consumer access => s.pop access

/-- What the slice of `try_pop` shows the consumer at this moment. -/
def shown (s : SpscRun) : Option SlotMessage :=
  match s.consumer with
  | .reading slot len => some ((s.ring.cellAt slot).shows len)
  | _ => none

end SpscRun

/-- What a queue of `depth` messages promises its two parties. -/
structure BoundedFifo (depth : Nat) (s : SpscRun) : Prop where
  inOrder : s.popped <+: s.committed
  bounded : s.committed.length ≤ s.popped.length + depth
  whole : ∀ message ∈ s.committed, message.bytes.length = message.len
  intact : ∀ message, s.shown = some message → s.committed[s.popped.length]? = some message
  refused : ∀ held ∈ s.refusals, held = depth
  apart : ∀ i j, s.producer.slot = some i → s.consumer.slot = some j → i ≠ j

namespace SpscRun

def producerInv (ring : SpscRing) : Producer → Prop
  | .idle => True
  | .pushing head => head = ring.head
  | .filling slot => slot = ring.head ∧ ring.full = false
  | .committing head message =>
    head = ring.head ∧ ring.full = false ∧ message.bytes.length = message.len ∧
      message = ring.headCell.shows message.len
  | .measured head message =>
    head = ring.head ∧ ring.full = false ∧ message.bytes.length = message.len ∧
      message = ring.headCell.message

-- A head the consumer loaded may be behind, but a ring that was not empty then has not become so.
def consumerInv (ring : SpscRing) : Consumer → Prop
  | .idle => True
  | .popping head => head = ring.tail ∨ ring.isEmpty = false
  | .found slot => slot = ring.tail ∧ ring.isEmpty = false
  | .reading slot len => slot = ring.tail ∧ ring.isEmpty = false ∧ len = ring.front.len
  | .releasing tail message =>
    tail = ring.tail ∧ ring.isEmpty = false ∧ message = ring.front.message

structure Inv (depth : Nat) (s : SpscRun) : Prop where
  slots : s.ring.capacity = depth + 1
  queue : s.committed = s.popped ++ s.ring.messages
  whole : ∀ message ∈ s.committed, message.bytes.length = message.len
  producer : producerInv s.ring s.producer
  consumer : consumerInv s.ring s.consumer
  refused : ∀ held ∈ s.refusals, held = depth

variable {depth : Nat} {s next : SpscRun} {ring : SpscRing}

theorem length_messages (ring : SpscRing) : ring.messages.length = ring.count := by
  rw [SpscRing.messages, List.length_map, Ring.length_contents]

theorem consumerInv_modifyHead (consumer : Consumer) (f : SampleSlot → SampleSlot)
    (holds : consumerInv ring consumer) : consumerInv (ring.modifyHead f) consumer := by
  cases consumer with
  | idle => trivial
  | popping head => exact holds
  | found slot => exact holds
  | reading slot len | releasing tail message =>
    exact ⟨holds.1, holds.2.1, by rw [ring.front_modifyHead f holds.2.1]; exact holds.2.2⟩

theorem consumerInv_commit (consumer : Consumer) (room : ring.full = false)
    (holds : consumerInv ring consumer) : consumerInv ring.commit consumer := by
  have some' := ring.isEmpty_commit room
  cases consumer with
  | idle => trivial
  | popping head => exact .inr some'
  | found slot => exact ⟨holds.1, some'⟩
  | reading slot len | releasing tail message => exact ⟨holds.1, some', holds.2.2⟩

theorem producerInv_release (producer : Producer) (some' : ring.isEmpty = false)
    (holds : producerInv ring producer) : producerInv ring.release producer := by
  have room := ring.full_release some'
  cases producer with
  | idle => trivial
  | pushing head => exact holds
  | filling slot => exact ⟨holds.1, room⟩
  | committing head message | measured head message => exact ⟨holds.1, room, holds.2.2⟩

namespace Inv

theorem start (capacity : ring.capacity = depth + 1) (empty : ring.isEmpty = true) :
    Inv depth (start ring) where
  slots := capacity
  queue := by
    have nothing := (ring.isEmpty_iff).mp empty
    change [] = [] ++ ring.contents.map SampleSlot.message
    rw [nothing]
    rfl
  whole := fun _ member => absurd member List.not_mem_nil
  producer := trivial
  consumer := trivial
  refused := fun _ member => absurd member List.not_mem_nil

section

variable (inv : Inv depth s)
include inv

theorem held_eq : s.held = s.ring.count := by
  rw [held, inv.queue, List.length_append, Nat.add_sub_cancel_left, length_messages]

theorem modifyHead (f : SampleSlot → SampleSlot) (producer : Producer)
    (holds : producerInv (s.ring.modifyHead f) producer) :
    Inv depth { s with ring := s.ring.modifyHead f, producer := producer } where
  slots := by
    rw [Ring.capacity_modifyHead]
    exact inv.slots
  queue := by
    rw [SpscRing.messages, Ring.contents_modifyHead]
    exact inv.queue
  whole := inv.whole
  producer := holds
  consumer := consumerInv_modifyHead _ f inv.consumer
  refused := inv.refused

/-- A full ring holds `depth` messages when the tail is loaded; a ring with room keeps it until the
producer itself fills it. -/
theorem loadTail {head : Nat} (pushing : s.producer = .pushing head)
    (stepped : s.push .loadTail = some next) : Inv depth next := by
  have loaded := inv.producer
  rw [pushing] at loaded
  change head = s.ring.head at loaded
  subst loaded
  simp only [push, pushing] at stepped
  split at stepped
  case isTrue full =>
    cases stepped
    refine ⟨inv.slots, inv.queue, inv.whole, trivial, inv.consumer, ?_⟩
    intro held member
    rcases List.mem_append.mp member with earlier | now
    · exact inv.refused held earlier
    · have counted := (s.ring.full_iff).mp (beq_iff_eq.mpr full)
      rw [inv.slots] at counted
      rw [List.mem_singleton.mp now, inv.held_eq]
      omega
  case isFalse room =>
    cases stepped
    have notFull : s.ring.full = false := beq_eq_false_iff_ne.mpr room
    exact ⟨inv.slots, inv.queue, inv.whole, ⟨rfl, notFull⟩, inv.consumer, inv.refused⟩

theorem storeHead {head : Nat} {message : SlotMessage}
    (measured : s.producer = .measured head message) (stepped : s.push .storeHead = some next)
    : Inv depth next := by
  have holds := inv.producer
  rw [measured] at holds
  rcases holds with ⟨loaded, room, fits, written⟩
  subst loaded
  simp only [push, measured, Option.some.injEq] at stepped
  subst stepped
  refine ⟨inv.slots, ?_, ?_, trivial, consumerInv_commit _ room inv.consumer, inv.refused⟩
  · have longer : (s.ring.storeHead s.ring.head).contents =
        s.ring.contents ++ [s.ring.headCell] := s.ring.contents_commit room
    rw [SpscRing.messages, longer, List.map_append, List.map_singleton, ← List.append_assoc,
      written]
    exact congrArg (· ++ [s.ring.headCell.message]) inv.queue
  · intro other member
    rcases List.mem_append.mp member with earlier | now
    · exact inv.whole other earlier
    · rw [List.mem_singleton.mp now]
      exact fits

theorem push (access : PushStep) (stepped : s.push access = some next) :
    Inv depth next := by
  have holds := inv.producer
  cases access with
  | loadHead =>
    cases at_ : s.producer <;> simp only [SpscRun.push, at_, reduceCtorEq] at stepped
    cases stepped
    exact ⟨inv.slots, inv.queue, inv.whole, rfl, inv.consumer, inv.refused⟩
  | loadTail =>
    cases at_ : s.producer with
    | pushing head => exact inv.loadTail at_ stepped
    | _ => simp only [SpscRun.push, at_, reduceCtorEq] at stepped
  | write offset byte =>
    cases at_ : s.producer <;> simp only [SpscRun.push, at_, reduceCtorEq] at stepped
    rw [at_] at holds
    rcases holds with ⟨rfl, room⟩
    cases stepped
    apply inv.modifyHead (fun cell => { cell with data := cell.data.set offset byte })
    exact ⟨rfl, by rw [Ring.full_modifyHead]; exact room⟩
  | giveUp =>
    cases at_ : s.producer <;> simp only [SpscRun.push, at_, reduceCtorEq] at stepped
    cases stepped
    exact ⟨inv.slots, inv.queue, inv.whole, trivial, inv.consumer, inv.refused⟩
  | commit len =>
    cases at_ : s.producer <;> simp only [SpscRun.push, at_, reduceCtorEq] at stepped
    rw [at_] at holds
    rcases holds with ⟨rfl, room⟩
    split at stepped
    case isTrue fits =>
      cases stepped
      refine ⟨inv.slots, inv.queue, inv.whole, ⟨rfl, room, ?_, ?_⟩, inv.consumer, inv.refused⟩
      · exact List.length_take_of_le fits
      · rw [s.ring.cellAt_head]
        rfl
    case isFalse => cases stepped
  | storeLen =>
    cases at_ : s.producer <;> simp only [SpscRun.push, at_, reduceCtorEq] at stepped
    rw [at_] at holds
    rcases holds with ⟨rfl, room, fits, showed⟩
    cases stepped
    apply inv.modifyHead
    refine ⟨rfl, by rw [Ring.full_modifyHead]; exact room, fits, ?_⟩
    rw [Ring.headCell_modifyHead]
    exact showed
  | storeHead =>
    cases at_ : s.producer with
    | measured head message => exact inv.storeHead at_ stepped
    | _ => simp only [SpscRun.push, at_, reduceCtorEq] at stepped

theorem storeTail {tail : Nat} {message : SlotMessage}
    (releasing : s.consumer = .releasing tail message) (stepped : s.pop .storeTail = some next)
    : Inv depth next := by
  have holds := inv.consumer
  rw [releasing] at holds
  rcases holds with ⟨loaded, some', showed⟩
  subst loaded
  simp only [pop, releasing, Option.some.injEq] at stepped
  subst stepped
  refine ⟨inv.slots, ?_, inv.whole, producerInv_release _ some' inv.producer, trivial, inv.refused⟩
  have queue := inv.queue
  rw [SpscRing.messages, s.ring.contents_release some', List.map_cons, ← showed] at queue
  rw [List.append_assoc, List.singleton_append]
  exact queue

theorem pop (access : PopStep) (stepped : s.pop access = some next) :
    Inv depth next := by
  have holds := inv.consumer
  cases access with
  | loadHead =>
    cases at_ : s.consumer <;> simp only [SpscRun.pop, at_, reduceCtorEq] at stepped
    cases stepped
    refine ⟨inv.slots, inv.queue, inv.whole, inv.producer, ?_, inv.refused⟩
    by_cases same : s.ring.head = s.ring.tail
    · exact .inl same
    · exact .inr (beq_eq_false_iff_ne.mpr same)
  | loadTail =>
    cases at_ : s.consumer <;> simp only [SpscRun.pop, at_, reduceCtorEq] at stepped
    rw [at_] at holds
    split at stepped
    case isTrue =>
      cases stepped
      exact ⟨inv.slots, inv.queue, inv.whole, inv.producer, trivial, inv.refused⟩
    case isFalse moved =>
      cases stepped
      have some' := holds.resolve_left moved
      exact ⟨inv.slots, inv.queue, inv.whole, inv.producer, ⟨rfl, some'⟩, inv.refused⟩
  | loadLen =>
    cases at_ : s.consumer <;> simp only [SpscRun.pop, at_, reduceCtorEq] at stepped
    rw [at_] at holds
    rcases holds with ⟨rfl, some'⟩
    cases stepped
    refine ⟨inv.slots, inv.queue, inv.whole, inv.producer, ⟨rfl, some', ?_⟩, inv.refused⟩
    rw [s.ring.cellAt_tail]
  | giveUp =>
    cases at_ : s.consumer <;> simp only [SpscRun.pop, at_, reduceCtorEq] at stepped
    cases stepped
    exact ⟨inv.slots, inv.queue, inv.whole, inv.producer, trivial, inv.refused⟩
  | release =>
    cases at_ : s.consumer <;> simp only [SpscRun.pop, at_, reduceCtorEq] at stepped
    rw [at_] at holds
    rcases holds with ⟨rfl, some', rfl⟩
    cases stepped
    refine ⟨inv.slots, inv.queue, inv.whole, inv.producer, ⟨rfl, some', ?_⟩, inv.refused⟩
    rw [s.ring.cellAt_tail]
    rfl
  | storeTail =>
    cases at_ : s.consumer with
    | releasing tail message => exact inv.storeTail at_ stepped
    | _ => simp only [SpscRun.pop, at_, reduceCtorEq] at stepped

theorem step (e : SpscStep) (stepped : s.step e = some next) :
    Inv depth next := by
  cases e with
  | producer access => exact inv.push access stepped
  | consumer access => exact inv.pop access stepped

theorem producer_slot {i : Nat} (given : s.producer.slot = some i) :
    i = s.ring.head := by
  have holds := inv.producer
  cases at_ : s.producer <;> rw [at_] at given holds
  case idle => cases given
  case pushing => cases given
  case filling =>
    cases given
    exact holds.1
  case committing =>
    cases given
    exact holds.1
  case measured =>
    cases given
    exact holds.1

theorem consumer_slot {j : Nat} (given : s.consumer.slot = some j) :
    j = s.ring.tail ∧ s.ring.isEmpty = false := by
  have holds := inv.consumer
  cases at_ : s.consumer <;> rw [at_] at given holds
  case idle => cases given
  case popping => cases given
  case found =>
    cases given
    exact holds
  case reading =>
    cases given
    exact ⟨holds.1, holds.2.1⟩
  case releasing =>
    cases given
    exact ⟨holds.1, holds.2.1⟩

theorem boundedFifo : BoundedFifo depth s where
  inOrder := by
    rw [inv.queue]
    exact List.prefix_append _ _
  bounded := by
    have fits := s.ring.count_lt
    rw [inv.slots] at fits
    rw [inv.queue, List.length_append, length_messages]
    omega
  whole := inv.whole
  intact := by
    intro message shown
    have holds := inv.consumer
    cases at_ : s.consumer <;> simp only [SpscRun.shown, at_, reduceCtorEq] at shown
    rw [at_] at holds
    rcases holds with ⟨rfl, some', rfl⟩
    rw [inv.queue, List.getElem?_append_right (le_refl _), Nat.sub_self, SpscRing.messages,
      s.ring.contents_release some', ← shown, s.ring.cellAt_tail]
    rfl
  refused := inv.refused
  apart := by
    intro i j written read
    rcases inv.consumer_slot read with ⟨rfl, some'⟩
    rw [inv.producer_slot written]
    exact s.ring.head_ne_tail some'

end

end Inv

/-- Whatever the interleaving, the ring is a queue of `depth` messages. -/
theorem ring_bounded_fifo (ring : SpscRing) (depth : Nat) (capacity : ring.capacity = depth + 1)
    (fresh : ring.head = 0 ∧ ring.tail = 0) (steps : List SpscStep) (last : SpscRun)
    (reached : run step (start ring) steps = some last) : BoundedFifo depth last := by
  have empty : ring.isEmpty = true := by rw [Ring.isEmpty, fresh.1, fresh.2, beq_self_eq_true]
  apply Inv.boundedFifo
  apply run_invariant (fun s e next inv stepped => Inv.step inv e stepped) _ _ steps
    (Inv.start capacity empty) reached

/-- The accesses of a whole push of two bytes, and of a whole pop. -/
def pushOf (first second : UInt8) : List SpscStep :=
  [.loadHead, .loadTail, .write 0 first, .write 1 second, .commit 2, .storeLen, .storeHead].map
    .producer

def popOne : List SpscStep :=
  [.loadHead, .loadTail, .loadLen, .release, .storeTail].map .consumer

/-- Around the end of a ring of depth two: a push is refused, a pop makes room for it, and it is made
while the next sample is being looked at. -/
def wrapped : List SpscStep :=
  pushOf 1 2 ++ pushOf 3 4 ++ [.producer .loadHead, .producer .loadTail] ++ popOne ++
    [.consumer .loadHead, .consumer .loadTail, .consumer .loadLen] ++ pushOf 5 6

theorem ring_bounded_fifo_wrapped :
    ∃ last, run step (start (SpscRing.init 4 2)) wrapped = some last ∧
      last.committed = [⟨2, [1, 2]⟩, ⟨2, [3, 4]⟩, ⟨2, [5, 6]⟩] ∧ last.popped = [⟨2, [1, 2]⟩] ∧
      last.refusals = [2] ∧ last.shown = some ⟨2, [3, 4]⟩ ∧ BoundedFifo 2 last := by
  have ends : (run step (start (SpscRing.init 4 2)) wrapped).map
      (fun s => (s.committed, s.popped, s.refusals, s.shown)) =
      some ([⟨2, [1, 2]⟩, ⟨2, [3, 4]⟩, ⟨2, [5, 6]⟩], [⟨2, [1, 2]⟩], [2], some ⟨2, [3, 4]⟩) := by
    decide +kernel
  rcases Option.map_eq_some_iff.mp ends with ⟨last, reached, shape⟩
  simp only [Prod.mk.injEq] at shape
  exact ⟨last, reached, shape.1, shape.2.1, shape.2.2.1, shape.2.2.2,
    ring_bounded_fifo _ 2 rfl ⟨rfl, rfl⟩ wrapped last reached⟩

end SpscRun

end NanoRos
