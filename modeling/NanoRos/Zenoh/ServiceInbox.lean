import NanoRos.Lib.Runs
import NanoRos.Lib.WrapCounter

/-! The request ring of a service server: `queryable_callback` fills it on the read task,
`take_request` empties it on the executor, interleaved at every load and store. -/

namespace NanoRos.Zenoh

/-- A query's payload, with the token and the time the callback stores beside it. -/
structure Request where
  payload : List UInt8
  seq : Int
  recvNs : Int
  deriving DecidableEq

/-- `InboxEntry`, with the slot's bytes. -/
structure InboxEntry where
  len : Nat
  seq : Int
  overflow : Bool
  recvNs : Int
  data : List UInt8
  deriving DecidableEq

structure InboxDrops (w : Nat) where
  ringFull : BitVec w
  overflow : BitVec w
  ringFullEpisodes : BitVec w
  overflowEpisodes : BitVec w
  inRingFull : Bool
  inOverflow : Bool
  lastOverflowLen : Nat

namespace InboxDrops

variable {w : Nat}

def new : InboxDrops w := ⟨0, 0, 0, 0, false, false, 0⟩

def onRingFull (drops : InboxDrops w) : InboxDrops w :=
  { drops with
    ringFull := drops.ringFull + 1
    inRingFull := true
    ringFullEpisodes :=
      if drops.inRingFull then drops.ringFullEpisodes else drops.ringFullEpisodes + 1 }

def onStored (drops : InboxDrops w) : Option Nat → InboxDrops w
  | some len =>
    { drops with
      inRingFull := false
      lastOverflowLen := len
      overflow := drops.overflow + 1
      inOverflow := true
      overflowEpisodes :=
        if drops.inOverflow then drops.overflowEpisodes else drops.overflowEpisodes + 1 }
  | none => { drops with inRingFull := false, inOverflow := false }

end InboxDrops

/-- `ServiceBuffer`, bound to a ring of `d` slots, on a machine with words of `w` bits. -/
structure ServiceBuffer (w d : Nat) where
  slots : Fin d → InboxEntry
  head : BitVec w
  tail : BitVec w
  drops : InboxDrops w

def ServiceBuffer.modifySlot {w d : Nat} (buffer : ServiceBuffer w d) (i : Fin d)
    (f : InboxEntry → InboxEntry) : ServiceBuffer w d :=
  { buffer with slots := Function.update buffer.slots i (f (buffer.slots i)) }

theorem ServiceBuffer.slots_modifySlot_self {w d : Nat} (buffer : ServiceBuffer w d) (i : Fin d)
    (f : InboxEntry → InboxEntry) : (buffer.modifySlot i f).slots i = f (buffer.slots i) :=
  Function.update_self i _ buffer.slots

theorem ServiceBuffer.slots_modifySlot_of_ne {w d : Nat} (buffer : ServiceBuffer w d) {i j : Fin d}
    (apart : j ≠ i) (f : InboxEntry → InboxEntry) :
    (buffer.modifySlot i f).slots j = buffer.slots j :=
  Function.update_of_ne apart _ buffer.slots

/-- The stores of `store`, each named before it is made. -/
inductive StoreStage where
  | seq
  | recvNs
  | overflow
  | payload
  | len
  | drops
  | tail
  deriving DecidableEq

/-- Where the callback is: between queries, in `admit` with the head it loaded, in `store`. -/
inductive CallbackAt (w : Nat) where
  | idle
  | admitting (request : Request) (head : BitVec w)
  | storing (request : Request) (tail : BitVec w) (stage : StoreStage)
  deriving DecidableEq

/-- What a request that was popped came to. -/
inductive TakeOutcome where
  | taken (payload : List UInt8) (seq recvNs : Int)
  | messageTooLarge (len : Nat)
  | bufferTooSmall (room len : Nat)
  deriving DecidableEq

/-- Where `take_request` is, with the head it loaded and what it has read of the slot. -/
inductive TakeAt (w : Nat) where
  | idle
  | started (room : Nat) (head : BitVec w)
  | found (room : Nat) (head : BitVec w)
  | flagged (head : BitVec w)
  | clear (room : Nat) (head : BitVec w)
  | fitting (head : BitVec w) (len : Nat)
  | copied (head : BitVec w) (payload : List UInt8)
  | numbered (head : BitVec w) (payload : List UInt8) (seq : Int)
  | popping (head : BitVec w) (outcome : TakeOutcome)
  deriving DecidableEq

inductive InboxEvent where
  | query (request : Request)
  | callback
  | take (room : Nat)
  | consumer
  deriving DecidableEq

/-- The buffer and its two parties, with a record of the requests that arrived, were dropped at a
full ring and were published, of what every pop came to, and for every take that found nothing of
how many requests were queued then. -/
structure InboxRun (w d : Nat) where
  buffer : ServiceBuffer w d
  callback : CallbackAt w
  take : TakeAt w
  arrived : Nat
  fullDrops : Nat
  stored : List Request
  outcomes : List TakeOutcome
  empties : List Nat

/-- One store of `store` to its slot. -/
def storeField (slotBytes : Nat) (request : Request) (stage : StoreStage) (slot : InboxEntry) :
    InboxEntry :=
  match stage with
  | .seq => { slot with seq := request.seq }
  | .recvNs => { slot with recvNs := request.recvNs }
  | .overflow => { slot with overflow := decide (slotBytes < request.payload.length) }
  | .payload =>
    if slotBytes < request.payload.length then slot
    else { slot with data := request.payload ++ slot.data.drop request.payload.length }
  | .len => { slot with len := request.payload.length }
  | .drops | .tail => slot

def StoreStage.next : StoreStage → StoreStage
  | .seq => .recvNs
  | .recvNs => .overflow
  | .overflow => .payload
  | .payload => .len
  | .len => .drops
  | .drops | .tail => .tail

def overflowLen (slotBytes : Nat) (request : Request) : Option Nat :=
  if slotBytes < request.payload.length then some request.payload.length else none

namespace InboxRun

variable {w d : Nat} [NeZero d]

def start (slots : Fin d → InboxEntry) : InboxRun w d :=
  ⟨⟨slots, 0, 0, .new⟩, .idle, .idle, 0, 0, [], [], []⟩

def queued (s : InboxRun w d) : Nat := s.stored.length - s.outcomes.length

/-- A step of the callback that has a request in its hands. -/
def callbackStep (slotBytes : Nat) (s : InboxRun w d) : Option (InboxRun w d) :=
  match s.callback with
  | .idle => none
  | .admitting request head =>
    if d ≤ (s.buffer.tail - head).toNat then
      some { s with
        buffer := { s.buffer with drops := s.buffer.drops.onRingFull }
        callback := .idle
        fullDrops := s.fullDrops + 1 }
    else some { s with callback := .storing request s.buffer.tail .seq }
  | .storing request tail .drops =>
    some { s with
      buffer := { s.buffer with drops := s.buffer.drops.onStored (overflowLen slotBytes request) }
      callback := .storing request tail .tail }
  | .storing request tail .tail =>
    some { s with
      buffer := { s.buffer with tail := tail + 1 }
      callback := .idle
      stored := s.stored ++ [request] }
  | .storing request tail stage =>
    some { s with
      buffer := s.buffer.modifySlot (slotIndex d tail) (storeField slotBytes request stage)
      callback := .storing request tail stage.next }

def consumerStep (s : InboxRun w d) : Option (InboxRun w d) :=
  match s.take with
  | .idle => none
  | .started room head =>
    if head = s.buffer.tail then
      some { s with take := .idle, empties := s.empties ++ [s.queued] }
    else some { s with take := .found room head }
  | .found room head =>
    if (s.buffer.slots (slotIndex d head)).overflow then some { s with take := .flagged head }
    else some { s with take := .clear room head }
  | .flagged head =>
    some { s with
      take := .popping head (.messageTooLarge (s.buffer.slots (slotIndex d head)).len) }
  | .clear room head =>
    let len := (s.buffer.slots (slotIndex d head)).len
    if room < len then some { s with take := .popping head (.bufferTooSmall room len) }
    else some { s with take := .fitting head len }
  | .fitting head len =>
    some { s with take := .copied head ((s.buffer.slots (slotIndex d head)).data.take len) }
  | .copied head payload =>
    some { s with take := .numbered head payload (s.buffer.slots (slotIndex d head)).seq }
  | .numbered head payload seq =>
    some { s with
      take := .popping head (.taken payload seq (s.buffer.slots (slotIndex d head)).recvNs) }
  | .popping head outcome =>
    some { s with
      buffer := { s.buffer with head := head + 1 }
      take := .idle
      outcomes := s.outcomes ++ [outcome] }

/-- A query without a payload is no request: the callback returns before `admit`. -/
def step (slotBytes : Nat) (s : InboxRun w d) : InboxEvent → Option (InboxRun w d)
  | .query request =>
    match s.callback with
    | .idle =>
      if request.payload = [] then some s
      else some { s with
        callback := .admitting request s.buffer.head
        arrived := s.arrived + 1 }
    | _ => none
  | .callback => s.callbackStep slotBytes
  | .take room =>
    match s.take with
    | .idle => some { s with take := .started room s.buffer.head }
    | _ => none
  | .consumer => s.consumerStep

end InboxRun

/-- What may become of a request: too large for its slot, or taken as it came, or refused by a take
whose buffer is shorter than it. -/
def Settles (slotBytes : Nat) (request : Request) : TakeOutcome → Prop
  | .taken payload seq recvNs =>
    request.payload.length ≤ slotBytes ∧ payload = request.payload ∧ seq = request.seq ∧
      recvNs = request.recvNs
  | .messageTooLarge len => slotBytes < request.payload.length ∧ len = request.payload.length
  | .bufferTooSmall room len =>
    request.payload.length ≤ slotBytes ∧ len = request.payload.length ∧ room < len

def TakeOutcome.isTaken : TakeOutcome → Bool
  | .taken _ _ _ => true
  | _ => false

def TakeOutcome.isTooLarge : TakeOutcome → Bool
  | .messageTooLarge _ => true
  | _ => false

def TakeOutcome.isTooSmall : TakeOutcome → Bool
  | .bufferTooSmall _ _ => true
  | _ => false

def oversize (slotBytes : Nat) (requests : List Request) : Nat :=
  requests.countP fun request => slotBytes < request.payload.length

namespace CallbackAt

variable {w : Nat}

/-- The request in the callback's hands, once it is admitted; and once the drops count it. -/
def admitted : CallbackAt w → List Request
  | .storing request _ _ => [request]
  | _ => []

def counted : CallbackAt w → List Request
  | .storing request _ .tail => [request]
  | _ => []

def inHand : CallbackAt w → Nat
  | .idle => 0
  | _ => 1

end CallbackAt

/-- The head a take reads the slot of, from the check that something is queued to the pop. -/
def TakeAt.reading {w : Nat} : TakeAt w → Option (BitVec w)
  | .idle | .started _ _ => none
  | .found _ head | .flagged head | .clear _ head | .fitting head _ | .copied head _
  | .numbered head _ _ | .popping head _ => some head

namespace InboxRun

variable {w d : Nat}

/-- Every request admitted so far has the slot of its own position. -/
def Synced (s : InboxRun w d) : Prop :=
  d ∣ 2 ^ w ∨ (s.stored ++ s.callback.admitted).length ≤ 2 ^ w

/-- Nothing is lost from the count, and both drop counters are right. -/
structure Accounted (slotBytes : Nat) (s : InboxRun w d) : Prop where
  bounded : s.outcomes.length ≤ s.stored.length ∧ s.queued ≤ d
  arrived : s.arrived = s.outcomes.countP TakeOutcome.isTaken +
    s.outcomes.countP TakeOutcome.isTooLarge + s.outcomes.countP TakeOutcome.isTooSmall +
    s.queued + s.fullDrops + s.callback.inHand
  ringFull : s.buffer.drops.ringFull = BitVec.ofNat w s.fullDrops
  overflow : s.buffer.drops.overflow =
    BitVec.ofNat w (oversize slotBytes (s.stored ++ s.callback.counted))
  empties : ∀ held ∈ s.empties, held = 0

/-- The pops answer the stored requests one by one, and no queued request's slot is written. -/
structure Fifo [NeZero d] (slotBytes : Nat) (s : InboxRun w d) : Prop where
  settled : ∀ (i : Nat) request outcome, s.stored[i]? = some request → s.outcomes[i]? = some outcome →
    Settles slotBytes request outcome
  apart : ∀ request tail stage, s.callback = .storing request tail stage →
    ∀ position, s.outcomes.length ≤ position → position < s.stored.length →
      slotIndex d (BitVec.ofNat w position) ≠ slotIndex d tail

/-- Where the two parties stand between the counters, and what was counted. -/
structure Base (slotBytes : Nat) (s : InboxRun w d) : Prop where
  head : s.buffer.head = BitVec.ofNat w s.outcomes.length
  tail : s.buffer.tail = BitVec.ofNat w s.stored.length
  order : s.outcomes.length ≤ s.stored.length
  near : s.stored.length ≤ s.outcomes.length + d
  admitting : ∀ request head, s.callback = .admitting request head →
    ∃ loaded ≤ s.outcomes.length, head = BitVec.ofNat w loaded ∧ s.stored.length ≤ loaded + d
  storing : ∀ request tail stage, s.callback = .storing request tail stage →
    tail = s.buffer.tail ∧ s.stored.length < s.outcomes.length + d
  started : ∀ room head, s.take = .started room head → head = s.buffer.head
  reading : ∀ head, s.take.reading = some head →
    head = s.buffer.head ∧ s.outcomes.length < s.stored.length
  arrived : s.arrived = s.stored.length + s.fullDrops + s.callback.inHand
  ringFull : s.buffer.drops.ringFull = BitVec.ofNat w s.fullDrops
  overflow : s.buffer.drops.overflow =
    BitVec.ofNat w (oversize slotBytes (s.stored ++ s.callback.counted))
  empties : ∀ held ∈ s.empties, held = 0

variable {slotBytes : Nat} {s next : InboxRun w d}

theorem base_start (slots : Fin d → InboxEntry) : Base slotBytes (start slots : InboxRun w d) where
  head := rfl
  tail := rfl
  order := le_rfl
  near := Nat.zero_le _
  admitting := fun _ _ at_ => by cases at_
  storing := fun _ _ _ at_ => by cases at_
  started := fun _ _ at_ => by cases at_
  reading := fun _ at_ => by cases at_
  arrived := rfl
  ringFull := rfl
  overflow := rfl
  empties := fun _ member => absurd member List.not_mem_nil

variable {head : BitVec w} {request : Request} {tail : BitVec w} {stage : StoreStage}

theorem Base.read {take : TakeAt w} (base : Base slotBytes s) (reading : s.take.reading = some head)
    (goesOn : take.reading = some head) :
    Base slotBytes { s with take := take } :=
  { base with
    started := by
      rintro room other rfl
      cases goesOn
    reading := by
      intro other entered
      rw [goesOn] at entered
      cases entered
      exact base.reading head reading }

theorem length_outcomes (outcomes : List TakeOutcome) :
    outcomes.length = outcomes.countP TakeOutcome.isTaken +
      outcomes.countP TakeOutcome.isTooLarge + outcomes.countP TakeOutcome.isTooSmall := by
  induction outcomes with
  | nil => rfl
  | cons outcome rest ih =>
    rw [List.length_cons, List.countP_cons, List.countP_cons, List.countP_cons, ih]
    cases outcome <;> simp only [TakeOutcome.isTaken, TakeOutcome.isTooLarge,
      TakeOutcome.isTooSmall, if_true, Bool.false_eq_true, if_false] <;> omega

theorem Base.accounted (base : Base slotBytes s) : Accounted slotBytes s where
  bounded := by
    have order := base.order
    have near := base.near
    exact ⟨order, by rw [queued]; omega⟩
  arrived := by
    have order := base.order
    rw [base.arrived, ← length_outcomes, queued]
    omega
  ringFull := base.ringFull
  overflow := base.overflow
  empties := base.empties

variable [NeZero d]

theorem base_query (base : Base slotBytes s)
    (stepped : s.step slotBytes (.query request) = some next) : Base slotBytes next := by
  cases at_ : s.callback <;> simp only [step, at_, reduceCtorEq] at stepped
  split at stepped
  · cases stepped
    exact base
  · cases stepped
    have arrived := base.arrived
    have overflow := base.overflow
    rw [at_] at arrived overflow
    exact { base with
      admitting := by
        rintro other head ⟨-, rfl⟩
        exact ⟨s.outcomes.length, le_rfl, base.head, base.near⟩
      storing := fun _ _ _ entered => by cases entered
      arrived := congrArg (· + 1) arrived
      overflow := overflow }

theorem base_admit (small : d < 2 ^ w) (base : Base slotBytes s)
    (at_ : s.callback = .admitting request head) (stepped : s.callbackStep slotBytes = some next) :
    Base slotBytes next := by
  have arrived := base.arrived
  have overflow := base.overflow
  obtain ⟨loaded, behind, rfl, near⟩ := base.admitting request head at_
  rw [at_] at arrived overflow
  simp only [callbackStep, at_] at stepped
  split at stepped
  case isTrue full =>
    cases stepped
    exact { base with
      admitting := fun _ _ entered => by cases entered
      storing := fun _ _ _ entered => by cases entered
      arrived := by
        change s.arrived = s.stored.length + (s.fullDrops + 1) + 0
        rw [arrived]
        rfl
      ringFull := by
        change s.buffer.drops.ringFull + 1 = _
        rw [base.ringFull, BitVec.ofNat_add]
        rfl
      overflow := overflow }
  case isFalse room =>
    cases stepped
    exact { base with
      admitting := fun _ _ entered => by cases entered
      storing := by
        rintro other tail stage ⟨-, rfl, -⟩
        have order := behind.trans base.order
        rw [base.tail, toNat_sub_ofNat order (by omega)] at room
        exact ⟨rfl, by change s.stored.length < s.outcomes.length + d; omega⟩
      arrived := arrived
      overflow := overflow }

theorem oversize_append (slotBytes : Nat) (a b : List Request) :
    oversize slotBytes (a ++ b) = oversize slotBytes a + oversize slotBytes b :=
  List.countP_append

theorem overflow_onStored (drops : InboxDrops w) (slotBytes : Nat) (request : Request) :
    (drops.onStored (overflowLen slotBytes request)).overflow =
      drops.overflow + BitVec.ofNat w (oversize slotBytes [request]) := by
  rw [overflowLen, oversize]
  by_cases long : slotBytes < request.payload.length
  · simp [long, InboxDrops.onStored]
  · simp [long, InboxDrops.onStored]

theorem ringFull_onStored (drops : InboxDrops w) (len : Option Nat) :
    (drops.onStored len).ringFull = drops.ringFull := by
  cases len <;> rfl

theorem base_storing (base : Base slotBytes s) (at_ : s.callback = .storing request tail stage)
    (stepped : s.callbackStep slotBytes = some next) : Base slotBytes next := by
  have arrived := base.arrived
  have overflow := base.overflow
  obtain ⟨rfl, room⟩ := base.storing request tail stage at_
  rw [at_] at arrived overflow
  cases stage with
  | drops =>
    change s.buffer.drops.overflow = BitVec.ofNat w (oversize slotBytes (s.stored ++ []))
      at overflow
    rw [List.append_nil] at overflow
    simp only [callbackStep, at_, Option.some.injEq] at stepped
    subst stepped
    exact { base with
      admitting := fun _ _ entered => by cases entered
      storing := by
        rintro _ _ _ ⟨⟩
        exact ⟨rfl, room⟩
      arrived := arrived
      ringFull := (ringFull_onStored _ _).trans base.ringFull
      overflow := by
        change (s.buffer.drops.onStored _).overflow = BitVec.ofNat w (oversize slotBytes
          (s.stored ++ [request]))
        rw [overflow_onStored, overflow, oversize_append, BitVec.ofNat_add] }
  | tail =>
    simp only [callbackStep, at_, Option.some.injEq] at stepped
    subst stepped
    exact {
      head := base.head
      tail := by
        change s.buffer.tail + 1 = BitVec.ofNat w (s.stored ++ [request]).length
        rw [base.tail, List.length_append, List.length_singleton, BitVec.ofNat_add]
        rfl
      order := base.order.trans (by simp)
      near := by
        rw [List.length_append, List.length_singleton]
        exact room
      admitting := fun _ _ entered => by cases entered
      storing := fun _ _ _ entered => by cases entered
      started := base.started
      reading := fun head entered =>
        ⟨(base.reading head entered).1, (base.reading head entered).2.trans_le (by simp)⟩
      arrived := by
        change s.arrived = (s.stored ++ [request]).length + s.fullDrops + 0
        rw [arrived, List.length_append, List.length_singleton]
        change s.stored.length + s.fullDrops + 1 = _
        omega
      ringFull := base.ringFull
      overflow := by
        change s.buffer.drops.overflow = BitVec.ofNat w (oversize slotBytes
          (s.stored ++ [request] ++ []))
        rw [List.append_nil]
        exact overflow
      empties := base.empties }
  | seq | recvNs | overflow | payload | len =>
    simp only [callbackStep, at_, Option.some.injEq] at stepped
    subst stepped
    exact { base with
      admitting := fun _ _ entered => by cases entered
      storing := by
        rintro _ _ _ ⟨⟩
        exact ⟨rfl, room⟩
      arrived := arrived
      overflow := overflow }

theorem base_consumer (small : d < 2 ^ w) (base : Base slotBytes s)
    (stepped : s.consumerStep = some next) : Base slotBytes next := by
  cases at_ : s.take with
  | idle => simp only [consumerStep, at_, reduceCtorEq] at stepped
  | started room head =>
    have loaded := base.started room head at_
    have gap := base.near
    have order := base.order
    simp only [consumerStep, at_] at stepped
    rw [loaded, base.head, base.tail] at stepped
    split at stepped
    case isTrue same =>
      cases stepped
      have none := (ofNat_eq_iff order (by omega)).mp same
      exact { base with
        started := fun _ _ entered => by cases entered
        reading := fun _ entered => by cases entered
        empties := by
          intro held member
          obtain earlier | now := List.mem_append.mp member
          · exact base.empties held earlier
          · rw [List.mem_singleton.mp now, queued]
            omega }
    case isFalse apart =>
      cases stepped
      have some' : s.outcomes.length ≠ s.stored.length := fun same => apart (by rw [same])
      exact { base with
        started := fun _ _ entered => by cases entered
        reading := by
          rintro _ ⟨⟩
          exact ⟨base.head.symm, by change s.outcomes.length < s.stored.length; omega⟩ }
  | found room head | clear room head =>
    have reading : s.take.reading = some head := by rw [at_]; rfl
    simp only [consumerStep, at_] at stepped
    split at stepped <;> cases stepped <;> exact base.read reading rfl
  | flagged head | fitting head len | copied head payload | numbered head payload seq =>
    have reading : s.take.reading = some head := by rw [at_]; rfl
    simp only [consumerStep, at_] at stepped
    cases stepped
    exact base.read reading rfl
  | popping head outcome =>
    obtain ⟨loaded, some'⟩ := base.reading head (by rw [at_]; rfl)
    simp only [consumerStep, at_] at stepped
    cases stepped
    have one : (s.outcomes ++ [outcome]).length = s.outcomes.length + 1 := by simp
    exact {
      head := by
        change head + 1 = BitVec.ofNat w (s.outcomes ++ [outcome]).length
        rw [loaded, base.head, one, BitVec.ofNat_add]
        rfl
      tail := base.tail
      order := by rw [one]; exact some'
      near := by
        rw [one]
        have near := base.near
        change s.stored.length ≤ _
        omega
      admitting := by
        intro request head' entered
        obtain ⟨seen, behind, same, near⟩ := base.admitting request head' entered
        exact ⟨seen, by rw [one]; omega, same, near⟩
      storing := by
        intro request tail stage entered
        obtain ⟨same, room⟩ := base.storing request tail stage entered
        exact ⟨same, by rw [one]; change s.stored.length < _; omega⟩
      started := fun _ _ entered => by cases entered
      reading := fun _ entered => by cases entered
      arrived := base.arrived
      ringFull := base.ringFull
      overflow := base.overflow
      empties := base.empties }

theorem base_step (small : d < 2 ^ w) (event : InboxEvent) (base : Base slotBytes s)
    (stepped : s.step slotBytes event = some next) : Base slotBytes next := by
  cases event with
  | query request => exact base_query base stepped
  | callback =>
    cases at_ : s.callback with
    | idle => simp only [step, callbackStep, at_, reduceCtorEq] at stepped
    | admitting request head => exact base_admit small base at_ stepped
    | storing request tail stage => exact base_storing base at_ stepped
  | take room =>
    cases at_ : s.take <;> simp only [step, at_, reduceCtorEq] at stepped
    cases stepped
    exact { base with
      started := by
        rintro _ _ ⟨⟩
        rfl
      reading := fun _ entered => by cases entered }
  | consumer => exact base_consumer small base stepped

/-! What the slots hold, as long as every position has its own slot. -/

/-- The slot holds the whole request. -/
structure Holds (slotBytes : Nat) (request : Request) (slot : InboxEntry) : Prop where
  seq : slot.seq = request.seq
  recvNs : slot.recvNs = request.recvNs
  overflow : slot.overflow = decide (slotBytes < request.payload.length)
  payload : request.payload.length ≤ slotBytes →
    slot.data.take request.payload.length = request.payload
  len : slot.len = request.payload.length

/-- What the stores before this one have left in the slot. -/
def Written (slotBytes : Nat) (request : Request) (slot : InboxEntry) : StoreStage → Prop
  | .seq => True
  | .recvNs => slot.seq = request.seq
  | .overflow => slot.seq = request.seq ∧ slot.recvNs = request.recvNs
  | .payload => slot.seq = request.seq ∧ slot.recvNs = request.recvNs ∧
      slot.overflow = decide (slotBytes < request.payload.length)
  | .len => slot.seq = request.seq ∧ slot.recvNs = request.recvNs ∧
      slot.overflow = decide (slotBytes < request.payload.length) ∧
      (request.payload.length ≤ slotBytes → slot.data.take request.payload.length = request.payload)
  | .drops | .tail => Holds slotBytes request slot

theorem written_next (slotBytes : Nat) (request : Request) (slot : InboxEntry)
    (stage : StoreStage) (written : Written slotBytes request slot stage) :
    Written slotBytes request (storeField slotBytes request stage slot) stage.next := by
  cases stage with
  | seq => rfl
  | recvNs => exact ⟨written, rfl⟩
  | overflow => exact ⟨written.1, written.2, rfl⟩
  | payload =>
    obtain ⟨seq, recvNs, overflow⟩ := written
    by_cases long : slotBytes < request.payload.length
    · rw [storeField, if_pos long]
      exact ⟨seq, recvNs, overflow, fun fits => absurd fits (Nat.not_le.mpr long)⟩
    · rw [storeField, if_neg long]
      exact ⟨seq, recvNs, overflow, fun _ => List.take_left⟩
  | len =>
    obtain ⟨seq, recvNs, overflow, payload⟩ := written
    exact ⟨seq, recvNs, overflow, payload, rfl⟩
  | drops => exact written
  | tail => exact written

/-- What a take knows of the request it reads, by how far it is. -/
def ReadSoFar (slotBytes : Nat) (request : Request) : TakeAt w → Prop
  | .idle | .started _ _ | .found _ _ => True
  | .flagged _ => slotBytes < request.payload.length
  | .clear _ _ => request.payload.length ≤ slotBytes
  | .fitting _ len => request.payload.length ≤ slotBytes ∧ len = request.payload.length
  | .copied _ payload => request.payload.length ≤ slotBytes ∧ payload = request.payload
  | .numbered _ payload seq =>
    request.payload.length ≤ slotBytes ∧ payload = request.payload ∧ seq = request.seq
  | .popping _ outcome => Settles slotBytes request outcome

structure Content (slotBytes : Nat) (s : InboxRun w d) : Prop where
  cells : ∀ (position : Nat) request, s.outcomes.length ≤ position →
    s.stored[position]? = some request →
    Holds slotBytes request (s.buffer.slots (slotIndex d (BitVec.ofNat w position)))
  settled : ∀ (i : Nat) request outcome, s.stored[i]? = some request →
    s.outcomes[i]? = some outcome → Settles slotBytes request outcome
  writing : ∀ request tail stage, s.callback = .storing request tail stage →
    Written slotBytes request (s.buffer.slots (slotIndex d tail)) stage
  reading : ∀ request, s.stored[s.outcomes.length]? = some request →
    ReadSoFar slotBytes request s.take

theorem content_start (slots : Fin d → InboxEntry) :
    Content slotBytes (start slots : InboxRun w d) where
  cells := fun _ _ _ listed => by cases listed
  settled := fun _ _ _ listed => by cases listed
  writing := fun _ _ _ at_ => by cases at_
  reading := fun _ _ => trivial

theorem apart_of_storing (base : Base slotBytes s) (synced : s.Synced)
    (at_ : s.callback = .storing request tail stage) {position : Nat}
    (queued : s.outcomes.length ≤ position) (inside : position < s.stored.length) :
    slotIndex d (BitVec.ofNat w position) ≠ slotIndex d tail := by
  obtain ⟨rfl, room⟩ := base.storing request tail stage at_
  have inStep : InStep w d s.stored.length := by
    rw [Synced, at_] at synced
    obtain divides | few := synced
    · exact .inl divides
    · apply Or.inr
      simpa [CallbackAt.admitted] using few
  rw [base.tail]
  exact slotIndex_ne inStep inside (by omega)

theorem Content.modifySlot {later : StoreStage} (content : Content slotBytes s)
    (base : Base slotBytes s) (synced : s.Synced) (at_ : s.callback = .storing request tail stage)
    (f : InboxEntry → InboxEntry)
    (written : Written slotBytes request (f (s.buffer.slots (slotIndex d tail))) later) :
    Content slotBytes { s with
      buffer := s.buffer.modifySlot (slotIndex d tail) f
      callback := .storing request tail later } :=
  { content with
    cells := by
      intro position other queued listed
      obtain ⟨inside, -⟩ := List.getElem?_eq_some_iff.mp listed
      have apart := apart_of_storing base synced at_ queued inside
      change Holds slotBytes other ((s.buffer.modifySlot (slotIndex d tail) f).slots _)
      rw [s.buffer.slots_modifySlot_of_ne apart]
      exact content.cells position other queued listed
    writing := by
      rintro _ _ _ ⟨⟩
      change Written slotBytes request ((s.buffer.modifySlot (slotIndex d tail) f).slots _) later
      rw [s.buffer.slots_modifySlot_self]
      exact written }

theorem Content.publish (content : Content slotBytes s) (base : Base slotBytes s)
    (at_ : s.callback = .storing request tail .tail) :
    Content slotBytes { s with
      buffer := { s.buffer with tail := tail + 1 }
      callback := .idle
      stored := s.stored ++ [request] } := by
  have written := content.writing request tail .tail at_
  have order := base.order
  rw [(base.storing request tail .tail at_).1, base.tail] at written
  exact {
    cells := by
      intro position other queued listed
      by_cases before : position < s.stored.length
      · rw [List.getElem?_append_left before] at listed
        exact content.cells position other queued listed
      · rw [List.getElem?_append_right (by omega), List.getElem?_singleton] at listed
        split at listed
        · cases listed
          obtain rfl : position = s.stored.length := by omega
          exact written
        · cases listed
    settled := by
      intro i other outcome listed settled
      obtain ⟨popped, -⟩ := List.getElem?_eq_some_iff.mp settled
      have inside : i < s.stored.length := Nat.lt_of_lt_of_le popped order
      rw [List.getElem?_append_left inside] at listed
      exact content.settled i other outcome listed settled
    writing := fun _ _ _ entered => by cases entered
    reading := by
      intro other listed
      by_cases queued : s.outcomes.length < s.stored.length
      · rw [List.getElem?_append_left queued] at listed
        exact content.reading other listed
      · have nothing : s.take.reading = none := by
          by_contra busy
          obtain ⟨head, reading⟩ := Option.ne_none_iff_exists'.mp busy
          exact queued (base.reading head reading).2
        cases at' : s.take <;> rw [at'] at nothing <;> trivial }

theorem content_storing (base : Base slotBytes s) (synced : s.Synced)
    (content : Content slotBytes s) (at_ : s.callback = .storing request tail stage)
    (stepped : s.callbackStep slotBytes = some next) : Content slotBytes next := by
  have written := content.writing request tail stage at_
  have later := written_next slotBytes request _ stage written
  cases stage with
  | drops =>
    simp only [callbackStep, at_, Option.some.injEq] at stepped
    subst stepped
    exact { content with
      writing := by
        rintro _ _ _ ⟨⟩
        exact written }
  | tail =>
    simp only [callbackStep, at_, Option.some.injEq] at stepped
    subst stepped
    exact content.publish base at_
  | seq | recvNs | overflow | payload | len =>
    simp only [callbackStep, at_, Option.some.injEq] at stepped
    subst stepped
    exact content.modifySlot base synced at_ _ later

theorem Content.front (content : Content slotBytes s) (base : Base slotBytes s)
    (reading : s.take.reading = some head) (request : Request)
    (listed : s.stored[s.outcomes.length]? = some request) :
    Holds slotBytes request (s.buffer.slots (slotIndex d head)) := by
  rw [(base.reading head reading).1, base.head]
  exact content.cells s.outcomes.length request le_rfl listed

theorem Content.pop {outcome : TakeOutcome} (content : Content slotBytes s)
    (at_ : s.take = .popping head outcome) :
    Content slotBytes { s with
      buffer := { s.buffer with head := head + 1 }
      take := .idle
      outcomes := s.outcomes ++ [outcome] } where
  cells := by
    intro position request queued listed
    have later : s.outcomes.length ≤ position := Nat.le_trans (by simp) queued
    exact content.cells position request later listed
  settled := by
    intro i request other listed settled
    by_cases before : i < s.outcomes.length
    · rw [List.getElem?_append_left before] at settled
      exact content.settled i request other listed settled
    · rw [List.getElem?_append_right (by omega), List.getElem?_singleton] at settled
      split at settled
      · cases settled
        obtain rfl : i = s.outcomes.length := by omega
        have read := content.reading request listed
        rw [at_] at read
        exact read
      · cases settled
  writing := content.writing
  reading := fun _ _ => trivial

theorem content_consumer (base : Base slotBytes s) (content : Content slotBytes s)
    (stepped : s.consumerStep = some next) : Content slotBytes next := by
  have read := content.reading
  cases at_ : s.take with
  | idle => simp only [consumerStep, at_, reduceCtorEq] at stepped
  | started room head =>
    simp only [consumerStep, at_] at stepped
    split at stepped <;> cases stepped <;>
      exact { content with reading := fun _ _ => trivial }
  | found room head =>
    have reading : s.take.reading = some head := by rw [at_]; rfl
    have front := content.front base reading
    simp only [consumerStep, at_] at stepped
    split at stepped
    case isTrue flag =>
      cases stepped
      exact { content with
        reading := by
          intro request listed
          rw [(front request listed).overflow] at flag
          have long := of_decide_eq_true flag
          exact long }
    case isFalse flag =>
      cases stepped
      exact { content with
        reading := by
          intro request listed
          rw [(front request listed).overflow, decide_eq_true_eq] at flag
          exact Nat.not_lt.mp flag }
  | flagged head =>
    rw [at_] at read
    have reading : s.take.reading = some head := by rw [at_]; rfl
    have front := content.front base reading
    simp only [consumerStep, at_] at stepped
    cases stepped
    exact { content with
      reading := fun request listed => ⟨read request listed, (front request listed).len⟩ }
  | clear room head =>
    rw [at_] at read
    have reading : s.take.reading = some head := by rw [at_]; rfl
    have front := content.front base reading
    simp only [consumerStep, at_] at stepped
    split at stepped
    case isTrue short =>
      cases stepped
      exact { content with
        reading := fun request listed =>
          ⟨read request listed, (front request listed).len, short⟩ }
    case isFalse =>
      cases stepped
      exact { content with
        reading := fun request listed => ⟨read request listed, (front request listed).len⟩ }
  | fitting head len =>
    rw [at_] at read
    have reading : s.take.reading = some head := by rw [at_]; rfl
    have front := content.front base reading
    simp only [consumerStep, at_] at stepped
    cases stepped
    exact { content with
      reading := by
        intro request listed
        obtain ⟨fits, rfl⟩ := read request listed
        exact ⟨fits, (front request listed).payload fits⟩ }
  | copied head payload =>
    rw [at_] at read
    have reading : s.take.reading = some head := by rw [at_]; rfl
    have front := content.front base reading
    simp only [consumerStep, at_] at stepped
    cases stepped
    exact { content with
      reading := fun request listed =>
        ⟨(read request listed).1, (read request listed).2, (front request listed).seq⟩ }
  | numbered head payload seq =>
    rw [at_] at read
    have reading : s.take.reading = some head := by rw [at_]; rfl
    have front := content.front base reading
    simp only [consumerStep, at_] at stepped
    cases stepped
    exact { content with
      reading := fun request listed =>
        ⟨(read request listed).1, (read request listed).2.1, (read request listed).2.2,
          (front request listed).recvNs⟩ }
  | popping head outcome =>
    simp only [consumerStep, at_] at stepped
    cases stepped
    exact content.pop at_

theorem content_step (event : InboxEvent) (base : Base slotBytes s) (synced : s.Synced)
    (content : Content slotBytes s) (stepped : s.step slotBytes event = some next) :
    Content slotBytes next := by
  cases event with
  | query request =>
    cases at_ : s.callback <;> simp only [step, at_, reduceCtorEq] at stepped
    split at stepped
    · cases stepped
      exact content
    · cases stepped
      exact { content with writing := fun _ _ _ entered => by cases entered }
  | callback =>
    cases at_ : s.callback with
    | idle => simp only [step, callbackStep, at_, reduceCtorEq] at stepped
    | admitting request head =>
      simp only [step, callbackStep, at_] at stepped
      split at stepped
      · cases stepped
        exact { content with writing := fun _ _ _ entered => by cases entered }
      · cases stepped
        exact { content with
          writing := by
            rintro _ _ _ ⟨⟩
            trivial }
    | storing request tail stage => exact content_storing base synced content at_ stepped
  | take room =>
    cases at_ : s.take <;> simp only [step, at_, reduceCtorEq] at stepped
    cases stepped
    exact { content with reading := fun _ _ => trivial }
  | consumer => exact content_consumer base content stepped

theorem consumerStep_frame (stepped : s.consumerStep = some next) :
    next.stored = s.stored ∧ next.callback = s.callback := by
  cases at_ : s.take <;> simp only [consumerStep, at_, reduceCtorEq] at stepped
  case started | found | clear =>
    split at stepped <;> cases stepped <;> exact ⟨rfl, rfl⟩
  all_goals
    cases stepped
    exact ⟨rfl, rfl⟩

theorem admitted_mono (event : InboxEvent) (stepped : s.step slotBytes event = some next) :
    (s.stored ++ s.callback.admitted).length ≤ (next.stored ++ next.callback.admitted).length := by
  rw [List.length_append, List.length_append]
  cases event with
  | query request =>
    cases at_ : s.callback <;> simp only [step, at_, reduceCtorEq] at stepped
    split at stepped <;> cases stepped <;> simp [CallbackAt.admitted]
  | callback =>
    cases at_ : s.callback with
    | idle => simp only [step, callbackStep, at_, reduceCtorEq] at stepped
    | admitting request head =>
      simp only [step, callbackStep, at_] at stepped
      split at stepped <;> cases stepped <;> simp [CallbackAt.admitted]
    | storing request tail stage =>
      cases stage <;> simp only [step, callbackStep, at_, Option.some.injEq] at stepped <;>
        subst stepped <;> simp [CallbackAt.admitted]
  | take room =>
    cases at_ : s.take <;> simp only [step, at_, reduceCtorEq] at stepped
    cases stepped
    exact le_rfl
  | consumer =>
    obtain ⟨stored, callback⟩ := consumerStep_frame stepped
    rw [stored, callback]

theorem Content.fifo (content : Content slotBytes s) (base : Base slotBytes s)
    (synced : s.Synced) : Fifo slotBytes s where
  settled := content.settled
  apart := fun _ _ _ at_ _ queued inside => apart_of_storing base synced at_ queued inside

/-! A take that begins with something queued pops it. -/

/-- The consumer's own next steps end the take with one more outcome. -/
def Pops (slotBytes : Nat) (s : InboxRun w d) : Prop :=
  ∃ n last, run (step slotBytes) s (List.replicate n .consumer) = some last ∧
    last.take = .idle ∧ last.outcomes.length = s.outcomes.length + 1

theorem Pops.before (pops : Pops slotBytes next) (stepped : s.consumerStep = some next)
    (same : next.outcomes = s.outcomes) : Pops slotBytes s := by
  obtain ⟨n, last, reached, idle, longer⟩ := pops
  refine ⟨n + 1, last, ?_, idle, by rw [longer, same]⟩
  rw [List.replicate_succ, run]
  exact Option.bind_eq_some_iff.mpr ⟨next, stepped, reached⟩

variable (s)

theorem pops_of_popping (head : BitVec w) (outcome : TakeOutcome) :
    Pops slotBytes { s with take := .popping head outcome } :=
  ⟨1, _, rfl, rfl, by simp⟩

theorem pops_of_flagged (head : BitVec w) :
    Pops slotBytes { s with take := .flagged head } :=
  ⟨2, _, rfl, rfl, by simp⟩

theorem pops_of_fitting (head : BitVec w) (len : Nat) :
    Pops slotBytes { s with take := .fitting head len } :=
  ⟨4, _, rfl, rfl, by simp⟩

theorem pops_of_clear (room : Nat) (head : BitVec w) :
    Pops slotBytes { s with take := .clear room head } := by
  by_cases short : room < (s.buffer.slots (slotIndex d head)).len
  · have stepped : consumerStep { s with take := .clear room head } = some { s with
        take := .popping head
          (.bufferTooSmall room (s.buffer.slots (slotIndex d head)).len) } := if_pos short
    exact (pops_of_popping s head _).before stepped rfl
  · have stepped : consumerStep { s with take := .clear room head } = some { s with
        take := .fitting head (s.buffer.slots (slotIndex d head)).len } := if_neg short
    exact (pops_of_fitting s head _).before stepped rfl

theorem pops_of_found (room : Nat) (head : BitVec w) :
    Pops slotBytes { s with take := .found room head } := by
  by_cases flag : (s.buffer.slots (slotIndex d head)).overflow = true
  · have stepped : consumerStep { s with take := .found room head } = some { s with
        take := .flagged head } := if_pos flag
    exact (pops_of_flagged s head).before stepped rfl
  · have stepped : consumerStep { s with take := .found room head } = some { s with
        take := .clear room head } := if_neg flag
    exact (pops_of_clear s room head).before stepped rfl

variable {s}

theorem take_pops (small : d < 2 ^ w) (base : Base slotBytes s) (idle : s.take = .idle)
    (some' : 0 < s.queued) (room : Nat) :
    ∃ n last, run (step slotBytes) s (.take room :: List.replicate n .consumer) = some last ∧
      last.take = .idle ∧ last.outcomes.length = s.outcomes.length + 1 := by
  have order := base.order
  have near := base.near
  rw [queued] at some'
  have apart : s.buffer.head ≠ s.buffer.tail := by
    rw [base.head, base.tail]
    intro same
    have none := (ofNat_eq_iff order (by omega)).mp same
    omega
  have begun : s.step slotBytes (.take room) =
      some { s with take := .started room s.buffer.head } := by simp only [step, idle]
  have stepped : consumerStep { s with take := .started room s.buffer.head } = some { s with
      take := .found room s.buffer.head } := if_neg apart
  have pops : Pops slotBytes { s with take := .started room s.buffer.head } :=
    (pops_of_found s room s.buffer.head).before stepped rfl
  obtain ⟨n, last, reached, ended, longer⟩ := pops
  refine ⟨n, last, ?_, ended, longer⟩
  rw [run]
  exact Option.bind_eq_some_iff.mpr ⟨_, begun, reached⟩

/-- Whatever the interleaving, every arrival is accounted for and a take finds what is queued; and
while every position has its own slot, the ring is a queue of at most `d` requests. -/
structure BoundedInbox (slotBytes : Nat) (s : InboxRun w d) : Prop where
  accounted : Accounted slotBytes s
  fifo : s.Synced → Fifo slotBytes s
  served : s.take = .idle → 0 < s.queued → ∀ room, ∃ n last,
    run (step slotBytes) s (.take room :: List.replicate n .consumer) = some last ∧
      last.take = .idle ∧ last.outcomes.length = s.outcomes.length + 1

theorem inbox_bounded_fifo (small : d < 2 ^ w) (slots : Fin d → InboxEntry)
    (events : List InboxEvent) (last : InboxRun w d)
    (reached : run (step slotBytes) (start slots) events = some last) :
    BoundedInbox slotBytes last := by
  have keeps : ∀ (s : InboxRun w d) e next, Base slotBytes s ∧ (s.Synced → Content slotBytes s) →
      s.step slotBytes e = some next →
      Base slotBytes next ∧ (next.Synced → Content slotBytes next) := by
    rintro s e next ⟨base, content⟩ stepped
    refine ⟨base_step small e base stepped, fun synced => ?_⟩
    have before : s.Synced := synced.imp_right (admitted_mono e stepped).trans
    exact content_step e base before (content before) stepped
  obtain ⟨base, content⟩ := run_invariant keeps _ last events
    ⟨base_start slots, fun _ => content_start slots⟩ reached
  exact {
    accounted := base.accounted
    fifo := fun synced => (content synced).fifo base synced
    served := fun idle some' => take_pops small base idle some' }

/-- Every request that fits its slot is taken as it came, and that, the oversize ones, the queue
and the full ring are all there is. -/
structure AllTaken (slotBytes : Nat) (s : InboxRun w d) : Prop where
  taken : ∀ (i : Nat) request outcome, s.stored[i]? = some request →
    s.outcomes[i]? = some outcome → request.payload.length ≤ slotBytes →
    outcome = .taken request.payload request.seq request.recvNs
  counted : s.callback = .idle → s.arrived = s.outcomes.countP TakeOutcome.isTaken +
    s.outcomes.countP TakeOutcome.isTooLarge + s.queued + s.fullDrops

def freshSlots (d : Nat) : Fin d → InboxEntry := fun _ => ⟨0, 0, false, 0, []⟩

/-- A query of `count` bytes through the whole callback, and a whole take of a request that fits. -/
def queryOf (count : Nat) (seq : Int) : List InboxEvent :=
  .query ⟨List.replicate count 7, seq, 1⟩ :: List.replicate 8 .callback

def takeOf (room : Nat) : List InboxEvent := .take room :: List.replicate 7 .consumer

/-- A ring of two: the third query is dropped, the second is too large, and the next take's first
load is made while a fourth query is being stored. -/
def busyInbox : List InboxEvent :=
  queryOf 8 5 ++ queryOf 17 6 ++ [.query ⟨[7], 7, 1⟩, .callback] ++ takeOf 64 ++
    [.query ⟨[9], 8, 1⟩, .callback, .callback, .take 64, .callback, .consumer, .callback,
      .callback, .consumer, .consumer, .consumer, .callback, .callback, .callback]

theorem inbox_bounded_fifo_busy : ∃ last : InboxRun 64 2,
    run (step 16) (start (freshSlots 2)) busyInbox = some last ∧
      last.outcomes = [.taken (List.replicate 8 7) 5 1, .messageTooLarge 17] ∧
      last.stored.length = 3 ∧ last.fullDrops = 1 ∧ BoundedInbox 16 last := by
  have ends : (run (step 16) (start (freshSlots 2) : InboxRun 64 2) busyInbox).map
      (fun s => (s.outcomes, s.stored.length, s.fullDrops)) =
      some ([.taken (List.replicate 8 7) 5 1, .messageTooLarge 17], 3, 1) := by
    decide +kernel
  obtain ⟨last, reached, shape⟩ := Option.map_eq_some_iff.mp ends
  simp only [Prod.mk.injEq] at shape
  exact ⟨last, reached, shape.1, shape.2.1, shape.2.2,
    inbox_bounded_fifo (by decide) (freshSlots 2) busyInbox last reached⟩

/-- A take with four bytes of room drops a request of eight. -/
theorem inbox_claim_fails : ¬ ∀ (w d slotBytes : Nat) [NeZero d], d < 2 ^ w →
    ∀ (slots : Fin d → InboxEntry) (events : List InboxEvent) (last : InboxRun w d),
      run (step slotBytes) (start slots) events = some last → AllTaken slotBytes last := by
  intro all
  have ends : (run (step 16) (start (freshSlots 4) : InboxRun 64 4)
      (queryOf 8 5 ++ .take 4 :: List.replicate 4 .consumer)).map
      (fun s => (s.stored, s.outcomes)) =
      some ([⟨List.replicate 8 7, 5, 1⟩], [.bufferTooSmall 4 8]) := by
    decide +kernel
  obtain ⟨last, reached, shape⟩ := Option.map_eq_some_iff.mp ends
  simp only [Prod.mk.injEq] at shape
  have taken := (all 64 4 16 (by decide) (freshSlots 4) _ last reached).taken 0
    ⟨List.replicate 8 7, 5, 1⟩ (.bufferTooSmall 4 8) (by rw [shape.1]; rfl) (by rw [shape.2]; rfl)
    (by decide)
  cases taken

end InboxRun

end NanoRos.Zenoh
