import NanoRos.Lib.Runs

/-! Log dispatch and the hold queue: any number of threads in `dispatch_to_sinks`, `flush`, `init`
and `add_sink`, interleaved at every load, store and compare-exchange. -/

namespace NanoRos.Dispatch

def drainPasses : Nat := 2

def maxAddedSinks : Nat := 4

inductive SlotState where
  | empty
  | writing
  | ready
  | reading
  deriving DecidableEq

/-- A slot of the hold queue; `cell` is the record it was last written with. -/
structure HoldSlot where
  state : SlotState
  seq : Nat
  cell : Nat

/-- The accesses of `hold`: the claim of a slot, its number, its record, its publication, and the
count of pending records. -/
inductive HoldAt where
  | claiming (k : Nat)
  | numbering (k : Nat)
  | storing (k seq : Nat)
  | filling (k : Nat)
  | readying (k : Nat)
  | counting

/-- The accesses of a pass of `drain_and_release`. The scan of `drain_with` carries the slot and the
number of the oldest record found. `passing` names the record in the slot taken, and `passed` and
`reporting` are inside `deliver`. -/
inductive PassAt where
  | bounding
  | scanning (bound k : Nat) (oldest : Option (Nat × Nat))
  | peeking (bound k : Nat) (oldest : Option (Nat × Nat))
  | taking (bound k : Nat)
  | passing (bound k record : Nat)
  | passed (bound k : Nat)
  | discounting (bound : Nat)
  | loadingLost
  | swappingLost (lost : Nat)
  | reporting
  | releasing

/-- Where a thread is. In `dispatch_to_sinks`: the two loads of `has_destination`, the guard, its own
delivery (`handed` is inside `deliver`), `hold` with whether a sink was found, the second try. In
`init` and `add_sink`: the publication. In `deliver_held`: the two loads again, with whether the
thread itself published a sink. -/
inductive CallAt where
  | idle
  | asking (record : Nat)
  | askingAdded (record : Nat)
  | trying (record : Nat)
  | handing (record : Nat)
  | handed
  | holding (record : Nat) (found : Bool) (at_ : HoldAt)
  | retrying
  | publishing
  | locking
  | adding
  | storingLen (idx : Nat)
  | unlocking (installed : Bool)
  | heldAsking (published : Bool)
  | heldAskingAdded (published : Bool)
  | heldPending
  | heldLost
  | heldReported (lost : Nat)
  | heldTrying
  | draining (pass : Nat) (at_ : PassAt)
  | rechecking (pass : Nat)
  | reacquiring (pass : Nat)

namespace CallAt

/-- In its last pass, from the guard to the guard. -/
def lastPass : CallAt → Bool
  | .draining pass _ => pass + 1 == drainPasses
  | _ => false

/-- The thread is inside `deliver`. -/
def delivers : CallAt → Bool
  | .handed | .draining _ (.passed _ _) | .draining _ .reporting => true
  | _ => false

/-- The thread has the guard, or is yet to try it for whatever is held: it found a sink, and has
not let go for the last time. -/
def engaged : CallAt → Bool
  | .trying _ | .handing _ | .handed | .holding _ true _ | .retrying | .unlocking true
  | .heldAsking true | .heldAskingAdded true | .heldPending | .heldTrying | .rechecking _
  | .reacquiring _ => true
  | .draining pass at_ =>
    match at_ with
    | .bounding => true
    | _ => pass + 1 != drainPasses
  | _ => false

/-- The record a call has raised and neither held nor delivered, or has taken out to deliver. -/
def carries : CallAt → Option Nat
  | .asking record | .askingAdded record | .trying record | .handing record => some record
  | .holding record _ at_ =>
    match at_ with
    | .counting => none
    | _ => some record
  | .draining _ (.passing _ _ record) => some record
  | _ => none

end CallAt

/-- The statics and the threads. `guard` names the thread that set the flag; the rest records how
many records were raised, those delivered, those lost, and those whose `hold` finished in a last
pass. -/
structure LogSystem (T : Nat) where
  sinks : Bool
  added : Nat
  addLock : Bool
  guard : Option (Fin T)
  slots : Nat → HoldSlot
  nextSeq : Nat
  pending : Int
  lost : Nat
  lostReported : Nat
  threads : Fin T → CallAt
  raised : Nat
  delivered : List Nat
  losses : List Nat
  late : List Nat

/-- A call, or the next access of the call a thread is in. -/
inductive Action (T : Nat) where
  | raise (t : Fin T)
  | flush (t : Fin T)
  | init (t : Fin T)
  | addSink (t : Fin T)
  | access (t : Fin T)

namespace LogSystem

variable {T : Nat}

def new (T : Nat) : LogSystem T :=
  ⟨false, 0, false, none, fun _ => ⟨.empty, 0, 0⟩, 0, 0, 0, 0, fun _ => .idle, 0, [], [], []⟩

def installed (s : LogSystem T) : Bool := s.sinks || 0 < s.added

def goes (s : LogSystem T) (t : Fin T) (at_ : CallAt) : LogSystem T :=
  { s with threads := Function.update s.threads t at_ }

def setSlot (s : LogSystem T) (k : Nat) (slot : HoldSlot) : LogSystem T :=
  { s with slots := Function.update s.slots k slot }

/-- `dispatch_guard_try_acquire`, and where it leads. -/
def tries (s : LogSystem T) (t : Fin T) (taken refused : CallAt) : LogSystem T :=
  if s.guard = none then { s.goes t taken with guard := some t } else s.goes t refused

/-- What follows `hold` in `dispatch_to_sinks`. -/
def afterHold (found : Bool) : CallAt := if found then .retrying else .idle

/-- One access of `hold` in a queue of `D` slots, its numbers words of `w` bits. -/
def holdStep (D w : Nat) (s : LogSystem T) (t : Fin T) (record : Nat) (found : Bool) :
    HoldAt → LogSystem T
  | .claiming k =>
    if k < D then
      if (s.slots k).state = .empty then
        (s.setSlot k { s.slots k with state := .writing }).goes t
          (.holding record found (.numbering k))
      else s.goes t (.holding record found (.claiming (k + 1)))
    else
      { s.goes t (afterHold found) with lost := s.lost + 1, losses := s.losses ++ [record] }
  | .numbering k =>
    { s.goes t (.holding record found (.storing k s.nextSeq)) with
      nextSeq := (s.nextSeq + 1) % 2 ^ w }
  | .storing k seq =>
    (s.setSlot k { s.slots k with seq := seq }).goes t (.holding record found (.filling k))
  | .filling k =>
    (s.setSlot k { s.slots k with cell := record }).goes t (.holding record found (.readying k))
  | .readying k =>
    (s.setSlot k { s.slots k with state := .ready }).goes t (.holding record found .counting)
  | .counting =>
    { s.goes t (afterHold found) with
      pending := s.pending + 1
      late := if ∃ u, (s.threads u).lastPass = true then record :: s.late else s.late }

/-- One access of a pass, the guard held. A report of losses is delivered where `warn` records are
compiled in. -/
def passStep (D : Nat) (warn : Bool) (s : LogSystem T) (t : Fin T) (pass : Nat) :
    PassAt → LogSystem T
  | .bounding => s.goes t (.draining pass (.scanning s.nextSeq 0 none))
  | .scanning bound k oldest =>
    if k < D then
      if (s.slots k).state = .ready then s.goes t (.draining pass (.peeking bound k oldest))
      else s.goes t (.draining pass (.scanning bound (k + 1) oldest))
    else
      match oldest with
      | none => s.goes t (.draining pass .loadingLost)
      | some (slot, _) => s.goes t (.draining pass (.taking bound slot))
  | .peeking bound k oldest =>
    let seq := (s.slots k).seq
    let best := if bound ≤ seq then oldest
      else if oldest.all fun other => seq < other.2 then some (k, seq)
      else oldest
    s.goes t (.draining pass (.scanning bound (k + 1) best))
  | .taking bound k =>
    if (s.slots k).state = .ready then
      (s.setSlot k { s.slots k with state := .reading }).goes t
        (.draining pass (.passing bound k (s.slots k).cell))
    else s.goes t (.draining pass (.scanning bound 0 none))
  | .passing bound k _ =>
    { s.goes t (.draining pass (.passed bound k)) with
      delivered := s.delivered ++ [(s.slots k).cell] }
  | .passed bound k =>
    (s.setSlot k { s.slots k with state := .empty }).goes t (.draining pass (.discounting bound))
  | .discounting bound =>
    { s.goes t (.draining pass (.scanning bound 0 none)) with pending := s.pending - 1 }
  | .loadingLost => s.goes t (.draining pass (.swappingLost s.lost))
  | .swappingLost lost =>
    { s.goes t (.draining pass
        (if lost = s.lostReported ∨ warn = false then .releasing else .reporting)) with
      lostReported := lost }
  | .reporting => s.goes t (.draining pass .releasing)
  | .releasing =>
    { s.goes t (if pass + 1 = drainPasses then .idle else .rechecking pass) with guard := none }

/-- The next access of a thread. `PENDING` wraps below zero: as a word it is zero when this is. -/
def access (D w : Nat) (warn : Bool) (s : LogSystem T) (t : Fin T) : Option (LogSystem T) :=
  match s.threads t with
  | .idle => none
  | .asking record => some (s.goes t (if s.sinks then .trying record else .askingAdded record))
  | .askingAdded record =>
    some (s.goes t
      (if 0 < s.added then .trying record else .holding record false (.claiming 0)))
  | .trying record => some (s.tries t (.handing record) (.holding record true (.claiming 0)))
  | .handing record => some { s.goes t .handed with delivered := s.delivered ++ [record] }
  | .handed => some (s.goes t (.draining 0 .bounding))
  | .holding record found at_ => some (s.holdStep D w t record found at_)
  | .retrying => some (s.tries t (.draining 0 .bounding) .idle)
  | .publishing => some { s.goes t (.heldAsking true) with sinks := true }
  | .locking => some (if s.addLock then s else { s.goes t .adding with addLock := true })
  | .adding =>
    some (s.goes t (if s.added < maxAddedSinks then .storingLen s.added else .unlocking false))
  | .storingLen idx => some { s.goes t (.unlocking true) with added := idx + 1 }
  | .unlocking installed =>
    some { s.goes t (if installed then .heldAsking true else .idle) with addLock := false }
  | .heldAsking published =>
    some (s.goes t (if s.sinks then .heldPending else .heldAskingAdded published))
  | .heldAskingAdded _ => some (s.goes t (if 0 < s.added then .heldPending else .idle))
  | .heldPending => some (s.goes t (if s.pending ≠ 0 then .heldTrying else .heldLost))
  | .heldLost => some (s.goes t (.heldReported s.lost))
  | .heldReported lost => some (s.goes t (if lost ≠ s.lostReported then .heldTrying else .idle))
  | .heldTrying => some (s.tries t (.draining 0 .bounding) .idle)
  | .draining pass at_ => some (s.passStep D warn t pass at_)
  | .rechecking pass => some (s.goes t (if s.pending ≠ 0 then .reacquiring pass else .idle))
  | .reacquiring pass => some (s.tries t (.draining (pass + 1) .bounding) .idle)

def call (s : LogSystem T) (t : Fin T) (at_ : CallAt) : Option (LogSystem T) :=
  match s.threads t with
  | .idle => some (s.goes t at_)
  | _ => none

def step (D w : Nat) (warn : Bool) (s : LogSystem T) : Action T → Option (LogSystem T)
  | .raise t => (s.call t (.asking s.raised)).map fun next => { next with raised := s.raised + 1 }
  | .flush t => s.call t (.heldAsking false)
  | .init t => s.call t .publishing
  | .addSink t => s.call t .locking
  | .access t => s.access D w warn t

def carried (s : LogSystem T) (record : Nat) : Nat :=
  ∑ t, if (s.threads t).carries = some record then 1 else 0

/-- How many slots hold a record that waits for a pass. -/
def held (D : Nat) (s : LogSystem T) (record : Nat) : Nat :=
  ∑ k ∈ Finset.range D,
    if (s.slots k).state = .ready ∧ (s.slots k).cell = record then 1 else 0

/-- Two deliveries never overlap; a record raised is in one call, held, delivered or counted as lost,
once; and with a sink installed and every call over, a record still held was held in a last pass. -/
structure Sound (D : Nat) (s : LogSystem T) : Prop where
  alone : ∀ t u, (s.threads t).delivers = true → (s.threads u).delivers = true → t = u
  once : ∀ record < s.raised, s.carried record + s.held D record + s.delivered.count record +
    s.losses.count record = 1
  counted : s.lost = s.losses.length
  handedOver : s.installed = true → (∀ t, s.threads t = .idle) →
    ∀ k, (s.slots k).state ≠ .empty → (s.slots k).cell ∈ s.late

/-- A raiser that found no sink finishes its `hold` before there is one, or while another call is
engaged or in its last pass, or when nothing is held; and the numbers do not wrap. -/
def handsOver (D w : Nat) (s : LogSystem T) : Action T → Bool
  | .access t =>
    match s.threads t with
    | .holding _ false .counting =>
      !s.installed || (∃ u, (s.threads u).engaged = true ∨ (s.threads u).lastPass = true) ||
        (List.range D).all fun k => (s.slots k).state ≠ .ready
    | .holding _ _ (.numbering _) => s.nextSeq + 1 < 2 ^ w
    | _ => true
  | _ => true

end LogSystem

end NanoRos.Dispatch
