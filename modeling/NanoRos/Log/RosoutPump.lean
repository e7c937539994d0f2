import NanoRos.Log.Record
import Mathlib.Logic.Function.Iterate

/-! The `/rosout` queue and its pump, one call after the other, over a transport that may fail and
may log. -/

namespace NanoRos.Rosout

open Log (Record clip)

/-- What the pump publishes is filled from a queued record, or tells of losses. -/
inductive Message where
  | record (record : Record)
  | notice (dropped suppressed : Nat)

/-- Whether the `n`th publish call succeeds, and what it logs meanwhile. -/
abbrev Publish := Nat → Message → Bool × List Record

/-- How many records the ring keeps, how long a kept message may get and how wide a counter is. -/
structure Setup where
  depth : Nat
  msgCap : Nat
  bits : Nat
  publish : Publish

/-- Beside the source's state: how many publish calls were made, how many records were refused, how
many the accepted notices tell of, and how many a wrapped counter or a notice that was not sent has
taken along. -/
structure Queue where
  ring : List Record
  pumping : Bool
  dropped : Nat
  suppressed : Nat
  calls : Nat
  refused : Nat
  noticed : Nat
  lost : Nat

def Queue.new : Queue := ⟨[], false, 0, 0, 0, 0, 0, 0⟩

def Queue.takeLosses (q : Queue) : Queue := { q with dropped := 0, suppressed := 0 }

def nameCap : Nat := 48

/-- Counts up in words of `w` bits. -/
def Queue.drop (w : Nat) (q : Queue) : Queue :=
  { q with
    dropped := (q.dropped + 1) % 2 ^ w
    refused := q.refused + 1
    lost := q.lost + (q.dropped + 1) / 2 ^ w * 2 ^ w }

def Queue.suppress (w : Nat) (q : Queue) : Queue :=
  { q with
    suppressed := (q.suppressed + 1) % 2 ^ w
    refused := q.refused + 1
    lost := q.lost + (q.suppressed + 1) / 2 ^ w * 2 ^ w }

section

variable (c : Setup)

def enqueue (q : Queue) (record : Record) : Queue :=
  if c.depth = 0 then q.drop c.bits
  else if q.pumping then q.suppress c.bits
  else if c.depth ≤ q.ring.length then q.drop c.bits
  else
    { q with ring := q.ring ++ [{ record with
        loggerName := clip record.loggerName nameCap
        message := clip record.message c.msgCap }] }

def publishes (q : Queue) (msg : Message) : Queue × Bool :=
  ((c.publish q.calls msg).2.foldl (enqueue c) { q with calls := q.calls + 1 },
    (c.publish q.calls msg).1)

/-- Nothing is published once the transport has refused. -/
def deliver (q : Queue × Bool) (record : Record) : Queue × Bool :=
  if q.2 then publishes c q.1 (.record record) else q

def Queue.release (q : Queue) : Queue := { q with ring := q.ring.tail }

/-- The slot at the tail is released after its delivery. -/
def drainLoop : Nat → Queue × Bool → Queue × Bool
  | 0, q => q
  | fuel + 1, q =>
    match q.1.ring with
    | [] => q
    | record :: _ =>
      let after := deliver c q record
      drainLoop fuel (after.1.release, after.2)

/-- Whether no publish call failed comes with the queue. -/
def drain (q : Queue) : Queue × Bool :=
  if q.pumping then (q, true)
  else
    let after := drainLoop c q.ring.length ({ q with pumping := true }, true)
    ({ after.1 with pumping := false }, after.2)

def pumpWith (q : Queue) : Queue :=
  let drained := drain c q
  let dropped := drained.1.dropped
  let suppressed := drained.1.suppressed
  let taken := drained.1.takeLosses
  if drained.2 = true ∧ (0 < dropped ∨ 0 < suppressed) then
    let notice := publishes c taken (.notice dropped suppressed)
    if notice.2 then { notice.1 with noticed := notice.1.noticed + (dropped + suppressed) }
    else { notice.1 with lost := notice.1.lost + (dropped + suppressed) }
  else { taken with lost := taken.lost + (dropped + suppressed) }

inductive Event where
  | log (record : Record)
  | pump

def step (q : Queue) : Event → Queue
  | .log record => enqueue c q record
  | .pump => pumpWith c q

def run (events : List Event) : Queue := events.foldl (step c) .new

end

variable {c : Setup} {q : Queue}

/-! ### What becomes of the refused -/

/-- A pump owes what it has taken from the counters. -/
def Accounted (owed : Nat) (q : Queue) : Prop :=
  q.refused = q.noticed + q.dropped + q.suppressed + q.lost + owed

section

variable {owed : Nat} (accounted : Accounted owed q)
include accounted

theorem accounted_enqueue (record : Record) : Accounted owed (enqueue c q record) := by
  have whole := fun n => Nat.mod_add_div' n (2 ^ c.bits)
  have dropped : Accounted owed (q.drop c.bits) := by
    simp only [Accounted, Queue.drop] at accounted ⊢
    linarith [whole (q.dropped + 1)]
  have suppressed : Accounted owed (q.suppress c.bits) := by
    simp only [Accounted, Queue.suppress] at accounted ⊢
    linarith [whole (q.suppressed + 1)]
  rw [enqueue]
  split_ifs
  · exact dropped
  · exact suppressed
  · exact dropped
  · exact accounted

theorem accounted_publishes (msg : Message) : Accounted owed (publishes c q msg).1 := by
  have raised : ∀ (raised : List Record) q, Accounted owed q →
      Accounted owed (raised.foldl (enqueue c) q) := by
    intro raised
    induction raised with
    | nil => exact fun _ start => start
    | cons record raised ih => exact fun q start => ih _ (accounted_enqueue start record)
  exact raised _ _ accounted

theorem accounted_drainLoop (fuel : Nat) (sending : Bool) :
    Accounted owed (drainLoop c fuel (q, sending)).1 := by
  induction fuel generalizing q sending with
  | zero => exact accounted
  | succ fuel ih =>
    rw [drainLoop]
    split
    · exact accounted
    · apply ih
      cases sending with
      | true => exact accounted_publishes accounted _
      | false => exact accounted

theorem accounted_drain : Accounted owed (drain c q).1 := by
  rw [drain]
  split
  · exact accounted
  · exact accounted_drainLoop (q := { q with pumping := true }) accounted _ _

end

theorem accounted_pumpWith (accounted : Accounted 0 q) : Accounted 0 (pumpWith c q) := by
  have drained : Accounted 0 (drain c q).1 := accounted_drain accounted
  rw [pumpWith]
  generalize drain c q = after at drained
  have taken : Accounted (after.1.dropped + after.1.suppressed) after.1.takeLosses := by
    simp only [Accounted, Queue.takeLosses] at drained ⊢
    omega
  have noticed := accounted_publishes (c := c) taken
    (.notice after.1.dropped after.1.suppressed)
  simp only [Accounted] at taken noticed ⊢
  split_ifs
  · dsimp only
    omega
  · dsimp only
    omega
  · dsimp only
    omega

/-- The accepted notices and the counters tell of all that was refused. -/
def Reported (q : Queue) : Prop := q.refused = q.noticed + q.dropped + q.suppressed

def line : Record := ⟨.info, [], [], [], 0, 0⟩

def Queue.view (q : Queue) : Bool × List Record × Nat := (q.pumping, q.ring, q.calls)

theorem raised_pumping (pumping : q.pumping = true) (raised : List Record) :
    (raised.foldl (enqueue c) q).view = q.view := by
  induction raised generalizing q with
  | nil => rfl
  | cons record raised ih =>
    have refused : (enqueue c q record).view = q.view := by
      rw [enqueue]
      split_ifs
      · rfl
      · rfl
    exact (ih ((congrArg Prod.fst refused).trans pumping)).trans refused

theorem drainLoop_ring (fuel : Nat) (sending : Bool) (pumping : q.pumping = true)
    (short : q.ring.length ≤ fuel) : (drainLoop c fuel (q, sending)).1.ring = [] ∧
      (drainLoop c fuel (q, sending)).1.calls ≤ q.calls + q.ring.length := by
  induction fuel generalizing q sending with
  | zero => exact ⟨List.eq_nil_of_length_eq_zero (Nat.le_zero.mp short), Nat.le_add_right ..⟩
  | succ fuel ih =>
    rw [drainLoop]
    dsimp only
    split
    next ring => exact ⟨ring, Nat.le_add_right ..⟩
    next record later ring =>
      have delivered : ∃ calls ≤ q.calls + 1,
          (deliver c (q, sending) record).1.view = (true, q.ring, calls) := by
        cases sending with
        | true =>
          have raised := @raised_pumping c { q with calls := q.calls + 1 } pumping
          exact ⟨_, le_rfl, (raised _).trans (by rw [Queue.view, pumping])⟩
        | false => exact ⟨_, Nat.le_succ _, by rw [← pumping]; rfl⟩
      rcases delivered with ⟨calls, few, view⟩
      simp only [Queue.view, Prod.mk.injEq] at view
      have size : (deliver c (q, sending) record).1.release.ring.length + 1 = q.ring.length := by
        simp [Queue.release, view, ring]
      have rest := ih (q := (deliver c (q, sending) record).1.release)
        (deliver c (q, sending) record).2 view.1 (by omega)
      have counted : (deliver c (q, sending) record).1.release.calls = calls := view.2.2
      exact ⟨rest.1, by omega⟩

/-- Nothing is left to be published. -/
structure Settled (q : Queue) : Prop where
  dropped : q.dropped = 0
  suppressed : q.suppressed = 0
  drained : q.pumping = true ∨ q.ring = []

theorem pumpWith_settled (settled : Settled q) : pumpWith c q = q := by
  have drained : drain c q = (q, true) := by
    rcases q with ⟨ring, pumping, _⟩
    cases pumping with
    | true => rfl
    | false =>
      cases settled.drained.resolve_left Bool.false_ne_true
      rfl
  rcases q with ⟨ring, pumping, dropped, suppressed, _⟩
  cases settled.dropped
  cases settled.suppressed
  simp [pumpWith, Queue.takeLosses, drained]

theorem settled_pumpWith
    (quiet : ∀ call dropped suppressed, (c.publish call (.notice dropped suppressed)).2 = [])
    (q : Queue) : Settled (pumpWith c q) ∧ (pumpWith c q).calls ≤ q.calls + q.ring.length + 1 := by
  have drained : ((drain c q).1.pumping = true ∨ (drain c q).1.ring = []) ∧
      (drain c q).1.calls ≤ q.calls + q.ring.length := by
    rw [drain]
    split
    next pumping => exact ⟨.inl pumping, Nat.le_add_right ..⟩
    next =>
      have after := @drainLoop_ring c { q with pumping := true } q.ring.length true rfl le_rfl
      exact ⟨.inr after.1, after.2⟩
  simp only [pumpWith, publishes, quiet, List.foldl_nil]
  generalize drain c q = after at drained
  split_ifs
  · exact ⟨⟨rfl, rfl, drained.1⟩, Nat.succ_le_succ drained.2⟩
  · exact ⟨⟨rfl, rfl, drained.1⟩, Nat.succ_le_succ drained.2⟩
  · exact ⟨⟨rfl, rfl, drained.1⟩, Nat.le_succ_of_le drained.2⟩

/-- The transport logs a line for each record. -/
def reserved : Setup where
  depth := 1
  msgCap := 256
  bits := 64
  publish _ msg := (true, match msg with
    | .record _ => [line]
    | .notice _ _ => [])

/-- It logs a line whatever it publishes. -/
def chatty : Setup := { reserved with publish _ _ := (true, [line]) }

end NanoRos.Rosout
