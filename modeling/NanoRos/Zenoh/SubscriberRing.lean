import NanoRos.Lib.KeepLast
import NanoRos.Lib.Runs
import NanoRos.Lib.WrapCounter

/-! The sample ring of a subscriber: producers push under the session's slot lock, the consumer
claims the head, reads it in place and consumes it. -/

namespace NanoRos.Zenoh

/-- A slot's payload and attachment, as far as their lengths go, and its receive time. -/
structure RingSlot where
  payload : List UInt8
  attachment : List UInt8
  recvNs : Int
  deriving DecidableEq

/-- The ring of a `zpico_ring_desc_t`, its counters words of `w` bits. -/
structure Ring (w d : Nat) where
  slots : Fin d → RingSlot
  head : BitVec w
  tail : BitVec w
  claimed : BitVec w
  fullDrops : BitVec w

namespace Ring

variable {w d : Nat} [NeZero d]

/-- The slot to write and whether the tail moves, none when the sample is dropped. -/
def reserve (r : Ring w d) : Ring w d × Option (Fin d × Bool) :=
  if (r.tail - r.head).toNat < d then (r, some (slotIndex d r.tail, true))
  else
    let counted := { r with fullDrops := r.fullDrops + 1 }
    if r.claimed ≠ r.head + 1 then
      ({ counted with head := r.head + 1 }, some (slotIndex d r.tail, true))
    else if 2 ≤ d then (counted, some (slotIndex d (r.tail - 1), false))
    else (counted, none)

def write (r : Ring w d) (slot : Fin d) (entry : RingSlot) : Ring w d :=
  { r with slots := Function.update r.slots slot entry }

def commit (r : Ring w d) (advance : Bool) : Ring w d :=
  if advance then { r with tail := r.tail + 1 } else r

/-- Reserve, write and commit, under one lock; with what was reserved. -/
def push (r : Ring w d) (entry : RingSlot) : Ring w d × Option (Fin d × Bool) :=
  match r.reserve with
  | (r', none) => (r', none)
  | (r', some (slot, advance)) => ((r'.write slot entry).commit advance, some (slot, advance))

def claimHead (r : Ring w d) : Ring w d × Option (Fin d) :=
  if r.head ≠ r.tail then ({ r with claimed := r.head + 1 }, some (slotIndex d r.head))
  else (r, none)

def consumeHead (r : Ring w d) : Ring w d :=
  { r with
    head := if r.head ≠ r.tail then r.head + 1 else r.head
    claimed := 0 }

end Ring

/-- A call that may push: of `zpico_ring_push_bytes`, or of `_zpico_ring_push` with the history
window's verdict. -/
inductive PushCall where
  | bytes (payload : List UInt8) (recvNs : Int)
  | sample (payload attachment : List UInt8) (admitted : Bool) (recvNs : Int)
  deriving DecidableEq

/-- What the call writes, none where it returns before it reserves. -/
def PushCall.entry (payloadStride attStride : Nat) : PushCall → Option RingSlot
  | .bytes payload recvNs =>
    if payload = [] ∨ payloadStride < payload.length then none else some ⟨payload, [], recvNs⟩
  | .sample payload attachment admitted recvNs =>
    if payload = [] ∨ ¬ admitted ∨ payloadStride < payload.length then none
    else some ⟨payload, if attachment.length ≤ attStride then attachment else [], recvNs⟩

inductive RingEvent where
  | push (call : PushCall)
  | claim
  | consume
  deriving DecidableEq

/-- A push that reached the ring: its number, the slot held then, the numbers queued before and
after it, and the slot it wrote. -/
structure PushRecord (d : Nat) where
  number : Nat
  held : Option (Fin d)
  before : List Nat
  after : List Nat
  wrote : Option (Fin d)

/-- The ring, the slot the consumer holds, and a record of the samples pushed, of the number in
each slot, of the numbers and samples claimed, and of every push. -/
structure RingRun (w d : Nat) where
  ring : Ring w d
  held : Option (Fin d)
  pushed : List RingSlot
  numbers : Fin d → Nat
  commits : Nat
  consumed : Nat
  claims : List (Nat × RingSlot)
  log : List (PushRecord d)

namespace RingRun

variable {w d : Nat} [NeZero d]

def start (slots : Fin d → RingSlot) : RingRun w d :=
  ⟨⟨slots, 0, 0, 0, 0⟩, none, [], fun _ => 0, 0, 0, [], []⟩

def queuedIn (ring : Ring w d) (numbers : Fin d → Nat) : List Nat :=
  (List.range (ring.tail - ring.head).toNat).map fun i =>
    numbers (slotIndex d (ring.head + BitVec.ofNat w i))

def queued (s : RingRun w d) : List Nat := queuedIn s.ring s.numbers

def pushStep (s : RingRun w d) (entry : RingSlot) : RingRun w d :=
  let (ring, place) := s.ring.push entry
  let number := s.pushed.length
  let numbers := match place with
    | some (slot, _) => Function.update s.numbers slot number
    | none => s.numbers
  { s with
    ring := ring
    pushed := s.pushed ++ [entry]
    numbers := numbers
    commits := if place.any Prod.snd then s.commits + 1 else s.commits
    log := s.log ++ [⟨number, s.held, s.queued, queuedIn ring numbers, place.map Prod.fst⟩] }

def claimStep (s : RingRun w d) : RingRun w d :=
  match s.ring.claimHead with
  | (ring, some slot) =>
    { s with
      ring := ring
      held := some slot
      claims := if s.held = none then s.claims ++ [(s.numbers slot, s.ring.slots slot)]
        else s.claims }
  | (ring, none) => { s with ring := ring }

def consumeStep (s : RingRun w d) : RingRun w d :=
  { s with
    ring := s.ring.consumeHead
    held := none
    consumed := if s.ring.head ≠ s.ring.tail then s.consumed + 1 else s.consumed }

def step (payloadStride attStride : Nat) (s : RingRun w d) : RingEvent → Option (RingRun w d)
  | .push call =>
    match call.entry payloadStride attStride with
    | some entry => some (s.pushStep entry)
    | none => some s
  | .claim => some s.claimStep
  | .consume => some s.consumeStep

/-- A push keeps the newest, and leaves the held slot alone. -/
def KeepsLast (record : PushRecord d) : Prop :=
  record.after = keepLast d record.held.isSome record.before record.number ∧
    (∀ slot, record.held = some slot → record.wrote ≠ some slot) ∧
    (record.wrote = none ↔ d = 1 ∧ record.held.isSome ∧ record.before.length = d)

/-- What holds of a ring that keeps the newest samples, seen from outside. -/
structure Sound (s : RingRun w d) : Prop where
  pushes : ∀ record ∈ s.log, KeepsLast record
  ordered : s.queued.Pairwise (· < ·)
  claimsOrdered : (s.claims.map Prod.fst).Pairwise (· < ·)
  claimsPushed : ∀ claim ∈ s.claims, s.pushed[claim.1]? = some claim.2
  heldUntouched : ∀ slot, s.held = some slot → ∃ claim, s.claims.getLast? = some claim ∧
    s.numbers slot = claim.1 ∧ s.ring.slots slot = claim.2
  counted : ∃ drops, s.ring.fullDrops = BitVec.ofNat w drops ∧
    s.pushed.length = s.consumed + s.queued.length + drops

/-- The slots of the positions from `h` on hold these numbers, and what was pushed under them. -/
def Holds (s : RingRun w d) (h : Nat) (q : List Nat) : Prop :=
  ∀ i (inside : i < q.length), InStep w d (h + i) ∧
    s.numbers (slotIndex d (BitVec.ofNat w (h + i))) = q[i] ∧
    s.pushed[q[i]]? = some (s.ring.slots (slotIndex d (BitVec.ofNat w (h + i))))

variable {s : RingRun w d} {h : Nat} {q : List Nat}

theorem Holds.tail (holds : Holds s h q) : Holds s (h + 1) q.tail := by
  intro i inside
  rw [List.length_tail] at inside
  have later := holds (i + 1) (by omega)
  rw [List.getElem_tail, Nat.add_assoc, Nat.add_comm 1 i]
  exact later

theorem Holds.dropLast (holds : Holds s h q) : Holds s h q.dropLast := by
  intro i inside
  rw [List.length_dropLast] at inside
  rw [List.getElem_dropLast]
  exact holds i (by omega)

theorem Holds.write (holds : Holds s h q) (room : q.length < d)
    (inStep : InStep w d (h + q.length)) (entry : RingSlot) (next : RingRun w d)
    (pushed : next.pushed = s.pushed ++ [entry]) (numbers : next.numbers = Function.update s.numbers
      (slotIndex d (BitVec.ofNat w (h + q.length))) s.pushed.length)
    (slots : next.ring.slots = Function.update s.ring.slots
      (slotIndex d (BitVec.ofNat w (h + q.length))) entry) :
    Holds next h (q ++ [s.pushed.length]) := by
  intro i inside
  rw [List.length_append, List.length_singleton] at inside
  rw [pushed, numbers, slots]
  by_cases old : i < q.length
  · obtain ⟨step, number, content⟩ := holds i old
    have apart : slotIndex d (BitVec.ofNat w (h + i)) ≠
        slotIndex d (BitVec.ofNat w (h + q.length)) :=
      slotIndex_ne inStep (by omega) (by omega)
    rw [Function.update_of_ne apart, Function.update_of_ne apart, List.getElem_append_left old]
    refine ⟨step, number, ?_⟩
    rw [List.getElem?_append_left (List.getElem?_eq_some_iff.mp content).1]
    exact content
  · obtain rfl : i = q.length := by omega
    rw [Function.update_self, Function.update_self, List.getElem_concat_length rfl]
    exact ⟨inStep, rfl, List.getElem?_concat_length⟩

theorem queued_eq (small : d < 2 ^ w) (head : s.ring.head = BitVec.ofNat w h)
    (tail : s.ring.tail = BitVec.ofNat w (h + q.length)) (fits : q.length ≤ d)
    (holds : Holds s h q) : s.queued = q := by
  have length : (s.ring.tail - s.ring.head).toNat = q.length := by
    rw [head, tail, toNat_sub_ofNat (Nat.le_add_right _ _) (by omega)]
    omega
  apply List.ext_getElem
  · simp [queued, queuedIn, length]
  · intro i inside inside'
    simp only [queued, queuedIn, List.getElem_map, List.getElem_range]
    rw [head, ← BitVec.ofNat_add]
    exact (holds i inside').2.1

/-- `h` samples are behind the head, `q` are queued and `drops` were lost to a full ring. -/
structure Inv (s : RingRun w d) (h : Nat) (q : List Nat) (drops : Nat) : Prop where
  head : s.ring.head = BitVec.ofNat w h
  tail : s.ring.tail = BitVec.ofNat w (h + q.length)
  fits : q.length ≤ d
  commits : s.commits = h + q.length
  holds : Holds s h q
  held : s.held = none ∧ s.ring.claimed = 0 ∨
    s.held = some (slotIndex d s.ring.head) ∧ s.ring.claimed = s.ring.head + 1 ∧
      ∃ claim, s.claims.getLast? = some claim ∧ q.head? = some claim.1
  ordered : (s.claims.map Prod.fst ++ if s.held.isSome then q.tail else q).Pairwise (· < ·)
  claimsPushed : ∀ claim ∈ s.claims, s.pushed[claim.1]? = some claim.2
  fullDrops : s.ring.fullDrops = BitVec.ofNat w drops
  counted : s.pushed.length = s.consumed + q.length + drops
  pushes : ∀ record ∈ s.log, KeepsLast record

variable {drops : Nat}

theorem Inv.number_lt (inv : Inv s h q drops) : ∀ n ∈ q, n < s.pushed.length := by
  intro n member
  obtain ⟨i, inside, rfl⟩ := List.getElem_of_mem member
  exact (List.getElem?_eq_some_iff.mp (inv.holds i inside).2.2).1

theorem Inv.queue_ordered (inv : Inv s h q drops) : q.Pairwise (· < ·) := by
  have all := inv.ordered
  obtain ⟨free, -⟩ | ⟨held, -, claim, last, first⟩ := inv.held
  · rw [free] at all
    exact (List.pairwise_append.mp all).2.1
  · rw [held] at all
    obtain ⟨before, split⟩ := List.getLast?_eq_some_iff.mp last
    obtain ⟨rest, rfl⟩ := List.head?_eq_some_iff.mp first
    refine List.Pairwise.sublist ?_ all
    rw [split, List.map_append, List.append_assoc]
    exact List.sublist_append_right _ _

theorem Inv.sound (small : d < 2 ^ w) (inv : Inv s h q drops) : Sound s := by
  have queue := queued_eq small inv.head inv.tail inv.fits inv.holds
  refine ⟨inv.pushes, ?_, ?_, inv.claimsPushed, ?_, drops, inv.fullDrops, ?_⟩
  · rw [queue]
    exact inv.queue_ordered
  · exact (List.pairwise_append.mp inv.ordered).1
  · intro slot held
    obtain ⟨free, -⟩ | ⟨held', -, claim, last, first⟩ := inv.held
    · rw [free] at held
      cases held
    · rw [held'] at held
      cases held
      obtain ⟨rest, rfl⟩ := List.head?_eq_some_iff.mp first
      obtain ⟨-, number, content⟩ := inv.holds 0 (Nat.succ_pos _)
      have pushed := inv.claimsPushed claim (List.mem_of_getLast? last)
      rw [Nat.add_zero, ← inv.head] at number content
      refine ⟨claim, last, number, ?_⟩
      rw [List.getElem_cons_zero] at content
      exact Option.some.inj (content.symm.trans pushed)
  · rw [queue]
    exact inv.counted

/-- A push whose counter names its own slot, and that finds no full ring unclaimed at the head
counter whose claim would read as none. -/
def Clear (payloadStride attStride : Nat) (s : RingRun w d) : RingEvent → Prop
  | .push call => (call.entry payloadStride attStride).isSome →
    InStep w d s.commits ∧ (s.queued.length = d → s.held = none → s.ring.head + 1 ≠ 0)
  | .claim | .consume => True

instance (position : Nat) : Decidable (InStep w d position) :=
  inferInstanceAs (Decidable (_ ∨ _))

instance (payloadStride attStride : Nat) (s : RingRun w d) :
    (e : RingEvent) → Decidable (Clear payloadStride attStride s e)
  | .push call =>
    inferInstanceAs (Decidable ((call.entry payloadStride attStride).isSome →
      InStep w d s.commits ∧ (s.queued.length = d → s.held = none → s.ring.head + 1 ≠ 0)))
  | .claim | .consume => isTrue trivial

theorem ofNat_succ (n : Nat) : BitVec.ofNat w n + 1 = BitVec.ofNat w (n + 1) := by
  rw [BitVec.ofNat_add]
  rfl

theorem Inv.reserve (inv : Inv s h q drops) (small : d < 2 ^ w)
    (unread : q.length = d → s.held = none → s.ring.head + 1 ≠ 0) :
    q.length < d ∧
        s.ring.reserve = (s.ring, some (slotIndex d (BitVec.ofNat w (h + q.length)), true)) ∨
      q.length = d ∧ s.held = none ∧
        s.ring.reserve = ({ s.ring with fullDrops := s.ring.fullDrops + 1, head := s.ring.head + 1 },
          some (slotIndex d (BitVec.ofNat w (h + q.length)), true)) ∨
      q.length = d ∧ s.held ≠ none ∧ 2 ≤ d ∧
        s.ring.reserve = ({ s.ring with fullDrops := s.ring.fullDrops + 1 },
          some (slotIndex d (BitVec.ofNat w (h + (q.length - 1))), false)) ∨
      q.length = d ∧ s.held ≠ none ∧ d = 1 ∧
        s.ring.reserve = ({ s.ring with fullDrops := s.ring.fullDrops + 1 }, none) := by
  have length : (s.ring.tail - s.ring.head).toNat = q.length := by
    have fits := inv.fits
    rw [inv.head, inv.tail, toNat_sub_ofNat (Nat.le_add_right _ _) (by omega)]
    omega
  have positive := NeZero.pos d
  rw [Ring.reserve, length]
  by_cases room : q.length < d
  · left
    rw [if_pos room, inv.tail]
    exact ⟨room, rfl⟩
  · have full : q.length = d := le_antisymm inv.fits (not_lt.mp room)
    right
    rw [if_neg room]
    obtain ⟨free, claimed⟩ | ⟨held, claimed, -⟩ := inv.held
    · left
      rw [if_pos (by rw [claimed]; exact (unread full free).symm), ← inv.tail]
      exact ⟨full, free, rfl⟩
    · right
      rw [if_neg (not_not.mpr claimed), held]
      by_cases deep : 2 ≤ d
      · left
        have last : s.ring.tail - 1 = BitVec.ofNat w (h + (q.length - 1)) := by
          rw [inv.tail, show h + q.length = h + (q.length - 1) + 1 by omega, ← ofNat_succ,
            BitVec.add_sub_cancel]
        rw [if_pos deep, last]
        exact ⟨full, nofun, deep, rfl⟩
      · right
        rw [if_neg deep]
        exact ⟨full, nofun, by omega, rfl⟩

theorem Inv.pushed {drops' h' : Nat} (inv : Inv s h q drops) (small : d < 2 ^ w) (entry : RingSlot)
    (wrote : Option (Fin d)) {next : RingRun w d} {q' : List Nat}
    (same : next.pushed = s.pushed ++ [entry] ∧ next.consumed = s.consumed ∧
      next.claims = s.claims ∧ next.held = s.held ∧ next.ring.claimed = s.ring.claimed)
    (kept : q' = keepLast d s.held.isSome q s.pushed.length)
    (head : next.ring.head = BitVec.ofNat w h') (reading : s.held ≠ none → h' = h)
    (tail : next.ring.tail = BitVec.ofNat w (h' + q'.length)) (fits : q'.length ≤ d)
    (commits : next.commits = h' + q'.length) (holds : Holds next h' q')
    (fullDrops : next.ring.fullDrops = BitVec.ofNat w drops')
    (counted : q'.length + drops' = q.length + drops + 1)
    (log : next.log = s.log ++ [⟨s.pushed.length, s.held, s.queued, next.queued, wrote⟩])
    (apart : ∀ slot, s.held = some slot → wrote ≠ some slot)
    (refused : wrote = none ↔ d = 1 ∧ s.held.isSome ∧ q.length = d) : Inv next h' q' drops' := by
  obtain ⟨pushed, consumed, claims, held, claimed⟩ := same
  have queue := queued_eq small inv.head inv.tail inv.fits inv.holds
  have queue' := queued_eq small head tail fits holds
  refine ⟨head, tail, fits, commits, holds, ?_, ?_, ?_, fullDrops, ?_, ?_⟩
  · rw [held, claimed, claims]
    obtain ⟨free, unclaimed⟩ | ⟨isHeld, isClaimed, claim, last, first⟩ := inv.held
    · exact .inl ⟨free, unclaimed⟩
    · right
      have sameHead : next.ring.head = s.ring.head := by
        rw [head, inv.head, reading (by rw [isHeld]; nofun)]
      rw [sameHead]
      refine ⟨isHeld, isClaimed, claim, last, ?_⟩
      rw [kept, isHeld]
      exact keepLast_head first
  · rw [claims, held, kept]
    have reading' : s.held.isSome = true → q ≠ [] := by
      intro isHeld
      obtain ⟨free, -⟩ | ⟨-, -, claim, -, first⟩ := inv.held
      · rw [free] at isHeld
        cases isHeld
      · intro empty
        rw [empty] at first
        cases first
    apply List.Pairwise.sublist ((List.Sublist.refl _).append (keepLast_pending reading'))
    rw [← List.append_assoc]
    apply List.pairwise_append.mpr
    refine ⟨inv.ordered, List.pairwise_singleton _ _, ?_⟩
    intro n member m new
    rw [List.mem_singleton.mp new]
    obtain claimedOne | waiting := List.mem_append.mp member
    · obtain ⟨claim, listed, rfl⟩ := List.mem_map.mp claimedOne
      exact (List.getElem?_eq_some_iff.mp (inv.claimsPushed claim listed)).1
    · apply inv.number_lt
      split at waiting
      · exact List.mem_of_mem_tail waiting
      · exact waiting
  · rw [claims, pushed]
    intro claim listed
    have before := inv.claimsPushed claim listed
    rw [List.getElem?_append_left (List.getElem?_eq_some_iff.mp before).1]
    exact before
  · have before := inv.counted
    rw [pushed, consumed, List.length_append, List.length_singleton]
    omega
  · rw [log]
    intro record listed
    obtain old | new := List.mem_append.mp listed
    · exact inv.pushes record old
    · rw [List.mem_singleton.mp new]
      refine ⟨?_, apart, ?_⟩
      · rw [queue', queue]
        exact kept
      · rw [queue]
        exact refused

theorem pushStep_placed {ring : Ring w d} {slot : Fin d} {advance : Bool}
    (reserved : s.ring.reserve = (ring, some (slot, advance))) (entry : RingSlot) :
    s.pushStep entry = { s with
        ring := (ring.write slot entry).commit advance
        pushed := s.pushed ++ [entry]
        numbers := Function.update s.numbers slot s.pushed.length
        commits := if advance then s.commits + 1 else s.commits
        log := s.log ++ [⟨s.pushed.length, s.held, s.queued, (s.pushStep entry).queued,
          some slot⟩] } := by
  simp [RingRun.pushStep, Ring.push, reserved, queued]

theorem pushStep_refused {ring : Ring w d} (reserved : s.ring.reserve = (ring, none))
    (entry : RingSlot) :
    s.pushStep entry = { s with
        ring := ring
        pushed := s.pushed ++ [entry]
        log := s.log ++ [⟨s.pushed.length, s.held, s.queued, (s.pushStep entry).queued, none⟩] } := by
  simp [RingRun.pushStep, Ring.push, reserved, queued]

section

variable (inv : Inv s h q drops)
include inv

theorem Inv.held_slot {slot : Fin d} (held : s.held = some slot) :
    slot = slotIndex d (BitVec.ofNat w h) ∧ q ≠ [] := by
  obtain ⟨free, -⟩ | ⟨isHeld, -, claim, -, first⟩ := inv.held
  · rw [free] at held
    cases held
  · rw [isHeld, inv.head] at held
    refine ⟨(Option.some.inj held).symm, ?_⟩
    rintro rfl
    cases first

section

variable (small : d < 2 ^ w)
include small

theorem Inv.pushStep (entry : RingSlot) (inStep : InStep w d s.commits)
    (unread : s.queued.length = d → s.held = none → s.ring.head + 1 ≠ 0) :
    ∃ h' q' drops', Inv (s.pushStep entry) h' q' drops' := by
  have queue := queued_eq small inv.head inv.tail inv.fits inv.holds
  rw [queue] at unread
  rw [inv.commits] at inStep
  have positive := NeZero.pos d
  obtain ⟨room, reserved⟩ | ⟨full, free, reserved⟩ | ⟨full, held, deep, reserved⟩ |
      ⟨full, held, one, reserved⟩ := inv.reserve small unread
  · have shape := pushStep_placed reserved entry
    refine ⟨h, q ++ [s.pushed.length], drops, ?_⟩
    apply inv.pushed small entry (some (slotIndex d (BitVec.ofNat w (h + q.length))))
    case same => rw [shape]; exact ⟨rfl, rfl, rfl, rfl, rfl⟩
    case kept => exact (keepLast_room room).symm
    case head => rw [shape]; exact inv.head
    case reading => exact fun _ => rfl
    case tail =>
      rw [shape, List.length_append, List.length_singleton, ← Nat.add_assoc, ← ofNat_succ]
      exact congrArg (· + 1) inv.tail
    case fits => simp; omega
    case commits => rw [shape, List.length_append, ← Nat.add_assoc, ← inv.commits]; rfl
    case holds =>
      rw [shape]
      exact inv.holds.write room inStep entry _ rfl rfl rfl
    case fullDrops => rw [shape]; exact inv.fullDrops
    case counted => simp; omega
    case log => exact congrArg RingRun.log shape
    case apart =>
      intro slot held same
      obtain ⟨rfl, reading⟩ := inv.held_slot held
      have first := List.length_pos_iff.mpr reading
      exact slotIndex_ne inStep (by omega) (by omega) (Option.some.inj same).symm
    case refused => simp; omega
  · have shape := pushStep_placed reserved entry
    refine ⟨h + 1, q.tail ++ [s.pushed.length], drops + 1, ?_⟩
    have length : (q.tail ++ [s.pushed.length]).length = q.length := by simp; omega
    have last : h + 1 + q.tail.length = h + q.length := by simp; omega
    apply inv.pushed small entry (some (slotIndex d (BitVec.ofNat w (h + q.length))))
    case same => rw [shape]; exact ⟨rfl, rfl, rfl, rfl, rfl⟩
    case kept => rw [free]; exact (keepLast_evict (by omega)).symm
    case head => rw [shape, ← ofNat_succ]; exact congrArg (· + 1) inv.head
    case reading => exact fun held => absurd free held
    case tail =>
      rw [shape, length, Nat.add_right_comm, ← ofNat_succ]
      exact congrArg (· + 1) inv.tail
    case fits => omega
    case commits => rw [shape, length, Nat.add_right_comm, ← inv.commits]; rfl
    case holds =>
      rw [shape]
      apply inv.holds.tail.write (by simp; omega) (by rwa [last]) entry _ rfl
      · rw [last]
      · rw [last]
        rfl
    case fullDrops => rw [shape, ← ofNat_succ]; exact congrArg (· + 1) inv.fullDrops
    case counted => omega
    case log => exact congrArg RingRun.log shape
    case apart => rw [free]; exact nofun
    case refused => rw [free]; simp
  · have shape := pushStep_placed reserved entry
    refine ⟨h, q.dropLast ++ [s.pushed.length], drops + 1, ?_⟩
    have length : (q.dropLast ++ [s.pushed.length]).length = q.length := by simp; omega
    have last : h + q.dropLast.length = h + (q.length - 1) := by simp
    obtain ⟨slot, isHeld⟩ := Option.ne_none_iff_exists'.mp held
    have inStep' : InStep w d (h + (q.length - 1)) := (inv.holds (q.length - 1) (by omega)).1
    apply inv.pushed small entry (some (slotIndex d (BitVec.ofNat w (h + (q.length - 1)))))
    case same => rw [shape]; exact ⟨rfl, rfl, rfl, rfl, rfl⟩
    case kept => rw [isHeld]; exact (keepLast_replace (by omega) deep).symm
    case head => rw [shape]; exact inv.head
    case reading => exact fun _ => rfl
    case tail => rw [shape, length]; exact inv.tail
    case fits => omega
    case commits => rw [shape, length]; exact inv.commits
    case holds =>
      rw [shape]
      apply inv.holds.dropLast.write (by simp; omega) (by rwa [last]) entry _ rfl
      · rw [last]
      · rw [last]
        rfl
    case fullDrops => rw [shape, ← ofNat_succ]; exact congrArg (· + 1) inv.fullDrops
    case counted => omega
    case log => exact congrArg RingRun.log shape
    case apart =>
      intro slot' held' same
      obtain ⟨rfl, -⟩ := inv.held_slot held'
      exact slotIndex_ne inStep' (by omega) (by omega) (Option.some.inj same).symm
    case refused => simp; omega
  · have shape := pushStep_refused reserved entry
    refine ⟨h, q, drops + 1, ?_⟩
    obtain ⟨slot, isHeld⟩ := Option.ne_none_iff_exists'.mp held
    apply inv.pushed small entry none
    case same => rw [shape]; exact ⟨rfl, rfl, rfl, rfl, rfl⟩
    case kept => rw [isHeld]; exact (keepLast_refuse (by omega) (by omega)).symm
    case head => rw [shape]; exact inv.head
    case reading => exact fun _ => rfl
    case tail => rw [shape]; exact inv.tail
    case fits => omega
    case commits => rw [shape]; exact inv.commits
    case holds =>
      rw [shape]
      intro i inside
      obtain ⟨step, number, content⟩ := inv.holds i inside
      refine ⟨step, number, ?_⟩
      rw [List.getElem?_append_left (List.getElem?_eq_some_iff.mp content).1]
      exact content
    case fullDrops => rw [shape, ← ofNat_succ]; exact congrArg (· + 1) inv.fullDrops
    case counted => omega
    case log => exact congrArg RingRun.log shape
    case apart => exact fun _ _ => nofun
    case refused => simp [isHeld]; omega

theorem Inv.empty_iff :
    s.ring.head = s.ring.tail ↔ q = [] := by
  have near : h + q.length - h < 2 ^ w := by
    have fits := inv.fits
    omega
  rw [inv.head, inv.tail, ofNat_eq_iff (Nat.le_add_right _ _) near, ← List.length_eq_zero_iff]
  omega

theorem Inv.claimStep :
    Inv s.claimStep h q drops := by
  cases q with
  | nil =>
    have empty := (inv.empty_iff small).mpr rfl
    have shape : s.claimStep = s := by simp [RingRun.claimStep, Ring.claimHead, empty]
    rw [shape]
    exact inv
  | cons n rest =>
    have some_ : s.ring.head ≠ s.ring.tail :=
      fun same => List.cons_ne_nil _ _ ((inv.empty_iff small).mp same)
    have shape : s.claimStep = { s with
          ring := { s.ring with claimed := s.ring.head + 1 }
          held := some (slotIndex d s.ring.head)
          claims := if s.held = none then
              s.claims ++ [(s.numbers (slotIndex d s.ring.head),
                s.ring.slots (slotIndex d s.ring.head))]
            else s.claims } := by
      simp [RingRun.claimStep, Ring.claimHead, some_]
    obtain ⟨-, number, content⟩ := inv.holds 0 (Nat.succ_pos _)
    rw [Nat.add_zero, ← inv.head] at number content
    rw [List.getElem_cons_zero] at number content
    rw [shape]
    obtain ⟨free, -⟩ | ⟨held, -, claim, last, first⟩ := inv.held
    · refine ⟨inv.head, inv.tail, inv.fits, inv.commits, inv.holds, .inr ⟨rfl, rfl, ?_⟩, ?_, ?_,
        inv.fullDrops, inv.counted, inv.pushes⟩
      · simp [free, number]
      · have ordered := inv.ordered
        rw [free] at ordered
        simpa [free, number] using ordered
      · simp only [free, if_true]
        intro claim listed
        obtain old | new := List.mem_append.mp listed
        · exact inv.claimsPushed claim old
        · rw [List.mem_singleton.mp new, number]
          exact content
    · refine ⟨inv.head, inv.tail, inv.fits, inv.commits, inv.holds, .inr ⟨rfl, rfl, ?_⟩, ?_, ?_,
        inv.fullDrops, inv.counted, inv.pushes⟩
      · simp only [held, reduceCtorEq, if_false]
        exact ⟨claim, last, first⟩
      · have ordered := inv.ordered
        rw [held] at ordered
        simpa [held] using ordered
      · simp only [held, reduceCtorEq, if_false]
        exact inv.claimsPushed

theorem Inv.consumeStep :
    ∃ h' q', Inv s.consumeStep h' q' drops := by
  have released : (s.claims.map Prod.fst ++ q.tail).Pairwise (· < ·) := by
    have ordered := inv.ordered
    split at ordered
    · exact ordered
    · exact List.Pairwise.sublist ((List.Sublist.refl _).append (List.tail_sublist q)) ordered
  cases q with
  | nil =>
    have empty := (inv.empty_iff small).mpr rfl
    have shape : s.consumeStep = { s with ring := { s.ring with claimed := 0 }, held := none } := by
      simp [RingRun.consumeStep, Ring.consumeHead, empty]
    rw [shape]
    exact ⟨h, [], inv.head, inv.tail, inv.fits, inv.commits, inv.holds, .inl ⟨rfl, rfl⟩,
      released, inv.claimsPushed, inv.fullDrops, inv.counted, inv.pushes⟩
  | cons n rest =>
    have some_ : s.ring.head ≠ s.ring.tail :=
      fun same => List.cons_ne_nil _ _ ((inv.empty_iff small).mp same)
    have shape : s.consumeStep = { s with
          ring := { s.ring with head := s.ring.head + 1, claimed := 0 }
          held := none
          consumed := s.consumed + 1 } := by
      simp [RingRun.consumeStep, Ring.consumeHead, some_]
    have length : h + (n :: rest).length = h + 1 + rest.length := by
      rw [List.length_cons]
      omega
    rw [shape]
    refine ⟨h + 1, rest, ?_, ?_, ?_, ?_, inv.holds.tail, .inl ⟨rfl, rfl⟩, released,
      inv.claimsPushed, inv.fullDrops, ?_, inv.pushes⟩
    · rw [← ofNat_succ]
      exact congrArg (· + 1) inv.head
    · rw [← length]
      exact inv.tail
    · exact (Nat.le_succ _).trans inv.fits
    · rw [← length]
      exact inv.commits
    · have counted := inv.counted
      rw [List.length_cons] at counted
      dsimp only
      omega

theorem Inv.step {payloadStride attStride : Nat} {e : RingEvent} {next : RingRun w d}
    (clear : Clear payloadStride attStride s e)
    (stepped : step payloadStride attStride s e = some next) :
    ∃ h' q' drops', Inv next h' q' drops' := by
  cases e with
  | push call =>
    rw [RingRun.step] at stepped
    split at stepped
    case h_1 entry found =>
      cases stepped
      obtain ⟨inStep, unread⟩ := clear (by rw [found]; rfl)
      exact inv.pushStep small entry inStep unread
    case h_2 =>
      cases stepped
      exact ⟨h, q, drops, inv⟩
  | claim =>
    cases stepped
    exact ⟨h, q, drops, inv.claimStep small⟩
  | consume =>
    cases stepped
    obtain ⟨h', q', inv'⟩ := inv.consumeStep small
    exact ⟨h', q', drops, inv'⟩

end

end

theorem start_inv (slots : Fin d → RingSlot) : Inv (start slots : RingRun w d) 0 [] 0 :=
  ⟨rfl, rfl, Nat.zero_le _, rfl, fun _ inside => absurd inside (Nat.not_lt_zero _),
    .inl ⟨rfl, rfl⟩, List.Pairwise.nil, List.forall_mem_nil _, rfl, rfl, List.forall_mem_nil _⟩

def Counted (s : RingRun w d) : Prop := ∃ h q drops, Inv s h q drops

/-- In every run whose pushes are clear, each push keeps the newest and leaves the held slot alone,
claims go in the order of arrival, and every push is consumed, queued or counted as dropped. -/
theorem ring_keeps_last (payloadStride attStride : Nat) (small : d < 2 ^ w)
    (slots : Fin d → RingSlot) (events : List RingEvent) (last : RingRun w d)
    (clear : Along (step payloadStride attStride) (Clear payloadStride attStride)
      (start slots : RingRun w d) events)
    (reached : run (step payloadStride attStride) (start slots) events = some last) :
    last.Sound := by
  have counted : Counted last := by
    refine run_invariant_along ?_ (start slots) last events ⟨0, [], 0, start_inv slots⟩ clear reached
    rintro s e next ⟨h, q, drops, inv⟩ clear stepped
    exact inv.step small clear stepped
  obtain ⟨h, q, drops, inv⟩ := counted
  exact inv.sound small

def byte : PushCall := .bytes [1] 0

def blank : RingSlot := ⟨[], [], 0⟩

theorem ring_keeps_last_three :
    ∃ last : RingRun 8 3, run (step 1 0) (start fun _ => blank)
        [.push byte, .push byte, .claim, .push byte, .push byte, .consume] = some last ∧
      last.queued = [1, 3] ∧ last.Sound := by
  refine ⟨_, rfl, by decide +kernel, ?_⟩
  exact ring_keeps_last 1 0 (by decide) (fun _ => blank)
    [.push byte, .push byte, .claim, .push byte, .push byte, .consume] _ (by decide +kernel) rfl

/-! ### A claim that reads as none -/

def Idle (s : RingRun w d) (x : BitVec w) : Prop :=
  s.ring.head = x ∧ s.ring.tail = x ∧ s.ring.claimed = 0 ∧ s.held = none

def cycle : List RingEvent := [.push byte, .claim, .consume]

theorem run_cycle {w : Nat} (wide : 0 < w) {s : RingRun w 1} {x : BitVec w} (idle : Idle s x) :
    ∃ next : RingRun w 1, run (step 1 0) s cycle = some next ∧ Idle next (x + 1) := by
  obtain ⟨head, tail, claimed, held⟩ := idle
  refine ⟨_, rfl, ?_⟩
  simp [Idle, consumeStep, Ring.consumeHead, claimStep, Ring.claimHead, pushStep, Ring.push,
    Ring.reserve, Ring.write, Ring.commit, head, tail, wide.ne']

theorem run_cycles {w : Nat} (wide : 0 < w) (n : Nat) {s : RingRun w 1} {x : BitVec w}
    (idle : Idle s x) :
    ∃ next : RingRun w 1, run (step 1 0) s (List.replicate n cycle).flatten = some next ∧
      Idle next (x + BitVec.ofNat w n) := by
  induction n generalizing s x with
  | zero => exact ⟨s, rfl, by simpa using idle⟩
  | succ n ih =>
    obtain ⟨middle, cycled, idle'⟩ := run_cycle wide idle
    obtain ⟨next, reached, idle''⟩ := ih idle'
    refine ⟨next, ?_, ?_⟩
    · rw [List.replicate_succ, List.flatten_cons, run_append, cycled]
      exact reached
    · rw [Nat.add_comm n 1, BitVec.ofNat_add, ← BitVec.add_assoc]
      exact idle''

/-- After `2 ^ 32 - 1` samples the only slot of a ring reads as claimed when it is not. -/
theorem ring_claim_fails : ¬ ∀ (w d : Nat) [NeZero d] (payloadStride attStride : Nat), d < 2 ^ w →
    ∀ (slots : Fin d → RingSlot) (events : List RingEvent) (last : RingRun w d),
    run (step payloadStride attStride) (start slots) events = some last → last.Sound := by
  intro claim
  have idle : Idle (start fun _ => blank : RingRun 32 1) 0 := ⟨rfl, rfl, rfl, rfl⟩
  obtain ⟨s, reached, head, tail, claimed, held⟩ := run_cycles (by decide) (2 ^ 32 - 1) idle
  let entry : RingSlot := ⟨[1], [], 0⟩
  have sound := claim 32 1 1 0 (by decide) (fun _ => blank)
    ((List.replicate (2 ^ 32 - 1) cycle).flatten ++ [.push byte, .push byte])
    ((s.pushStep entry).pushStep entry) (by rw [run_append, reached]; rfl)
  have full : (s.pushStep entry).ring.reserve =
      ({ (s.pushStep entry).ring with fullDrops := (s.pushStep entry).ring.fullDrops + 1 }, none) := by
    simp [pushStep, Ring.push, Ring.reserve, Ring.write, Ring.commit, head, tail, claimed]
  have free : (s.pushStep entry).held = none := held
  obtain ⟨-, -, refused⟩ := sound.pushes _ (by
    rw [congrArg RingRun.log (pushStep_refused full entry)]
    exact List.mem_concat_self)
  rw [free] at refused
  exact Bool.false_ne_true (refused.mp rfl).2.1

end RingRun

end NanoRos.Zenoh
