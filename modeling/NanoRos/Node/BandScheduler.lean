import NanoRos.Lib.BitScan
import NanoRos.Lib.Runs

/-! The per-core scheduler of dispatch levels: the set-up of its bands and slots, and any number of
threads in `arrive`, `arrive_unattributed` and `pick`, interleaved at every load, store and compare-
exchange. -/

namespace NanoRos.BandScheduler

def maxDispatchLevel : Nat := 31

def maxWorkers : Nat := 32

def unbound : Nat := 255

structure Band where
  mostUrgent : Nat
  leastUrgent : Nat
  nonempty : mostUrgent ≤ leastUrgent
  inRange : leastUrgent ≤ maxDispatchLevel

namespace Band

def new (mostUrgent leastUrgent : Nat) : Option Band :=
  if bounds : mostUrgent ≤ leastUrgent ∧ leastUrgent ≤ maxDispatchLevel then
    some ⟨mostUrgent, leastUrgent, bounds.1, bounds.2⟩
  else none

def contains (band : Band) (level : Nat) : Bool :=
  band.mostUrgent ≤ level && level ≤ band.leastUrgent

theorem contains_iff {band : Band} {level : Nat} :
    band.contains level = true ↔ band.mostUrgent ≤ level ∧ level ≤ band.leastUrgent := by
  rw [contains, Bool.and_eq_true, decide_eq_true_eq, decide_eq_true_eq]

end Band

inductive LevelSetupError where
  | tooManyWorkers
  | notContiguous (expectedMostUrgent got : Nat)
  | outOfRange
  deriving DecidableEq

/-- A worker's band and its wake object. -/
structure Seat where
  band : Band
  wake : Option Nat

/-- The set-up half: each slot's level, and the seats of the workers added. -/
structure Scheduler (W : Nat) where
  slotLevel : Nat → Nat
  seats : List Seat

namespace Scheduler

variable {W : Nat}

def new (W : Nat) : Scheduler W := ⟨fun _ => unbound, []⟩

def expected (s : Scheduler W) : Nat :=
  match s.seats.getLast? with
  | some prev => prev.band.leastUrgent + 1
  | none => 0

def addWorker (s : Scheduler W) (band : Band) (wake : Option Nat) :
    Except LevelSetupError (Scheduler W × Nat) :=
  if maxWorkers ≤ s.seats.length then .error .tooManyWorkers
  else if band.mostUrgent ≠ s.expected then
    .error (.notContiguous s.expected band.mostUrgent)
  else .ok ({ s with seats := s.seats ++ [⟨band, wake⟩] }, s.seats.length)

def bindSlot (s : Scheduler W) (slot level : Nat) : Except LevelSetupError (Scheduler W) :=
  if W ≤ slot ∨ maxDispatchLevel < level then .error .outOfRange
  else .ok { s with slotLevel := Function.update s.slotLevel slot level }

def workerOf (s : Scheduler W) (level : Nat) : Option Nat :=
  s.seats.findIdx? fun seat => seat.band.contains level

/-- One slot of the scan in `pick`. -/
def consider (s : Scheduler W) (band : Band) (best : Option (Nat × Nat)) (slot : Nat) :
    Option (Nat × Nat) :=
  let level := s.slotLevel slot
  if band.contains level && best.all fun other => level < other.1 then some (level, slot) else best

/-- The scan of `pick` over a ready word. -/
def choose (s : Scheduler W) (band : Band) (ready : Mask W) : Option (Nat × Nat) :=
  Mask.scan (s.consider band) W ready none

end Scheduler

inductive SetUp where
  | addWorker (band : Band) (wake : Option Nat)
  | bindSlot (slot level : Nat)

/-- A step refused leaves the scheduler as it was. -/
def Scheduler.setUp {W : Nat} (s : Scheduler W) : SetUp → Scheduler W
  | .addWorker band wake =>
    match s.addWorker band wake with
    | .ok (next, _) => next
    | .error _ => s
  | .bindSlot slot level =>
    match s.bindSlot slot level with
    | .ok next => next
    | .error _ => s

/-- Where a thread is. In `arrive`: the load of the slot's level, the ready bit, the wake. In
`arrive_unattributed`: the parked flag of a seat, the wake. In `pick`: the load of the ready word,
the choice, the compare-exchange. -/
inductive CallAt (W : Nat) where
  | idle
  | arriving (slot : Nat)
  | queueing (slot level : Nat)
  | waking (worker : Nat)
  | seeking (i : Nat)
  | picking (worker : Nat)
  | choosing (worker : Nat) (ready : Mask W)
  | exchanging (worker : Nat) (ready : Mask W) (slot : Nat)

/-- What a thread did: queued a slot, signalled a worker's wake object, or picked a slot of the
ready word it found at its compare-exchange. -/
inductive Event (W : Nat) where
  | queued (t slot : Nat)
  | signalled (t worker wake : Nat)
  | picked (t worker slot : Nat) (ready : Mask W)

namespace Event

variable {W : Nat}

def thread : Event W → Nat
  | .queued t _ | .signalled t _ _ | .picked t _ _ _ => t

def picks (slot : Nat) : Event W → Bool
  | .picked _ _ other _ => other == slot
  | _ => false

end Event

/-- The run-time half: the ready word, the parked flags and the threads. `log` records the run, the
newest event first. -/
structure Core (W : Nat) where
  table : Scheduler W
  ready : Mask W
  parked : Nat → Bool
  threads : Nat → CallAt W
  log : List (Event W)

inductive Action where
  | arrive (t slot : Nat)
  | arriveUnattributed (t : Nat)
  | pick (t worker : Nat)
  | setParked (worker : Nat) (parked : Bool)
  | access (t : Nat)

namespace Core

variable {W : Nat}

def start (table : Scheduler W) : Core W := ⟨table, 0#W, fun _ => false, fun _ => .idle, []⟩

def goes (s : Core W) (t : Nat) (at_ : CallAt W) : Core W :=
  { s with threads := Function.update s.threads t at_ }

def wake (s : Core W) (t worker : Nat) : Core W :=
  match s.table.seats[worker]? with
  | some ⟨_, some wake⟩ => { s with log := .signalled t worker wake :: s.log }
  | _ => s

def access (s : Core W) (t : Nat) : Option (Core W) :=
  match s.threads t with
  | .idle => none
  | .arriving slot => some (s.goes t (.queueing slot (s.table.slotLevel slot)))
  | .queueing slot level =>
    let next :=
      match s.table.workerOf level with
      | some worker => .waking worker
      | none => .seeking 0
    some { s.goes t next with
      ready := s.ready.insert slot
      log := .queued t slot :: s.log }
  | .waking worker => some ((s.wake t worker).goes t .idle)
  | .seeking i =>
    if i < s.table.seats.length then
      some (s.goes t (if s.parked i then .waking i else .seeking (i + 1)))
    else some (s.goes t .idle)
  | .picking worker => some (s.goes t (.choosing worker s.ready))
  | .choosing worker ready =>
    match s.table.seats[worker]? with
    | some seat =>
      match s.table.choose seat.band ready with
      | some (_, slot) => some (s.goes t (.exchanging worker ready slot))
      | none => some (s.goes t .idle)
    | none => some (s.goes t .idle)
  | .exchanging worker ready slot =>
    if s.ready = ready then
      some { s.goes t .idle with
        ready := ready.erase slot
        log := .picked t worker slot s.ready :: s.log }
    else some (s.goes t (.picking worker))

def call (s : Core W) (t : Nat) (at_ : CallAt W) : Option (Core W) :=
  match s.threads t with
  | .idle => some (s.goes t at_)
  | _ => none

def step (s : Core W) : Action → Option (Core W)
  | .arrive t slot => s.call t (if slot < W then .arriving slot else .seeking 0)
  | .arriveUnattributed t => s.call t (.seeking 0)
  | .pick t worker => s.call t (if worker < s.table.seats.length then .picking worker else .idle)
  | .setParked worker parked =>
    if worker < s.table.seats.length then
      some { s with parked := Function.update s.parked worker parked }
    else some s
  | .access t => s.access t

/-- The bands are apart and run on from level 0; a pick takes the first, by level and then by slot,
of its worker's slots ready when it is made; an arrival waits or is picked after it, and a pick
follows an arrival; and the worker an arrival is for is woken. -/
structure Sound (s : Core W) : Prop where
  first : ∀ seat : Seat, s.table.seats[0]? = some seat → seat.band.mostUrgent = 0
  contiguous : ∀ (i : Nat) (seat next : Seat), s.table.seats[i]? = some seat →
    s.table.seats[i + 1]? = some next → next.band.mostUrgent = seat.band.leastUrgent + 1
  disjoint : ∀ (i j : Nat) (seat other : Seat) level, s.table.seats[i]? = some seat →
    s.table.seats[j]? = some other → seat.band.contains level = true →
    other.band.contains level = true → i = j
  owner : ∀ (t worker slot : Nat) (ready : Mask W), .picked t worker slot ready ∈ s.log →
    s.table.workerOf (s.table.slotLevel slot) = some worker
  least : ∀ (t worker slot : Nat) (ready : Mask W), .picked t worker slot ready ∈ s.log →
    ready.has slot = true ∧ ∀ other, ready.has other = true →
      s.table.workerOf (s.table.slotLevel other) = some worker →
      s.table.slotLevel slot < s.table.slotLevel other ∨
        s.table.slotLevel slot = s.table.slotLevel other ∧ slot ≤ other
  served : ∀ later (t slot : Nat) earlier, s.log = later ++ .queued t slot :: earlier →
    s.ready.has slot = true ∨ ∃ e ∈ later, e.picks slot = true
  earned : ∀ later (t worker slot : Nat) ready earlier,
    s.log = later ++ .picked t worker slot ready :: earlier →
    ∃ between u before, earlier = between ++ .queued u slot :: before ∧
      ∀ e ∈ between, e.picks slot = false
  woken : ∀ later (t slot : Nat) earlier (worker : Nat) (seat : Seat) (wake : Nat),
    s.log = later ++ .queued t slot :: earlier →
    s.table.workerOf (s.table.slotLevel slot) = some worker →
    s.table.seats[worker]? = some seat → seat.wake = some wake →
    (s.threads t = .waking worker ∧ ∀ e ∈ later, e.thread ≠ t) ∨
      ∃ last next, later = last ++ .signalled t worker wake :: next ∧ ∀ e ∈ next, e.thread ≠ t

end Core

section Bands

variable {W : Nat}

structure Tiled (seats : List Seat) : Prop where
  first : ∀ seat : Seat, seats[0]? = some seat → seat.band.mostUrgent = 0
  contiguous : ∀ (i : Nat) (seat next : Seat), seats[i]? = some seat → seats[i + 1]? = some next →
    next.band.mostUrgent = seat.band.leastUrgent + 1

theorem Tiled.append {s : Scheduler W} (tiled : Tiled s.seats) {band : Band} (wake : Option Nat)
    (follows : band.mostUrgent = s.expected) : Tiled (s.seats ++ [⟨band, wake⟩]) where
  first := by
    intro seat found
    cases shape : s.seats with
    | nil =>
      rw [shape] at found
      cases found
      rw [follows, Scheduler.expected, shape]
      rfl
    | cons head rest =>
      rw [shape] at found
      exact tiled.first seat (by rw [shape]; exact found)
  contiguous := by
    intro i seat next found after
    rcases Nat.lt_trichotomy (i + 1) s.seats.length with inside | last | beyond
    · rw [List.getElem?_append_left (Nat.lt_of_succ_lt inside)] at found
      rw [List.getElem?_append_left inside] at after
      exact tiled.contiguous i seat next found after
    · rw [List.getElem?_append_left (by omega)] at found
      rw [List.getElem?_append_right last.ge, last, Nat.sub_self] at after
      cases after
      have newest : s.seats.getLast? = some seat := by
        rw [List.getLast?_eq_getElem?, ← last, Nat.add_sub_cancel]
        exact found
      rw [follows, Scheduler.expected, newest]
    · rw [List.getElem?_append_right (by omega),
        List.getElem?_eq_none (by rw [List.length_singleton]; omega)] at after
      cases after

theorem Tiled.setUp {s : Scheduler W} (tiled : Tiled s.seats) (op : SetUp) :
    Tiled (s.setUp op).seats := by
  cases op with
  | addWorker band wake =>
    rw [Scheduler.setUp, Scheduler.addWorker]
    split_ifs with full gap
    · exact tiled
    · exact tiled
    · exact tiled.append wake (not_not.mp gap)
  | bindSlot slot level =>
    rw [Scheduler.setUp, Scheduler.bindSlot]
    split_ifs
    · exact tiled
    · exact tiled

theorem tiled_setUps (ops : List SetUp) {s : Scheduler W} (tiled : Tiled s.seats) :
    Tiled (ops.foldl Scheduler.setUp s).seats := by
  induction ops generalizing s with
  | nil => exact tiled
  | cons op ops ih => exact ih (tiled.setUp op)

variable {seats : List Seat}

theorem Tiled.above (tiled : Tiled seats) {i n : Nat} {seat other : Seat}
    (found : seats[i]? = some seat) (after : seats[i + n + 1]? = some other) :
    seat.band.leastUrgent < other.band.mostUrgent := by
  induction n generalizing other with
  | zero =>
    rw [tiled.contiguous i seat other found after]
    exact Nat.lt_succ_self _
  | succ n ih =>
    have inside := (List.getElem?_eq_some_iff.mp after).1
    rcases List.getElem?_eq_some_iff.mpr ⟨Nat.lt_of_succ_lt inside, rfl⟩ with between
    calc
      seat.band.leastUrgent < _ := ih between
      _ ≤ _ := Band.nonempty _
      _ < other.band.mostUrgent := by
        rw [tiled.contiguous (i + n + 1) _ other between after]
        exact Nat.lt_succ_self _

theorem Tiled.disjoint (tiled : Tiled seats) {i j level : Nat} {seat other : Seat}
    (found : seats[i]? = some seat) (found' : seats[j]? = some other)
    (inside : seat.band.contains level = true) (inside' : other.band.contains level = true) :
    i = j := by
  rw [Band.contains_iff] at inside inside'
  rcases Nat.lt_trichotomy i j with before | same | after
  · rcases Nat.exists_eq_add_of_lt before with ⟨n, rfl⟩
    have above := tiled.above found found'
    omega
  · exact same
  · rcases Nat.exists_eq_add_of_lt after with ⟨n, rfl⟩
    have above := tiled.above found' found
    omega

theorem Tiled.workerOf_iff {s : Scheduler W} (tiled : Tiled s.seats) {level worker : Nat}
    {seat : Seat} (found : s.seats[worker]? = some seat) :
    s.workerOf level = some worker ↔ seat.band.contains level = true := by
  rw [Scheduler.workerOf, List.findIdx?_eq_some_iff_getElem]
  rcases List.getElem?_eq_some_iff.mp found with ⟨bound, here⟩
  constructor
  · rintro ⟨_, inside, _⟩
    exact here ▸ inside
  · intro inside
    refine ⟨bound, here.symm ▸ inside, ?_⟩
    intro j before holds
    have same := tiled.disjoint (List.getElem?_eq_getElem (before.trans bound)) found holds inside
    exact Nat.ne_of_lt before same

end Bands

section Choice

variable {W : Nat} {s : Scheduler W} {band : Band}

/-- What the scan has found among the slots it has come to. -/
def Best (s : Scheduler W) (band : Band) (seen : List Nat) : Option (Nat × Nat) → Prop
  | none => ∀ other ∈ seen, band.contains (s.slotLevel other) = false
  | some (level, slot) => slot ∈ seen ∧ level = s.slotLevel slot ∧ band.contains level = true ∧
      ∀ other ∈ seen, band.contains (s.slotLevel other) = true →
        level < s.slotLevel other ∨ level = s.slotLevel other ∧ slot ≤ other

theorem Best.consider {seen : List Nat} {best : Option (Nat × Nat)} (sofar : Best s band seen best)
    (slot : Nat) (newer : ∀ other ∈ seen, other < slot) :
    Best s band (seen ++ [slot]) (s.consider band best slot) := by
  dsimp only [Scheduler.consider]
  cases inside : band.contains (s.slotLevel slot) with
  | false =>
    rw [Bool.false_and, if_neg Bool.false_ne_true]
    cases best with
    | none =>
      intro other member
      rcases List.mem_append.mp member with old | new
      · exact sofar other old
      · rw [List.mem_singleton.mp new, inside]
    | some found =>
      rcases sofar with ⟨member, level, contains, least⟩
      refine ⟨List.mem_append_left _ member, level, contains, ?_⟩
      intro other among within
      rcases List.mem_append.mp among with old | new
      · exact least other old within
      · rw [List.mem_singleton.mp new, inside] at within
        cases within
  | true =>
    rw [Bool.true_and]
    cases best with
    | none =>
      rw [Option.all_none, if_pos rfl]
      refine ⟨List.mem_append_right _ (List.mem_singleton_self slot), rfl, inside, ?_⟩
      intro other among within
      rcases List.mem_append.mp among with old | new
      · rw [sofar other old] at within
        cases within
      · exact .inr (List.mem_singleton.mp new ▸ ⟨rfl, le_rfl⟩)
    | some found =>
      rcases sofar with ⟨member, level, contains, least⟩
      rw [Option.all_some]
      by_cases lower : s.slotLevel slot < found.1
      · rw [if_pos (decide_eq_true lower)]
        refine ⟨List.mem_append_right _ (List.mem_singleton_self slot), rfl, inside, ?_⟩
        intro other among within
        rcases List.mem_append.mp among with old | new
        · left
          rcases least other old within with above | ⟨same, _⟩
          · exact lower.trans above
          · exact same ▸ lower
        · exact .inr (List.mem_singleton.mp new ▸ ⟨rfl, le_rfl⟩)
      · rw [if_neg (by rwa [decide_eq_true_eq])]
        refine ⟨List.mem_append_left _ member, level, contains, ?_⟩
        intro other among within
        rcases List.mem_append.mp among with old | new
        · exact least other old within
        · rw [List.mem_singleton.mp new]
          rcases Nat.lt_or_eq_of_le (Nat.not_lt.mp lower) with above | same
          · exact .inl above
          · exact .inr ⟨same, (newer found.2 member).le⟩

theorem Best.foldl (rest : List Nat) {seen : List Nat} {best : Option (Nat × Nat)}
    (sofar : Best s band seen best) (sorted : (seen ++ rest).Pairwise (· < ·)) :
    Best s band (seen ++ rest) (rest.foldl (s.consider band) best) := by
  induction rest generalizing seen best with
  | nil =>
    rw [List.append_nil]
    exact sofar
  | cons slot rest ih =>
    have newer : ∀ other ∈ seen, other < slot := by
      intro other member
      exact (List.pairwise_append.mp sorted).2.2 other member slot List.mem_cons_self
    rw [List.append_cons] at sorted ⊢
    exact ih (sofar.consider slot newer) sorted

/-- The slot is the one to pick of a ready word. -/
structure Chosen (s : Scheduler W) (worker slot : Nat) (ready : Mask W) : Prop where
  has : ready.has slot = true
  owner : s.workerOf (s.slotLevel slot) = some worker
  least : ∀ other, ready.has other = true → s.workerOf (s.slotLevel other) = some worker →
    s.slotLevel slot < s.slotLevel other ∨ s.slotLevel slot = s.slotLevel other ∧ slot ≤ other

theorem chosen_of_choose (tiled : Tiled s.seats) {worker level slot : Nat} {seat : Seat}
    (found : s.seats[worker]? = some seat) {ready : Mask W}
    (choice : s.choose seat.band ready = some (level, slot)) : Chosen s worker slot ready := by
  rw [Scheduler.choose, Mask.scan_eq_foldl] at choice
  have start : Best s seat.band [] none := nofun
  have best := start.foldl ready.members ready.members_sorted
  rw [choice, List.nil_append] at best
  rcases best with ⟨member, rfl, inside, least⟩
  refine ⟨Mask.mem_members.mp member, (tiled.workerOf_iff found).mpr inside, ?_⟩
  intro other has owner
  exact least other (Mask.mem_members.mpr has) ((tiled.workerOf_iff found).mp owner)

end Choice

section Logs

variable {W : Nat}

theorem split_cons {e x : Event W} {log later earlier : List (Event W)}
    (shape : e :: log = later ++ x :: earlier) : (later = [] ∧ e = x ∧ log = earlier) ∨
      ∃ rest, later = e :: rest ∧ log = rest ++ x :: earlier := by
  cases later with
  | nil =>
    cases shape
    exact .inl ⟨rfl, rfl, rfl⟩
  | cons head rest =>
    cases shape
    exact .inr ⟨rest, rfl, rfl⟩

/-- An arrival at the slot, with no pick of it since. -/
def Awaited (slot : Nat) (log : List (Event W)) : Prop :=
  ∃ between t before, log = between ++ .queued t slot :: before ∧
    ∀ e ∈ between, e.picks slot = false

theorem Awaited.cons {slot : Nat} {log : List (Event W)} (awaited : Awaited slot log)
    {e : Event W} (other : e.picks slot = false) : Awaited slot (e :: log) := by
  rcases awaited with ⟨between, t, before, rfl, none⟩
  refine ⟨e :: between, t, before, rfl, ?_⟩
  intro x member
  rcases List.mem_cons.mp member with rfl | old
  · exact other
  · exact none x old

def Served (ready : Mask W) (log : List (Event W)) : Prop :=
  ∀ later t slot earlier, log = later ++ .queued t slot :: earlier →
    ready.has slot = true ∨ ∃ e ∈ later, e.picks slot = true

def Earned (log : List (Event W)) : Prop :=
  ∀ later t worker slot ready earlier, log = later ++ .picked t worker slot ready :: earlier →
    Awaited slot earlier

/-- The thread that queued a slot for this worker wakes it before it does anything else. -/
def Woken (table : Scheduler W) (threads : Nat → CallAt W) (log : List (Event W)) : Prop :=
  ∀ later (t slot : Nat) earlier (worker : Nat) (seat : Seat) (wake : Nat),
    log = later ++ .queued t slot :: earlier → table.workerOf (table.slotLevel slot) = some worker →
    table.seats[worker]? = some seat → seat.wake = some wake →
    (threads t = .waking worker ∧ ∀ e ∈ later, e.thread ≠ t) ∨
      ∃ last next, later = last ++ .signalled t worker wake :: next ∧ ∀ e ∈ next, e.thread ≠ t

theorem Served.cons {ready ready' : Mask W} {log : List (Event W)} (served : Served ready log)
    {e : Event W} (kept : ∀ slot, ready.has slot = true →
      ready'.has slot = true ∨ e.picks slot = true)
    (new : ∀ t slot, e = .queued t slot → ready'.has slot = true) : Served ready' (e :: log) := by
  intro later t slot earlier shape
  rcases split_cons shape with ⟨rfl, here, _⟩ | ⟨rest, rfl, old⟩
  · exact .inl (new t slot here)
  · rcases served rest t slot earlier old with has | ⟨x, member, picks⟩
    · rcases kept slot has with still | picked
      · exact .inl still
      · exact .inr ⟨e, List.mem_cons_self, picked⟩
    · exact .inr ⟨x, List.mem_cons_of_mem e member, picks⟩

theorem Earned.cons {log : List (Event W)} (earned : Earned log) {e : Event W}
    (new : ∀ t worker slot ready, e = .picked t worker slot ready → Awaited slot log) :
    Earned (e :: log) := by
  intro later t worker slot ready earlier shape
  rcases split_cons shape with ⟨_, here, rfl⟩ | ⟨rest, _, old⟩
  · exact new t worker slot ready here
  · exact earned rest t worker slot ready earlier old

variable {table : Scheduler W} {threads : Nat → CallAt W} {log : List (Event W)} {t : Nat}
  {at_ next : CallAt W}

theorem Woken.goes (woken : Woken table threads log) (here : threads t = at_)
    (other : ∀ worker, at_ ≠ .waking worker) :
    Woken table (Function.update threads t next) log := by
  intro later u slot earlier worker seat wake shape owner found wakes
  rcases woken later u slot earlier worker seat wake shape owner found wakes with
    ⟨waking, quiet⟩ | signalled
  · left
    have apart : u ≠ t := fun same => other worker (here.symm.trans (same ▸ waking))
    rw [Function.update_of_ne apart]
    exact ⟨waking, quiet⟩
  · exact .inr signalled

theorem Woken.cons (woken : Woken table threads log) (here : threads t = at_)
    (other : ∀ worker, at_ ≠ .waking worker) {e : Event W} (mine : e.thread = t)
    (new : ∀ slot worker, e = .queued t slot →
      table.workerOf (table.slotLevel slot) = some worker → next = .waking worker) :
    Woken table (Function.update threads t next) (e :: log) := by
  intro later u slot earlier worker seat wake shape owner found wakes
  rcases split_cons shape with ⟨rfl, rfl, _⟩ | ⟨rest, rfl, old⟩
  · left
    dsimp only [Event.thread] at mine
    subst mine
    rw [Function.update_self]
    exact ⟨new slot worker rfl owner, nofun⟩
  · rcases woken rest u slot earlier worker seat wake old owner found wakes with
      ⟨waking, quiet⟩ | ⟨last, next, split, quiet⟩
    · left
      have apart : u ≠ t := fun same => other worker (here.symm.trans (same ▸ waking))
      rw [Function.update_of_ne apart]
      refine ⟨waking, ?_⟩
      intro x member
      rcases List.mem_cons.mp member with rfl | rest
      · rw [mine]
        exact apart.symm
      · exact quiet x rest
    · right
      exact ⟨e :: last, next, by rw [split]; rfl, quiet⟩

end Logs

variable {W : Nat} {s : Core W} {t : Nat} {at_ next : CallAt W}

/-- What a call knows of the slot it is about. -/
def PcOk (table : Scheduler W) : CallAt W → Prop
  | .arriving slot => slot < W
  | .queueing slot level => slot < W ∧ level = table.slotLevel slot
  | .exchanging worker ready slot => Chosen table worker slot ready
  | _ => True

structure Inv (s : Core W) : Prop where
  tiled : Tiled s.table.seats
  ok : ∀ t, PcOk s.table (s.threads t)
  chosen : ∀ t worker slot ready, .picked t worker slot ready ∈ s.log →
    Chosen s.table worker slot ready
  awaited : ∀ slot, s.ready.has slot = true → Awaited slot s.log
  served : Served s.ready s.log
  earned : Earned s.log
  woken : Woken s.table s.threads s.log

theorem ok_update {table : Scheduler W} {threads : Nat → CallAt W}
    (ok : ∀ u, PcOk table (threads u)) (this : PcOk table next) (u : Nat) :
    PcOk table (Function.update threads t next u) := by
  by_cases same : u = t
  · rw [same, Function.update_self]
    exact this
  · rw [Function.update_of_ne same]
    exact ok u

section

variable (inv : Inv s)
include inv

theorem Inv.goes (here : s.threads t = at_) (other : ∀ worker, at_ ≠ .waking worker)
    (ok : PcOk s.table next) : Inv (s.goes t next) where
  tiled := inv.tiled
  ok := ok_update inv.ok ok
  chosen := inv.chosen
  awaited := inv.awaited
  served := inv.served
  earned := inv.earned
  woken := inv.woken.goes here other

theorem Inv.queueing {slot : Nat} (here : s.threads t = at_)
    (other : ∀ worker, at_ ≠ .waking worker) (inside : slot < W) (ok : PcOk s.table next)
    (wakes : ∀ worker, s.table.workerOf (s.table.slotLevel slot) = some worker →
      next = .waking worker) :
    Inv { s.goes t next with
      ready := s.ready.insert slot
      log := .queued t slot :: s.log } where
  tiled := inv.tiled
  ok := ok_update inv.ok ok
  chosen := by
    intro u worker slot ready member
    rcases List.mem_cons.mp member with new | old
    · cases new
    · exact inv.chosen u worker slot ready old
  awaited := by
    intro i has
    by_cases same : slot = i
    · subst same
      exact ⟨[], t, s.log, rfl, nofun⟩
    · rw [Mask.has_insert, decide_eq_false same, Bool.and_false, Bool.or_false] at has
      exact (inv.awaited i has).cons rfl
  served := by
    apply inv.served.cons
    · intro i has
      left
      rw [Mask.has_insert, has, Bool.true_or]
    · intro u i same
      cases same
      rw [Mask.has_insert, decide_eq_true inside, decide_eq_true rfl, Bool.and_self, Bool.or_true]
  earned := inv.earned.cons nofun
  woken := by
    apply inv.woken.cons here other rfl
    intro i worker same owner
    cases same
    exact wakes worker owner

theorem Inv.waking {worker : Nat} (here : s.threads t = .waking worker) :
    Inv ((s.wake t worker).goes t .idle) := by
  rw [Core.wake]
  split
  next band wake found =>
    exact {
      tiled := inv.tiled
      ok := ok_update inv.ok trivial
      chosen := by
        intro u worker slot ready member
        rcases List.mem_cons.mp member with new | old
        · cases new
        · exact inv.chosen u worker slot ready old
      awaited := fun slot has => (inv.awaited slot has).cons rfl
      served := inv.served.cons (fun _ has => .inl has) nofun
      earned := inv.earned.cons nofun
      woken := by
        intro later u slot earlier other seat object shape owner seated wakes
        rcases split_cons shape with ⟨_, new, _⟩ | ⟨rest, rfl, old⟩
        · cases new
        · rcases inv.woken rest u slot earlier other seat object old owner seated wakes with
            ⟨waking, quiet⟩ | ⟨last, next, split, quiet⟩
          · by_cases same : u = t
            · subst same
              rw [here] at waking
              cases waking
              cases found.symm.trans seated
              cases wakes
              exact .inr ⟨[], rest, rfl, quiet⟩
            · left
              refine ⟨(Function.update_of_ne same _ _).trans waking, ?_⟩
              intro x member
              rcases List.mem_cons.mp member with rfl | rest
              · exact fun mine => same mine.symm
              · exact quiet x rest
          · right
            exact ⟨_ :: last, next, by rw [split]; rfl, quiet⟩ }
  next none =>
    exact {
      tiled := inv.tiled
      ok := ok_update inv.ok trivial
      chosen := inv.chosen
      awaited := inv.awaited
      served := inv.served
      earned := inv.earned
      woken := by
        intro later u slot earlier other seat object shape owner seated wakes
        rcases inv.woken later u slot earlier other seat object shape owner seated wakes with
          ⟨waking, quiet⟩ | signalled
        · left
          refine ⟨(Function.update_of_ne ?_ _ _).trans waking, quiet⟩
          intro same
          subst same
          rw [here] at waking
          cases waking
          rcases seat with ⟨band, object'⟩
          cases wakes
          exact none band object seated
        · exact .inr signalled }

theorem Inv.picks {worker slot : Nat} (here : s.threads t = .exchanging worker s.ready slot) :
    Inv { s.goes t .idle with
      ready := s.ready.erase slot
      log := .picked t worker slot s.ready :: s.log } := by
  have chosen : Chosen s.table worker slot s.ready := by
    have ok := inv.ok t
    rw [here] at ok
    exact ok
  exact {
    tiled := inv.tiled
    ok := ok_update inv.ok trivial
    chosen := by
      intro u worker slot ready member
      rcases List.mem_cons.mp member with new | old
      · cases new
        exact chosen
      · exact inv.chosen u worker slot ready old
    awaited := by
      intro i has
      rw [Mask.has_erase, Bool.and_eq_true, Bool.not_eq_true', decide_eq_false_iff_not] at has
      exact (inv.awaited i has.1).cons (beq_eq_false_iff_ne.mpr has.2)
    served := by
      apply inv.served.cons
      · intro i has
        by_cases same : slot = i
        · exact .inr (beq_iff_eq.mpr same)
        · left
          rw [Mask.has_erase, has, decide_eq_false same]
          rfl
      · nofun
    earned := by
      apply inv.earned.cons
      intro u other i ready same
      cases same
      exact inv.awaited slot chosen.has
    woken := inv.woken.cons here nofun rfl nofun }

theorem Inv.access {after : Core W} (stepped : s.access t = some after) :
    Inv after := by
  have ok := inv.ok t
  rw [Core.access.eq_def] at stepped
  cases here : s.threads t with
  | idle =>
    rw [here] at stepped
    cases stepped
  | arriving slot =>
    rw [here] at stepped ok
    cases stepped
    exact inv.goes here nofun ⟨ok, rfl⟩
  | queueing slot level =>
    rw [here] at stepped ok
    rcases ok with ⟨inside, rfl⟩
    cases stepped
    apply inv.queueing here nofun inside
    · split
      next => trivial
      next => trivial
    · intro worker owner
      rw [owner]
  | waking worker =>
    rw [here] at stepped
    cases stepped
    exact inv.waking here
  | seeking i =>
    rw [here] at stepped
    dsimp only at stepped
    split at stepped
    next =>
      cases stepped
      apply inv.goes here nofun
      split
      next => trivial
      next => trivial
    next =>
      cases stepped
      exact inv.goes here nofun trivial
  | picking worker =>
    rw [here] at stepped
    cases stepped
    exact inv.goes here nofun trivial
  | choosing worker ready =>
    rw [here] at stepped
    dsimp only at stepped
    split at stepped
    next seat found =>
      split at stepped
      next level slot choice =>
        cases stepped
        exact inv.goes here nofun (chosen_of_choose inv.tiled found choice)
      next =>
        cases stepped
        exact inv.goes here nofun trivial
    next =>
      cases stepped
      exact inv.goes here nofun trivial
  | exchanging worker ready slot =>
    rw [here] at stepped
    dsimp only at stepped
    split at stepped
    next same =>
      cases stepped
      subst same
      exact inv.picks here
    next =>
      cases stepped
      exact inv.goes here nofun trivial

theorem Inv.call {after : Core W} (ok : PcOk s.table next) (stepped : s.call t next = some after)
    : Inv after := by
  rw [Core.call.eq_def] at stepped
  split at stepped
  next here =>
    cases stepped
    exact inv.goes here nofun ok
  next => cases stepped

theorem Inv.step {after : Core W} {action : Action} (stepped : s.step action = some after)
    : Inv after := by
  cases action with
  | arrive t slot =>
    apply inv.call _ stepped
    split
    next inside => exact inside
    next => trivial
  | arriveUnattributed t =>
    have ok : PcOk s.table (.seeking 0) := trivial
    exact inv.call ok stepped
  | pick t worker =>
    apply inv.call _ stepped
    split
    next => trivial
    next => trivial
  | setParked worker parked =>
    rw [Core.step] at stepped
    split at stepped
    next =>
      cases stepped
      exact { inv with }
    next =>
      cases stepped
      exact inv
  | access t => exact inv.access stepped

end

theorem Inv.start {table : Scheduler W} (tiled : Tiled table.seats) : Inv (Core.start table) where
  tiled := tiled
  ok := fun _ => trivial
  chosen := nofun
  awaited := by
    intro slot has
    rw [Core.start, Mask.has_zero] at has
    cases has
  served := by
    intro later t slot earlier shape
    exact absurd shape.symm (List.append_ne_nil_of_right_ne_nil later (List.cons_ne_nil _ _))
  earned := by
    intro later t worker slot ready earlier shape
    exact absurd shape.symm (List.append_ne_nil_of_right_ne_nil later (List.cons_ne_nil _ _))
  woken := by
    intro later t slot earlier worker seat wake shape
    exact absurd shape.symm (List.append_ne_nil_of_right_ne_nil later (List.cons_ne_nil _ _))

theorem Inv.sound (inv : Inv s) : s.Sound where
  first := inv.tiled.first
  contiguous := inv.tiled.contiguous
  disjoint := fun _ _ _ _ _ found found' inside inside' =>
    inv.tiled.disjoint found found' inside inside'
  owner := fun t worker slot ready member => (inv.chosen t worker slot ready member).owner
  least := fun t worker slot ready member =>
    ⟨(inv.chosen t worker slot ready member).has, (inv.chosen t worker slot ready member).least⟩
  served := inv.served
  earned := inv.earned
  woken := inv.woken

namespace Core

/-- Two workers: a slot of the less urgent band is picked after it lost a compare-exchange to an
arrival at the more urgent one. -/
def contended : List Action :=
  [.arrive 0 5, .access 0, .access 0, .access 0, .pick 1 1, .access 1, .access 1, .arrive 0 2,
    .access 0, .access 0, .access 0, .access 1, .access 1, .access 1, .access 1, .pick 2 0,
    .access 2, .access 2, .access 2]

def twoBands : List SetUp :=
  [.addWorker ⟨0, 3, by decide, by decide⟩ (some 8),
    .addWorker ⟨4, 31, by decide, by decide⟩ (some 9), .bindSlot 5 7, .bindSlot 2 1]

end Core

end NanoRos.BandScheduler
