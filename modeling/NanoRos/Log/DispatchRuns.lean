import NanoRos.Log.Dispatch

/-! Whole runs of log dispatch. -/

namespace NanoRos.Dispatch

namespace CallAt

def holds : CallAt → Bool
  | .handing _ | .handed | .draining _ _ => true
  | _ => false

/-- The slot a thread has in state `writing`. -/
def writes : CallAt → Option Nat
  | .holding _ _ at_ =>
    match at_ with
    | .numbering k | .storing k _ | .filling k | .readying k => some k
    | _ => none
  | _ => none

/-- The slot a thread has in state `reading`. -/
def reads : CallAt → Option Nat
  | .draining _ (.passing _ k _) | .draining _ (.passed _ k) => some k
  | _ => none

/-- The record a thread is about to count as pending. -/
def counts : CallAt → Option Nat
  | .holding record _ .counting => some record
  | _ => none

/-- How far `PENDING` is behind or ahead of the slots for this thread. -/
def weight : CallAt → Int
  | .holding _ _ .counting => 1
  | .draining _ (.discounting _) => -1
  | _ => 0

def alert (at_ : CallAt) : Bool := at_.engaged || at_.counts.isSome

/-- In a last pass, its bound loaded. -/
def bounded : CallAt → Bool
  | .draining pass at_ =>
    match at_ with
    | .bounding => false
    | _ => pass + 1 == drainPasses
  | _ => false

/-- The pass the thread is in comes to the slot `k`, ready with this number. -/
def sees (seq k : Nat) : CallAt → Bool
  | .draining _ (.scanning bound j oldest) | .draining _ (.peeking bound j oldest) =>
    seq < bound && (j ≤ k || oldest.isSome)
  | .draining _ (.taking bound _) | .draining _ (.passing bound _ _)
  | .draining _ (.passed bound _) | .draining _ (.discounting bound) => seq < bound
  | _ => false

variable {at_ : CallAt}

theorem bounded_of_holds (holds : at_.holds = true) (calm : at_.engaged = false) :
    at_.bounded = true := by
  cases at_ with
  | draining pass at_ =>
    cases at_ with
    | bounding => cases calm
    | _ => simpa [engaged, bounded] using calm
  | handing _ | handed => cases calm
  | _ => cases holds

theorem bounded_of_lastPass (last : at_.lastPass = true) (calm : at_.engaged = false) :
    at_.bounded = true := by
  cases at_ with
  | draining pass at_ => exact bounded_of_holds rfl calm
  | _ => cases last

theorem lastPass_of_bounded (bounded : at_.bounded = true) :
    at_.lastPass = true := by
  cases at_ with
  | draining pass at_ =>
    cases at_ with
    | bounding => cases bounded
    | _ => exact bounded
  | _ => cases bounded

theorem holds_of_reads {k : Nat} (reads : at_.reads = some k) :
    at_.holds = true := by
  cases at_ with
  | draining pass at_ => rfl
  | _ => cases reads

theorem calm_of_bounded (bounded : at_.bounded = true) : at_.alert = false := by
  cases at_ with
  | draining pass at_ =>
    cases at_ with
    | bounding => cases bounded
    | _ => simpa [alert, engaged, counts, CallAt.bounded] using bounded
  | _ => cases bounded

theorem uncounted_of_calm (calm : at_.alert = false) : at_.counts = none := by
  rw [alert, Bool.or_eq_false_iff] at calm
  exact Option.not_isSome_iff_eq_none.mp (by simp [calm.2])

theorem alert_of_counts {record : Nat} (counts : at_.counts = some record) :
    at_.alert = true := by
  simp [alert, counts]

theorem holds_of_delivers (delivers : at_.delivers = true) :
    at_.holds = true := by
  cases at_ with
  | draining pass at_ => rfl
  | handed => rfl
  | _ => cases delivers

end CallAt

section Tables

variable {ι α M : Type} [DecidableEq ι] [AddCommMonoid M]

theorem sum_update {s : Finset ι} {i : ι} (inside : i ∈ s) (f : α → M) (g : ι → α) (a : α) :
    ∑ j ∈ s, f (Function.update g i a j) + f (g i) = ∑ j ∈ s, f (g j) + f a := by
  have rest : ∑ j ∈ s.erase i, f (Function.update g i a j) = ∑ j ∈ s.erase i, f (g j) := by
    apply Finset.sum_congr rfl
    intro j member
    rw [Function.update_of_ne (Finset.ne_of_mem_erase member)]
  rw [← Finset.add_sum_erase s _ inside, ← Finset.add_sum_erase s (fun j => f (g j)) inside, rest,
    Function.update_self, add_right_comm, add_comm (f a), add_right_comm, add_right_comm,
    add_right_comm]

end Tables

variable {T D w : Nat}

/-- The guard is with the thread that is between its acquisition and its release. -/
def Guarded (guard : Option (Fin T)) (threads : Fin T → CallAt) : Prop :=
  ∀ t, (threads t).holds = true ↔ guard = some t

/-- What a thread has stored to its slot, and knows of a slot it found. -/
def PcOk (D nextSeq : Nat) (slots : Nat → HoldSlot) : CallAt → Prop
  | .holding record _ at_ =>
    match at_ with
    | .storing _ seq => seq < nextSeq
    | .filling k => (slots k).seq < nextSeq
    | .readying k => (slots k).seq < nextSeq ∧ (slots k).cell = record
    | _ => True
  | .draining _ at_ =>
    match at_ with
    | .scanning _ _ oldest => ∀ k seq, oldest = some (k, seq) → k < D
    | .peeking _ k oldest => k < D ∧ ∀ k seq, oldest = some (k, seq) → k < D
    | .taking _ k => k < D
    | .passing _ k record => (slots k).cell = record
    | _ => True
  | _ => True

/-- Who owns which slot. -/
structure Owned (D nextSeq : Nat) (slots : Nat → HoldSlot) (threads : Fin T → CallAt) : Prop where
  writes : ∀ t k, (threads t).writes = some k → k < D ∧ (slots k).state = .writing
  writer : ∀ t u k, (threads t).writes = some k → (threads u).writes = some k → t = u
  reads : ∀ t k, (threads t).reads = some k → k < D ∧ (slots k).state = .reading
  ok : ∀ t, PcOk D nextSeq slots (threads t)
  ready : ∀ k, (slots k).state = .ready → k < D ∧ (slots k).seq < nextSeq
  written : ∀ k, (slots k).state = .writing → ∃ t, (threads t).writes = some k
  read : ∀ k, (slots k).state = .reading → ∃ t, (threads t).reads = some k

def HoldSlot.occupied (slot : HoldSlot) : Int :=
  match slot.state with
  | .ready | .reading => 1
  | _ => 0

/-- `PENDING` against the slots. -/
def Balanced (D : Nat) (pending : Int) (slots : Nat → HoldSlot) (threads : Fin T → CallAt) : Prop :=
  pending + ∑ t, (threads t).weight = ∑ k ∈ Finset.range D, (slots k).occupied

def CallAt.carriesOf (record : Nat) (at_ : CallAt) : Nat :=
  if at_.carries = some record then 1 else 0

def HoldSlot.keepsOf (record : Nat) (slot : HoldSlot) : Nat :=
  if slot.state = .ready ∧ slot.cell = record then 1 else 0

/-- Every record raised is in one place. -/
def Accounted (D raised : Nat) (slots : Nat → HoldSlot) (threads : Fin T → CallAt)
    (delivered losses : List Nat) : Prop :=
  ∀ record, ∑ t, (threads t).carriesOf record + ∑ k ∈ Finset.range D, (slots k).keepsOf record +
    delivered.count record + losses.count record = if record < raised then 1 else 0

/-- A thread that published a sink goes by a publication that is there. -/
def Published (sinks : Bool) (added : Nat) : CallAt → Prop
  | .unlocking true | .heldAsking true => sinks = true ∨ 0 < added
  | .heldAskingAdded true => 0 < added
  | _ => True

/-- The slot `k` waits for a pass, and its `hold` has not finished in a last pass. -/
def Waits (slots : Nat → HoldSlot) (late : List Nat) (k : Nat) : Prop :=
  (slots k).state = .ready ∧ (slots k).cell ∉ late

/-- Who will come to a slot that waits. -/
structure Watched (installed : Bool) (slots : Nat → HoldSlot) (late : List Nat)
    (threads : Fin T → CallAt) : Prop where
  covered : installed = true → ∀ k, Waits slots late k →
    ∃ t, (threads t).alert = true ∨ (threads t).sees (slots k).seq k = true
  last : ∀ t, (threads t).bounded = true → ∀ k, Waits slots late k →
    (threads t).sees (slots k).seq k = true ∨ ∃ u, (threads u).counts = some (slots k).cell

section Frames

variable {slots slots' : Nat → HoldSlot} {threads : Fin T → CallAt} {t : Fin T}
  {at_ next : CallAt}

theorem Guarded.goes {guard : Option (Fin T)} (guarded : Guarded guard threads)
    (here : threads t = at_) (same : next.holds = at_.holds) :
    Guarded guard (Function.update threads t next) := by
  rw [Guarded, Function.forall_update_iff threads fun u at_ => at_.holds = true ↔ guard = some u,
    same, ← here]
  exact ⟨guarded t, fun u _ => guarded u⟩

theorem Guarded.takes (guarded : Guarded none threads) (holds : next.holds = true) :
    Guarded (some t) (Function.update threads t next) := by
  rw [Guarded, Function.forall_update_iff threads fun u at_ => at_.holds = true ↔ some t = some u]
  refine ⟨iff_of_true holds rfl, fun u this => iff_of_false ?_ ?_⟩
  · intro other
    cases (guarded u).mp other
  · intro same
    exact this (Option.some.inj same).symm

theorem Guarded.releases {guard : Option (Fin T)} (guarded : Guarded guard threads)
    (held : (threads t).holds = true) (gone : next.holds = false) :
    Guarded none (Function.update threads t next) := by
  rw [Guarded, Function.forall_update_iff threads fun u at_ => at_.holds = true ↔ none = some u, gone]
  refine ⟨iff_of_false Bool.false_ne_true nofun, fun u this => iff_of_false ?_ nofun⟩
  intro other
  have same := ((guarded t).mp held).symm.trans ((guarded u).mp other)
  exact this (Option.some.inj same).symm

variable {nextSeq k : Nat} {slot : HoldSlot} {raised : Nat} {delivered losses : List Nat}
  {installed : Bool} {late : List Nat}

theorem PcOk.frame {nextSeq' : Nat} (ok : PcOk D nextSeq slots at_) (later : nextSeq ≤ nextSeq')
    (wrote : ∀ k, at_.writes = some k → slots' k = slots k)
    (read : ∀ k, at_.reads = some k → slots' k = slots k) : PcOk D nextSeq' slots' at_ := by
  cases at_ with
  | holding record found at_ =>
    cases at_ with
    | storing k seq => exact lt_of_lt_of_le ok later
    | filling k =>
      dsimp only [PcOk]
      rw [wrote k rfl]
      exact lt_of_lt_of_le ok later
    | readying k =>
      dsimp only [PcOk]
      rw [wrote k rfl]
      exact ⟨lt_of_lt_of_le ok.1 later, ok.2⟩
    | _ => trivial
  | draining pass at_ =>
    cases at_ with
    | scanning | peeking | taking => exact ok
    | passing bound k record =>
      dsimp only [PcOk]
      rw [read k rfl]
      exact ok
    | _ => trivial
  | _ => trivial

theorem Owned.goes {nextSeq' : Nat} (owned : Owned D nextSeq slots threads) (here : threads t = at_)
    (later : nextSeq ≤ nextSeq') (writes : next.writes = at_.writes)
    (reads : next.reads = at_.reads) (ok : PcOk D nextSeq' slots next) :
    Owned D nextSeq' slots (Function.update threads t next) := by
  have wrote : ∀ u, (Function.update threads t next u).writes = (threads u).writes := by
    rw [Function.forall_update_iff threads fun u at_ => at_.writes = (threads u).writes, here]
    exact ⟨writes, fun _ _ => rfl⟩
  have read : ∀ u, (Function.update threads t next u).reads = (threads u).reads := by
    rw [Function.forall_update_iff threads fun u at_ => at_.reads = (threads u).reads, here]
    exact ⟨reads, fun _ _ => rfl⟩
  constructor
  · intro u k
    rw [wrote]
    exact owned.writes u k
  · intro u v k
    rw [wrote, wrote]
    exact owned.writer u v k
  · intro u k
    rw [read]
    exact owned.reads u k
  · rw [Function.forall_update_iff threads fun _ at_ => PcOk D nextSeq' slots at_]
    exact ⟨ok, fun u _ => (owned.ok u).frame later (fun _ _ => rfl) fun _ _ => rfl⟩
  · intro k ready
    exact ⟨(owned.ready k ready).1, lt_of_lt_of_le (owned.ready k ready).2 later⟩
  · intro k writing
    rcases owned.written k writing with ⟨u, writer⟩
    exact ⟨u, (wrote u).trans writer⟩
  · intro k reading
    rcases owned.read k reading with ⟨u, reader⟩
    exact ⟨u, (read u).trans reader⟩

theorem Owned.change (owned : Owned D nextSeq slots threads) (inside : k < D)
    (alone : ∀ u, u ≠ t → (threads u).writes ≠ some k ∧ (threads u).reads ≠ some k)
    (wrote : ∀ j, (threads t).writes = some j → j = k)
    (read : ∀ j, (threads t).reads = some j → j = k)
    (writes : next.writes = if slot.state = .writing then some k else none)
    (reads : next.reads = if slot.state = .reading then some k else none)
    (ready : slot.state = .ready → slot.seq < nextSeq)
    (ok : PcOk D nextSeq (Function.update slots k slot) next) :
    Owned D nextSeq (Function.update slots k slot) (Function.update threads t next) := by
  have elsewhere : ∀ j, j ≠ k → Function.update slots k slot j = slots j :=
    fun _ other => Function.update_of_ne other slot slots
  have writing : ∀ j, next.writes = some j → j = k ∧ slot.state = .writing := by
    intro j owner
    rw [writes] at owner
    split at owner
    next writing => exact ⟨(Option.some.inj owner).symm, writing⟩
    next => cases owner
  have reading : ∀ j, next.reads = some j → j = k ∧ slot.state = .reading := by
    intro j owner
    rw [reads] at owner
    split at owner
    next reading => exact ⟨(Option.some.inj owner).symm, reading⟩
    next => cases owner
  constructor
  · intro u j owner
    by_cases this : u = t
    · rw [this, Function.update_self] at owner
      rcases writing j owner with ⟨rfl, state⟩
      rw [Function.update_self]
      exact ⟨inside, state⟩
    · rw [Function.update_of_ne this] at owner
      rw [elsewhere j fun same => (alone u this).1 (same ▸ owner)]
      exact owned.writes u j owner
  · intro u v j first second
    by_cases this : u = t
    · by_cases that : v = t
      · rw [this, that]
      · rw [this, Function.update_self] at first
        rw [Function.update_of_ne that] at second
        exact absurd ((writing j first).1 ▸ second) (alone v that).1
    · rw [Function.update_of_ne this] at first
      by_cases that : v = t
      · rw [that, Function.update_self] at second
        exact absurd ((writing j second).1 ▸ first) (alone u this).1
      · rw [Function.update_of_ne that] at second
        exact owned.writer u v j first second
  · intro u j owner
    by_cases this : u = t
    · rw [this, Function.update_self] at owner
      rcases reading j owner with ⟨rfl, state⟩
      rw [Function.update_self]
      exact ⟨inside, state⟩
    · rw [Function.update_of_ne this] at owner
      rw [elsewhere j fun same => (alone u this).2 (same ▸ owner)]
      exact owned.reads u j owner
  · rw [Function.forall_update_iff threads fun _ at_ => PcOk D nextSeq _ at_]
    refine ⟨ok, fun u this => (owned.ok u).frame le_rfl ?_ ?_⟩
    · intro j owner
      exact elsewhere j fun same => (alone u this).1 (same ▸ owner)
    · intro j owner
      exact elsewhere j fun same => (alone u this).2 (same ▸ owner)
  · rw [Function.forall_update_iff slots fun j other =>
      other.state = .ready → j < D ∧ other.seq < nextSeq]
    exact ⟨fun state => ⟨inside, ready state⟩, fun j _ => owned.ready j⟩
  · intro j state
    by_cases this : j = k
    · rw [this, Function.update_self] at state
      refine ⟨t, ?_⟩
      rw [Function.update_self, writes, if_pos state, this]
    · rw [elsewhere j this] at state
      rcases owned.written j state with ⟨u, owner⟩
      have other : u ≠ t := fun same => this (wrote j (same ▸ owner))
      exact ⟨u, by rwa [Function.update_of_ne other]⟩
  · intro j state
    by_cases this : j = k
    · rw [this, Function.update_self] at state
      refine ⟨t, ?_⟩
      rw [Function.update_self, reads, if_pos state, this]
    · rw [elsewhere j this] at state
      rcases owned.read j state with ⟨u, owner⟩
      have other : u ≠ t := fun same => this (read j (same ▸ owner))
      exact ⟨u, by rwa [Function.update_of_ne other]⟩

theorem Balanced.goes {pending pending' : Int} (balanced : Balanced D pending slots threads)
    (here : threads t = at_) (same : pending' + next.weight = pending + at_.weight) :
    Balanced D pending' slots (Function.update threads t next) := by
  have moved := sum_update (Finset.mem_univ t) CallAt.weight threads next
  rw [here] at moved
  unfold Balanced at balanced ⊢
  linarith

theorem Balanced.change {pending pending' : Int} (balanced : Balanced D pending slots threads)
    (here : threads t = at_) (inside : k < D)
    (same : pending' + next.weight + (slots k).occupied = pending + at_.weight + slot.occupied) :
    Balanced D pending' (Function.update slots k slot) (Function.update threads t next) := by
  have moved := sum_update (Finset.mem_univ t) CallAt.weight threads next
  have stored := sum_update (Finset.mem_range.mpr inside) HoldSlot.occupied slots slot
  rw [here] at moved
  unfold Balanced at balanced ⊢
  linarith

section

variable (accounted : Accounted D raised slots threads delivered losses)
include accounted

theorem Accounted.goes {raised' : Nat} {delivered' losses' : List Nat} (here : threads t = at_)
    (same : ∀ record, next.carriesOf record + delivered'.count record + losses'.count record +
        (if record < raised then 1 else 0) =
      at_.carriesOf record + delivered.count record + losses.count record +
        if record < raised' then 1 else 0) :
    Accounted D raised' slots (Function.update threads t next) delivered' losses' := by
  intro record
  have moved := sum_update (Finset.mem_univ t) (CallAt.carriesOf record) threads next
  rw [here] at moved
  have before := accounted record
  have change := same record
  linarith

theorem Accounted.moves {delivered' losses' : List Nat} (here : threads t = at_)
    (same : ∀ record, next.carriesOf record + delivered'.count record + losses'.count record =
      at_.carriesOf record + delivered.count record + losses.count record) :
    Accounted D raised slots (Function.update threads t next) delivered' losses' := by
  apply accounted.goes here
  intro record
  rw [same]

theorem Accounted.change (here : threads t = at_) (inside : k < D)
    (same : ∀ record, next.carriesOf record + slot.keepsOf record =
      at_.carriesOf record + (slots k).keepsOf record) :
    Accounted D raised (Function.update slots k slot) (Function.update threads t next)
      delivered losses := by
  intro record
  have moved := sum_update (Finset.mem_univ t) (CallAt.carriesOf record) threads next
  have stored := sum_update (Finset.mem_range.mpr inside) (HoldSlot.keepsOf record) slots slot
  rw [here] at moved
  have before := accounted record
  have change := same record
  linarith

end

section

variable (watched : Watched installed slots late threads)
include watched

section

variable (here : threads t = at_)
include here

theorem Watched.goes {installed' : Bool} {late' : List Nat} (old : ∀ k, Waits slots' late' k →
      next.counts = some (slots' k).cell ∨ Waits slots late k ∧ slots' k = slots k)
    (uncounted : ∀ u k, (threads u).bounded = true → Waits slots' late' k →
      at_.counts ≠ some (slots' k).cell)
    (covered : installed' = true → ∀ k, Waits slots' late' k → next.alert = true ∨
      next.sees (slots' k).seq k = true ∨ ∃ u, u ≠ t ∧
        ((threads u).alert = true ∨ (threads u).sees (slots' k).seq k = true))
    (last : next.bounded = true → ∀ k, Waits slots' late' k → next.sees (slots' k).seq k = true ∨
        ∃ u, u ≠ t ∧ (threads u).counts = some (slots' k).cell) :
    Watched installed' slots' late' (Function.update threads t next) where
  covered := by
    intro up k waits
    rcases covered up k waits with alert | sees | ⟨u, other, covers⟩
    · exact ⟨t, .inl (by rwa [Function.update_self])⟩
    · exact ⟨t, .inr (by rwa [Function.update_self])⟩
    · exact ⟨u, by rwa [Function.update_of_ne other]⟩
  last := by
    intro u bounded k waits
    by_cases this : u = t
    · rw [this, Function.update_self] at bounded ⊢
      rcases last bounded k waits with sees | ⟨v, other, counts⟩
      · exact .inl sees
      · exact .inr ⟨v, by rwa [Function.update_of_ne other]⟩
    · rw [Function.update_of_ne this] at bounded ⊢
      rcases old k waits with counts | ⟨waited, kept⟩
      · exact .inr ⟨t, by rwa [Function.update_self]⟩
      · rcases watched.last u bounded k waited with sees | ⟨v, counts⟩
        · exact .inl (by rwa [kept])
        · rw [← kept] at counts
          have other : v ≠ t := by
            intro same
            rw [same, here] at counts
            exact uncounted u k bounded waits counts
          exact .inr ⟨v, by rwa [Function.update_of_ne other]⟩

theorem Watched.alert {installed' : Bool} (old : ∀ k, Waits slots' late k →
      next.counts = some (slots' k).cell ∨ Waits slots late k ∧ slots' k = slots k)
    (uncounted : at_.counts = none) (alert : next.alert = true) :
    Watched installed' slots' late (Function.update threads t next) := by
  refine watched.goes here old ?_ (fun _ _ _ => .inl alert) ?_
  · intro u k bounded waits counts
    rw [uncounted] at counts
    cases counts
  · intro bounded
    rw [CallAt.calm_of_bounded bounded] at alert
    cases alert

theorem Watched.calm (old : ∀ k, Waits slots' late k → Waits slots late k ∧ slots' k = slots k)
    (calm : at_.alert = false) (blind : ∀ seq k, at_.sees seq k = false)
    (unbounded : next.bounded = false) :
    Watched installed slots' late (Function.update threads t next) := by
  refine watched.goes here (fun k waits => .inr (old k waits)) ?_ ?_ ?_
  · intro u k bounded waits counts
    rw [CallAt.uncounted_of_calm calm] at counts
    cases counts
  · intro up k waits
    rcases old k waits with ⟨waited, kept⟩
    rcases watched.covered up k waited with ⟨u, covers⟩
    refine .inr (.inr ⟨u, ?_, by rwa [kept]⟩)
    intro same
    rw [same, here, calm, blind] at covers
    rcases covers with alert | sees
    · cases alert
    · cases sees
  · intro bounded
    rw [unbounded] at bounded
    cases bounded

theorem Watched.leaves (uncounted : at_.counts = none) (unbounded : next.bounded = false)
    (covered : ∀ k, Waits slots late k → ∃ u, u ≠ t ∧
      ((threads u).alert = true ∨ (threads u).sees (slots k).seq k = true)) :
    Watched installed slots late (Function.update threads t next) := by
  refine watched.goes here (fun k waits => .inr ⟨waits, rfl⟩) ?_ ?_ ?_
  · intro u k bounded waits counts
    rw [uncounted] at counts
    cases counts
  · intro up k waits
    exact .inr (.inr (covered k waits))
  · intro bounded
    rw [unbounded] at bounded
    cases bounded

theorem Watched.scans (old : ∀ k, Waits slots' late k → Waits slots late k ∧ slots' k = slots k)
    (bounded : at_.bounded = true)
    (sees : ∀ k, Waits slots' late k → at_.sees (slots k).seq k = true →
      next.sees (slots k).seq k = true) :
    Watched installed slots' late (Function.update threads t next) := by
  have calm := CallAt.calm_of_bounded bounded
  have uncounted := CallAt.uncounted_of_calm calm
  have others : ∀ u record, (threads u).counts = some record → u ≠ t := by
    intro u record counts same
    rw [same, here, uncounted] at counts
    cases counts
  refine watched.goes here (fun k waits => .inr (old k waits)) ?_ ?_ ?_
  · intro u k inPass waits counts
    rw [uncounted] at counts
    cases counts
  · intro up k waits
    rcases old k waits with ⟨waited, kept⟩
    rw [kept]
    rcases watched.covered up k waited with ⟨u, covers⟩
    by_cases same : u = t
    · rw [same, here, calm] at covers
      rcases covers with alert | seen
      · cases alert
      · exact .inr (.inl (sees k waits seen))
    · exact .inr (.inr ⟨u, same, covers⟩)
  · intro inPass k waits
    rcases old k waits with ⟨waited, kept⟩
    rw [kept]
    rcases watched.last t (by rw [here]; exact bounded) k waited with seen | ⟨u, counts⟩
    · rw [here] at seen
      exact .inl (sees k waits seen)
    · exact .inr ⟨u, others u _ counts, counts⟩

end

end

end Frames

structure Inv (D : Nat) (s : LogSystem T) : Prop where
  guarded : Guarded s.guard s.threads
  owned : Owned D s.nextSeq s.slots s.threads
  balanced : Balanced D s.pending s.slots s.threads
  accounted : Accounted D s.raised s.slots s.threads s.delivered s.losses
  lost : s.lost = s.losses.length
  published : ∀ t, Published s.sinks s.added (s.threads t)
  watched : Watched s.installed s.slots s.late s.threads

/-- A move between accesses that the guard, the slots and the counts do not see. -/
structure CallAt.Alike (at_ next : CallAt) : Prop where
  holds : next.holds = at_.holds
  writes : next.writes = at_.writes
  reads : next.reads = at_.reads
  weight : next.weight = at_.weight
  carries : next.carries = at_.carries

theorem waits_update {slots : Nat → HoldSlot} {late : List Nat} {k : Nat} {slot : HoldSlot}
    (gone : slot.state ≠ .ready) (j : Nat) (waits : Waits (Function.update slots k slot) late j) :
    Waits slots late j ∧ Function.update slots k slot j = slots j := by
  by_cases this : j = k
  · have state := waits.1
    rw [this, Function.update_self] at state
    exact absurd state gone
  · rw [Waits, Function.update_of_ne this] at waits
    exact ⟨waits, Function.update_of_ne this slot slots⟩

theorem waits_same {slots : Nat → HoldSlot} {late : List Nat} (j : Nat)
    (waits : Waits slots late j) : Waits slots late j ∧ slots j = slots j := ⟨waits, rfl⟩

theorem published_update {sinks : Bool} {added : Nat} {threads : Fin T → CallAt} {t : Fin T}
    {next : CallAt} (published : ∀ u, Published sinks added (threads u))
    (this : Published sinks added next) (u : Fin T) :
    Published sinks added (Function.update threads t next u) :=
  (Function.forall_update_iff threads fun _ at_ => Published sinks added at_).mpr
    ⟨this, fun u _ => published u⟩ u

theorem Published.mono {sinks sinks' : Bool} {added added' : Nat} {at_ : CallAt}
    (published : Published sinks added at_) (sinks_mono : sinks = true → sinks' = true)
    (added_mono : 0 < added → 0 < added') : Published sinks' added' at_ := by
  cases at_ with
  | unlocking installed | heldAsking installed =>
    cases installed with
    | false => trivial
    | true => exact published.imp sinks_mono added_mono
  | heldAskingAdded installed =>
    cases installed with
    | false => trivial
    | true => exact added_mono published
  | _ => trivial

section Owners

variable {nextSeq k : Nat} {slots : Nat → HoldSlot} {threads : Fin T → CallAt} {t : Fin T}

section

variable (owned : Owned D nextSeq slots threads)
include owned

theorem Owned.alone_of_writes (mine : (threads t).writes = some k) (u : Fin T) (other : u ≠ t) :
    (threads u).writes ≠ some k ∧ (threads u).reads ≠ some k := by
  constructor
  · intro writes
    exact other (owned.writer u t k writes mine)
  · intro reads
    have state := (owned.reads u k reads).2
    rw [(owned.writes t k mine).2] at state
    cases state

theorem Owned.alone_of_reads {guard : Option (Fin T)} (guarded : Guarded guard threads)
    (mine : (threads t).reads = some k) (u : Fin T) (other : u ≠ t)
    : (threads u).writes ≠ some k ∧ (threads u).reads ≠ some k := by
  constructor
  · intro writes
    have state := (owned.writes u k writes).2
    rw [(owned.reads t k mine).2] at state
    cases state
  · intro reads
    have first := (guarded u).mp (CallAt.holds_of_reads reads)
    have second := (guarded t).mp (CallAt.holds_of_reads mine)
    exact other (Option.some.inj (first.symm.trans second))

theorem Owned.alone_of_free (free : (slots k).state = .empty ∨ (slots k).state = .ready) (u : Fin T)
    (_ : u ≠ t) : (threads u).writes ≠ some k ∧ (threads u).reads ≠ some k := by
  constructor
  · intro writes
    rw [(owned.writes u k writes).2] at free
    rcases free with state | state
    · cases state
    · cases state
  · intro reads
    rw [(owned.reads u k reads).2] at free
    rcases free with state | state
    · cases state
    · cases state

end

end Owners

namespace Inv

variable {s : LogSystem T} {t : Fin T} {at_ next : CallAt}

section

variable (inv : Inv D s)
include inv

section

variable (here : s.threads t = at_)
include here

theorem knows : PcOk D s.nextSeq s.slots at_ :=
  here ▸ inv.owned.ok t

theorem goes (watched : Watched s.installed s.slots s.late (Function.update s.threads t next))
    (ok : PcOk D s.nextSeq s.slots next) (published : Published s.sinks s.added next)
    (alike : at_.Alike next) : Inv D (s.goes t next) where
  guarded := inv.guarded.goes here alike.holds
  owned := inv.owned.goes here le_rfl alike.writes alike.reads ok
  balanced := by
    apply inv.balanced.goes here
    rw [alike.weight]
    rfl
  accounted := by
    apply inv.accounted.moves here
    intro record
    dsimp only [CallAt.carriesOf]
    rw [alike.carries]
    rfl
  lost := inv.lost
  published := published_update inv.published published
  watched := watched

theorem changes {k : Nat} {slot : HoldSlot} (inside : k < D)
    (alone : ∀ u, u ≠ t → (s.threads u).writes ≠ some k ∧ (s.threads u).reads ≠ some k)
    (wrote : ∀ j, at_.writes = some j → j = k) (read : ∀ j, at_.reads = some j → j = k)
    (ready : slot.state = .ready → slot.seq < s.nextSeq)
    (ok : PcOk D s.nextSeq (Function.update s.slots k slot) next)
    (balanced : next.weight + (s.slots k).occupied = at_.weight + slot.occupied)
    (accounted : ∀ record, next.carriesOf record + slot.keepsOf record =
      at_.carriesOf record + (s.slots k).keepsOf record)
    (watched : Watched s.installed (Function.update s.slots k slot) s.late
      (Function.update s.threads t next)) (holds : next.holds = at_.holds)
    (writes : next.writes = if slot.state = .writing then some k else none)
    (reads : next.reads = if slot.state = .reading then some k else none)
    (published : Published s.sinks s.added next) :
    Inv D ((s.setSlot k slot).goes t next) where
  guarded := inv.guarded.goes here holds
  owned := inv.owned.change inside alone (here ▸ wrote) (here ▸ read) writes reads ready ok
  balanced := inv.balanced.change here inside (by rw [add_assoc, balanced, ← add_assoc]; rfl)
  accounted := inv.accounted.change here inside accounted
  lost := inv.lost
  published := published_update inv.published published
  watched := watched

theorem cover_of_held (out : at_.holds = false) (uncounted : at_.counts = none)
    (busy : s.guard ≠ none) (k : Nat) (waits : Waits s.slots s.late k) : ∃ u, u ≠ t ∧
      ((s.threads u).alert = true ∨ (s.threads u).sees (s.slots k).seq k = true) := by
  rcases Option.ne_none_iff_exists'.mp busy with ⟨u, held⟩
  have holds := (inv.guarded u).mpr held
  have other : u ≠ t := by
    intro same
    rw [same, here, out] at holds
    cases holds
  cases engaged : (s.threads u).engaged with
  | true => exact ⟨u, other, .inl (by rw [CallAt.alert, engaged, Bool.true_or])⟩
  | false =>
    have bounded := CallAt.bounded_of_holds holds engaged
    rcases inv.watched.last u bounded k waits with sees | ⟨v, counts⟩
    · exact ⟨u, other, .inr sees⟩
    · refine ⟨v, ?_, .inl (CallAt.alert_of_counts counts)⟩
      intro same
      rw [same, here, uncounted] at counts
      cases counts

theorem cover_of_zero (uncounted : at_.counts = none) (zero : s.pending = 0) (k : Nat)
    (waits : Waits s.slots s.late k) : ∃ u, u ≠ t ∧
      ((s.threads u).alert = true ∨ (s.threads u).sees (s.slots k).seq k = true) := by
  have occupied : 1 ≤ ∑ j ∈ Finset.range D, (s.slots j).occupied := by
    have inside := Finset.mem_range.mpr (inv.owned.ready k waits.1).1
    calc (1 : Int) = (s.slots k).occupied := by rw [HoldSlot.occupied, waits.1]
      _ ≤ _ := by
        apply Finset.single_le_sum _ inside
        intro j _
        dsimp only [HoldSlot.occupied]
        split <;> decide
  have balanced := inv.balanced
  rw [Balanced, zero, zero_add] at balanced
  have heavy : 0 < ∑ u, (s.threads u).weight := by omega
  rcases Finset.exists_lt_of_sum_lt (s := Finset.univ) (f := fun _ : Fin T => (0 : Int))
    (by simpa using heavy) with ⟨u, _, positive⟩
  have counting : ∃ record, (s.threads u).counts = some record := by
    revert positive
    generalize s.threads u = other
    intro positive
    cases other with
    | holding record found at_ =>
      cases at_ with
      | counting => exact ⟨record, rfl⟩
      | _ => cases positive
    | draining pass at_ =>
      cases at_ with
      | discounting bound => cases positive
      | _ => cases positive
    | _ => cases positive
  rcases counting with ⟨record, counts⟩
  refine ⟨u, ?_, .inl (CallAt.alert_of_counts counts)⟩
  intro same
  rw [same, here, uncounted] at counts
  cases counts

theorem cover_of_last (bounded : at_.bounded = true) (blind : ∀ seq k, at_.sees seq k = false)
    (k : Nat) (waits : Waits s.slots s.late k) :
    ∃ u, u ≠ t ∧ ((s.threads u).alert = true ∨ (s.threads u).sees (s.slots k).seq k = true) := by
  rcases inv.watched.last t (by rwa [here]) k waits with sees | ⟨u, counts⟩
  · rw [here, blind] at sees
    cases sees
  · refine ⟨u, ?_, .inl (CallAt.alert_of_counts counts)⟩
    intro same
    rw [same, here, CallAt.uncounted_of_calm (CallAt.calm_of_bounded bounded)] at counts
    cases counts

end

end

end Inv

end NanoRos.Dispatch
