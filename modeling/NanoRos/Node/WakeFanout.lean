import NanoRos.Lib.Runs

/-! One wake slot shared by several executors: the callback, `claim`, `join`, `leave` and `release`
interleaved at every load and store. -/

namespace NanoRos

/-- One `WakeFanout` of the pool. The last two fields are not the code's: whether the entry is
between the bump of a `claim` and that of a `release`, and whether a callback may start on it. -/
structure WakeFanout where
  key : Option Nat
  bumps : Nat
  live : Bool
  inflight : UInt32
  members : Nat → Option Nat
  serving : Bool
  installed : Bool

structure Membership where
  fanout : Nat
  idx : Nat
  bumps : Nat
  deriving DecidableEq

def WakeFanout.generation (entry : WakeFanout) : UInt32 := UInt32.ofNat entry.bumps

def Membership.generation (membership : Membership) : UInt32 := UInt32.ofNat membership.bumps

/-- Where an executor is with its one context: outside, in the loop of `join` at slot `idx`, joined,
in `leave` past the check of the generation, waiting callbacks out, returned from `leave`. -/
inductive ExecutorAt where
  | outside
  | joining (next : Membership)
  | joined (membership : Membership)
  | leaving (membership : Membership)
  | waiting (membership : Membership)
  | freed
  deriving DecidableEq

inductive ClaimAt where
  | looking (key f : Nat)
  | taken (f : Nat)
  | bumped (f : Nat)
  | returned (found : Option Nat)

inductive ReleaseAt where
  | silenced (f : Nat)
  | clearing (f idx : Nat)
  | quiet (f : Nat)
  | returned

inductive FireAt where
  | reading (f idx : Nat)
  | waking (f idx ctx : Nat)
  | returned

namespace ExecutorAt

/-- The membership an executor has not given up. -/
def membership : ExecutorAt → Option Membership
  | .joined m | .leaving m => some m
  | _ => none

/-- The membership an executor's context may still be reached through. -/
def reach : ExecutorAt → Option Membership
  | .joined m | .leaving m | .waiting m => some m
  | _ => none

theorem reach_of_membership {place : ExecutorAt} {m : Membership}
    (held : place.membership = some m) : place.reach = some m := by
  cases place with
  | joined _ => exact held
  | leaving _ => exact held
  | _ => cases held

end ExecutorAt

namespace FireAt

def fanout : FireAt → Option Nat
  | .reading f _ | .waking f _ _ => some f
  | .returned => none

def holds : FireAt → Option Nat
  | .waking _ _ ctx => some ctx
  | _ => none

end FireAt

/-- The pool, the executors, and every call made so far. -/
structure WakePool where
  fanouts : Nat → WakeFanout
  executors : Nat → ExecutorAt
  claims : List ClaimAt
  releases : List ReleaseAt
  fires : List FireAt

/-- One atomic step. A call is named by its executor or by its place among the calls of its kind;
the constructors without `Step` make a call and its first access. -/
inductive WakeAccess where
  | claim (key : Nat)
  | claimStep (i : Nat)
  | join (x f : Nat)
  | joinStep (x : Nat)
  | leave (x : Nat)
  | leaveStep (x : Nat)
  | release (f : Nat)
  | releaseStep (i : Nat)
  | fire (f : Nat)
  | fireStep (i : Nat)

namespace WakePool

def new : WakePool :=
  ⟨fun _ => ⟨none, 0, false, 0, fun _ => none, false, false⟩, fun _ => .outside, [], [], []⟩

def modify (s : WakePool) (f : Nat) (g : WakeFanout → WakeFanout) : WakePool :=
  { s with fanouts := Function.update s.fanouts f (g (s.fanouts f)) }

def place (s : WakePool) (x : Nat) (to_ : ExecutorAt) : WakePool :=
  { s with executors := Function.update s.executors x to_ }

def setSlot (s : WakePool) (f idx : Nat) (ctx : Option Nat) : WakePool :=
  s.modify f fun entry => { entry with members := Function.update entry.members idx ctx }

/-- `claim` over the `F` entries of the pool. -/
def claimStep (F : Nat) (s : WakePool) (i : Nat) : Option WakePool :=
  let moves (s : WakePool) (call : ClaimAt) := some { s with claims := s.claims.set i call }
  match s.claims[i]? with
  | some (.looking key f) =>
    if F ≤ f then moves s (.returned none)
    else
      match (s.fanouts f).key with
      | none =>
        moves (s.modify f fun entry => { entry with key := some key, installed := true })
          (.taken f)
      | some _ => moves s (.looking key (f + 1))
  | some (.taken f) =>
    moves (s.modify f fun entry => { entry with bumps := entry.bumps + 1, serving := true })
      (.bumped f)
  | some (.bumped f) =>
    moves (s.modify f fun entry => { entry with live := false }) (.returned (some f))
  | _ => none

/-- The compare-exchange of `join` on its next slot. -/
def joinStep (M : Nat) (s : WakePool) (x : Nat) : Option WakePool :=
  match s.executors x with
  | .joining m =>
    if m.idx < M then
      match (s.fanouts m.fanout).members m.idx with
      | none => some ((s.setSlot m.fanout m.idx (some x)).place x (.joined m))
      | some _ => some (s.place x (.joining { m with idx := m.idx + 1 }))
    else some (s.place x .outside)
  | _ => none

/-- The store of `leave`, and each load of its `quiesce`. -/
def leaveStep (s : WakePool) (x : Nat) : Option WakePool :=
  match s.executors x with
  | .leaving m => some ((s.setSlot m.fanout m.idx none).place x (.waiting m))
  | .waiting m =>
    if (s.fanouts m.fanout).inflight = 0 then some (s.place x .freed) else some s
  | _ => none

def releaseStep (M : Nat) (s : WakePool) (i : Nat) : Option WakePool :=
  let moves (s : WakePool) (call : ReleaseAt) := some { s with releases := s.releases.set i call }
  match s.releases[i]? with
  | some (.silenced f) =>
    moves (s.modify f fun entry => { entry with bumps := entry.bumps + 1, serving := false })
      (.clearing f 0)
  | some (.clearing f idx) =>
    if idx < M then moves (s.setSlot f idx none) (.clearing f (idx + 1))
    else if (s.fanouts f).inflight = 0 then moves s (.quiet f) else some s
  | some (.quiet f) => moves (s.modify f fun entry => { entry with key := none }) .returned
  | _ => none

def fireStep (M : Nat) (s : WakePool) (i : Nat) : Option WakePool :=
  let moves (s : WakePool) (call : FireAt) := some { s with fires := s.fires.set i call }
  match s.fires[i]? with
  | some (.reading f idx) =>
    if idx < M then
      match (s.fanouts f).members idx with
      | none => moves s (.reading f (idx + 1))
      | some ctx => moves s (.waking f idx ctx)
    else moves (s.modify f fun entry => { entry with inflight := entry.inflight - 1 }) .returned
  | some (.waking f idx _) => moves s (.reading f (idx + 1))
  | _ => none

/-- An executor comes to `join` with an entry it claimed or found earlier. A stale `leave` returns
at its first load, and the executor frees its context when its `leave` returns. -/
def step (F M : Nat) (s : WakePool) : WakeAccess → Option WakePool
  | .claim key => some { s with claims := s.claims ++ [.looking key 0] }
  | .claimStep i => s.claimStep F i
  | .join x f =>
    match s.executors x with
    | .outside => some (s.place x (.joining ⟨f, 0, (s.fanouts f).bumps⟩))
    | _ => none
  | .joinStep x => s.joinStep M x
  | .leave x =>
    match s.executors x with
    | .joined m =>
      if (s.fanouts m.fanout).generation = m.generation then some (s.place x (.leaving m))
      else some (s.place x .freed)
    | _ => none
  | .leaveStep x => s.leaveStep x
  | .release f =>
    let silent := s.modify f fun entry => { entry with live := false, installed := false }
    some { silent with releases := s.releases ++ [.silenced f] }
  | .releaseStep i => s.releaseStep M i
  | .fire f =>
    if (s.fanouts f).installed then
      let counted := s.modify f fun entry => { entry with inflight := entry.inflight + 1 }
      some { counted with fires := s.fires ++ [.reading f 0] }
    else none
  | .fireStep i => s.fireStep M i

/-- A callback that calls `wake` does so on a context that is not freed. -/
def WakesLive (s : WakePool) : WakeAccess → Prop
  | .fireStep i => ∀ f idx ctx, s.fires[i]? = some (.waking f idx ctx) → s.executors ctx ≠ .freed
  | _ => True

/-- A `leave` that clears a slot does not take it from a membership of another tenancy. -/
def ClearsOwn (s : WakePool) : WakeAccess → Prop
  | .leaveStep x => ∀ m ctx other, s.executors x = .leaving m →
      (s.fanouts m.fanout).members m.idx = some ctx →
      (s.executors ctx).membership = some other → other.bumps = m.bumps
  | _ => True

/-- A context in a slot belongs to a membership of the entry's tenancy that has not left. -/
def Belongs (s : WakePool) : Prop :=
  ∀ f idx ctx, (s.fanouts f).members idx = some ctx → (s.fanouts f).serving = true ∧
    (s.executors ctx).membership = some ⟨f, idx, (s.fanouts f).bumps⟩

def empty (M : Nat) (s : WakePool) (f : Nat) : Bool :=
  (List.range M).all fun idx => ((s.fanouts f).members idx).isNone

/-- Nobody is in the entry when its generation is bumped or a `release` clears a slot of it, a
`join` takes its slot in the tenancy it loaded, and callbacks are fewer than their counter counts. -/
def undisturbed (M : Nat) (s : WakePool) : WakeAccess → Bool
  | .claimStep i =>
    match s.claims[i]? with
    | some (.taken f) => s.empty M f
    | _ => true
  | .releaseStep i =>
    match s.releases[i]? with
    | some (.silenced f) => s.empty M f
    | some (.clearing f idx) => ((s.fanouts f).members idx).isNone
    | _ => true
  | .joinStep x =>
    match s.executors x with
    | .joining m =>
      ((s.fanouts m.fanout).members m.idx).isSome ||
        ((s.fanouts m.fanout).serving && (s.fanouts m.fanout).bumps == m.bumps)
    | _ => true
  | .fire f => (s.fanouts f).inflight.toNat + 1 < 2 ^ 32
  | _ => true

/-- The slots of the pool and the memberships of the executors name each other. -/
structure Seated (M : Nat) (fanouts : Nat → WakeFanout) (executors : Nat → ExecutorAt) : Prop where
  placed : ∀ f idx x, (fanouts f).members idx = some x → idx < M ∧ (fanouts f).serving = true ∧
    (executors x).membership = some ⟨f, idx, (fanouts f).bumps⟩
  there : ∀ x m, (executors x).membership = some m → (fanouts m.fanout).members m.idx = some x

/-- A context a callback holds is that of an executor still to wait that callback out. -/
def Reached (executors : Nat → ExecutorAt) (fires : List FireAt) : Prop :=
  ∀ fire ∈ fires, ∀ ctx, fire.holds = some ctx →
    ∃ m, (executors ctx).reach = some m ∧ fire.fanout = some m.fanout

def Counted (fanouts : Nat → WakeFanout) (fires : List FireAt) : Prop :=
  ∀ f, (fanouts f).inflight.toNat = fires.countP fun fire => fire.fanout = some f

structure Inv (M : Nat) (s : WakePool) : Prop where
  seated : Seated M s.fanouts s.executors
  reached : Reached s.executors s.fires
  counted : Counted s.fanouts s.fires

variable {F M f x idx i : Nat} {s next : WakePool} {fanouts : Nat → WakeFanout}
  {executors : Nat → ExecutorAt} {fires : List FireAt}

theorem empty_iff : s.empty M f = true ↔ ∀ idx < M, (s.fanouts f).members idx = none := by
  simp [empty]

theorem Seated.update (seated : Seated M fanouts executors) {entry : WakeFanout}
    (members : entry.members = (fanouts f).members)
    (tenancy : (∀ idx < M, (fanouts f).members idx = none) ∨
      entry.bumps = (fanouts f).bumps ∧ entry.serving = (fanouts f).serving) :
    Seated M (Function.update fanouts f entry) executors := by
  have slots (h : Nat) : (Function.update fanouts f entry h).members = (fanouts h).members := by
    by_cases here : h = f
    · rw [here, Function.update_self, members]
    · rw [Function.update_of_ne here]
  constructor
  · intro h idx x held
    rw [slots] at held
    have old := seated.placed h idx x held
    by_cases here : h = f
    · subst here
      rw [Function.update_self]
      rcases tenancy with free | ⟨bumps, serving⟩
      · rw [free idx old.1] at held
        cases held
      · rw [bumps, serving]
        exact old
    · rw [Function.update_of_ne here]
      exact old
  · intro x m member
    rw [slots]
    exact seated.there x m member

theorem Seated.place (seated : Seated M fanouts executors) {place : ExecutorAt}
    (same : place.membership = (executors x).membership) :
    Seated M fanouts (Function.update executors x place) := by
  have memberships (y : Nat) :
      (Function.update executors x place y).membership = (executors y).membership := by
    by_cases here : y = x
    · rw [here, Function.update_self, same]
    · rw [Function.update_of_ne here]
  constructor
  · intro f idx y held
    rw [memberships]
    exact seated.placed f idx y held
  · intro y m member
    rw [memberships] at member
    exact seated.there y m member

theorem members_store (fanouts : Nat → WakeFanout) (f idx : Nat) (ctx : Option Nat) (h j : Nat) :
    (Function.update fanouts f { fanouts f with
      members := Function.update (fanouts f).members idx ctx } h).members j =
        if h = f ∧ j = idx then ctx else (fanouts h).members j := by
  by_cases here : h = f
  · subst here
    rw [Function.update_self]
    by_cases slot : j = idx
    · rw [slot, if_pos ⟨rfl, rfl⟩]
      exact Function.update_self ..
    · rw [if_neg (fun both => slot both.2)]
      exact Function.update_of_ne slot ..
  · rw [if_neg (fun both => here both.1), Function.update_of_ne here]

theorem tenancy_store (fanouts : Nat → WakeFanout) (f idx : Nat) (ctx : Option Nat) (h : Nat) :
    (Function.update fanouts f { fanouts f with
      members := Function.update (fanouts f).members idx ctx } h).serving = (fanouts h).serving ∧
    (Function.update fanouts f { fanouts f with
      members := Function.update (fanouts f).members idx ctx } h).bumps = (fanouts h).bumps := by
  by_cases here : h = f
  · subst here
    rw [Function.update_self]
    exact ⟨rfl, rfl⟩
  · rw [Function.update_of_ne here]
    exact ⟨rfl, rfl⟩

theorem Seated.join (seated : Seated M fanouts executors) {m : Membership}
    (outside : (executors x).membership = none) (inside : m.idx < M)
    (free : (fanouts m.fanout).members m.idx = none)
    (serving : (fanouts m.fanout).serving = true) (current : (fanouts m.fanout).bumps = m.bumps) :
    Seated M
      (Function.update fanouts m.fanout { fanouts m.fanout with
        members := Function.update (fanouts m.fanout).members m.idx (some x) })
      (Function.update executors x (.joined m)) := by
  constructor
  · intro h j y held
    have tenancy := tenancy_store fanouts m.fanout m.idx (some x) h
    rw [members_store] at held
    rw [tenancy.1, tenancy.2]
    split at held
    next slot =>
      obtain ⟨rfl, rfl⟩ := slot
      cases held
      rw [Function.update_self, current]
      exact ⟨inside, serving, rfl⟩
    next =>
      have old := seated.placed h j y held
      have other : y ≠ x := by
        intro same
        rw [same, outside] at old
        cases old.2.2
      rw [Function.update_of_ne other]
      exact old
  · intro y other member
    rw [members_store]
    by_cases same : y = x
    · rw [same, Function.update_self] at member
      cases member
      rw [if_pos ⟨rfl, rfl⟩, same]
    · rw [Function.update_of_ne same] at member
      have old := seated.there y other member
      rw [if_neg, old]
      rintro ⟨fanout, slot⟩
      rw [fanout, slot, free] at old
      cases old

theorem Seated.leave (seated : Seated M fanouts executors) {m : Membership}
    (leaves : (executors x).membership = some m) :
    Seated M
      (Function.update fanouts m.fanout { fanouts m.fanout with
        members := Function.update (fanouts m.fanout).members m.idx none })
      (Function.update executors x (.waiting m)) := by
  have mine := seated.there x m leaves
  constructor
  · intro h j y held
    have tenancy := tenancy_store fanouts m.fanout m.idx none h
    rw [members_store] at held
    rw [tenancy.1, tenancy.2]
    split at held
    next => cases held
    next elsewhere =>
      have old := seated.placed h j y held
      have other : y ≠ x := by
        intro same
        rw [same, leaves] at old
        cases old.2.2
        exact elsewhere ⟨rfl, rfl⟩
      rw [Function.update_of_ne other]
      exact old
  · intro y other member
    rw [members_store]
    by_cases same : y = x
    · rw [same, Function.update_self] at member
      cases member
    · rw [Function.update_of_ne same] at member
      have old := seated.there y other member
      rw [if_neg, old]
      rintro ⟨fanout, slot⟩
      rw [fanout, slot, mine] at old
      exact same (Option.some.inj old).symm

theorem Reached.place (reached : Reached executors fires) {place : ExecutorAt}
    (keeps : ∀ fire ∈ fires, fire.holds = some x → ∀ m, (executors x).reach = some m →
      fire.fanout = some m.fanout → place.reach = some m) :
    Reached (Function.update executors x place) fires := by
  intro fire member ctx held
  obtain ⟨m, reach, fanout⟩ := reached fire member ctx held
  refine ⟨m, ?_, fanout⟩
  by_cases same : ctx = x
  · subst same
    rw [Function.update_self]
    exact keeps fire member held m reach fanout
  · rw [Function.update_of_ne same]
    exact reach

theorem Reached.set (reached : Reached executors fires) {fire : FireAt}
    (fresh : ∀ ctx, fire.holds = some ctx →
      ∃ m, (executors ctx).reach = some m ∧ fire.fanout = some m.fanout) :
    Reached executors (fires.set i fire) := by
  intro other member ctx held
  rcases List.mem_or_eq_of_mem_set member with old | rfl
  · exact reached other old ctx held
  · exact fresh ctx held

section

variable (counted : Counted fanouts fires)
include counted

theorem Counted.update {entry : WakeFanout} (same : entry.inflight = (fanouts f).inflight) :
    Counted (Function.update fanouts f entry) fires := by
  intro h
  rw [← counted h]
  by_cases here : h = f
  · rw [here, Function.update_self, same]
  · rw [Function.update_of_ne here]

theorem Counted.set {fire old : FireAt} (found : fires[i]? = some old)
    (same : fire.fanout = old.fanout) :
    Counted fanouts (fires.set i fire) := by
  obtain ⟨inside, rfl⟩ := List.getElem?_eq_some_iff.mp found
  intro h
  rw [List.countP_set inside, counted h, same]
  by_cases here : fires[i].fanout = some h
  · have positive : 0 < fires.countP fun fire => fire.fanout = some h :=
      List.countP_pos_iff.mpr ⟨fires[i], List.getElem_mem inside, by simpa using here⟩
    simp only [here, decide_true, if_true]
    omega
  · simp [here]

theorem Counted.start (idx : Nat) (room : (fanouts f).inflight.toNat + 1 < 2 ^ 32) :
    Counted (Function.update fanouts f { fanouts f with inflight := (fanouts f).inflight + 1 })
      (fires ++ [.reading f idx]) := by
  intro h
  rw [List.countP_append, ← counted h]
  by_cases here : h = f
  · subst here
    rw [Function.update_self]
    calc
      ((fanouts h).inflight + 1).toNat = (fanouts h).inflight.toNat + 1 := by
        rw [UInt32.toNat_add]
        exact Nat.mod_eq_of_lt room
      _ = _ := by simp [FireAt.fanout]
  · rw [Function.update_of_ne here]
    simp [FireAt.fanout, Ne.symm here]

theorem Counted.positive {fire : FireAt} (member : fire ∈ fires) (fanout : fire.fanout = some f)
    : 0 < (fanouts f).inflight.toNat := by
  rw [counted f]
  exact List.countP_pos_iff.mpr ⟨fire, member, by simpa using fanout⟩

theorem Counted.finish {old : FireAt} (found : fires[i]? = some old)
    (fanout : old.fanout = some f) :
    Counted (Function.update fanouts f { fanouts f with inflight := (fanouts f).inflight - 1 })
      (fires.set i .returned) := by
  have positive := counted.positive (List.mem_of_getElem? found) fanout
  obtain ⟨inside, rfl⟩ := List.getElem?_eq_some_iff.mp found
  intro h
  rw [List.countP_set inside, ← counted h, fanout]
  by_cases here : h = f
  · subst here
    rw [Function.update_self]
    calc
      ((fanouts h).inflight - 1).toNat = (fanouts h).inflight.toNat - 1 :=
        UInt32.toNat_sub_of_le _ _ (UInt32.le_iff_toNat_le.mpr positive)
      _ = _ := by simp [FireAt.fanout]
  · rw [Function.update_of_ne here]
    simp [FireAt.fanout, Ne.symm here]

end

theorem inv_new (M : Nat) : Inv M new := by
  refine ⟨⟨?_, ?_⟩, ?_, ?_⟩
  · intro f idx x held
    cases held
  · intro x m member
    cases member
  · intro fire member
    cases member
  · intro f
    rfl

section

variable (inv : Inv M s)
include inv

theorem Inv.claimStep (calm : s.undisturbed M (.claimStep i) = true)
    (stepped : s.claimStep F i = some next) : Inv M next := by
  rw [undisturbed] at calm
  rw [WakePool.claimStep] at stepped
  match at_ : s.claims[i]? with
  | none | some (.returned _) =>
    rw [at_] at stepped
    cases stepped
  | some (.looking key f) =>
    rw [at_] at stepped
    dsimp only at stepped
    split at stepped
    · cases stepped
      exact ⟨inv.seated, inv.reached, inv.counted⟩
    · split at stepped
      · cases stepped
        exact ⟨inv.seated.update rfl (.inr ⟨rfl, rfl⟩), inv.reached, inv.counted.update rfl⟩
      · cases stepped
        exact ⟨inv.seated, inv.reached, inv.counted⟩
  | some (.taken f) =>
    rw [at_] at stepped calm
    cases stepped
    exact ⟨inv.seated.update rfl (.inl (empty_iff.mp calm)), inv.reached, inv.counted.update rfl⟩
  | some (.bumped f) =>
    rw [at_] at stepped
    cases stepped
    exact ⟨inv.seated.update rfl (.inr ⟨rfl, rfl⟩), inv.reached, inv.counted.update rfl⟩

theorem Inv.releaseStep (calm : s.undisturbed M (.releaseStep i) = true)
    (stepped : s.releaseStep M i = some next) : Inv M next := by
  rw [undisturbed] at calm
  rw [WakePool.releaseStep] at stepped
  match at_ : s.releases[i]? with
  | none | some .returned =>
    rw [at_] at stepped
    cases stepped
  | some (.silenced f) =>
    rw [at_] at stepped calm
    cases stepped
    exact ⟨inv.seated.update rfl (.inl (empty_iff.mp calm)), inv.reached, inv.counted.update rfl⟩
  | some (.clearing f idx) =>
    rw [at_] at stepped calm
    dsimp only at stepped calm
    split at stepped
    · cases stepped
      have same : Function.update (s.fanouts f).members idx none = (s.fanouts f).members :=
        Function.update_eq_self_iff.mpr (Option.isNone_iff_eq_none.mp calm).symm
      exact ⟨inv.seated.update same (.inr ⟨rfl, rfl⟩), inv.reached, inv.counted.update rfl⟩
    · split at stepped
      · cases stepped
        exact ⟨inv.seated, inv.reached, inv.counted⟩
      · cases stepped
        exact inv
  | some (.quiet f) =>
    rw [at_] at stepped
    cases stepped
    exact ⟨inv.seated.update rfl (.inr ⟨rfl, rfl⟩), inv.reached, inv.counted.update rfl⟩

theorem Inv.joinStep (calm : s.undisturbed M (.joinStep x) = true)
    (stepped : s.joinStep M x = some next) : Inv M next := by
  rw [undisturbed] at calm
  rw [WakePool.joinStep] at stepped
  match at_ : s.executors x with
  | .joining m =>
    have unseated : (s.executors x).membership = none := by rw [at_]; rfl
    have unheld {place : ExecutorAt} : Reached (Function.update s.executors x place) s.fires := by
      apply inv.reached.place
      intro fire _ _ held reach
      rw [at_] at reach
      cases reach
    rw [at_] at stepped calm
    dsimp only at stepped calm
    split at stepped
    next inside =>
      split at stepped
      next free =>
        cases stepped
        simp only [free, Option.isSome_none, Bool.false_or, Bool.and_eq_true, beq_iff_eq] at calm
        exact ⟨inv.seated.join unseated inside free calm.1 calm.2, unheld, inv.counted.update rfl⟩
      next =>
        cases stepped
        exact ⟨inv.seated.place unseated.symm, unheld, inv.counted⟩
    next =>
      cases stepped
      exact ⟨inv.seated.place unseated.symm, unheld, inv.counted⟩
  | .outside | .joined _ | .leaving _ | .waiting _ | .freed =>
    rw [at_] at stepped
    cases stepped

theorem Inv.leaveStep (stepped : s.leaveStep x = some next) : Inv M next := by
  rw [WakePool.leaveStep] at stepped
  match at_ : s.executors x with
  | .leaving m =>
    have leaves : (s.executors x).membership = some m := by rw [at_]; rfl
    rw [at_] at stepped
    cases stepped
    refine ⟨inv.seated.leave leaves, inv.reached.place ?_, inv.counted.update rfl⟩
    intro fire _ _ old reach _
    rw [← reach, ExecutorAt.reach_of_membership leaves]
    rfl
  | .waiting m =>
    rw [at_] at stepped
    dsimp only at stepped
    split at stepped
    next quiet =>
      cases stepped
      refine ⟨inv.seated.place ?_, inv.reached.place ?_, inv.counted⟩
      · rw [at_]
        rfl
      -- A callback that held the context would still be counted.
      · intro fire member _ old reach fanout
        rw [at_] at reach
        cases reach
        have positive := inv.counted.positive member fanout
        rw [quiet] at positive
        cases positive
    next =>
      cases stepped
      exact inv
  | .outside | .joining _ | .joined _ | .freed =>
    rw [at_] at stepped
    cases stepped

theorem Inv.fireStep (stepped : s.fireStep M i = some next) : Inv M next := by
  rw [WakePool.fireStep] at stepped
  match at_ : s.fires[i]? with
  | none | some .returned =>
    rw [at_] at stepped
    cases stepped
  | some (.reading f idx) =>
    rw [at_] at stepped
    dsimp only at stepped
    split at stepped
    · split at stepped
      next =>
        cases stepped
        refine ⟨inv.seated, inv.reached.set ?_, inv.counted.set at_ rfl⟩
        intro ctx held
        cases held
      next ctx slot =>
        cases stepped
        refine ⟨inv.seated, inv.reached.set ?_, inv.counted.set at_ rfl⟩
        intro _ held
        cases held
        have seat := (inv.seated.placed f idx ctx slot).2.2
        exact ⟨_, ExecutorAt.reach_of_membership seat, rfl⟩
    · cases stepped
      refine ⟨inv.seated.update rfl (.inr ⟨rfl, rfl⟩), inv.reached.set ?_,
        inv.counted.finish at_ rfl⟩
      intro ctx held
      cases held
  | some (.waking f idx ctx) =>
    rw [at_] at stepped
    cases stepped
    refine ⟨inv.seated, inv.reached.set ?_, inv.counted.set at_ rfl⟩
    intro ctx held
    cases held

end

theorem Seated.current (seated : Seated M s.fanouts s.executors) {m : Membership}
    (member : (s.executors x).membership = some m) : (s.fanouts m.fanout).bumps = m.bumps := by
  have seat := (seated.placed _ _ x (seated.there x m member)).2.2
  rw [member] at seat
  exact (congrArg Membership.bumps (Option.some.inj seat)).symm

theorem Inv.step {access : WakeAccess} (inv : Inv M s) (calm : s.undisturbed M access = true)
    (stepped : s.step F M access = some next) : Inv M next := by
  cases access with
  | claim key =>
    cases stepped
    exact ⟨inv.seated, inv.reached, inv.counted⟩
  | claimStep i => exact inv.claimStep calm stepped
  | join x f =>
    rw [WakePool.step] at stepped
    split at stepped
    next outside =>
      cases stepped
      refine ⟨inv.seated.place ?_, inv.reached.place ?_, inv.counted⟩
      · rw [outside]
        rfl
      · intro fire _ _ m reach
        rw [outside] at reach
        cases reach
    next => cases stepped
  | joinStep x => exact inv.joinStep calm stepped
  | leave x =>
    rw [WakePool.step] at stepped
    split at stepped
    next m joined =>
      have member : (s.executors x).membership = some m := by rw [joined]; rfl
      have current : (s.fanouts m.fanout).generation = m.generation := by
        rw [WakeFanout.generation, inv.seated.current member]
        rfl
      rw [if_pos current] at stepped
      cases stepped
      refine ⟨inv.seated.place member.symm, inv.reached.place ?_, inv.counted⟩
      intro fire _ _ old reach _
      rw [← reach, joined]
      rfl
    next => cases stepped
  | leaveStep x => exact inv.leaveStep stepped
  | release f =>
    cases stepped
    exact ⟨inv.seated.update rfl (.inr ⟨rfl, rfl⟩), inv.reached, inv.counted.update rfl⟩
  | releaseStep i => exact inv.releaseStep calm stepped
  | fire f =>
    rw [WakePool.step] at stepped
    split at stepped
    next =>
      cases stepped
      refine ⟨inv.seated.update rfl (.inr ⟨rfl, rfl⟩), ?_,
        inv.counted.start 0 (of_decide_eq_true calm)⟩
      intro fire member ctx held
      rcases List.mem_append.mp member with old | fresh
      · exact inv.reached fire old ctx held
      · cases List.mem_singleton.mp fresh
        cases held
    next => cases stepped
  | fireStep i => exact inv.fireStep stepped

theorem Inv.belongs (inv : Inv M s) : s.Belongs :=
  fun f idx ctx held => (inv.seated.placed f idx ctx held).2

theorem Inv.wakesLive (inv : Inv M s) (access : WakeAccess) : s.WakesLive access := by
  cases access with
  | fireStep i =>
    intro f idx ctx waking freed
    obtain ⟨m, reach, _⟩ := inv.reached _ (List.mem_of_getElem? waking) ctx rfl
    rw [freed] at reach
    cases reach
  | _ => trivial

theorem Inv.clearsOwn (inv : Inv M s) (access : WakeAccess) : s.ClearsOwn access := by
  cases access with
  | leaveStep x =>
    intro m ctx other leaves held member
    have mine : (s.executors x).membership = some m := by rw [leaves]; rfl
    have seat := (inv.seated.placed _ _ ctx held).2.2
    rw [member] at seat
    cases seat
    exact inv.seated.current mine
  | _ => trivial

/-- What the fan-out promises its members, at every step of a run and in the state it ends in. -/
def Promised (F M : Nat) (accesses : List WakeAccess) (last : WakePool) : Prop :=
  Along (step F M) (fun s access => s.WakesLive access ∧ s.ClearsOwn access ∧ s.Belongs) new
    accesses ∧ last.Belongs

/-- In a run that nothing disturbs, no callback wakes a freed context, no `leave` takes another
tenancy's slot, and every context in a slot is one its own `leave` will remove. -/
theorem promised_of_undisturbed (F M : Nat) (accesses : List WakeAccess) (last : WakePool)
    (reached : run (step F M) new accesses = some last)
    (calm : Along (step F M) (fun s access => s.undisturbed M access = true) new accesses) :
    Promised F M accesses last := by
  have keeps (s : WakePool) (access : WakeAccess) (next : WakePool) (inv : Inv M s)
      (met : s.undisturbed M access = true) (stepped : step F M s access = some next) :
      Inv M next := inv.step met stepped
  constructor
  · apply along_of_invariant_along keeps _ new (inv_new M) calm
    intro s access inv _
    exact ⟨inv.wakesLive access, inv.clearsOwn access, inv.belongs⟩
  · exact (run_invariant_along keeps new last accesses (inv_new M) calm reached).belongs

/-- Two executors join the entry of one session, an arrival wakes both while the first leaves, and
the entry is released and claimed for another session. -/
def twoTenancies : List WakeAccess :=
  [.claim 7, .claimStep 0, .claimStep 0, .claimStep 0,
    .join 0 0, .joinStep 0, .join 1 0, .joinStep 1, .joinStep 1,
    .fire 0, .fireStep 0, .leave 0, .leaveStep 0, .leaveStep 0, .fireStep 0,
    .fireStep 0, .fireStep 0, .fireStep 0, .leaveStep 0, .leave 1, .leaveStep 1, .leaveStep 1,
    .release 0, .releaseStep 0, .releaseStep 0, .releaseStep 0, .releaseStep 0, .releaseStep 0,
    .claim 8, .claimStep 1, .claimStep 1, .claimStep 1, .join 2 0, .joinStep 2]

theorem promised_two_tenancies :
    ∃ last, run (step 4 2) new twoTenancies = some last ∧ Promised 4 2 twoTenancies last :=
  ⟨_, rfl, promised_of_undisturbed 4 2 twoTenancies _ rfl (by decide +kernel)⟩

/-- A callback loads a member's context, the entry is released, and the member's `leave` returns at
once: its membership is stale. -/
def straying : List WakeAccess :=
  [.claim 7, .claimStep 0, .claimStep 0, .claimStep 0, .join 0 0, .joinStep 0,
    .fire 0, .fireStep 0, .release 0, .releaseStep 0, .leave 0]

theorem promise_fails :
    ¬ ∀ F M accesses last, run (step F M) new accesses = some last →
      Promised F M accesses last := by
  intro all
  have along := (all 4 8 (straying ++ [.fireStep 0]) _ rfl).1
  exact (along_at along _ rfl).1 0 0 0 rfl rfl

end WakePool

end NanoRos
