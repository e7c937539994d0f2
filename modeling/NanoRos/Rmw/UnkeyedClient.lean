import NanoRos.Rmw.Correlation

/-! A service client over a backend that gives its requests no id. -/

namespace NanoRos

/-- A reply that `resolve` handed to a request: whose it was, who was waiting, what came back. -/
structure Handed (K : Type) where
  request : Nat × K
  receiver : Option (Nat × K)
  key : K
  deriving DecidableEq

def Handed.Right {K : Type} (h : Handed K) : Prop :=
  h.receiver = some h.request ∧ h.key = h.request.2

structure UnkeyedClient (K : Type) (N : Nat) where
  table : RequestCorrelator K N
  next : Nat
  waiting : Option (Nat × K)
  /-- The requests whose reply may still come, oldest first. -/
  inFlight : List (Nat × K)
  handed : List (Handed K)

namespace UnkeyedClient

variable {K : Type} {N : Nat}

inductive Event (K : Type) where
  | send (key : K)
  | remove (seq : Int64)
  | clear
  /-- The network loses a reply. -/
  | lose (i : Nat)
  /-- The oldest reply in flight arrives and carries `seq`. -/
  | reply (seq : Int64)

def init [Inhabited K] : UnkeyedClient K N := ⟨RequestCorrelator.new, 0, none, [], []⟩

/-- Abandoned requests whose reply may still come. -/
def outstanding (c : UnkeyedClient K N) : Nat :=
  match c.waiting with
  | none => c.inFlight.length
  | some w => (c.inFlight.filter fun r => r.1 != w.1).length

/-- Steps are taken with fewer than 256 abandonments outstanding. -/
def step (c : UnkeyedClient K N) (e : Event K) : Option (UnkeyedClient K N) :=
  if 256 ≤ c.outstanding then none
  else
    match e with
    | .send key =>
      match c.table.canSend with
      | .error _ => some c
      | .ok _ =>
        match c.table.insert sequenceIdUnknown key with
        | .ok table => some { c with
            table := table
            next := c.next + 1
            waiting := some (c.next, key)
            inFlight := c.inFlight ++ [(c.next, key)] }
        | .error _ => some { c with
            next := c.next + 1
            inFlight := c.inFlight ++ [(c.next, key)] }
    | .remove seq =>
      match c.table.remove seq with
      | (true, table) => some { c with table := table, waiting := none }
      | (false, table) => some { c with table := table }
    | .clear => some { c with table := c.table.clear, waiting := none }
    | .lose i =>
      if i < c.inFlight.length then some { c with inFlight := c.inFlight.eraseIdx i } else none
    | .reply seq =>
      match c.inFlight with
      | [] => none
      | r :: rest =>
        match c.table.resolve seq with
        | (some key, table) => some { c with
            table := table
            waiting := none
            inFlight := rest
            handed := c.handed ++ [⟨r, c.waiting, key⟩] }
        | (none, table) => some { c with table := table, inFlight := rest }

/-- A reply with an id of its own comes for the request that is waiting, if one is. -/
def Meets (c : UnkeyedClient K N) : Event K → Prop
  | .reply seq => seq ≠ sequenceIdUnknown → ∀ w, c.waiting = some w →
      ∀ r, c.inFlight.head? = some r → r.1 = w.1
  | _ => True

/-- The table holds the waiting request, which is the newest; every abandoned request whose
reply may still come is paid for by an orphan. -/
structure Sound (c : UnkeyedClient K N) : Prop where
  live : c.table.live = (c.waiting.map fun w => (sequenceIdUnknown, w.2)).toList
  increasing : (c.inFlight.map Prod.fst).Pairwise (· < ·)
  issued : ∀ r ∈ c.inFlight, r.1 < c.next
  newest : ∀ w, c.waiting = some w → w.1 < c.next ∧ ∀ r ∈ c.inFlight, r.1 ≤ w.1
  same : ∀ w, c.waiting = some w → ∀ r ∈ c.inFlight, r.1 = w.1 → r = w
  paid : c.outstanding ≤ c.table.orphans ∨ c.table.orphans = u8Max
  right : ∀ h ∈ c.handed, h.Right

end UnkeyedClient

namespace RequestCorrelator

variable {K : Type} {N : Nat}

variable (c : RequestCorrelator K N)

theorem resolve_orphan (owed : 0 < c.orphans) :
    c.resolve sequenceIdUnknown =
      (none, { c with orphans := c.orphans - 1, dropped := c.dropped + 1 }) := by
  simp only [resolve, matchSlot, if_true, if_pos owed]

theorem resolve_nobody (seq : Int64) (empty : c.live = []) :
    ∃ c', c.resolve seq = (none, c') ∧ c'.live = [] ∧
      c'.orphans = if seq = sequenceIdUnknown then c.orphans - 1 else c.orphans := by
  have several : ¬ c.len = 1 := by
    rw [← length_live, empty, List.length_nil]
    decide
  by_cases unknown : seq = sequenceIdUnknown
  · rw [if_pos unknown]
    by_cases owed : c.orphans > 0
    · rw [unknown, c.resolve_orphan owed]
      exact ⟨_, rfl, empty, rfl⟩
    · refine ⟨{ c with dropped := c.dropped + 1 }, ?_, empty, ?_⟩
      · simp only [resolve, matchSlot, if_pos unknown, if_neg owed, if_neg several]
      · change c.orphans = c.orphans - 1
        omega
  · have missed : ¬ (c.len = 1 ∧ (c.entries.slots.head?.map Prod.fst) = some sequenceIdUnknown) :=
      fun sole => several sole.1
    rw [if_neg unknown]
    refine ⟨{ c with dropped := c.dropped + 1 }, ?_, empty, rfl⟩
    simp only [resolve, matchSlot, if_neg unknown, empty, List.findIdx?_nil, if_neg missed]

theorem resolve_sole (seq : Int64) (key : K) (sole : c.live = [(sequenceIdUnknown, key)])
    (unclaimed : seq = sequenceIdUnknown → c.orphans = 0) :
    ∃ c', c.resolve seq = (some key, c') ∧ c'.live = [] ∧ c'.orphans = c.orphans := by
  have one : c.len = 1 := by rw [← length_live, sole, List.length_singleton]
  have slot : c.entries.slots[0]? = some (sequenceIdUnknown, key) := by
    rw [c.getElem?_slots (by omega), sole]
    rfl
  have emptied : (c.removeAt 0).live = [] := by
    rw [c.live_removeAt 0 (by omega), sole]
    rfl
  refine ⟨c.removeAt 0, ?_, emptied, rfl⟩
  by_cases unknown : seq = sequenceIdUnknown
  · have free : ¬ c.orphans > 0 := by
      rw [unclaimed unknown]
      decide
    simp only [resolve, matchSlot, if_pos unknown, if_neg free, if_pos one, slot, Option.map_some]
  · have head : c.entries.slots.head?.map Prod.fst = some sequenceIdUnknown := by
      rw [List.head?_eq_getElem?, slot]
      rfl
    have missed : c.live.findIdx? (fun entry => entry.1 == seq) = none := by
      rw [sole, List.findIdx?_eq_none_iff]
      intro entry member
      rw [List.mem_singleton.mp member]
      simpa using fun same => unknown same.symm
    simp only [resolve, matchSlot, if_neg unknown, missed, one, head, and_self, if_true, slot,
      Option.map_some]

theorem remove_sole (seq : Int64) (key : K) (sole : c.live = [(sequenceIdUnknown, key)]) :
    (∃ c', c.remove seq = (true, c') ∧ c'.live = [] ∧ c'.orphans = min (c.orphans + 1) u8Max) ∨
    c.remove seq = (false, c) := by
  rcases c.remove_cases seq with ⟨i, entry, placed, rfl, inside, removed⟩ | ⟨_, kept⟩
  · rw [sole] at placed
    have first : i = 0 := by
      have small : c.len = 1 := by rw [← length_live, sole, List.length_singleton]
      omega
    subst first
    cases placed
    refine .inl ⟨_, removed, ?_, by simp only [noteAbandoned, if_true]; rfl⟩
    rw [live_noteAbandoned, c.live_removeAt 0 inside, sole]
    rfl
  · exact .inr kept

theorem clear_sole (key : K) (sole : c.live = [(sequenceIdUnknown, key)]) :
    c.clear.orphans = min (c.orphans + 1) u8Max := by
  simp only [clear, sole, List.foldl_cons, List.foldl_nil, noteAbandoned, if_true]

theorem clear_empty (empty : c.live = []) :
    c.clear.orphans = c.orphans := by
  simp only [clear, empty, List.foldl_nil]

end RequestCorrelator

namespace UnkeyedClient

variable {K : Type} {N : Nat}

theorem sound_init [Inhabited K] : (init : UnkeyedClient K N).Sound where
  live := rfl
  increasing := List.Pairwise.nil
  issued := by
    intro r member
    cases member
  newest := by
    intro w waits
    cases waits
  same := by
    intro w waits
    cases waits
  paid := .inl (Nat.le_refl 0)
  right := by
    intro h member
    cases member

theorem length_le_filter_add_one (inFlight : List (Nat × K))
    (increasing : (inFlight.map Prod.fst).Pairwise (· < ·)) (serial : Nat) :
    inFlight.length ≤ (inFlight.filter fun r => r.1 != serial).length + 1 := by
  induction inFlight with
  | nil => exact Nat.zero_le _
  | cons r rest ih =>
    rw [List.map_cons, List.pairwise_cons] at increasing
    by_cases own : r.1 = serial
    · have others : rest.filter (fun r => r.1 != serial) = rest := by
        rw [List.filter_eq_self]
        intro later member
        have after := increasing.1 later.1 (List.mem_map.mpr ⟨later, member, rfl⟩)
        rw [bne_iff_ne]
        omega
      rw [List.filter_cons_of_neg (by simp [own]), others, List.length_cons]
    · have tail := ih increasing.2
      rw [List.filter_cons_of_pos (by simp [own]), List.length_cons, List.length_cons]
      omega

variable {c : UnkeyedClient K N} {w : Nat × K} {next : UnkeyedClient K N} {r : Nat × K}
  {rest : List (Nat × K)}

theorem Sound.shrink {c' : UnkeyedClient K N} (sound : c.Sound) (counter : c'.next = c.next)
    (fewer : c'.inFlight.Sublist c.inFlight) (waits : c'.waiting = c.waiting ∨ c'.waiting = none)
    (live : c'.table.live = (c'.waiting.map fun w => (sequenceIdUnknown, w.2)).toList)
    (paid : c'.outstanding ≤ c'.table.orphans ∨ c'.table.orphans = u8Max)
    (right : ∀ h ∈ c'.handed, h.Right) : c'.Sound where
  live := live
  increasing := sound.increasing.sublist (fewer.map Prod.fst)
  issued := by
    intro r member
    rw [counter]
    exact sound.issued r (fewer.subset member)
  newest := by
    intro w waiting
    rcases waits with stays | gone
    · rw [stays] at waiting
      rw [counter]
      exact ⟨(sound.newest w waiting).1,
        fun r member => (sound.newest w waiting).2 r (fewer.subset member)⟩
    · rw [gone] at waiting
      cases waiting
  same := by
    intro w waiting r member
    rcases waits with stays | gone
    · rw [stays] at waiting
      exact sound.same w waiting r (fewer.subset member)
    · rw [gone] at waiting
      cases waiting
  paid := paid
  right := right

theorem outstanding_mono {c' : UnkeyedClient K N} (fewer : c'.inFlight.Sublist c.inFlight)
    (stays : c'.waiting = c.waiting) : c'.outstanding ≤ c.outstanding := by
  simp only [outstanding, stays]
  cases c.waiting with
  | none => exact fewer.length_le
  | some w => exact (fewer.filter _).length_le

section

variable (sound : c.Sound)
include sound

theorem Sound.abandon (waiting : c.waiting = some w) (table : RequestCorrelator K N)
    (empty : table.live = []) (noted : table.orphans = min (c.table.orphans + 1) u8Max) :
    ({ c with table := table, waiting := none } : UnkeyedClient K N).Sound := by
  have more := length_le_filter_add_one c.inFlight sound.increasing w.1
  have before : c.outstanding = (c.inFlight.filter fun r => r.1 != w.1).length := by
    simp only [outstanding, waiting]
  refine sound.shrink rfl (List.Sublist.refl _) (.inr rfl) empty ?_ sound.right
  change c.inFlight.length ≤ table.orphans ∨ table.orphans = u8Max
  rcases sound.paid with covered | full
  · omega
  · omega

theorem sole_of_waiting (waiting : c.waiting = some w) :
    c.table.live = [(sequenceIdUnknown, w.2)] := by
  rw [sound.live, waiting]
  rfl

theorem empty_of_idle (idle : c.waiting = none) :
    c.table.live = [] := by
  rw [sound.live, idle]
  rfl

theorem idle_of_allowed (allowed : c.table.canSend = .ok ()) :
    c.waiting = none := by
  cases waiting : c.waiting with
  | none => rfl
  | some w =>
    have sole := sole_of_waiting sound waiting
    have keyed := (c.table.canSend_eq_ok allowed).1
    exact absurd rfl (keyed (sequenceIdUnknown, w.2) (by rw [sole]; simp))

theorem sound_send (key : K) (stepped : c.step (.send key) = some next) :
    next.Sound := by
  simp only [step] at stepped
  split at stepped
  case isTrue => cases stepped
  case isFalse =>
    cases allowed : c.table.canSend with
    | error refusal =>
      rw [allowed] at stepped
      cases stepped
      exact sound
    | ok _ =>
      have idle := idle_of_allowed sound allowed
      have room := (c.table.canSend_eq_ok allowed).2
      rcases c.table.insert_of_room sequenceIdUnknown key room with
        ⟨table, stored, appended, orphans⟩
      rw [allowed, stored] at stepped
      cases stepped
      rw [empty_of_idle sound idle, List.nil_append] at appended
      have older : ∀ r ∈ c.inFlight, r.1 ≠ c.next := fun r member =>
        Nat.ne_of_lt (sound.issued r member)
      have split (r : Nat × K) (member : r ∈ c.inFlight ++ [(c.next, key)]) :
          r ∈ c.inFlight ∨ r = (c.next, key) := by simpa using member
      refine ⟨appended, ?_, ?_, ?_, ?_, ?_, sound.right⟩
      · rw [List.map_append, List.pairwise_append]
        refine ⟨sound.increasing, List.pairwise_singleton _ _, ?_⟩
        intro first member last single
        rcases List.mem_map.mp member with ⟨r, listed, rfl⟩
        rw [List.mem_singleton.mp single]
        exact sound.issued r listed
      · intro r member
        rcases split r member with old | rfl
        · exact Nat.lt_succ_of_lt (sound.issued r old)
        · exact Nat.lt_succ_self _
      · intro w waiting
        cases waiting
        refine ⟨Nat.lt_succ_self _, ?_⟩
        intro r member
        rcases split r member with old | rfl
        · exact Nat.le_of_lt (sound.issued r old)
        · exact Nat.le_refl _
      · intro w waiting r member equal
        cases waiting
        rcases split r member with old | rfl
        · exact absurd equal (older r old)
        · rfl
      · have kept : (c.inFlight ++ [(c.next, key)]).filter (fun r => r.1 != c.next) =
            c.inFlight := by
          rw [List.filter_append, List.filter_eq_self.mpr, List.filter_cons_of_neg (by simp),
            List.filter_nil, List.append_nil]
          intro r member
          rw [bne_iff_ne]
          exact older r member
        have before : c.outstanding = c.inFlight.length := by simp only [outstanding, idle]
        simp only [outstanding, kept, orphans]
        rw [← before]
        exact sound.paid

theorem sound_remove (seq : Int64) (stepped : c.step (.remove seq) = some next) :
    next.Sound := by
  simp only [step] at stepped
  split at stepped
  case isTrue => cases stepped
  case isFalse =>
    cases waiting : c.waiting with
    | none =>
      have empty := empty_of_idle sound waiting
      rcases c.table.remove_cases seq with ⟨i, entry, placed, _⟩ | ⟨_, kept⟩
      · rw [empty] at placed
        cases placed
      · rw [kept] at stepped
        cases stepped
        exact sound
    | some w =>
      rcases c.table.remove_sole seq w.2 (sole_of_waiting sound waiting) with
        ⟨table, removed, empty, noted⟩ | kept
      · rw [removed] at stepped
        cases stepped
        exact sound.abandon waiting table empty noted
      · rw [kept] at stepped
        cases stepped
        exact sound

theorem sound_clear (stepped : c.step .clear = some next) : next.Sound := by
  simp only [step] at stepped
  split at stepped
  case isTrue => cases stepped
  case isFalse =>
    cases stepped
    cases waiting : c.waiting with
    | none =>
      have same := c.table.clear_empty (empty_of_idle sound waiting)
      refine sound.shrink rfl (List.Sublist.refl _) (.inr rfl) rfl ?_ sound.right
      have before : c.outstanding = c.inFlight.length := by simp only [outstanding, waiting]
      simp only [outstanding, same]
      rw [← before]
      exact sound.paid
    | some w =>
      exact sound.abandon waiting _ c.table.live_clear
        (c.table.clear_sole w.2 (sole_of_waiting sound waiting))

theorem sound_lose (i : Nat) (stepped : c.step (.lose i) = some next) :
    next.Sound := by
  simp only [step] at stepped
  split at stepped
  case isTrue => cases stepped
  case isFalse =>
    split at stepped
    case isFalse => cases stepped
    case isTrue =>
      cases stepped
      have fewer : (c.inFlight.eraseIdx i).Sublist c.inFlight := List.eraseIdx_sublist _ _
      refine sound.shrink rfl fewer (.inl rfl) sound.live ?_ sound.right
      have less := @outstanding_mono _ _ c { c with inFlight := c.inFlight.eraseIdx i } fewer rfl
      rcases sound.paid with covered | full
      · exact .inl (Nat.le_trans less covered)
      · exact .inr full

theorem rest_of_own (waiting : c.waiting = some w) (flight : c.inFlight = r :: rest)
    (own : r.1 = w.1) : r = w ∧ rest = [] := by
  have first : r ∈ c.inFlight := by
    rw [flight]
    exact List.mem_cons_self
  refine ⟨sound.same w waiting r first own, ?_⟩
  rw [List.eq_nil_iff_forall_not_mem]
  intro later member
  have ordered := sound.increasing
  rw [flight, List.map_cons, List.pairwise_cons] at ordered
  have after := ordered.1 later.1 (List.mem_map.mpr ⟨later, member, rfl⟩)
  have newest := (sound.newest w waiting).2 later (by
    rw [flight]
    exact List.mem_cons_of_mem _ member)
  omega

end

theorem outstanding_other (waiting : c.waiting = some w) (flight : c.inFlight = r :: rest)
    (other : r.1 ≠ w.1) :
    c.outstanding = (rest.filter fun r => r.1 != w.1).length + 1 := by
  simp only [outstanding, waiting, flight]
  rw [List.filter_cons_of_pos (by simp [other]), List.length_cons]

theorem own_of_free (sound : c.Sound) (waiting : c.waiting = some w)
    (flight : c.inFlight = r :: rest) (free : c.table.orphans = 0) : r.1 = w.1 := by
  by_contra other
  have owed := outstanding_other waiting flight other
  rcases sound.paid with covered | full
  · omega
  · rw [free] at full
    cases full

theorem sound_dropped (sound : c.Sound) (calm : c.outstanding ≤ u8Max)
    (flight : c.inFlight = r :: rest) (table : RequestCorrelator K N)
    (live : table.live = c.table.live) (kept : c.table.orphans - 1 ≤ table.orphans) :
    ({ c with table := table, inFlight := rest } : UnkeyedClient K N).Sound := by
  have fewer : rest.Sublist c.inFlight := by
    rw [flight]
    exact List.sublist_cons_self r rest
  have less : ({ c with table := table, inFlight := rest } : UnkeyedClient K N).outstanding ≤
      c.outstanding - 1 := by
    cases waiting : c.waiting with
    | none => simp only [outstanding, waiting, flight, List.length_cons, Nat.add_sub_cancel, le_refl]
    | some w =>
      by_cases own : r.1 = w.1
      · simp only [outstanding, waiting, (rest_of_own sound waiting flight own).2,
          List.filter_nil, List.length_nil, Nat.zero_le]
      · rw [outstanding_other waiting flight own]
        simp only [outstanding, Nat.add_sub_cancel, le_refl]
  refine sound.shrink rfl fewer (.inl rfl) (live.trans sound.live) (.inl ?_) sound.right
  change _ ≤ table.orphans
  rcases sound.paid with covered | full
  · omega
  · omega

theorem sound_taken (sound : c.Sound) (waiting : c.waiting = some w)
    (flight : c.inFlight = r :: rest) (own : r.1 = w.1) (table : RequestCorrelator K N)
    (empty : table.live = []) : ({ c with
      table := table
      waiting := none
      inFlight := rest
      handed := c.handed ++ [⟨r, c.waiting, w.2⟩] } : UnkeyedClient K N).Sound := by
  rcases rest_of_own sound waiting flight own with ⟨rfl, rfl⟩
  refine sound.shrink rfl (List.nil_sublist _) (.inr rfl) empty (.inl (Nat.zero_le _)) ?_
  intro h member
  rcases List.mem_append.mp member with old | new
  · exact sound.right h old
  · rw [List.mem_singleton.mp new]
    exact ⟨waiting, rfl⟩

theorem sound_reply (sound : c.Sound) (seq : Int64) (meets : c.Meets (.reply seq))
    (stepped : c.step (.reply seq) = some next) : next.Sound := by
  simp only [step] at stepped
  split at stepped
  case isTrue => cases stepped
  case isFalse calm =>
    have small : c.outstanding ≤ u8Max := by
      simp only [u8Max]
      omega
    cases flight : c.inFlight with
    | nil =>
      rw [flight] at stepped
      cases stepped
    | cons r rest =>
      rw [flight] at stepped
      cases waiting : c.waiting with
      | none =>
        have empty := empty_of_idle sound waiting
        rcases c.table.resolve_nobody seq empty with ⟨table, resolved, none, orphans⟩
        rw [resolved] at stepped
        cases stepped
        apply sound_dropped sound small flight table (none.trans empty.symm)
        rw [orphans]
        split <;> omega
      | some w =>
        by_cases owed : seq = sequenceIdUnknown ∧ 0 < c.table.orphans
        · rw [owed.1, c.table.resolve_orphan owed.2] at stepped
          cases stepped
          exact sound_dropped sound small flight _ rfl (Nat.le_refl _)
        · have unclaimed : seq = sequenceIdUnknown → c.table.orphans = 0 := by
            intro unknown
            by_contra some
            exact owed ⟨unknown, Nat.pos_of_ne_zero some⟩
          have own : r.1 = w.1 := by
            by_cases unknown : seq = sequenceIdUnknown
            · exact own_of_free sound waiting flight (unclaimed unknown)
            · exact meets unknown w waiting r (by rw [flight]; rfl)
          rcases c.table.resolve_sole seq w.2 (sole_of_waiting sound waiting) unclaimed with
            ⟨table, resolved, empty, _⟩
          rw [resolved] at stepped
          cases stepped
          exact sound_taken sound waiting flight own table empty

theorem step_sound (c : UnkeyedClient K N) (e : Event K) (next : UnkeyedClient K N)
    (sound : c.Sound) (meets : c.Meets e) (stepped : c.step e = some next) : next.Sound := by
  cases e with
  | send key => exact sound_send sound key stepped
  | remove seq => exact sound_remove sound seq stepped
  | clear => exact sound_clear sound stepped
  | lose i => exact sound_lose sound i stepped
  | reply seq => exact sound_reply sound seq meets stepped

/-- The branch for an id the table does not know asks no orphan: the waiting request takes the
reply of another. -/
theorem step_misdelivers (c : UnkeyedClient K N) (e : Event K) (next : UnkeyedClient K N)
    (sound : c.Sound) (fails : ¬ c.Meets e) (stepped : c.step e = some next) :
    ∃ h ∈ next.handed, ¬ h.Right := by
  cases e with
  | reply seq =>
    simp only [Meets, not_forall] at fails
    rcases fails with ⟨real, w, waiting, r, head, other⟩
    rcases List.head?_eq_some_iff.mp head with ⟨rest, flight⟩
    rcases c.table.resolve_sole seq w.2 (sole_of_waiting sound waiting)
      (fun unknown => absurd unknown real) with ⟨table, resolved, _⟩
    simp only [step] at stepped
    split at stepped
    case isTrue => cases stepped
    case isFalse =>
      rw [flight, resolved] at stepped
      cases stepped
      refine ⟨⟨r, c.waiting, w.2⟩, List.mem_append_right _ List.mem_cons_self, ?_⟩
      rintro ⟨same, _⟩
      rw [waiting] at same
      exact other (congrArg Prod.fst (Option.some.inj same)).symm
  | _ => exact absurd trivial fails

theorem handed_mono {e : Event K} (stepped : c.step e = some next) :
    c.handed ⊆ next.handed := by
  simp only [step] at stepped
  split at stepped
  case isTrue => cases stepped
  case isFalse =>
    have stays {other : UnkeyedClient K N} (taken : some other = some next)
        (same : other.handed = c.handed) : c.handed ⊆ next.handed := by
      cases taken
      rw [same]
      exact List.Subset.refl _
    cases e with
    | send key =>
      dsimp only at stepped
      split at stepped
      · exact stays stepped rfl
      · split at stepped <;> exact stays stepped rfl
    | remove seq =>
      dsimp only at stepped
      split at stepped <;> exact stays stepped rfl
    | clear => exact stays stepped rfl
    | lose i =>
      dsimp only at stepped
      split at stepped
      · exact stays stepped rfl
      · cases stepped
    | reply seq =>
      dsimp only at stepped
      split at stepped
      · cases stepped
      · split at stepped
        · cases stepped
          exact List.subset_append_left _ _
        · exact stays stepped rfl

theorem replies_to_own_request_iff [Inhabited K] (events : List (Event K)) (c : UnkeyedClient K N)
    (reached : run step (init : UnkeyedClient K N) events = some c) :
    (∀ h ∈ c.handed, h.Right) ↔ Along step Meets (init : UnkeyedClient K N) events := by
  have traced := @run_sound_iff _ _ step Meets Sound
    (fun c : UnkeyedClient K N => ∃ h ∈ c.handed, ¬ h.Right)
    (fun c sound fault => fault.elim fun h wrong => wrong.2 (sound.right h wrong.1))
    step_sound step_misdelivers
    (fun c e next fault stepped =>
      fault.elim fun h wrong => ⟨h, handed_mono stepped wrong.1, wrong.2⟩)
    init c events sound_init reached
  rw [← traced]
  simp only [not_exists, not_and, not_not]

/-- An abandoned request's late reply is dropped when it carries no id. -/
theorem replies_to_own_request_unkeyed : ∃ c : UnkeyedClient Nat 4,
    run step (init : UnkeyedClient Nat 4)
      [.send 1, .clear, .send 2, .reply sequenceIdUnknown, .reply sequenceIdUnknown] = some c ∧
    c.handed.map Handed.key = [2] ∧ ∀ h ∈ c.handed, h.Right := by
  refine ⟨_, rfl, by decide, ?_⟩
  refine (replies_to_own_request_iff [.send 1, .clear, .send 2, .reply sequenceIdUnknown,
    .reply sequenceIdUnknown] _ rfl).mpr (along_of_always ?_ _)
  simp [Meets]

/-- The same run with ids on the replies: request 2 gets the reply of request 1. -/
theorem reply_to_newer_request : ∃ c : UnkeyedClient Nat 4,
    run step (init : UnkeyedClient Nat 4) [.send 1, .clear, .send 2, .reply 5] = some c ∧
    ∃ h ∈ c.handed, h.request = (0, 1) ∧ h.receiver = some (1, 2) ∧ h.key = 2 ∧ ¬ h.Right := by
  refine ⟨_, rfl, ⟨(0, 1), some (1, 2), 2⟩, ?_, rfl, rfl, rfl, ?_⟩
  · decide
  · rintro ⟨_, wrong⟩
    cases wrong

end UnkeyedClient

end NanoRos
