import NanoRos.Lib.Runs
import Mathlib.Data.List.Nodup
import Mathlib.Data.List.Perm.Basic

/-! The bump cursor of a static table (`bump.rs`), used by any number of threads. -/

namespace NanoRos

/-- The closure `claim` hands to `fetch_update`. -/
def bump (cap n : Nat) : Option Nat := if n < cap then some (n + 1) else none

/-- What a call gave the thread that made it. -/
inductive CursorReturn (τ : Type) where
  | claimed (t : τ) (index : Nat)
  | refused (t : τ)
  | released (t : τ) (index : Nat) (reusable : Bool)
  deriving DecidableEq

def CursorReturn.moved {τ : Type} : CursorReturn τ → Bool
  | .claimed _ _ => true
  | .refused _ => false
  | .released _ _ reusable => reusable

inductive CursorEvent (τ : Type) where
  /-- A thread enters `claim` and reads the cursor. -/
  | load (t : τ)
  | exchange (t : τ)
  /-- The weak exchange fails though the cursor may be as read. -/
  | spurious (t : τ)
  | release (t : τ) (index : Nat)

/-- The cursor, the read and the next value of each thread inside `claim`, the indices that threads
hold, and those released too late. -/
structure BumpCursor (τ : Type) where
  cursor : Nat
  loaded : τ → Option (Nat × Nat)
  held : List (τ × Nat)
  spent : List Nat

namespace BumpCursor

variable {τ : Type}

def fresh : BumpCursor τ := ⟨0, fun _ => none, [], []⟩

/-- The indices handed out for good or for now. -/
def taken (s : BumpCursor τ) : List Nat := s.held.map Prod.snd ++ s.spent

structure Sound (cap : Nat) (s : BumpCursor τ) : Prop where
  within : s.cursor ≤ cap
  pending : ∀ t prev next, s.loaded t = some (prev, next) → next = prev + 1 ∧ prev < cap
  below : ∀ index ∈ s.taken, index < s.cursor
  once : s.taken.Nodup

theorem Sound.fresh (cap : Nat) : (BumpCursor.fresh : BumpCursor τ).Sound cap where
  within := Nat.zero_le cap
  pending := by simp [BumpCursor.fresh]
  below := by simp [BumpCursor.fresh, taken]
  once := by simp [BumpCursor.fresh, taken]

variable [DecidableEq τ]

/-- The thread has read the cursor and asks the closure. -/
def read (cap : Nat) (s : BumpCursor τ) (t : τ) : BumpCursor τ × Option (CursorReturn τ) :=
  match bump cap s.cursor with
  | some next => ({ s with loaded := Function.update s.loaded t (some (s.cursor, next)) }, none)
  | none => ({ s with loaded := Function.update s.loaded t none }, some (.refused t))

def exchanged (s : BumpCursor τ) (t : τ) (prev next : Nat) : BumpCursor τ where
  cursor := next
  loaded := Function.update s.loaded t none
  held := (t, prev) :: s.held
  spent := s.spent

def release (s : BumpCursor τ) (t : τ) (index : Nat) : BumpCursor τ × Option (CursorReturn τ) :=
  if s.cursor = index + 1 then
    ({ s with cursor := index, held := s.held.erase (t, index) }, some (.released t index true))
  else
    ({ s with held := s.held.erase (t, index), spent := index :: s.spent },
      some (.released t index false))

/-- A thread is in one call at a time, and releases what it holds. -/
def act (cap : Nat) (s : BumpCursor τ) :
    CursorEvent τ → Option (BumpCursor τ × Option (CursorReturn τ))
  | .load t => if s.loaded t = none then some (s.read cap t) else none
  | .exchange t =>
    match s.loaded t with
    | none => none
    | some (prev, next) =>
      if s.cursor = prev then some (s.exchanged t prev next, some (.claimed t prev))
      else some (s.read cap t)
  | .spurious t => if s.loaded t = none then none else some (s.read cap t)
  | .release t index =>
    if s.loaded t = none ∧ (t, index) ∈ s.held then some (s.release t index) else none

def step (cap : Nat) (s : BumpCursor τ) (e : CursorEvent τ) : Option (BumpCursor τ) :=
  (s.act cap e).map Prod.fst

def returned (cap : Nat) (s : BumpCursor τ) (e : CursorEvent τ) : Option (CursorReturn τ) :=
  (s.act cap e).bind Prod.snd

/-- The event leaves the cursor to the next call. -/
def Still (cap : Nat) (s : BumpCursor τ) (e : CursorEvent τ) : Prop :=
  (s.returned cap e).all (fun result => !result.moved) = true

/-- What one event can do to the cursor. -/
inductive Acts (cap : Nat) (s : BumpCursor τ) :
    CursorEvent τ → BumpCursor τ → Option (CursorReturn τ) → Prop where
  | waits (e : CursorEvent τ) (t : τ) (room : s.cursor < cap) :
      Acts cap s e { s with
        loaded := Function.update s.loaded t (some (s.cursor, s.cursor + 1)) } none
  | refuses (e : CursorEvent τ) (t : τ) (full : cap ≤ s.cursor) :
      Acts cap s e { s with loaded := Function.update s.loaded t none } (some (.refused t))
  | claims (t : τ) (next : Nat) (seen : s.loaded t = some (s.cursor, next)) :
      Acts cap s (.exchange t) (s.exchanged t s.cursor next) (some (.claimed t s.cursor))
  | reopens (t : τ) (index : Nat) (holds : (t, index) ∈ s.held) (latest : s.cursor = index + 1) :
      Acts cap s (.release t index)
        { s with cursor := index, held := s.held.erase (t, index) }
        (some (.released t index true))
  | spends (t : τ) (index : Nat) (holds : (t, index) ∈ s.held) (later : s.cursor ≠ index + 1) :
      Acts cap s (.release t index)
        { s with held := s.held.erase (t, index), spent := index :: s.spent }
        (some (.released t index false))

variable {cap : Nat} {s next : BumpCursor τ} {e : CursorEvent τ}

theorem acts_of_read {t : τ} {result : Option (CursorReturn τ)}
    (acted : s.read cap t = (next, result)) : Acts cap s e next result := by
  rw [read, bump] at acted
  by_cases room : s.cursor < cap
  · rw [if_pos room] at acted
    cases acted
    exact .waits e t room
  · rw [if_neg room] at acted
    cases acted
    exact .refuses e t (Nat.le_of_not_lt room)

theorem acts_of_act {result : Option (CursorReturn τ)} (acted : s.act cap e = some (next, result)) :
    Acts cap s e next result := by
  cases e with
  | load t =>
    rcases Option.ite_none_right_eq_some.mp acted with ⟨_, same⟩
    exact acts_of_read (Option.some.inj same)
  | spurious t =>
    rcases Option.ite_none_left_eq_some.mp acted with ⟨_, same⟩
    exact acts_of_read (Option.some.inj same)
  | exchange t =>
    rw [act] at acted
    split at acted
    case h_1 => cases acted
    case h_2 prev after seen =>
      split at acted
      case isTrue same =>
        cases acted
        subst same
        exact .claims t after seen
      case isFalse => exact acts_of_read (Option.some.inj acted)
  | release t index =>
    rcases Option.ite_none_right_eq_some.mp acted with ⟨⟨_, holds⟩, same⟩
    rw [release] at same
    split at same
    case isTrue latest =>
      cases same
      exact .reopens t index holds latest
    case isFalse later =>
      cases same
      exact .spends t index holds later

theorem acts_of_step (stepped : s.step cap e = some next) :
    ∃ result, s.returned cap e = result ∧ Acts cap s e next result := by
  rcases Option.map_eq_some_iff.mp stepped with ⟨⟨after, result⟩, acted, same⟩
  cases same
  refine ⟨result, ?_, acts_of_act acted⟩
  rw [returned, acted]
  rfl

theorem acts_of_returned {result : CursorReturn τ} (gave : s.returned cap e = some result) :
    ∃ next, Acts cap s e next (some result) := by
  rcases Option.bind_eq_some_iff.mp gave with ⟨⟨next, returned⟩, acted, same⟩
  exact ⟨next, same ▸ acts_of_act acted⟩

theorem taken_perm {t : τ} {index : Nat} (holds : (t, index) ∈ s.held) :
    s.taken.Perm (index :: ((s.held.erase (t, index)).map Prod.snd ++ s.spent)) := by
  have first := (List.perm_cons_erase holds).map Prod.snd
  exact first.append_right s.spent

namespace Sound

section

variable (sound : s.Sound cap)
include sound

theorem reload (t : τ) (seen : Option (Nat × Nat))
    (pending : ∀ prev next, seen = some (prev, next) → next = prev + 1 ∧ prev < cap) :
    ({ s with loaded := Function.update s.loaded t seen } : BumpCursor τ).Sound cap where
  within := sound.within
  below := sound.below
  once := sound.once
  pending other prev next found := by
    change Function.update s.loaded t seen other = some (prev, next) at found
    by_cases same : other = t
    · subst same
      rw [Function.update_self] at found
      exact pending prev next found
    · rw [Function.update_of_ne same] at found
      exact sound.pending other prev next found

theorem claims {t : τ} {after : Nat} (seen : s.loaded t = some (s.cursor, after))
    : (s.exchanged t s.cursor after).Sound cap := by
  rcases sound.pending t s.cursor after seen with ⟨rfl, room⟩
  have idle := sound.reload t none (by simp)
  refine ⟨room, idle.pending, ?_, ?_⟩
  · intro index member
    rcases List.mem_cons.mp member with rfl | before
    · exact Nat.lt_succ_self _
    · exact Nat.lt_succ_of_lt (sound.below index before)
  · have new : s.cursor ∉ s.taken := fun member => Nat.lt_irrefl _ (sound.below _ member)
    exact List.nodup_cons.mpr ⟨new, sound.once⟩

theorem reopens {t : τ} {index : Nat} (holds : (t, index) ∈ s.held)
    (latest : s.cursor = index + 1) :
    ({ s with cursor := index, held := s.held.erase (t, index) } : BumpCursor τ).Sound cap := by
  have split := taken_perm holds
  have parts := List.nodup_cons.mp (split.nodup_iff.mp sound.once)
  have within : index ≤ cap := by
    have whole := sound.within
    omega
  refine ⟨within, sound.pending, ?_, parts.2⟩
  intro other member
  have under := sound.below other (split.mem_iff.mpr (List.mem_cons_of_mem _ member))
  -- the released index was the highest one, and no other call holds it
  have differs : other ≠ index := fun same => parts.1 (same ▸ member)
  change other < index
  omega

theorem spends {t : τ} {index : Nat} (holds : (t, index) ∈ s.held) : ({ s with
      held := s.held.erase (t, index), spent := index :: s.spent } : BumpCursor τ).Sound cap := by
  have split : s.taken.Perm ((s.held.erase (t, index)).map Prod.snd ++ index :: s.spent) :=
    (taken_perm holds).trans List.perm_middle.symm
  refine ⟨sound.within, sound.pending, ?_, split.nodup_iff.mp sound.once⟩
  intro other member
  exact sound.below other (split.mem_iff.mpr member)

theorem step (stepped : s.step cap e = some next) : next.Sound cap := by
  rcases acts_of_step stepped with ⟨result, _, acts⟩
  cases acts with
  | waits _ t room =>
    apply sound.reload
    intro prev after same
    cases same
    exact ⟨rfl, room⟩
  | refuses _ t full => exact sound.reload t none (by simp)
  | claims t after seen => exact sound.claims seen
  | reopens t index holds latest => exact sound.reopens holds latest
  | spends t index holds later => exact sound.spends holds

theorem refused {t : τ} (gave : s.returned cap e = some (.refused t)) :
    s.cursor = cap := by
  rcases acts_of_returned gave with ⟨next, acts⟩
  cases acts with
  | refuses _ _ full => exact Nat.le_antisymm sound.within full

end

end Sound

theorem cursor_of_still (still : s.Still cap e) (stepped : s.step cap e = some next) :
    next.cursor = s.cursor := by
  rcases acts_of_step stepped with ⟨result, gave, acts⟩
  rw [Still, gave] at still
  cases acts with
  | waits => rfl
  | refuses => rfl
  | claims => cases still
  | reopens => cases still
  | spends => rfl

theorem cursor_of_reopened {t : τ} {index : Nat}
    (gave : s.returned cap e = some (.released t index true)) (stepped : s.step cap e = some next) :
    next.cursor = index := by
  rcases acts_of_step stepped with ⟨result, same, acts⟩
  rw [gave] at same
  subst same
  cases acts with
  | reopens => rfl

theorem index_of_claimed {t : τ} {index : Nat}
    (gave : s.returned cap e = some (.claimed t index)) : index = s.cursor := by
  rcases acts_of_returned gave with ⟨next, acts⟩
  cases acts with
  | claims => rfl

end BumpCursor

end NanoRos
