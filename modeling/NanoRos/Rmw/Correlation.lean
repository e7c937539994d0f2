import NanoRos.Lib.Runs
import NanoRos.Lib.SlotTable

/-! Request/reply correlation for a service client (`correlation.rs`). -/

namespace NanoRos

open Memory

/-- `NROS_RMW_SEQUENCE_ID_UNKNOWN`: the id of a backend that supplies none. -/
def sequenceIdUnknown : Int64 := Int64.minValue

def maxStaleDrainPerPoll : Nat := 8

def u8Max : Nat := 255

inductive SendRefusal where
  | full
  | unkeyed
  deriving DecidableEq, Repr

structure RequestCorrelator (K : Type) (N : Nat) where
  entries : SlotTable (Int64 × K)
  sized : entries.capacity = N
  orphans : Nat
  dropped : UInt32

namespace RequestCorrelator

variable {K : Type} {N : Nat}

def new [Inhabited K] : RequestCorrelator K N where
  entries := SlotTable.empty (List.replicate N (sequenceIdUnknown, default))
  sized := List.length_replicate
  orphans := 0
  dropped := 0

def len (c : RequestCorrelator K N) : Nat := c.entries.len

def live (c : RequestCorrelator K N) : List (Int64 × K) := c.entries.live

def canSend (c : RequestCorrelator K N) : Except SendRefusal Unit :=
  if c.live.any (fun entry => entry.1 == sequenceIdUnknown) then .error .unkeyed
  else if c.len ≥ N then .error .full
  else .ok ()

def contains (c : RequestCorrelator K N) (seq : Int64) : Bool :=
  c.live.any fun entry => entry.1 == seq

def insert (c : RequestCorrelator K N) (seq : Int64) (key : K) :
    Except SendRefusal (RequestCorrelator K N) :=
  match stored : c.entries.push (seq, key) with
  | none => .error .full
  | some entries => .ok { c with
      entries := entries
      sized := (SlotTable.capacity_of_push stored).trans c.sized }

def removeAt (c : RequestCorrelator K N) (i : Nat) : RequestCorrelator K N := { c with
  entries := c.entries.removeAt i
  sized := (c.entries.capacity_removeAt i).trans c.sized }

def noteAbandoned (c : RequestCorrelator K N) (seq : Int64) : RequestCorrelator K N :=
  if seq = sequenceIdUnknown then { c with orphans := min (c.orphans + 1) u8Max } else c

def insertEvicting (c : RequestCorrelator K N) (seq : Int64) (key : K) : RequestCorrelator K N :=
  let c :=
    if c.len ≥ N then
      match c.entries.slots.head? with
      | some evicted => (c.removeAt 0).noteAbandoned evicted.1
      | none => c
    else c
  match c.insert seq key with
  | .ok c => c
  | .error _ => c

/-- Whether the request was pending, and the table without it. -/
def remove (c : RequestCorrelator K N) (seq : Int64) : Bool × RequestCorrelator K N :=
  match c.live.findIdx? fun entry => entry.1 == seq with
  | some i => (true, (c.removeAt i).noteAbandoned seq)
  | none => (false, c)

/-- By what the request was about: the oldest one that carries `key`. -/
def removeKey [DecidableEq K] (c : RequestCorrelator K N) (key : K) :
    Bool × RequestCorrelator K N :=
  match c.live.findIdx? fun entry => entry.2 == key with
  | some i =>
    match c.entries.slots[i]? with
    | some entry => (true, (c.removeAt i).noteAbandoned entry.1)
    | none => (true, c.removeAt i)
  | none => (false, c)

def clear (c : RequestCorrelator K N) : RequestCorrelator K N :=
  let noted := c.live.foldl (fun c entry => c.noteAbandoned entry.1) c
  { noted with entries := noted.entries.clear, sized := noted.sized }

/-- The slot a reply goes to; a reply without an id pays for one orphan first. -/
def matchSlot (c : RequestCorrelator K N) (replySeq : Int64) :
    Option Nat × RequestCorrelator K N :=
  if replySeq = sequenceIdUnknown then
    if c.orphans > 0 then (none, { c with orphans := c.orphans - 1 })
    else if c.len = 1 then (some 0, c)
    else (none, c)
  else
    match c.live.findIdx? fun entry => entry.1 == replySeq with
    | some i => (some i, c)
    | none =>
      if c.len = 1 ∧ (c.entries.slots.head?.map Prod.fst) = some sequenceIdUnknown then
        (some 0, c)
      else (none, c)

def resolve (c : RequestCorrelator K N) (replySeq : Int64) : Option K × RequestCorrelator K N :=
  match c.matchSlot replySeq with
  | (some i, c) => (c.entries.slots[i]?.map Prod.snd, c.removeAt i)
  | (none, c) => (none, { c with dropped := c.dropped + 1 })

/-- `ReplyMatcher::match_reply`. -/
def matchReply (c : RequestCorrelator K N) (replySeq : Int64) : Bool × RequestCorrelator K N :=
  ((c.resolve replySeq).1.isSome, (c.resolve replySeq).2)

section Take

variable {β ε : Type} (takeResponseRaw : β → Except ε (Option (Nat × Int64)) × β)

/-- `for _ in 0..n`: resolve replies until one answers a pending request. -/
def takeLoop : Nat → β → RequestCorrelator K N →
    Except ε (Option (Nat × Int64 × K)) × β × RequestCorrelator K N
  | 0, client, pending => (.ok none, client, pending)
  | n + 1, client, pending =>
    match takeResponseRaw client with
    | (.error e, client) => (.error e, client, pending)
    | (.ok none, client) => (.ok none, client, pending)
    | (.ok (some (len, seq)), client) =>
      match pending.resolve seq with
      | (some key, pending) => (.ok (some (len, seq, key)), client, pending)
      | (none, pending) => takeLoop n client pending

def takeCorrelated (client : β) (pending : RequestCorrelator K N) :
    Except ε (Option (Nat × Int64 × K)) × β × RequestCorrelator K N :=
  takeLoop takeResponseRaw maxStaleDrainPerPoll client pending

/-- The loop of `take_matched`, over a matcher that is a correlator. -/
def matchLoop : Nat → β → RequestCorrelator K N →
    Except ε (Option (Nat × Int64)) × β × RequestCorrelator K N
  | 0, client, pending => (.ok none, client, pending)
  | n + 1, client, pending =>
    match takeResponseRaw client with
    | (.error e, client) => (.error e, client, pending)
    | (.ok none, client) => (.ok none, client, pending)
    | (.ok (some (len, seq)), client) =>
      match pending.matchReply seq with
      | (true, pending) => (.ok (some (len, seq)), client, pending)
      | (false, pending) => matchLoop n client pending

def takeMatched (client : β) (pending : RequestCorrelator K N) :
    Except ε (Option (Nat × Int64)) × β × RequestCorrelator K N :=
  matchLoop takeResponseRaw maxStaleDrainPerPoll client pending

end Take

variable (c : RequestCorrelator K N)

theorem length_live : c.live.length = c.len := c.entries.length_live

theorem len_le : c.len ≤ N := by
  have fits := c.entries.fits
  have sized := c.sized
  simp only [SlotTable.capacity] at sized
  rw [sized] at fits
  exact fits

theorem getElem?_slots {i : Nat} (inside : i < c.len) :
    c.entries.slots[i]? = c.live[i]? := by
  rw [live, SlotTable.getElem?_live]
  exact (if_pos inside).symm

theorem head?_slots (inside : 0 < c.len) :
    c.entries.slots.head? = c.live.head? := by
  rw [List.head?_eq_getElem?, List.head?_eq_getElem?, c.getElem?_slots inside]

theorem live_removeAt (i : Nat) (inside : i < c.len) :
    (c.removeAt i).live = c.live.eraseIdx i := c.entries.live_removeAt i inside

@[simp] theorem live_noteAbandoned (seq : Int64) :
    (c.noteAbandoned seq).live = c.live := by
  rw [noteAbandoned]
  split <;> rfl

theorem insert_of_room (seq : Int64) (key : K) (room : c.len < N) :
    ∃ c', c.insert seq key = .ok c' ∧ c'.live = c.live ++ [(seq, key)] ∧
      c'.orphans = c.orphans := by
  rcases c.entries.push_of_room (seq, key) (by rw [c.sized]; exact room) with
    ⟨entries, stored, appended⟩
  rw [insert]
  split
  case h_1 failed =>
    rw [stored] at failed
    cases failed
  case h_2 entries' again =>
    rw [stored] at again
    cases again
    exact ⟨_, rfl, appended, rfl⟩

theorem canSend_eq_ok (allowed : c.canSend = .ok ()) :
    (∀ entry ∈ c.live, entry.1 ≠ sequenceIdUnknown) ∧ c.len < N := by
  simp only [canSend] at allowed
  split at allowed
  case isTrue => cases allowed
  case isFalse keyed =>
    split at allowed
    case isTrue => cases allowed
    case isFalse room =>
      simp only [List.any_eq_true, beq_iff_eq, not_exists, not_and] at keyed
      exact ⟨keyed, Nat.not_le.mp room⟩

theorem live_insertEvicting (positive : 1 ≤ N) (seq : Int64) (key : K) :
    (c.insertEvicting seq key).live =
      (if N ≤ c.len then c.live.eraseIdx 0 else c.live) ++ [(seq, key)] := by
  have stores (c : RequestCorrelator K N) (room : c.len < N) : (match c.insert seq key with
        | .ok c => c
        | .error _ => c).live = c.live ++ [(seq, key)] := by
    rcases c.insert_of_room seq key room with ⟨c', stored, appended, _⟩
    rw [stored]
    exact appended
  simp only [insertEvicting]
  by_cases full : N ≤ c.len
  · have inside : 0 < c.len := by omega
    rw [if_pos full, if_pos full, c.head?_slots inside]
    cases oldest : c.live.head? with
    | none =>
      rw [List.head?_eq_none_iff] at oldest
      have empty := c.length_live
      rw [oldest, List.length_nil] at empty
      omega
    | some evicted =>
      have shorter : ((c.removeAt 0).noteAbandoned evicted.1).live = c.live.eraseIdx 0 := by
        rw [live_noteAbandoned, c.live_removeAt 0 inside]
      have room : ((c.removeAt 0).noteAbandoned evicted.1).len < N := by
        have small := c.len_le
        rw [← length_live, shorter, List.length_eraseIdx, length_live, if_pos inside]
        omega
      rw [stores _ room, shorter]
  · rw [if_neg full, if_neg full]
    exact stores c (Nat.not_le.mp full)

theorem search_cases (p : Int64 × K → Bool) :
    (∃ i entry, c.live.findIdx? p = some i ∧ c.live.find? p = some entry ∧
      c.live[i]? = some entry ∧ p entry = true ∧ i < c.len) ∨
    (c.live.findIdx? p = none ∧ c.live.find? p = none ∧ ∀ entry ∈ c.live, p entry = false) := by
  cases found : c.live.findIdx? p with
  | none =>
    have misses := List.findIdx?_eq_none_iff.mp found
    refine .inr ⟨rfl, ?_, misses⟩
    rw [List.find?_eq_none]
    intro entry member
    rw [misses entry member]
    decide
  | some i =>
    rcases List.findIdx?_eq_some_iff_getElem.mp found with ⟨inside, hit, before⟩
    refine .inl ⟨i, c.live[i], rfl, ?_, List.getElem?_eq_getElem inside, hit,
      by rw [← length_live]; exact inside⟩
    rw [List.find?_eq_some_iff_getElem]
    exact ⟨hit, i, inside, rfl, fun j earlier => by simp [before j earlier]⟩

theorem remove_cases (seq : Int64) :
    (∃ i entry, c.live[i]? = some entry ∧ entry.1 = seq ∧ i < c.len ∧
      c.remove seq = (true, (c.removeAt i).noteAbandoned seq)) ∨
    ((∀ entry ∈ c.live, entry.1 ≠ seq) ∧ c.remove seq = (false, c)) := by
  rcases c.search_cases (fun entry => entry.1 == seq) with
    ⟨i, entry, found, _, placed, hit, inside⟩ | ⟨missed, _, misses⟩
  · exact .inl ⟨i, entry, placed, by simpa using hit, inside, by simp only [remove, found]⟩
  · refine .inr ⟨?_, by simp only [remove, missed]⟩
    intro entry member
    simpa using misses entry member

theorem removeKey_cases [DecidableEq K] (key : K) :
    (∃ i entry, c.live.find? (fun entry => entry.2 == key) = some entry ∧
      c.live[i]? = some entry ∧ i < c.len ∧
      c.removeKey key = (true, (c.removeAt i).noteAbandoned entry.1)) ∨
    (c.live.find? (fun entry => entry.2 == key) = none ∧ c.removeKey key = (false, c)) := by
  rcases c.search_cases (fun entry => entry.2 == key) with
    ⟨i, entry, found, first, placed, _, inside⟩ | ⟨missed, absent, _⟩
  · refine .inl ⟨i, entry, first, placed, inside, ?_⟩
    have slot := c.getElem?_slots inside
    rw [placed] at slot
    simp only [removeKey, found, slot]
  · exact .inr ⟨absent, by simp only [removeKey, missed]⟩

theorem live_clear : c.clear.live = [] := rfl

variable (replySeq : Int64)

theorem resolve_keyed (real : replySeq ≠ sequenceIdUnknown)
    (keyed : ∀ entry ∈ c.live, entry.1 ≠ sequenceIdUnknown) :
    (∃ i entry, c.live[i]? = some entry ∧ entry.1 = replySeq ∧ i < c.len ∧
      c.resolve replySeq = (some entry.2, c.removeAt i)) ∨
    ((∀ entry ∈ c.live, entry.1 ≠ replySeq) ∧
      c.resolve replySeq = (none, { c with dropped := c.dropped + 1 })) := by
  rcases c.search_cases (fun entry => entry.1 == replySeq) with
    ⟨i, entry, found, _, placed, hit, inside⟩ | ⟨missed, _, misses⟩
  · refine .inl ⟨i, entry, placed, by simpa using hit, inside, ?_⟩
    have slot := c.getElem?_slots inside
    rw [placed] at slot
    simp only [resolve, matchSlot, if_neg real, found, slot, Option.map_some]
  · have other : ¬ (c.len = 1 ∧ (c.entries.slots.head?.map Prod.fst) = some sequenceIdUnknown) := by
      rintro ⟨single, unknown⟩
      rw [c.head?_slots (by omega)] at unknown
      rcases Option.map_eq_some_iff.mp unknown with ⟨entry, first, same⟩
      exact keyed entry (List.mem_of_head? first) same
    refine .inr ⟨?_, by simp only [resolve, matchSlot, if_neg real, missed, if_neg other]⟩
    intro entry member
    simpa using misses entry member

theorem matchSlot_cases : (∃ i, i < c.len ∧ c.matchSlot replySeq = (some i, c)) ∨
      ((c.matchSlot replySeq).1 = none ∧ (c.matchSlot replySeq).2.live = c.live) := by
  rw [matchSlot]
  split
  case isTrue =>
    split
    case isTrue => exact .inr ⟨rfl, rfl⟩
    case isFalse =>
      split
      case isTrue single => exact .inl ⟨0, by omega, rfl⟩
      case isFalse => exact .inr ⟨rfl, rfl⟩
  case isFalse =>
    rcases c.search_cases (fun entry => entry.1 == replySeq) with
      ⟨i, _, found, _, _, _, inside⟩ | ⟨missed, _, _⟩
    · simp only [found]
      exact .inl ⟨i, inside, rfl⟩
    · simp only [missed]
      split
      case isTrue single => exact .inl ⟨0, by omega, rfl⟩
      case isFalse => exact .inr ⟨rfl, rfl⟩

theorem resolve_cases :
    (∃ i key c', i < c.len ∧ c.resolve replySeq = (some key, c') ∧ c'.live = c.live.eraseIdx i) ∨
      (∃ c', c.resolve replySeq = (none, c') ∧ c'.live = c.live) := by
  rcases c.matchSlot_cases replySeq with ⟨i, inside, slot⟩ | ⟨nowhere, kept⟩
  · have within : i < c.live.length := by
      rw [length_live]
      exact inside
    have entry : c.entries.slots[i]? = some c.live[i] := by
      rw [c.getElem?_slots inside, List.getElem?_eq_getElem within]
    refine .inl ⟨i, c.live[i].2, c.removeAt i, inside, ?_, c.live_removeAt i inside⟩
    simp only [resolve, slot, entry, Option.map_some]
  · rcases slot : c.matchSlot replySeq with ⟨_ | i, c'⟩
    · rw [slot] at kept
      refine .inr ⟨{ c' with dropped := c'.dropped + 1 }, ?_, kept⟩
      simp only [resolve, slot]
    · rw [slot] at nowhere
      cases nowhere

end RequestCorrelator

end NanoRos
