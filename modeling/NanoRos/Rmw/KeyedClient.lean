import NanoRos.Rmw.Correlation

/-! A service client over a backend that gives every request an id of its own, on a network that
reorders, repeats, delays and loses replies. -/

namespace NanoRos

structure Ledger (K : Type) where
  sent : List (Int64 × K)
  forgotten : List Int64
  answered : List (Int64 × K)

namespace Ledger

variable {K : Type}

/-- Removed, evicted, cleared or answered. -/
def retired (l : Ledger K) (id : Int64) : Bool :=
  l.forgotten.contains id || (l.answered.map Prod.fst).contains id

def pending (l : Ledger K) : List (Int64 × K) := l.sent.filter fun entry => !l.retired entry.1

def send (l : Ledger K) (id : Int64) (key : K) : Ledger K := { l with sent := l.sent ++ [(id, key)] }

def forget (l : Ledger K) (ids : List Int64) : Ledger K := { l with forgotten := ids ++ l.forgotten }

def answer (l : Ledger K) (id : Int64) (key : K) : Ledger K :=
  { l with answered := l.answered ++ [(id, key)] }

/-- Ids are never reused, and only what was sent can be forgotten or answered. -/
structure WellKept (l : Ledger K) : Prop where
  distinct : (l.sent.map Prod.fst).Nodup
  real : ∀ entry ∈ l.sent, entry.1 ≠ sequenceIdUnknown
  known : ∀ id, l.retired id = true → id ∈ l.sent.map Prod.fst
  once : (l.answered.map Prod.fst).Nodup
  own : ∀ entry ∈ l.answered, entry ∈ l.sent

theorem pending_sublist (l : Ledger K) : l.pending.Sublist l.sent := List.filter_sublist

variable {l : Ledger K}

theorem WellKept.pending_distinct (kept : l.WellKept) : (l.pending.map Prod.fst).Nodup :=
  (l.pending_sublist.map Prod.fst).nodup kept.distinct

theorem WellKept.pending_real (kept : l.WellKept) (entry : Int64 × K) (member : entry ∈ l.pending) :
    entry.1 ≠ sequenceIdUnknown :=
  kept.real entry (l.pending_sublist.subset member)

theorem not_retired_of_pending {entry : Int64 × K} (member : entry ∈ l.pending) :
    l.retired entry.1 = false := by
  have open' := (List.mem_filter.mp member).2
  simpa using open'

theorem pending_send (kept : l.WellKept) (id : Int64) (key : K) (fresh : id ∉ l.sent.map Prod.fst) :
    (l.send id key).pending = l.pending ++ [(id, key)] := by
  have unused : l.retired id = false := by
    by_contra used
    exact fresh (kept.known id (by simpa using used))
  have added : [(id, key)].filter (fun entry => !l.retired entry.1) = [(id, key)] := by
    simp [unused]
  calc (l.send id key).pending
      = (l.sent ++ [(id, key)]).filter (fun entry => !l.retired entry.1) := rfl
    _ = l.pending ++ [(id, key)] := by rw [List.filter_append, added]; rfl

theorem pending_forget (l : Ledger K) (ids : List Int64) :
    (l.forget ids).pending = l.pending.filter fun entry => !ids.contains entry.1 := by
  rw [pending, pending, List.filter_filter]
  apply List.filter_congr
  intro entry _
  simp only [retired, forget, List.contains_eq_mem, List.mem_append, Bool.decide_or, Bool.not_or,
    Bool.and_assoc]

theorem pending_forget_one (l : Ledger K) (id : Int64) :
    (l.forget [id]).pending = l.pending.filter fun entry => entry.1 != id := by
  rw [pending_forget]
  apply List.filter_congr
  intro entry _
  rw [Bool.eq_iff_iff]
  simp

theorem pending_answer (l : Ledger K) (id : Int64) (key : K) :
    (l.answer id key).pending = l.pending.filter fun entry => entry.1 != id := by
  rw [pending, pending, List.filter_filter]
  apply List.filter_congr
  intro entry _
  rw [Bool.eq_iff_iff]
  simp only [retired, answer, List.map_append, List.map_cons, List.map_nil, List.contains_eq_mem,
    List.mem_append, List.mem_singleton, Bool.not_eq_true', Bool.or_eq_false_iff,
    decide_eq_false_iff_not, not_or, Bool.and_eq_true, bne_iff_ne, ne_eq]
  tauto

theorem WellKept.send (kept : l.WellKept) (id : Int64) (key : K) (fresh : id ∉ l.sent.map Prod.fst)
    (real : id ≠ sequenceIdUnknown) : (l.send id key).WellKept where
  distinct := by
    simp only [Ledger.send, List.map_append, List.map_cons, List.map_nil]
    rw [← List.concat_eq_append]
    exact List.Nodup.concat fresh kept.distinct
  real := by
    intro entry member
    rcases List.mem_append.mp member with old | new
    · exact kept.real entry old
    · rw [List.mem_singleton.mp new]
      exact real
  known := by
    intro old used
    simp only [Ledger.send, List.map_append, List.mem_append]
    exact .inl (kept.known old used)
  once := kept.once
  own := by
    intro entry member
    exact List.mem_append_left _ (kept.own entry member)

theorem WellKept.forget (kept : l.WellKept) (ids : List Int64)
    (sent : ∀ id ∈ ids, id ∈ l.sent.map Prod.fst) : (l.forget ids).WellKept where
  distinct := kept.distinct
  real := kept.real
  known := by
    intro id used
    simp only [retired, Ledger.forget, List.contains_eq_mem, List.mem_append, Bool.or_eq_true,
      decide_eq_true_eq] at used
    rcases used with (new | old) | done
    · exact sent id new
    · exact kept.known id (by simp [retired, old])
    · exact kept.known id (by simp only [retired, List.contains_eq_mem, done, decide_true, Bool.or_true])
  once := kept.once
  own := kept.own

theorem WellKept.answer (kept : l.WellKept) (entry : Int64 × K) (member : entry ∈ l.pending) :
    (l.answer entry.1 entry.2).WellKept where
  distinct := kept.distinct
  real := kept.real
  known := by
    intro id used
    simp only [retired, Ledger.answer, List.map_append, List.map_cons, List.map_nil,
      List.contains_eq_mem, List.mem_append, List.mem_singleton, Bool.or_eq_true,
      decide_eq_true_eq] at used
    rcases used with old | done | rfl
    · exact kept.known id (by simp [retired, old])
    · exact kept.known id (by simp only [retired, List.contains_eq_mem, done, decide_true, Bool.or_true])
    · exact List.mem_map.mpr ⟨entry, l.pending_sublist.subset member, rfl⟩
  once := by
    have unanswered : entry.1 ∉ l.answered.map Prod.fst := by
      intro done
      have fresh := not_retired_of_pending member
      simp only [retired, List.contains_eq_mem, done, decide_true, Bool.or_true] at fresh
      cases fresh
    simp only [Ledger.answer, List.map_append, List.map_cons, List.map_nil]
    rw [← List.concat_eq_append]
    exact List.Nodup.concat unanswered kept.once
  own := by
    intro other placed
    rcases List.mem_append.mp placed with old | new
    · exact kept.own other old
    · rw [List.mem_singleton.mp new]
      exact l.pending_sublist.subset member

end Ledger

structure KeyedClient (K : Type) (N : Nat) where
  table : RequestCorrelator K N
  ledger : Ledger K

namespace KeyedClient

variable {K : Type} {N : Nat}

inductive Event (K : Type) where
  /-- `can_send`, the send, `insert`: the backend assigns the id. -/
  | send (id : Int64) (key : K)
  /-- A re-send, recorded with `insert_evicting`. -/
  | resend (id : Int64) (key : K)
  | remove (id : Int64)
  | removeKey (key : K)
  | clear
  /-- A reply of the network, stamped with the id of its request. -/
  | reply (id : Int64)

def init [Inhabited K] : KeyedClient K N := ⟨RequestCorrelator.new, ⟨[], [], []⟩⟩

/-- The backend's part of the contract: a real id that no request had before. -/
def assigns (c : KeyedClient K N) (id : Int64) : Bool :=
  id != sequenceIdUnknown && !(c.ledger.sent.map Prod.fst).contains id

def step [DecidableEq K] (c : KeyedClient K N) : Event K → Option (KeyedClient K N)
  | .send id key =>
    if !c.assigns id then none
    else
      match c.table.canSend with
      | .error _ => some c
      | .ok _ =>
        match c.table.insert id key with
        | .ok table => some ⟨table, c.ledger.send id key⟩
        | .error _ => some ⟨c.table, (c.ledger.send id key).forget [id]⟩
  | .resend id key =>
    if !c.assigns id then none
    else
      let evicted := if N ≤ c.ledger.pending.length then c.ledger.pending.head? else none
      some ⟨c.table.insertEvicting id key,
        (c.ledger.forget (evicted.map Prod.fst).toList).send id key⟩
  | .remove id =>
    let forgotten := if (c.ledger.pending.map Prod.fst).contains id then [id] else []
    some ⟨(c.table.remove id).2, c.ledger.forget forgotten⟩
  | .removeKey key =>
    let oldest := c.ledger.pending.find? fun entry => entry.2 == key
    some ⟨(c.table.removeKey key).2, c.ledger.forget (oldest.map Prod.fst).toList⟩
  | .clear => some ⟨c.table.clear, c.ledger.forget (c.ledger.pending.map Prod.fst)⟩
  | .reply id =>
    if !(c.ledger.sent.map Prod.fst).contains id then none
    else
      match c.table.resolve id with
      | (some key, table) => some ⟨table, c.ledger.answer id key⟩
      | (none, table) => some ⟨table, c.ledger⟩

/-- The table holds exactly the pending requests, oldest first. -/
structure Agrees (c : KeyedClient K N) : Prop where
  kept : c.ledger.WellKept
  same : c.table.live = c.ledger.pending

theorem agrees_init [Inhabited K] : (init : KeyedClient K N).Agrees where
  kept := by
    constructor
    · exact List.nodup_nil
    · intro entry member
      cases member
    · intro id used
      cases used
    · exact List.nodup_nil
    · intro entry member
      cases member
  same := rfl

theorem assigns_iff (c : KeyedClient K N) (id : Int64) :
    c.assigns id = true ↔ id ≠ sequenceIdUnknown ∧ id ∉ c.ledger.sent.map Prod.fst := by
  simp [assigns]

variable {c : KeyedClient K N} {entry : Int64 × K}

theorem Agrees.live_removeAt (agrees : c.Agrees) {i : Nat} (placed : c.table.live[i]? = some entry)
    (inside : i < c.table.len) :
    (c.table.removeAt i).live = c.ledger.pending.filter fun other => other.1 != entry.1 := by
  rw [c.table.live_removeAt i inside, agrees.same]
  rw [agrees.same] at placed
  exact eraseIdx_eq_filter Prod.fst _ agrees.kept.pending_distinct i entry placed

theorem Agrees.mem_pending (agrees : c.Agrees) {i : Nat} (placed : c.table.live[i]? = some entry) :
    entry ∈ c.ledger.pending := by
  rw [← agrees.same]
  exact List.mem_of_getElem? placed

theorem mem_sent_of_pending (member : entry ∈ c.ledger.pending) :
    entry.1 ∈ c.ledger.sent.map Prod.fst :=
  List.mem_map.mpr ⟨entry, c.ledger.pending_sublist.subset member, rfl⟩

theorem step_remove [DecidableEq K] (agrees : c.Agrees) (id : Int64) :
    (⟨(c.table.remove id).2, c.ledger.forget
      (if (c.ledger.pending.map Prod.fst).contains id then [id] else [])⟩ :
        KeyedClient K N).Agrees := by
  rcases c.table.remove_cases id with
    ⟨i, entry, placed, rfl, inside, removed⟩ | ⟨absent, kept⟩
  · have member := agrees.mem_pending placed
    have found : (c.ledger.pending.map Prod.fst).contains entry.1 = true := by
      rw [List.contains_iff_mem]
      exact List.mem_map.mpr ⟨entry, member, rfl⟩
    rw [removed, if_pos found]
    refine ⟨agrees.kept.forget _ ?_, ?_⟩
    · intro other listed
      rw [List.mem_singleton.mp listed]
      exact mem_sent_of_pending member
    · rw [Ledger.pending_forget_one, RequestCorrelator.live_noteAbandoned,
        agrees.live_removeAt placed inside]
  · have missed : ¬ (c.ledger.pending.map Prod.fst).contains id = true := by
      rw [List.contains_iff_mem, List.mem_map]
      rintro ⟨entry, member, same⟩
      rw [← agrees.same] at member
      exact absent entry member same
    rw [kept, if_neg missed]
    exact agrees

theorem step_removeKey [DecidableEq K] (agrees : c.Agrees) (key : K) :
    (⟨(c.table.removeKey key).2, c.ledger.forget
      ((c.ledger.pending.find? fun entry => entry.2 == key).map Prod.fst).toList⟩ :
        KeyedClient K N).Agrees := by
  rcases c.table.removeKey_cases key with
    ⟨i, entry, first, placed, inside, removed⟩ | ⟨absent, kept⟩
  · have member := agrees.mem_pending placed
    rw [agrees.same] at first
    rw [removed, first]
    refine ⟨agrees.kept.forget _ ?_, ?_⟩
    · intro other listed
      rw [List.mem_singleton.mp listed]
      exact mem_sent_of_pending member
    · rw [Option.map_some, Option.toList_some, Ledger.pending_forget_one,
        RequestCorrelator.live_noteAbandoned, agrees.live_removeAt placed inside]
  · rw [agrees.same] at absent
    rw [kept, absent]
    exact agrees

theorem step_clear (agrees : c.Agrees) :
    (⟨c.table.clear, c.ledger.forget (c.ledger.pending.map Prod.fst)⟩ :
      KeyedClient K N).Agrees := by
  refine ⟨agrees.kept.forget _ ?_, ?_⟩
  · intro id listed
    rcases List.mem_map.mp listed with ⟨entry, member, rfl⟩
    exact mem_sent_of_pending member
  · rw [RequestCorrelator.live_clear, Ledger.pending_forget]
    symm
    rw [List.filter_eq_nil_iff]
    intro entry member
    simp only [List.contains_eq_mem, Bool.not_eq_true', decide_eq_false_iff_not, not_not]
    exact List.mem_map.mpr ⟨entry, member, rfl⟩

theorem step_resend (positive : 1 ≤ N) (agrees : c.Agrees) (id : Int64) (key : K)
    (real : id ≠ sequenceIdUnknown) (fresh : id ∉ c.ledger.sent.map Prod.fst) :
    (⟨c.table.insertEvicting id key, (c.ledger.forget
      ((if N ≤ c.ledger.pending.length then c.ledger.pending.head? else none).map
        Prod.fst).toList).send id key⟩ : KeyedClient K N).Agrees := by
  have count : c.ledger.pending.length = c.table.len := by
    rw [← agrees.same, RequestCorrelator.length_live]
  have stored := c.table.live_insertEvicting positive id key
  rw [count]
  by_cases full : N ≤ c.table.len
  · rw [if_pos full] at stored ⊢
    cases oldest : c.ledger.pending.head? with
    | none =>
      rw [List.head?_eq_none_iff] at oldest
      rw [oldest, List.length_nil] at count
      omega
    | some entry =>
      have placed : c.table.live[0]? = some entry := by
        rw [← List.head?_eq_getElem?, agrees.same, oldest]
      have member := agrees.mem_pending placed
      have kept := agrees.kept.forget [entry.1] (by
        intro other listed
        rw [List.mem_singleton.mp listed]
        exact mem_sent_of_pending member)
      have shorter := agrees.live_removeAt placed (by omega)
      rw [c.table.live_removeAt 0 (by omega)] at shorter
      refine ⟨kept.send id key fresh real, ?_⟩
      rw [Option.map_some, Option.toList_some, Ledger.pending_send kept id key fresh,
        Ledger.pending_forget_one, stored, shorter]
  · rw [if_neg full] at stored ⊢
    refine ⟨agrees.kept.send id key fresh real, ?_⟩
    rw [stored, agrees.same]
    exact (Ledger.pending_send agrees.kept id key fresh).symm

theorem resolve_cases (agrees : c.Agrees) (id : Int64) (real : id ≠ sequenceIdUnknown) :
    (∃ key table, (id, key) ∈ c.ledger.pending ∧ c.table.resolve id = (some key, table) ∧
      table.live = c.ledger.pending.filter fun other => other.1 != id) ∨
    ((∀ entry ∈ c.ledger.pending, entry.1 ≠ id) ∧
      c.table.resolve id = (none, { c.table with dropped := c.table.dropped + 1 })) := by
  have keyed : ∀ entry ∈ c.table.live, entry.1 ≠ sequenceIdUnknown := by
    rw [agrees.same]
    exact fun entry member => agrees.kept.pending_real entry member
  rcases c.table.resolve_keyed id real keyed with
    ⟨i, entry, placed, rfl, inside, resolved⟩ | ⟨absent, dropped⟩
  · exact .inl ⟨entry.2, _, agrees.mem_pending placed, resolved, agrees.live_removeAt placed inside⟩
  · rw [agrees.same] at absent
    exact .inr ⟨absent, dropped⟩

theorem step_agrees [DecidableEq K] (positive : 1 ≤ N) (c : KeyedClient K N) (e : Event K)
    (next : KeyedClient K N) (agrees : c.Agrees) (stepped : c.step e = some next) :
    next.Agrees := by
  cases e with
  | send id key =>
    simp only [step] at stepped
    split at stepped
    case isTrue => cases stepped
    case isFalse assigned =>
      rcases (c.assigns_iff id).mp (by simpa using assigned) with ⟨real, fresh⟩
      cases allowed : c.table.canSend with
      | error refusal =>
        rw [allowed] at stepped
        cases stepped
        exact agrees
      | ok _ =>
        have room := (c.table.canSend_eq_ok allowed).2
        rcases c.table.insert_of_room id key room with ⟨table, stored, appended, _⟩
        rw [allowed, stored] at stepped
        cases stepped
        refine ⟨agrees.kept.send id key fresh real, ?_⟩
        rw [appended, agrees.same, Ledger.pending_send agrees.kept id key fresh]
  | resend id key =>
    simp only [step] at stepped
    split at stepped
    case isTrue => cases stepped
    case isFalse assigned =>
      rcases (c.assigns_iff id).mp (by simpa using assigned) with ⟨real, fresh⟩
      cases stepped
      exact step_resend positive agrees id key real fresh
  | remove id =>
    cases stepped
    exact step_remove agrees id
  | removeKey key =>
    cases stepped
    exact step_removeKey agrees key
  | clear =>
    cases stepped
    exact step_clear agrees
  | reply id =>
    simp only [step] at stepped
    split at stepped
    case isTrue => cases stepped
    case isFalse known =>
      have sent : id ∈ c.ledger.sent.map Prod.fst := by simpa using known
      rcases List.mem_map.mp sent with ⟨entry, listed, rfl⟩
      rcases resolve_cases agrees entry.1 (agrees.kept.real entry listed) with
        ⟨key, table, member, resolved, remaining⟩ | ⟨_, dropped⟩
      · rw [resolved] at stepped
        cases stepped
        refine ⟨agrees.kept.answer (entry.1, key) member, ?_⟩
        rw [remaining, Ledger.pending_answer]
      · rw [dropped] at stepped
        cases stepped
        exact ⟨agrees.kept, agrees.same⟩

/-- Every reply goes to the request it answers, at most once, and to nobody else. -/
structure Correct (c : KeyedClient K N) : Prop where
  bounded : c.table.len ≤ N
  ordered : c.table.live.Sublist c.ledger.sent
  distinct : (c.table.live.map Prod.fst).Nodup
  delivers : ∀ id key table, id ≠ sequenceIdUnknown → c.table.resolve id = (some key, table) →
    (id, key) ∈ c.ledger.pending ∧ table.live = c.ledger.pending.filter fun other => other.1 != id
  answers : ∀ id key, (id, key) ∈ c.ledger.pending → (c.table.resolve id).1 = some key
  stale : ∀ id, c.ledger.retired id = true →
    c.table.resolve id = (none, { c.table with dropped := c.table.dropped + 1 })
  once : (c.ledger.answered.map Prod.fst).Nodup
  own : ∀ entry ∈ c.ledger.answered, entry ∈ c.ledger.sent

theorem Agrees.correct (agrees : c.Agrees) : c.Correct where
  bounded := c.table.len_le
  ordered := by
    rw [agrees.same]
    exact c.ledger.pending_sublist
  distinct := by
    rw [agrees.same]
    exact agrees.kept.pending_distinct
  delivers := by
    intro id key table real resolved
    rcases resolve_cases agrees id real with ⟨key', table', member, again, left⟩ | ⟨_, dropped⟩
    · rw [resolved] at again
      cases again
      exact ⟨member, left⟩
    · rw [resolved] at dropped
      cases dropped
  answers := by
    intro id key member
    have real := agrees.kept.pending_real _ member
    rcases resolve_cases agrees id real with ⟨key', table, member', resolved, _⟩ | ⟨absent, _⟩
    · have same : (id, key) = (id, key') :=
        List.inj_on_of_nodup_map agrees.kept.pending_distinct member member' rfl
      rw [resolved, (Prod.mk.inj same).2]
    · exact absurd rfl (absent _ member)
  stale := by
    intro id used
    rcases List.mem_map.mp (agrees.kept.known id used) with ⟨entry, listed, rfl⟩
    rcases resolve_cases agrees entry.1 (agrees.kept.real entry listed) with
      ⟨key, table, member, _⟩ | ⟨_, dropped⟩
    · have unused := Ledger.not_retired_of_pending member
      rw [used] at unused
      cases unused
    · exact dropped
  once := agrees.kept.once
  own := agrees.kept.own

theorem replies_never_misdelivered [Inhabited K] [DecidableEq K] (positive : 1 ≤ N)
    (events : List (Event K)) (c : KeyedClient K N)
    (reached : run step (init : KeyedClient K N) events = some c) : c.Correct :=
  (run_invariant (fun c e next agrees stepped => step_agrees positive c e next agrees stepped)
    init c events agrees_init reached).correct

/-- Two requests in a table of two, the first one evicted by a third; its late reply and a
repeated reply to the second are dropped. -/
theorem replies_after_eviction : ∃ c : KeyedClient Nat 2,
    run step (init : KeyedClient Nat 2) [.send 10 1, .send 11 2, .resend 12 3, .reply 11, .reply 10,
      .reply 11] = some c ∧
    c.ledger.answered = [(11, 2)] ∧ c.Correct := by
  refine ⟨_, rfl, by decide, ?_⟩
  exact replies_never_misdelivered (by decide) [.send 10 1, .send 11 2, .resend 12 3, .reply 11,
    .reply 10, .reply 11] _ rfl

end KeyedClient

end NanoRos
