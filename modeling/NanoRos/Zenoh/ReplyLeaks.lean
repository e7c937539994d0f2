import NanoRos.Zenoh.ReplySlots

/-! A service server whose header index is its queryable handle: which requests its reply slots are
held for, over runs of queries, takes and responses. -/

namespace NanoRos.Zenoh

/-- The server and its reply slots, with the numbers of the requests it was given and has not
answered, of those refused at the take, and how many requests were stored. -/
structure ReplyRun (w d cap : Nat) where
  table : ReplyTable cap
  server : ServiceServer w d
  outstanding : List Int
  refused : List Int
  admitted : Nat

inductive ReplyEvent where
  | query (query : ServiceQuery) (cloneOk : Bool) (recvNs : Int)
  | take (room : Nat)
  | respond (i : Nat) (calls : ReplyCalls)

namespace ReplyRun

variable {w d cap : Nat} [NeZero d]

def start (slots : Fin d → InboxEntry) : ReplyRun w d cap :=
  ⟨.fresh, ⟨⟨⟨slots, 0, 0, .new⟩, []⟩, [], none⟩, [], [], 0⟩

/-- `query_handler`. -/
def queryStep (slotBytes : Nat) (s : ReplyRun w d cap) (query : ServiceQuery) (cloneOk : Bool)
    (recvNs : Int) : ReplyRun w d cap :=
  let captured := s.table.capture query cloneOk
  let called :=
    queryableCallback slotBytes ReplyTable.takeReplySeq captured.1 s.server.header query recvNs
  { s with
    table := called.1.reclaim captured.2
    server := { s.server with header := called.2 }
    admitted := if called.2.buffer.tail = s.server.header.buffer.tail then s.admitted
      else s.admitted + 1 }

def takeStep (s : ReplyRun w d cap) (room : Nat) : ReplyRun w d cap :=
  let buffer := s.server.header.buffer
  let result := s.server.takeRequest room
  { s with
    server := result.1
    outstanding :=
      match result.2 with
      | .request _ seq => s.outstanding ++ [seq]
      | _ => s.outstanding
    refused :=
      match result.2 with
      | .messageTooLarge | .bufferTooSmall =>
        s.refused ++ [(buffer.slots (slotIndex d buffer.head)).seq]
      | _ => s.refused }

def respondStep (s : ReplyRun w d cap) (i : Nat) (seq : Int) (calls : ReplyCalls) :
    ReplyRun w d cap :=
  { s with
    table := (s.server.sendResponse s.table seq calls).1
    outstanding := s.outstanding.eraseIdx i }

def step (slotBytes : Nat) (s : ReplyRun w d cap) : ReplyEvent → Option (ReplyRun w d cap)
  | .query query cloneOk recvNs => some (s.queryStep slotBytes query cloneOk recvNs)
  | .take room => some (s.takeStep room)
  | .respond i calls => s.outstanding[i]?.map fun seq => s.respondStep i seq calls

def entries (s : ReplyRun w d cap) : List InboxEntry := s.server.header.buffer.entries

def heldSlots (table : ReplyTable cap) : Nat :=
  (Finset.univ.filter fun j => (table.storedQueries j).isSome).card

/-- The slots held are those of the requests in the inbox and of the ones to be answered. -/
def Balanced (s : ReplyRun w d cap) : Prop :=
  heldSlots s.table = s.entries.countP (fun entry => 0 ≤ entry.seq) +
    s.outstanding.countP fun seq => 0 ≤ seq

/-- A take finds as its head a request without a slot, or one that fits both its inbox slot and the
caller's buffer. -/
def Fits (s : ReplyRun w d cap) : ReplyEvent → Prop
  | .take room => ∀ entry ∈ s.entries.head?, 0 ≤ entry.seq →
      entry.overflow = false ∧ entry.len ≤ room
  | _ => True

/-- The counter a query is stored at names the position's own slot. -/
def RingInStep (s : ReplyRun w d cap) : ReplyEvent → Prop
  | .query .. => InStep w d s.admitted
  | _ => True

instance (s : ReplyRun w d cap) : Decidable s.Balanced := inferInstanceAs (Decidable (_ = _))

instance (s : ReplyRun w d cap) : ∀ e, Decidable (Fits s e)
  | .take _ => inferInstanceAs (Decidable (∀ entry ∈ s.entries.head?, _))
  | .query .. => .isTrue trivial
  | .respond .. => .isTrue trivial

instance (s : ReplyRun w d cap) : ∀ e, Decidable (RingInStep s e)
  | .query .. => inferInstanceAs (Decidable (_ ∨ _))
  | .take _ => .isTrue trivial
  | .respond .. => .isTrue trivial

/-! ### What the slots are held for -/

/-- The numbers of the queued, the outstanding and the refused requests. -/
def numbers (s : ReplyRun w d cap) (q : List InboxEntry) : List Int :=
  q.map InboxEntry.seq ++ (s.outstanding ++ s.refused)

structure Inv (s : ReplyRun w d cap) (h : Nat) (q : List InboxEntry) : Prop where
  queues : Queues s.server.header.buffer.slots s.server.header.buffer.head
    s.server.header.buffer.tail h q
  admitted : s.admitted = h + q.length
  uses : ∀ j : Fin cap, (s.numbers q).count (j.val : Int) =
    if (s.table.storedQueries j).isSome then 1 else 0
  named : ∀ seq ∈ s.numbers q, seq < cap
  taken : s.table.lastReplySeq = -1
  keyed : q ≠ [] → s.server.header.keyexpr ≠ []
  replyKeyed : s.outstanding ≠ [] → s.server.replyKeyexpr ≠ []

variable {s next : ReplyRun w d cap} {h : Nat} {q : List InboxEntry}

variable {slotBytes : Nat}

theorem Inv.queryStep (inv : Inv s h q) (small : d < 2 ^ w) (inStep : InStep w d s.admitted)
    (query : ServiceQuery) (cloneOk : Bool) (recvNs : Int) :
    ∃ q', Inv (s.queryStep slotBytes query cloneOk recvNs) h q' ∧
      (s.queryStep slotBytes query cloneOk recvNs).refused = s.refused := by
  obtain ⟨-, drops, result⟩ | ⟨⟨-, -, room⟩, payload, result⟩ :=
    callback_cases slotBytes ReplyTable.takeReplySeq (s.table.capture query cloneOk).1
      s.server.header query recvNs
  · obtain ⟨stored, taken⟩ := s.table.capture_reclaim query cloneOk
    refine ⟨q, ?_, rfl⟩
    dsimp only [ReplyRun.queryStep]
    rw [result]
    refine ⟨inv.queues, ?_, ?_, inv.named, taken, fun _ => query.keyexpr_kept, inv.replyKeyed⟩
    · exact (if_pos rfl).trans inv.admitted
    · intro j
      dsimp only
      rw [stored]
      exact inv.uses j
  · rw [inv.queues.length_eq small] at room
    rw [inv.admitted] at inStep
    have last := s.table.capture_lastReplySeq query cloneOk
    let entry := ServiceBuffer.written slotBytes
      (s.server.header.buffer.slots (slotIndex d s.server.header.buffer.tail))
      ⟨payload, (s.table.capture query cloneOk).1.lastReplySeq, recvNs⟩
    have seq : entry.seq = (s.table.capture query cloneOk).2 := (written_seq _ _ _).trans last
    have pushed := inv.queues.push room inStep entry
    have moved : ¬ s.server.header.buffer.tail + 1 = s.server.header.buffer.tail := by
      intro same
      have length := pushed.length_eq small
      rw [same, inv.queues.length_eq small, List.length_append, List.length_singleton] at length
      omega
    have numbered : s.numbers (q ++ [entry]) =
        q.map InboxEntry.seq ++
          (s.table.capture query cloneOk).2 :: (s.outstanding ++ s.refused) := by
      rw [numbers, List.map_append, List.append_assoc, ← seq]
      rfl
    refine ⟨q ++ [entry], ?_, rfl⟩
    dsimp only [ReplyRun.queryStep]
    rw [result, ReplyTable.reclaim_taken rfl]
    refine ⟨pushed, ?_, ?_, ?_, rfl, fun _ => query.keyexpr_kept, inv.replyKeyed⟩
    · rw [List.length_append, List.length_singleton, ← Nat.add_assoc, ← inv.admitted]
      exact if_neg moved
    · intro j
      have before := inv.uses j
      change (s.numbers (q ++ [entry])).count _ =
        if ((s.table.capture query cloneOk).1.storedQueries j).isSome then 1 else 0
      rw [numbers, List.count_append] at before
      rw [numbered, List.count_append, List.count_cons]
      obtain ⟨i, free, number, stored⟩ | ⟨number, stored, -⟩ :=
        s.table.capture_cases query cloneOk
      · rw [number, stored]
        by_cases same : j = i
        · subst same
          rw [free] at before
          rw [Function.update_self]
          simp at before ⊢
          omega
        · have apart : ¬ (i.val : Int) = j.val := fun eq => same (Fin.ext (by omega))
          rw [Function.update_of_ne same]
          simpa [apart] using before
      · have apart : ¬ (-1 : Int) = j.val := by omega
        rw [number, stored]
        simpa [apart] using before
    · intro other member
      change other ∈ s.numbers (q ++ [entry]) at member
      rw [numbered, List.mem_append, List.mem_cons] at member
      obtain queued | new | given := member
      · exact inv.named other (List.mem_append_left _ queued)
      · obtain ⟨i, -, number, -⟩ | ⟨number, -, -⟩ := s.table.capture_cases query cloneOk
        · have := i.isLt
          omega
        · omega
      · exact inv.named other (List.mem_append_right _ given)

theorem takeRequest_cases (server : ServiceServer w d) (room : Nat) :
    (server.header.buffer.head = server.header.buffer.tail ∧
      server.takeRequest room = (server, .none)) ∨
    (server.header.buffer.head ≠ server.header.buffer.tail ∧
      ((∃ len refusal, server.takeRequest room = ({ server.pop with refusedLen := len }, refusal) ∧
          (refusal = .messageTooLarge ∨ refusal = .bufferTooSmall)) ∧
        ((server.header.buffer.slots (slotIndex d server.header.buffer.head)).overflow = true ∨
          room < (server.header.buffer.slots (slotIndex d server.header.buffer.head)).len) ∨
      (∃ data, server.takeRequest room =
          ({ server.pop with replyKeyexpr := server.header.keyexpr }, .request data
            (server.header.buffer.slots (slotIndex d server.header.buffer.head)).seq)) ∧
        (server.header.buffer.slots (slotIndex d server.header.buffer.head)).overflow = false ∧
          (server.header.buffer.slots (slotIndex d server.header.buffer.head)).len ≤ room)) := by
  rw [ServiceServer.takeRequest.eq_def]
  dsimp only
  by_cases empty : server.header.buffer.head = server.header.buffer.tail
  · rw [if_pos empty]
    exact .inl ⟨empty, rfl⟩
  · rw [if_neg empty]
    refine .inr ⟨empty, ?_⟩
    cases overflow :
        (server.header.buffer.slots (slotIndex d server.header.buffer.head)).overflow with
    | true => exact .inl ⟨⟨_, _, rfl, .inl rfl⟩, .inl rfl⟩
    | false =>
      by_cases small : room <
          (server.header.buffer.slots (slotIndex d server.header.buffer.head)).len
      · exact .inl ⟨⟨_, .bufferTooSmall, by rw [if_pos small]; rfl, .inr rfl⟩, .inr small⟩
      · exact .inr ⟨⟨_, by simp only [Bool.false_eq_true, if_false, if_neg small]; rfl⟩, rfl,
          Nat.le_of_not_lt small⟩

theorem Inv.popped {entry : InboxEntry} {rest : List InboxEntry} (inv : Inv s h (entry :: rest))
    (next : ReplyRun w d cap) (table : next.table = s.table)
    (header : next.server.header = s.server.pop.header) (admitted : next.admitted = s.admitted)
    (same : (next.numbers rest).Perm (s.numbers (entry :: rest)))
    (replyKeyed : next.outstanding ≠ [] → next.server.replyKeyexpr ≠ []) :
    Inv next (h + 1) rest := by
  refine ⟨?_, ?_, ?_, ?_, ?_, ?_, replyKeyed⟩
  · rw [header]
    exact inv.queues.pop.2
  · rw [admitted, inv.admitted, List.length_cons]
    omega
  · intro j
    rw [same.count_eq, table]
    exact inv.uses j
  · intro seq member
    exact inv.named seq (same.mem_iff.mp member)
  · rw [table]
    exact inv.taken
  · rw [header]
    exact fun _ => inv.keyed (List.cons_ne_nil _ _)

theorem Inv.takeStep (inv : Inv s h q) (small : d < 2 ^ w) (room : Nat) :
    ∃ h' q', Inv (s.takeStep room) h' q' ∧
      ((s.takeStep room).refused = s.refused ∧
          (∀ entry ∈ q.head?, entry.overflow = false ∧ entry.len ≤ room) ∨
        ∃ entry ∈ q.head?, (entry.overflow = true ∨ room < entry.len) ∧
          (s.takeStep room).refused = s.refused ++ [entry.seq]) := by
  obtain ⟨empty, result⟩ | ⟨some_, ⟨⟨len, refusal, result, kind⟩, why⟩ | ⟨⟨data, result⟩, fits⟩⟩ :=
    takeRequest_cases s.server room
  · rw [inv.queues.empty_iff small] at empty
    subst empty
    have idle : s.takeStep room = s := by
      dsimp only [ReplyRun.takeStep]
      rw [result]
    rw [idle]
    exact ⟨h, [], inv, .inl ⟨rfl, nofun⟩⟩
  · cases q with
    | nil => exact absurd ((inv.queues.empty_iff small).mpr rfl) some_
    | cons entry rest =>
      have first := inv.queues.pop.1
      rw [first] at why
      have after : s.takeStep room =
          { s with
            server := { s.server.pop with refusedLen := len }
            refused := s.refused ++ [entry.seq] } := by
        dsimp only [ReplyRun.takeStep]
        rw [result, first]
        obtain rfl | rfl := kind <;> rfl
      rw [after]
      refine ⟨h + 1, rest, ?_, .inr ⟨entry, rfl, why, rfl⟩⟩
      refine inv.popped _ rfl rfl rfl ?same ?replyKeyed
      case same =>
        rw [List.perm_iff_count]
        intro seq
        simp only [numbers, List.map_cons, List.count_append, List.count_cons, List.count_nil]
        omega
      case replyKeyed => exact inv.replyKeyed
  · cases q with
    | nil => exact absurd ((inv.queues.empty_iff small).mpr rfl) some_
    | cons entry rest =>
      have first := inv.queues.pop.1
      rw [first] at fits result
      have after : s.takeStep room =
          { s with
            server := { s.server.pop with replyKeyexpr := s.server.header.keyexpr }
            outstanding := s.outstanding ++ [entry.seq] } := by
        dsimp only [ReplyRun.takeStep]
        rw [result]
      rw [after]
      refine ⟨h + 1, rest, ?_, .inl ⟨rfl, fun head same => ?_⟩⟩
      · refine inv.popped _ rfl rfl rfl ?same ?replyKeyed
        case same =>
          rw [List.perm_iff_count]
          intro seq
          simp only [numbers, List.map_cons, List.count_append, List.count_cons, List.count_nil]
          omega
        case replyKeyed => exact fun _ => inv.keyed (List.cons_ne_nil _ _)
      · cases same
        exact fits

theorem Inv.respondStep (inv : Inv s h q) {i : Nat} {seq : Int}
    (given : s.outstanding[i]? = some seq) (calls : ReplyCalls) :
    Inv (s.respondStep i seq calls) h q := by
  have inside : i < s.outstanding.length := (List.getElem?_eq_some_iff.mp given).1
  have erased : (seq :: s.outstanding.eraseIdx i).Perm s.outstanding := by
    rw [← (List.getElem?_eq_some_iff.mp given).2]
    exact List.getElem_cons_eraseIdx_perm inside
  have keyed : s.server.replyKeyexpr ≠ [] := by
    apply inv.replyKeyed
    rintro none_
    rw [none_] at inside
    cases inside
  have fewer : ∀ other, (s.numbers q).count other =
      ((s.respondStep i seq calls).numbers q).count other + [seq].count other := by
    intro other
    have counted := erased.count_eq other
    simp only [numbers, ReplyRun.respondStep, List.count_append, List.count_cons,
      List.count_nil] at counted ⊢
    omega
  have still : ∀ other ∈ (s.respondStep i seq calls).numbers q, other < cap := by
    intro other member
    apply inv.named other
    rw [← List.count_pos_iff, fewer] at *
    omega
  have outstanding : (s.respondStep i seq calls).outstanding ≠ [] → s.server.replyKeyexpr ≠ [] :=
    fun _ => keyed
  have named : seq < cap := inv.named seq (by
    rw [numbers, List.mem_append, List.mem_append]
    exact .inr (.inl (List.mem_of_getElem? given)))
  obtain negative | ⟨j, rfl⟩ : seq < 0 ∨ ∃ j : Fin cap, seq = j.val := by
    by_cases negative : seq < 0
    · exact .inl negative
    · exact .inr ⟨⟨seq.toNat, by omega⟩, by simp only; omega⟩
  · have table : (s.respondStep i seq calls).table = { s.table with announce := false } := by
      simp [ReplyRun.respondStep, ServiceServer.sendResponse, keyed, negative]
    refine ⟨inv.queues, inv.admitted, ?_, still, ?_, inv.keyed, outstanding⟩
    · intro j
      have before := inv.uses j
      have apart : ¬ seq = (j.val : Int) := by omega
      rw [fewer, List.count_singleton, beq_eq_false_iff_ne.mpr apart] at before
      rw [table]
      exact before
    · rw [table]
      exact inv.taken
  · obtain ⟨stored, last, -⟩ := s.table.queryReply_val j calls false
    have table : (s.respondStep i j.val calls).table =
        (s.table.queryReply j.val calls false true).1 := by
      have positive : ¬ (j.val : Int) < 0 := by omega
      simp only [ReplyRun.respondStep, ServiceServer.sendResponse, keyed, if_false, positive]
      split <;> simp_all only
    refine ⟨inv.queues, inv.admitted, ?_, still, ?_, inv.keyed, outstanding⟩
    · intro k
      have before := inv.uses k
      rw [fewer, List.count_singleton] at before
      rw [table, stored]
      by_cases same : k = j
      · subst same
        rw [beq_self_eq_true] at before
        rw [Function.update_self]
        have one : (if (s.table.storedQueries k).isSome then 1 else 0) ≤ 1 := by split <;> omega
        simp at before ⊢
        omega
      · have apart : ¬ (j.val : Int) = k.val := fun eq => same (Fin.ext (by omega))
        rw [beq_eq_false_iff_ne.mpr apart] at before
        rw [Function.update_of_ne same]
        exact before
    · rw [table, last]
      exact inv.taken

/-! ### Runs -/

def Tracked (s : ReplyRun w d cap) : Prop := ∃ h q, Inv s h q

/-- Some slot is held for a request that was refused. -/
def Leaks (s : ReplyRun w d cap) : Prop := ∃ seq ∈ s.refused, 0 ≤ seq

theorem start_tracked (slots : Fin d → InboxEntry) :
    Tracked (start slots : ReplyRun w d cap) :=
  ⟨0, [], .fresh slots, rfl, fun _ => rfl, nofun, rfl, nofun, nofun⟩

theorem Tracked.step (tracked : Tracked s) (small : d < 2 ^ w) {e : ReplyEvent}
    (inStep : RingInStep s e) (stepped : s.step slotBytes e = some next) :
    Tracked next ∧ (Leaks next ↔ Leaks s ∨ ¬ Fits s e) := by
  obtain ⟨h, q, inv⟩ := tracked
  have queued : s.entries = q := inv.queues.entries_eq small
  cases e with
  | query query cloneOk recvNs =>
    cases stepped
    obtain ⟨q', inv', same⟩ : ∃ q', Inv (s.queryStep slotBytes query cloneOk recvNs) h q' ∧
        (s.queryStep slotBytes query cloneOk recvNs).refused = s.refused :=
      inv.queryStep small inStep query cloneOk recvNs
    refine ⟨⟨h, q', inv'⟩, ?_⟩
    simp [Leaks, same, Fits]
  | take room =>
    cases stepped
    obtain ⟨h', q', inv', ⟨same, fits⟩ | ⟨entry, first, why, logged⟩⟩ := inv.takeStep small room
    · refine ⟨⟨h', q', inv'⟩, ?_⟩
      have fine : Fits s (.take room) := by
        intro entry first _
        rw [queued] at first
        exact fits entry first
      rw [Leaks, same, ← Leaks]
      simp [fine]
    · refine ⟨⟨h', q', inv'⟩, ?_⟩
      have refuses : ¬ Fits s (.take room) ↔ 0 ≤ entry.seq := by
        constructor
        · intro refused
          by_contra negative
          apply refused
          intro other first' positive
          rw [queued] at first'
          cases Option.mem_unique first first'
          exact absurd positive negative
        · intro positive fits
          obtain ⟨clear, room⟩ := fits entry (by rw [queued]; exact first) positive
          rw [clear] at why
          obtain overflow | short := why
          · cases overflow
          · omega
      rw [refuses, Leaks, logged]
      simp only [List.mem_append, List.mem_singleton, Leaks]
      constructor
      · rintro ⟨seq, old | rfl, positive⟩
        · exact .inl ⟨seq, old, positive⟩
        · exact .inr positive
      · rintro (⟨seq, old, positive⟩ | positive)
        · exact ⟨seq, .inl old, positive⟩
        · exact ⟨_, .inr rfl, positive⟩
  | respond i calls =>
    obtain ⟨seq, given, rfl⟩ := Option.map_eq_some_iff.mp stepped
    refine ⟨⟨h, q, inv.respondStep given calls⟩, ?_⟩
    simp [Leaks, ReplyRun.respondStep, Fits]

theorem sum_count (seqs : List Int) (named : ∀ seq ∈ seqs, seq < cap) :
    ∑ j : Fin cap, seqs.count (j.val : Int) = seqs.countP fun seq => 0 ≤ seq := by
  induction seqs with
  | nil => simp
  | cons seq seqs ih =>
    rw [List.forall_mem_cons] at named
    simp only [List.count_cons, List.countP_cons, Finset.sum_add_distrib, ih named.2]
    congr 1
    by_cases positive : 0 ≤ seq
    · have here : seq = ((⟨seq.toNat, by omega⟩ : Fin cap).val : Int) := by simp only; omega
      rw [if_pos (by simpa using positive)]
      rw [Finset.sum_eq_single ⟨seq.toNat, by omega⟩]
      · rw [if_pos (by simpa using here)]
      · intro j _ other
        apply if_neg
        intro same
        apply other
        rw [Fin.ext_iff]
        have := eq_of_beq same
        simp only
        omega
      · exact fun absent => absurd (Finset.mem_univ _) absent
    · rw [if_neg (by simpa using positive), Finset.sum_eq_zero]
      intro j _
      apply if_neg
      intro same
      have := eq_of_beq same
      omega

theorem Tracked.balanced_iff (tracked : Tracked s) (small : d < 2 ^ w) :
    Balanced s ↔ ¬ Leaks s := by
  obtain ⟨h, q, inv⟩ := tracked
  have queued : s.entries = q := inv.queues.entries_eq small
  have held : heldSlots s.table = (s.numbers q).countP fun seq => 0 ≤ seq := by
    rw [heldSlots, Finset.card_filter, ← sum_count _ inv.named]
    exact Finset.sum_congr rfl fun j _ => (inv.uses j).symm
  have leaks : Leaks s ↔ 0 < s.refused.countP fun seq => 0 ≤ seq := by
    rw [List.countP_pos_iff]
    simp only [Leaks, decide_eq_true_eq]
  rw [Balanced, held, queued, leaks, numbers, List.countP_append, List.countP_append,
    List.countP_map]
  simp only [Function.comp_def]
  omega

theorem refused_grows {e : ReplyEvent} (stepped : s.step slotBytes e = some next) :
    ∃ more, next.refused = s.refused ++ more := by
  cases e with
  | query query cloneOk recvNs =>
    cases stepped
    exact ⟨[], (List.append_nil _).symm⟩
  | take room =>
    cases stepped
    dsimp only [ReplyRun.takeStep]
    split
    · exact ⟨_, rfl⟩
    · exact ⟨_, rfl⟩
    · exact ⟨[], (List.append_nil _).symm⟩
  | respond i calls =>
    obtain ⟨seq, -, rfl⟩ := Option.map_eq_some_iff.mp stepped
    exact ⟨[], (List.append_nil _).symm⟩

def blankEntry : InboxEntry := ⟨0, 0, false, 0, []⟩

def request (id : Nat) (payload : List UInt8) : ReplyEvent :=
  .query ⟨id, [115], some payload, oneLetter_ne_nil⟩ true 0

def sentReply : ReplyCalls := ⟨true, true, true, true⟩

end ReplyRun

end NanoRos.Zenoh
