import NanoRos.Lib.RingQueue
import NanoRos.Zenoh.ServiceInbox

/-! The reply slots of a queryable and the two ends of a request that uses one: `query_handler`
clones a query into a slot and hands it to `queryable_callback`, `take_request` gives the request to
the server with the slot's number, `send_response` answers the query the slot holds. -/

namespace NanoRos.Zenoh

/-- A query as it is delivered. No `payload` is one that is absent or cannot be made a slice; a key
expression is never empty. -/
structure ServiceQuery where
  id : Nat
  keyexpr : List UInt8
  payload : Option (List UInt8)
  named : keyexpr ≠ []

theorem oneLetter_ne_nil : ([115] : List UInt8) ≠ [] := List.cons_ne_nil _ _

/-- The reply slots of one queryable handle: a slot that is valid holds its query. -/
structure ReplyTable (cap : Nat) where
  storedQueries : Fin cap → Option ServiceQuery
  lastReplySeq : Int
  refusals : Nat
  saturated : Bool
  announce : Bool
  declines : Nat

inductive SlotPick (cap : Nat) where
  | slot (j : Fin cap)
  | full
  | invalid

/-- A counter that stays at its largest value. -/
def countUpTo32 (count : Nat) : Nat := if count ≠ 0xFFFFFFFF then count + 1 else count

/-- The pick, the refusals, the saturation latch, and whether to announce it. -/
def replySlotPick {cap : Nat} (valid : Fin cap → Bool) (refusals : Nat) (saturated : Bool) :
    SlotPick cap × Nat × Bool × Bool :=
  if cap = 0 then (.invalid, refusals, saturated, false)
  else
    match (List.finRange cap).find? fun j => !valid j with
    | some j => (.slot j, refusals, false, false)
    | none => (.full, countUpTo32 refusals, true, !saturated)

/-- What the zenoh calls of one reply answer. -/
structure ReplyCalls where
  keyexprOk : Bool
  payloadOk : Bool
  attachmentOk : Bool
  replyOk : Bool

inductive ReplyError where
  | invalid
  | keyexpr
  | generic

namespace ReplyTable

variable {cap : Nat}

def fresh : ReplyTable cap := ⟨fun _ => none, -1, 0, false, false, 0⟩

/-- The slot a sequence number names, if it is in range. -/
def slotOf (cap : Nat) (seq : Int) : Option (Fin cap) :=
  if inside : 0 ≤ seq ∧ seq.toNat < cap then some ⟨seq.toNat, inside.2⟩ else none

def setSlot (t : ReplyTable cap) (j : Fin cap) (held : Option ServiceQuery) : ReplyTable cap :=
  { t with storedQueries := Function.update t.storedQueries j held }

/-- `_zpico_release_reply_slot` -/
def release (t : ReplyTable cap) (seq : Int) : ReplyTable cap :=
  match slotOf cap seq with
  | none => t
  | some j => if (t.storedQueries j).isSome then t.setSlot j none else t

/-- `query_handler` up to the callback. -/
def capture (t : ReplyTable cap) (query : ServiceQuery) (cloneOk : Bool) : ReplyTable cap × Int :=
  let (pick, refusals, saturated, announce) :=
    replySlotPick (fun j => (t.storedQueries j).isSome) t.refusals t.saturated
  let t := { t with
    refusals := refusals
    saturated := saturated
    announce := t.announce || announce }
  match pick with
  | .slot j =>
    if cloneOk then ({ t.setSlot j (some query) with lastReplySeq := j.val }, j.val)
    else ({ t with lastReplySeq := -1 }, -1)
  | _ => ({ t with lastReplySeq := -1 }, -1)

/-- `query_handler` after the callback: a slot the callback did not ask for is given back. -/
def reclaim (t : ReplyTable cap) (replySeq : Int) : ReplyTable cap :=
  if 0 ≤ replySeq ∧ 0 ≤ t.lastReplySeq then
    { t.release replySeq with declines := countUpTo32 t.declines, lastReplySeq := -1 }
  else t

def takeReplySeq (t : ReplyTable cap) : ReplyTable cap × Int :=
  ({ t with lastReplySeq := -1 }, t.lastReplySeq)

/-- `_zpico_query_reply_impl`; a reply that is sent answers the query in the slot. -/
def queryReply (t : ReplyTable cap) (seq : Int) (calls : ReplyCalls) (hasAttachment : Bool)
    (releaseOnSuccess : Bool) : ReplyTable cap × Except ReplyError ServiceQuery :=
  match slotOf cap seq with
  | none => (t, .error .invalid)
  | some j =>
    match t.storedQueries j with
    | none => (t, .error .invalid)
    | some query =>
      if !calls.keyexprOk then (t.release seq, .error .keyexpr)
      else if !calls.payloadOk then (t.release seq, .error .generic)
      else if hasAttachment && !calls.attachmentOk then (t.release seq, .error .generic)
      else if !calls.replyOk then (t.release seq, .error .generic)
      else (if releaseOnSuccess then t.release seq else t, .ok query)

end ReplyTable

/-! ### The server's side -/

namespace ServiceBuffer

variable {w d : Nat} [NeZero d]

/-- `admit`: the tail to write at, unless the ring is full. -/
def admitSlot (buffer : ServiceBuffer w d) : ServiceBuffer w d × Option (BitVec w) :=
  if d ≤ (buffer.tail - buffer.head).toNat then
    ({ buffer with drops := buffer.drops.onRingFull }, none)
  else (buffer, some buffer.tail)

def written (slotBytes : Nat) (slot : InboxEntry) (request : Request) : InboxEntry :=
  if slotBytes < request.payload.length then
    { slot with
      seq := request.seq
      recvNs := request.recvNs
      overflow := true
      len := request.payload.length }
  else
    { seq := request.seq
      recvNs := request.recvNs
      overflow := false
      data := request.payload ++ slot.data.drop request.payload.length
      len := request.payload.length }

def store (slotBytes : Nat) (buffer : ServiceBuffer w d) (tail : BitVec w) (request : Request) :
    ServiceBuffer w d :=
  let index := slotIndex d tail
  { slots := Function.update buffer.slots index (written slotBytes (buffer.slots index) request)
    head := buffer.head
    tail := tail + 1
    drops := buffer.drops.onStored (overflowLen slotBytes request) }

def entries (buffer : ServiceBuffer w d) : List InboxEntry :=
  ringEntries buffer.slots buffer.head buffer.tail

end ServiceBuffer

/-- A service buffer with the key expression of the last query. -/
structure ServiceHeader (w d : Nat) where
  buffer : ServiceBuffer w d
  keyexpr : List UInt8

def keyexprSize : Nat := 256

/-- `takeSeq` is `zpico_queryable_take_reply_seq` on the header's session and index. -/
def queryableCallback {τ : Type} {w d : Nat} [NeZero d] (slotBytes : Nat) (takeSeq : τ → τ × Int)
    (tables : τ) (header : ServiceHeader w d) (query : ServiceQuery) (recvNs : Int) :
    τ × ServiceHeader w d :=
  let header := { header with keyexpr := query.keyexpr.take (keyexprSize - 1) }
  match query.payload with
  | none => (tables, header)
  | some payload =>
    if payload = [] then (tables, header)
    else
      match header.buffer.admitSlot with
      | (buffer, none) => (tables, { header with buffer := buffer })
      | (buffer, some tail) =>
        let (tables, seq) := takeSeq tables
        (tables, { header with buffer := buffer.store slotBytes tail ⟨payload, seq, recvNs⟩ })

structure ServiceServer (w d : Nat) where
  header : ServiceHeader w d
  replyKeyexpr : List UInt8
  refusedLen : Option Nat

inductive RequestTaken where
  | none
  | messageTooLarge
  | bufferTooSmall
  | request (data : List UInt8) (sequenceNumber : Int)

inductive ResponseError where
  | serviceReplyFailed
  | backend

namespace ServiceServer

variable {w d cap : Nat} [NeZero d]

def pop (server : ServiceServer w d) : ServiceServer w d :=
  { server with
    header := { server.header with
      buffer := { server.header.buffer with head := server.header.buffer.head + 1 } } }

def takeRequest (server : ServiceServer w d) (room : Nat) : ServiceServer w d × RequestTaken :=
  let buffer := server.header.buffer
  if buffer.head = buffer.tail then (server, .none)
  else
    let slot := buffer.slots (slotIndex d buffer.head)
    if slot.overflow then ({ server.pop with refusedLen := some slot.len }, .messageTooLarge)
    else if room < slot.len then ({ server.pop with refusedLen := some slot.len }, .bufferTooSmall)
    else ({ server.pop with replyKeyexpr := server.header.keyexpr },
      .request (slot.data.take slot.len) slot.seq)

/-- The reply carries no attachment of its own. -/
def sendResponse (server : ServiceServer w d) (t : ReplyTable cap) (sequenceNumber : Int)
    (calls : ReplyCalls) : ReplyTable cap × Except ResponseError ServiceQuery :=
  if server.replyKeyexpr = [] then (t, .error .serviceReplyFailed)
  else if sequenceNumber < 0 then ({ t with announce := false }, .error .backend)
  else
    match t.queryReply sequenceNumber calls false true with
    | (t, .ok query) => (t, .ok query)
    | (t, .error _) => (t, .error .serviceReplyFailed)

end ServiceServer

/-! ### What each does to the slots -/

namespace ReplyTable

variable {cap : Nat} {t : ReplyTable cap}

theorem slotOf_eq_some {seq : Int} {j : Fin cap} : slotOf cap seq = some j ↔ seq = j.val := by
  rw [slotOf]
  constructor
  · intro named
    split at named
    · next inside =>
        cases named
        exact (Int.toNat_of_nonneg inside.1).symm
    · cases named
  · rintro rfl
    rw [dif_pos ⟨Int.natCast_nonneg _, by rw [Int.toNat_natCast]; exact j.isLt⟩]
    simp

theorem slotOf_val (j : Fin cap) : slotOf cap (j.val : Int) = some j := slotOf_eq_some.mpr rfl

variable (t)

theorem release_stored (j : Fin cap) :
    (t.release j.val).storedQueries = Function.update t.storedQueries j none := by
  rw [release, slotOf_val]
  dsimp only
  cases held : t.storedQueries j with
  | none =>
    rw [← held, Function.update_eq_self, held]
    rfl
  | some query => rfl

theorem release_lastReplySeq (seq : Int) : (t.release seq).lastReplySeq = t.lastReplySeq := by
  rw [release]
  split
  · rfl
  · split <;> rfl

theorem capture_cases (query : ServiceQuery) (cloneOk : Bool) :
    (∃ j, t.storedQueries j = none ∧ (t.capture query cloneOk).2 = j.val ∧
      (t.capture query cloneOk).1.storedQueries = Function.update t.storedQueries j (some query)) ∨
    ((t.capture query cloneOk).2 = -1 ∧
      (t.capture query cloneOk).1.storedQueries = t.storedQueries ∧
      (cloneOk = true → ∀ j, t.storedQueries j ≠ none)) := by
  by_cases empty : cap = 0
  · right
    subst empty
    exact ⟨rfl, rfl, fun _ j => j.elim0⟩
  · cases found : (List.finRange cap).find? fun j => !(t.storedQueries j).isSome with
    | none =>
      right
      rw [capture, replySlotPick, if_neg empty, found]
      refine ⟨rfl, rfl, fun _ j free => ?_⟩
      rw [List.find?_eq_none] at found
      have held := found j (List.mem_finRange j)
      rw [free] at held
      exact held rfl
    | some j =>
      rw [capture, replySlotPick, if_neg empty, found]
      cases cloneOk with
      | true =>
        left
        refine ⟨j, ?_, rfl, rfl⟩
        simpa using List.find?_some found
      | false => exact .inr ⟨rfl, rfl, nofun⟩

theorem capture_lastReplySeq (query : ServiceQuery) (cloneOk : Bool) :
    (t.capture query cloneOk).1.lastReplySeq = (t.capture query cloneOk).2 := by
  rw [capture]
  dsimp only
  split
  · split <;> rfl
  · rfl

variable {t}

theorem reclaim_taken (taken : t.lastReplySeq = -1) (replySeq : Int) :
    t.reclaim replySeq = t := by
  rw [reclaim, if_neg (by omega)]

theorem reclaim_declined {j : Fin cap} (declined : t.lastReplySeq = j.val) :
    (t.reclaim j.val).storedQueries = Function.update t.storedQueries j none ∧
      (t.reclaim j.val).lastReplySeq = -1 := by
  rw [reclaim, if_pos (by omega)]
  exact ⟨t.release_stored j, rfl⟩

variable (t)

theorem capture_reclaim (query : ServiceQuery) (cloneOk : Bool) :
    ((t.capture query cloneOk).1.reclaim (t.capture query cloneOk).2).storedQueries =
        t.storedQueries ∧
      ((t.capture query cloneOk).1.reclaim (t.capture query cloneOk).2).lastReplySeq = -1 := by
  have last := t.capture_lastReplySeq query cloneOk
  obtain ⟨j, free, number, stored⟩ | ⟨number, stored, -⟩ := t.capture_cases query cloneOk
  · rw [number] at last ⊢
    obtain ⟨released, cleared⟩ := reclaim_declined last
    refine ⟨?_, cleared⟩
    rw [released, stored, Function.update_idem, ← free, Function.update_eq_self]
  · rw [number] at last ⊢
    rw [reclaim_taken last]
    exact ⟨stored, last⟩

theorem queryReply_lastReplySeq (seq : Int) (calls : ReplyCalls)
    (hasAttachment releaseOnSuccess : Bool) :
    (t.queryReply seq calls hasAttachment releaseOnSuccess).1.lastReplySeq = t.lastReplySeq := by
  have released := release_lastReplySeq t seq
  rw [queryReply]
  split
  · rfl
  · split
    · rfl
    · split_ifs
      · exact released
      · exact released
      · exact released
      · exact released
      · exact released
      · rfl

theorem queryReply_val (j : Fin cap) (calls : ReplyCalls) (hasAttachment : Bool) :
    (t.queryReply j.val calls hasAttachment true).1.storedQueries =
        Function.update t.storedQueries j none ∧
      (t.queryReply j.val calls hasAttachment true).1.lastReplySeq = t.lastReplySeq ∧
      ∀ query, (t.queryReply j.val calls hasAttachment true).2 = .ok query →
        t.storedQueries j = some query := by
  have released := release_stored t j
  have kept := release_lastReplySeq t j.val
  cases held : t.storedQueries j with
  | none =>
    simp only [queryReply, slotOf_val, held]
    refine ⟨?_, trivial, nofun⟩
    rw [← held, Function.update_eq_self]
  | some query =>
    simp only [queryReply, slotOf_val, held, if_true]
    split_ifs
    · exact ⟨released, kept, nofun⟩
    · exact ⟨released, kept, nofun⟩
    · exact ⟨released, kept, nofun⟩
    · exact ⟨released, kept, nofun⟩
    · exact ⟨released, kept, fun other answered => congrArg some (Except.ok.inj answered)⟩

variable {t}

end ReplyTable

theorem ServiceServer.sendResponse_cases {w d cap : Nat} (server : ServiceServer w d)
    (t : ReplyTable cap) (seq : Int) (calls : ReplyCalls) :
    (server.sendResponse t seq calls).1.lastReplySeq = t.lastReplySeq ∧
      (((server.sendResponse t seq calls).1.storedQueries = t.storedQueries ∧
        ∃ e, (server.sendResponse t seq calls).2 = .error e) ∨
      ∃ j : Fin cap, seq = j.val ∧
        (server.sendResponse t seq calls).1.storedQueries = Function.update t.storedQueries j none ∧
        ∀ query, (server.sendResponse t seq calls).2 = .ok query →
          t.storedQueries j = some query) := by
  rw [ServiceServer.sendResponse]
  split
  · exact ⟨rfl, .inl ⟨rfl, _, rfl⟩⟩
  · split
    · exact ⟨rfl, .inl ⟨rfl, _, rfl⟩⟩
    · cases named : ReplyTable.slotOf cap seq with
      | none =>
        have refused : t.queryReply seq calls false true = (t, .error .invalid) := by
          rw [ReplyTable.queryReply, named]
        rw [refused]
        exact ⟨rfl, .inl ⟨rfl, _, rfl⟩⟩
      | some j =>
        obtain rfl := ReplyTable.slotOf_eq_some.mp named
        obtain ⟨stored, last, answered⟩ := t.queryReply_val j calls false
        rcases result : t.queryReply j.val calls false true with ⟨after, outcome⟩
        rw [result] at stored last answered
        cases outcome with
        | ok query => exact ⟨last, .inr ⟨j, rfl, stored, fun other same => answered other (by
            cases Except.ok.inj same
            rfl)⟩⟩
        | error e => exact ⟨last, .inr ⟨j, rfl, stored, nofun⟩⟩

/-- The callback stores the query as a request: it has a payload and the ring has room. -/
def ServiceHeader.Stores {w d : Nat} (header : ServiceHeader w d) (query : ServiceQuery) : Prop :=
  query.payload ≠ none ∧ query.payload ≠ some [] ∧
    (header.buffer.tail - header.buffer.head).toNat < d

theorem callback_cases {τ : Type} {w d : Nat} [NeZero d] (slotBytes : Nat) (takeSeq : τ → τ × Int)
    (tables : τ) (header : ServiceHeader w d) (query : ServiceQuery) (recvNs : Int) :
    (¬ header.Stores query ∧ ∃ drops,
      queryableCallback slotBytes takeSeq tables header query recvNs =
        (tables, ⟨{ header.buffer with drops := drops }, query.keyexpr.take (keyexprSize - 1)⟩)) ∨
    (header.Stores query ∧ ∃ payload,
      queryableCallback slotBytes takeSeq tables header query recvNs =
        ((takeSeq tables).1, ⟨header.buffer.store slotBytes header.buffer.tail
          ⟨payload, (takeSeq tables).2, recvNs⟩, query.keyexpr.take (keyexprSize - 1)⟩)) := by
  rw [queryableCallback, ServiceHeader.Stores]
  dsimp only
  cases carried : query.payload with
  | none => exact .inl ⟨fun stores => stores.1 rfl, header.buffer.drops, rfl⟩
  | some payload =>
    dsimp only
    split
    · next empty =>
        rw [empty]
        exact .inl ⟨fun stores => stores.2.1 rfl, header.buffer.drops, rfl⟩
    · next filled =>
        by_cases full : d ≤ (header.buffer.tail - header.buffer.head).toNat
        · rw [ServiceBuffer.admitSlot, if_pos full]
          exact .inl ⟨fun stores => absurd stores.2.2 (Nat.not_lt.mpr full), _, rfl⟩
        · rw [ServiceBuffer.admitSlot, if_neg full]
          refine .inr ⟨⟨nofun, ?_, Nat.lt_of_not_le full⟩, payload, rfl⟩
          exact fun same => filled (Option.some.inj same)

theorem ServiceQuery.keyexpr_kept (query : ServiceQuery) :
    query.keyexpr.take (keyexprSize - 1) ≠ [] := by
  rw [Ne, List.take_eq_nil_iff]
  rintro (small | empty)
  · cases small
  · exact query.named empty

theorem written_seq (slotBytes : Nat) (slot : InboxEntry) (request : Request) :
    (ServiceBuffer.written slotBytes slot request).seq = request.seq := by
  rw [ServiceBuffer.written]
  split <;> rfl

end NanoRos.Zenoh
