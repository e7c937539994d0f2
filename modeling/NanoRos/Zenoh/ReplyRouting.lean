import NanoRos.Zenoh.ReplySlots

/-! The two numberings of a service server: the queryable handle the C shim gives it, from a table
it shares with the publishers' history queryables, and the header index of its buffer. -/

namespace NanoRos.Zenoh

abbrev QueryableHandle (S M : Nat) := Fin S × Fin M

/-- What a queryable is declared with: a service's callback on its header index, or the callback of
a transient-local publisher's history. -/
inductive QueryCallback where
  | service (bufferIndex : Nat)
  | history
  deriving DecidableEq

/-- A header with the ring that was bound to it. -/
structure BoundHeader (w : Nat) where
  depth : Nat
  nonempty : NeZero depth
  slotBytes : Nat
  header : ServiceHeader w depth

structure ServerState where
  replyKeyexpr : List UInt8
  refusedLen : Option Nat

/-- Every session's queryables, reply slots and header cursor, and the headers. -/
structure Shim (S M cap w : Nat) where
  queryables : QueryableHandle S M → Option QueryCallback
  tables : QueryableHandle S M → ReplyTable cap
  nextServiceBufferIndex : Fin S → Nat
  headers : Nat → BoundHeader w
  sessions : Nat → Option (Fin S)
  servers : QueryableHandle S M → ServerState

/-- What the session and the zenoh calls answer to a declaration. -/
structure DeclareCalls where
  sessionOpen : Bool
  keyexprOk : Bool
  declareOk : Bool

namespace Shim

variable {S M cap w : Nat}

def setTable (shim : Shim S M cap w) (at_ : QueryableHandle S M) (t : ReplyTable cap) :
    Shim S M cap w := { shim with tables := Function.update shim.tables at_ t }

/-! ### Declaring and dropping -/

/-- `bump::claim` on the session's cursor. -/
def claimIndex (shim : Shim S M cap w) (session : Fin S) : Shim S M cap w × Option Nat :=
  let next := shim.nextServiceBufferIndex session
  if next < M then
    ({ shim with
      nextServiceBufferIndex := Function.update shim.nextServiceBufferIndex session (next + 1) },
      some next)
  else (shim, none)

/-- `bump::release`: undone only while it is the latest claim. -/
def releaseIndex (shim : Shim S M cap w) (session : Fin S) (index : Nat) : Shim S M cap w :=
  if shim.nextServiceBufferIndex session = index + 1 then
    { shim with
      nextServiceBufferIndex := Function.update shim.nextServiceBufferIndex session index }
  else shim

/-- `zpico_declare_queryable`: the first free slot of the session. -/
def declareQueryable (shim : Shim S M cap w) (session : Fin S) (callback : QueryCallback)
    (calls : DeclareCalls) : Shim S M cap w × Option (Fin M) :=
  if !calls.sessionOpen then (shim, none)
  else
    match (List.finRange M).find? fun i => (shim.queryables (session, i)).isNone with
    | none => (shim, none)
    | some i =>
      if !calls.keyexprOk then (shim, none)
      else if !calls.declareOk then (shim, none)
      else ({ shim with
        queryables := Function.update shim.queryables (session, i) (some callback) }, some i)

/-- `zpico_undeclare_queryable`: the slots' queries are dropped with it. -/
def undeclareQueryable (shim : Shim S M cap w) (at_ : QueryableHandle S M) : Shim S M cap w :=
  { shim with
    queryables := Function.update shim.queryables at_ none
    tables := Function.update shim.tables at_ .fresh }

def bindRing (shim : Shim S M cap w) (bufferIndex : Nat) (ring : BoundHeader w) :
    Shim S M cap w := { shim with headers := Function.update shim.headers bufferIndex ring }

def recordSession (shim : Shim S M cap w) (bufferIndex : Nat) (session : Fin S) :
    Shim S M cap w :=
  { shim with sessions := Function.update shim.sessions bufferIndex (some session) }

/-- `ZenohServiceServer::new_with_inbox`, with the ring it is given if there is one, and whether its
key fits the buffer. -/
def newServer (shim : Shim S M cap w) (session : Fin S) (ring : Option (BoundHeader w))
    (keyFits : Bool) (calls : DeclareCalls) : Shim S M cap w × Option (Fin M) :=
  match shim.claimIndex session with
  | (shim, none) => (shim, none)
  | (shim, some index) =>
    let bufferIndex := session.val * M + index
    match ring with
    | none => (shim.releaseIndex session index, none)
    | some ring =>
      let shim := shim.bindRing bufferIndex ring
      if !keyFits then (shim, none)
      else
        let shim := shim.recordSession bufferIndex session
        match shim.declareQueryable session (.service bufferIndex) calls with
        | (shim, none) => (shim.releaseIndex session index, none)
        | (shim, some i) =>
          ({ shim with servers := Function.update shim.servers (session, i) ⟨[], none⟩ }, some i)

/-! ### Queries -/

/-- `zpico_queryable_take_reply_seq` with a header index for a handle; a header that no server was
declared on has no session. -/
def takeReplySeqAt (session : Option (Fin S)) (bufferIndex : Nat)
    (tables : QueryableHandle S M → ReplyTable cap) :
    (QueryableHandle S M → ReplyTable cap) × Int :=
  match session with
  | none => (tables, -1)
  | some session =>
    if inside : bufferIndex < M then
      let taken := (tables (session, ⟨bufferIndex, inside⟩)).takeReplySeq
      (Function.update tables (session, ⟨bufferIndex, inside⟩) taken.1, taken.2)
    else (tables, -1)

/-- `queryable_callback`. -/
def serviceCallback (shim : Shim S M cap w) (bufferIndex : Nat) (query : ServiceQuery)
    (recvNs : Int) : Shim S M cap w :=
  if S * M ≤ bufferIndex then shim
  else
    let bound := shim.headers bufferIndex
    have := bound.nonempty
    let called := queryableCallback bound.slotBytes
      (takeReplySeqAt (shim.sessions bufferIndex) bufferIndex) shim.tables bound.header query recvNs
    { shim with
      tables := called.1
      headers := Function.update shim.headers bufferIndex { bound with header := called.2 } }

/-- The replies of a history, each of which keeps the query but the last. -/
def replayHistory (t : ReplyTable cap) (seq : Int) : List ReplyCalls → ReplyTable cap
  | [] => t
  | [last] => (t.queryReply seq last true true).1
  | calls :: rest =>
    match t.queryReply seq calls true false with
    | (t, .ok _) => replayHistory t seq rest
    | (t, .error _) => t

/-- The history's `query_callback`; `samples` is none where it has nothing to say. -/
def historyCallback (t : ReplyTable cap) (samples : Option (List ReplyCalls)) : ReplyTable cap :=
  match samples with
  | none => t
  | some samples =>
    let taken := t.takeReplySeq
    if taken.2 < 0 then taken.1 else replayHistory taken.1 taken.2 samples

/-- `query_handler` on an active queryable. -/
def queryHandler (shim : Shim S M cap w) (at_ : QueryableHandle S M) (query : ServiceQuery)
    (recvNs : Int) (samples : Option (List ReplyCalls)) : Shim S M cap w :=
  match shim.queryables at_ with
  | none => shim
  | some callback =>
    let captured := (shim.tables at_).capture query true
    let cloned := shim.setTable at_ captured.1
    let called :=
      match callback with
      | .service bufferIndex => cloned.serviceCallback bufferIndex query recvNs
      | .history => cloned.setTable at_ (historyCallback captured.1 samples)
    called.setTable at_ ((called.tables at_).reclaim captured.2)

def takeRequest (shim : Shim S M cap w) (at_ : QueryableHandle S M) (bufferIndex room : Nat) :
    Shim S M cap w :=
  let bound := shim.headers bufferIndex
  have := bound.nonempty
  let server := shim.servers at_
  let taken :=
    (ServiceServer.mk bound.header server.replyKeyexpr server.refusedLen).takeRequest room
  { shim with
    headers := Function.update shim.headers bufferIndex { bound with header := taken.1.header }
    servers := Function.update shim.servers at_ ⟨taken.1.replyKeyexpr, taken.1.refusedLen⟩ }

def sendResponse (shim : Shim S M cap w) (at_ : QueryableHandle S M) (bufferIndex : Nat) (seq : Int)
    (calls : ReplyCalls) : Shim S M cap w × Except ResponseError ServiceQuery :=
  let bound := shim.headers bufferIndex
  have := bound.nonempty
  let server := shim.servers at_
  let sent := (ServiceServer.mk bound.header server.replyKeyexpr server.refusedLen).sendResponse
    (shim.tables at_) seq calls
  (shim.setTable at_ sent.1, sent.2)

end Shim

/-! ### Runs -/

/-- A request in a server's buffer or given to the server. -/
structure StoredRequest (S M : Nat) where
  server : QueryableHandle S M
  seq : Int
  query : ServiceQuery

/-- A query that was stored as a request: its number, and its handle's slots before and after. -/
structure StoredLog (cap : Nat) where
  query : ServiceQuery
  seq : Int
  before : Fin cap → Option ServiceQuery
  after : Fin cap → Option ServiceQuery

/-- `answers` pairs the query of each answered request with the query that was answered. -/
structure ShimRun (S M cap w : Nat) where
  shim : Shim S M cap w
  pending : List (StoredRequest S M)
  stored : List (StoredLog cap)
  answers : List (ServiceQuery × ServiceQuery)

inductive ShimEvent (S M w : Nat) where
  | newServer (session : Fin S) (ring : Option (BoundHeader w)) (keyFits : Bool)
      (calls : DeclareCalls)
  | newHistory (session : Fin S) (calls : DeclareCalls)
  | drop (at_ : QueryableHandle S M)
  | query (at_ : QueryableHandle S M) (query : ServiceQuery) (recvNs : Int)
      (samples : Option (List ReplyCalls))
  | take (at_ : QueryableHandle S M) (room : Nat)
  | respond (i : Nat) (calls : ReplyCalls)

namespace ShimRun

variable {S M cap w : Nat}

def start (header : BoundHeader w) : ShimRun S M cap w :=
  ⟨⟨fun _ => none, fun _ => .fresh, fun _ => 0, fun _ => header, fun _ => none,
    fun _ => ⟨[], none⟩⟩, [], [], []⟩

/-- The number of the request a callback has just stored in the header. -/
def storedSeq (before after : BoundHeader w) : Option Int :=
  have := after.nonempty
  if after.header.buffer.tail = before.header.buffer.tail then none
  else some (after.header.buffer.slots
    (slotIndex after.depth before.header.buffer.tail)).seq

def queryStep (s : ShimRun S M cap w) (at_ : QueryableHandle S M) (query : ServiceQuery)
    (recvNs : Int) (samples : Option (List ReplyCalls)) : ShimRun S M cap w :=
  let next := s.shim.queryHandler at_ query recvNs samples
  let seq :=
    match s.shim.queryables at_ with
    | some (.service bufferIndex) =>
      storedSeq (s.shim.headers bufferIndex) (next.headers bufferIndex)
    | _ => none
  match seq with
  | none => { s with shim := next }
  | some seq =>
    { s with
      shim := next
      pending := s.pending ++ [⟨at_, seq, query⟩]
      stored := s.stored ++
        [⟨query, seq, (s.shim.tables at_).storedQueries, (next.tables at_).storedQueries⟩] }

def respondStep (s : ShimRun S M cap w) (i : Nat) (request : StoredRequest S M) (bufferIndex : Nat)
    (calls : ReplyCalls) : ShimRun S M cap w :=
  let sent := s.shim.sendResponse request.server bufferIndex request.seq calls
  { s with
    shim := sent.1
    pending := s.pending.eraseIdx i
    answers :=
      match sent.2 with
      | .ok query => s.answers ++ [(request.query, query)]
      | .error _ => s.answers }

/-- Only a declared queryable is dropped, and with a server go its requests; only a declared server
takes and responds, to each of its requests at most once. -/
def step (s : ShimRun S M cap w) : ShimEvent S M w → Option (ShimRun S M cap w)
  | .newServer session ring keyFits calls =>
    some { s with shim := (s.shim.newServer session ring keyFits calls).1 }
  | .newHistory session calls =>
    some { s with shim := (s.shim.declareQueryable session .history calls).1 }
  | .drop at_ =>
    match s.shim.queryables at_ with
    | none => none
    | some _ => some { s with
        shim := s.shim.undeclareQueryable at_
        pending := s.pending.filter fun request => request.server ≠ at_ }
  | .query at_ query recvNs samples => some (s.queryStep at_ query recvNs samples)
  | .take at_ room =>
    match s.shim.queryables at_ with
    | some (.service bufferIndex) =>
      some { s with shim := s.shim.takeRequest at_ bufferIndex room }
    | _ => none
  | .respond i calls =>
    match s.pending[i]? with
    | none => none
    | some request =>
      match s.shim.queryables request.server with
      | some (.service bufferIndex) => some (s.respondStep i request bufferIndex calls)
      | _ => none

/-- The number is that of the slot the query was cloned into, and -1 exactly if there was none. -/
def StoredLog.Own (log : StoredLog cap) : Prop :=
  (log.seq = -1 ↔ ∀ j, log.before j ≠ none) ∧
    (log.seq = -1 ∨ ∃ j, log.seq = j.val ∧ log.before j = none ∧ log.after j = some log.query)

/-- Each stored request is numbered by its own query's slot, and answered through it. -/
def Routed (s : ShimRun S M cap w) : Prop :=
  (∀ log ∈ s.stored, StoredLog.Own log) ∧ ∀ answer ∈ s.answers, answer.2 = answer.1

/-- A query that a server stores comes on the handle that is the server's header index, or finds no
reply slot free. -/
def Aligned (s : ShimRun S M cap w) : ShimEvent S M w → Prop
  | .query at_ query _ _ => ∀ bufferIndex, s.shim.queryables at_ = some (.service bufferIndex) →
      (s.shim.headers bufferIndex).header.Stores query →
      bufferIndex = at_.2.val ∨ ∀ j, (s.shim.tables at_).storedQueries j ≠ none
  | _ => True

instance {d : Nat} (header : ServiceHeader w d) (query : ServiceQuery) :
    Decidable (header.Stores query) := inferInstanceAs (Decidable (_ ∧ _ ∧ _))

instance (s : ShimRun S M cap w) : ∀ e, Decidable (Aligned s e)
  | .query at_ query _ _ =>
    match found : s.shim.queryables at_ with
    | some (.service bufferIndex) =>
      decidable_of_iff ((s.shim.headers bufferIndex).header.Stores query →
        bufferIndex = at_.2.val ∨ ∀ j, (s.shim.tables at_).storedQueries j ≠ none)
        ⟨fun one _ live => by
            rw [found] at live
            cases live
            exact one,
          fun all => all bufferIndex found⟩
    | some .history => .isTrue fun _ live => by
      rw [found] at live
      cases live
    | none => .isTrue fun _ live => by
      rw [found] at live
      cases live
  | .newServer .. => .isTrue trivial
  | .newHistory .. => .isTrue trivial
  | .drop _ => .isTrue trivial
  | .take .. => .isTrue trivial
  | .respond .. => .isTrue trivial

/-! ### What the calls change -/

variable {shim : Shim S M cap w}

variable (shim)

variable (session : Fin S)

theorem declareQueryable_cases (callback : QueryCallback) (calls : DeclareCalls) :
    shim.declareQueryable session callback calls = (shim, none) ∨
    ∃ i, shim.queryables (session, i) = none ∧
      shim.declareQueryable session callback calls = ({ shim with
        queryables := Function.update shim.queryables (session, i) (some callback) }, some i) := by
  rw [Shim.declareQueryable]
  split
  · exact .inl rfl
  · split
    · exact .inl rfl
    · next i found =>
        have free := List.find?_some found
        split_ifs
        · exact .inl rfl
        · exact .inl rfl
        · exact .inr ⟨i, Option.isNone_iff_eq_none.mp free, rfl⟩

theorem releaseIndex_kept (index : Nat) :
    (shim.releaseIndex session index).queryables = shim.queryables ∧
      (shim.releaseIndex session index).tables = shim.tables ∧
      (shim.releaseIndex session index).sessions = shim.sessions := by
  rw [Shim.releaseIndex]
  split <;> exact ⟨rfl, rfl, rfl⟩

theorem newServer_cases (ring : Option (BoundHeader w)) (keyFits : Bool) (calls : DeclareCalls) :
    (shim.newServer session ring keyFits calls).1.tables = shim.tables ∧
    (((shim.newServer session ring keyFits calls).1.queryables = shim.queryables ∧
        (shim.newServer session ring keyFits calls).1.sessions = shim.sessions) ∨
      ∃ index < M, (shim.newServer session ring keyFits calls).1.sessions =
          Function.update shim.sessions (session.val * M + index) (some session) ∧
        ((shim.newServer session ring keyFits calls).1.queryables = shim.queryables ∨
          ∃ i, shim.queryables (session, i) = none ∧
            (shim.newServer session ring keyFits calls).1.queryables =
              Function.update shim.queryables (session, i)
                (some (.service (session.val * M + index))))) := by
  rw [Shim.newServer, Shim.claimIndex]
  dsimp only
  by_cases free : shim.nextServiceBufferIndex session < M
  · rw [if_pos free]
    dsimp only
    generalize counted : ({ shim with
      nextServiceBufferIndex := Function.update shim.nextServiceBufferIndex session
        (shim.nextServiceBufferIndex session + 1) } : Shim S M cap w) = claimed
    have queryables : claimed.queryables = shim.queryables := by rw [← counted]
    have tables : claimed.tables = shim.tables := by rw [← counted]
    have sessions : claimed.sessions = shim.sessions := by rw [← counted]
    cases ring with
    | none =>
      obtain ⟨queryables', tables', sessions'⟩ :=
        releaseIndex_kept claimed session (shim.nextServiceBufferIndex session)
      exact ⟨tables'.trans tables, .inl ⟨queryables'.trans queryables, sessions'.trans sessions⟩⟩
    | some ring =>
      dsimp only
      split
      · exact ⟨tables, .inl ⟨queryables, sessions⟩⟩
      · obtain result | ⟨i, empty, result⟩ := declareQueryable_cases
          ((claimed.bindRing (session.val * M + shim.nextServiceBufferIndex session)
            ring).recordSession (session.val * M + shim.nextServiceBufferIndex session) session)
          session (.service (session.val * M + shim.nextServiceBufferIndex session)) calls
        · rw [result]
          obtain ⟨queryables', tables', sessions'⟩ := releaseIndex_kept
            ((claimed.bindRing (session.val * M + shim.nextServiceBufferIndex session)
              ring).recordSession (session.val * M + shim.nextServiceBufferIndex session) session)
            session (shim.nextServiceBufferIndex session)
          refine ⟨tables'.trans tables, .inr ⟨_, free, ?_, .inl (queryables'.trans queryables)⟩⟩
          rw [← sessions]
          exact sessions'
        · rw [result]
          refine ⟨tables, .inr ⟨_, free, ?_, .inr ⟨i, ?_, ?_⟩⟩⟩
          · rw [← sessions]
            rfl
          · rw [← queryables]
            exact empty
          · rw [← queryables]
            rfl
  · rw [if_neg free]
    exact ⟨rfl, .inl ⟨rfl, rfl⟩⟩

variable {shim}

theorem replayHistory_lastReplySeq (seq : Int) (samples : List ReplyCalls) (t : ReplyTable cap) :
    (Shim.replayHistory t seq samples).lastReplySeq = t.lastReplySeq := by
  induction samples generalizing t with
  | nil => rfl
  | cons calls rest ih =>
    cases rest with
    | nil => exact t.queryReply_lastReplySeq seq calls true true
    | cons next rest =>
      have kept := t.queryReply_lastReplySeq seq calls true false
      rw [Shim.replayHistory]
      case x_1 => exact nofun
      split
      · next after _ result =>
          rw [result] at kept
          exact (ih after).trans kept
      · next after _ result =>
          rw [result] at kept
          exact kept

theorem history_lastReplySeq (t : ReplyTable cap) (query : ServiceQuery)
    (samples : Option (List ReplyCalls)) :
    ((Shim.historyCallback (t.capture query true).1 samples).reclaim
      (t.capture query true).2).lastReplySeq = -1 := by
  cases samples with
  | none => exact (t.capture_reclaim query true).2
  | some samples =>
    have taken : (Shim.historyCallback (t.capture query true).1 (some samples)).lastReplySeq =
        -1 := by
      rw [Shim.historyCallback]
      split
      · rfl
      · exact replayHistory_lastReplySeq _ samples _
    rw [ReplyTable.reclaim_taken taken]
    exact taken

/-! ### What every run keeps -/

structure Inv (s : ShimRun S M cap w) : Prop where
  idle : ∀ at_, (s.shim.tables at_).lastReplySeq = -1
  declared : ∀ at_ bufferIndex, s.shim.queryables at_ = some (.service bufferIndex) →
    bufferIndex < S * M ∧ bufferIndex / M = at_.1.val ∧ s.shim.sessions bufferIndex = some at_.1
  held : ∀ request ∈ s.pending,
    (∃ bufferIndex, s.shim.queryables request.server = some (.service bufferIndex)) ∧
    (0 ≤ request.seq → ∃ j : Fin cap, request.seq = j.val ∧
      (s.shim.tables request.server).storedQueries j = some request.query)
  apart : s.pending.Pairwise fun one other =>
    one.server = other.server → one.seq = other.seq → one.seq < 0
  answers : ∀ answer ∈ s.answers, answer.2 = answer.1

variable {s next : ShimRun S M cap w}

theorem headerIndex_bounds {session : Fin S} {index : Nat} (inside : index < M) :
    session.val * M + index < S * M ∧ (session.val * M + index) / M = session.val := by
  constructor
  · calc
      session.val * M + index < session.val * M + M := Nat.add_lt_add_left inside _
      _ = (session.val + 1) * M := (Nat.succ_mul _ _).symm
      _ ≤ S * M := Nat.mul_le_mul_right M session.isLt
  · rw [Nat.mul_comm, Nat.mul_add_div (by omega), Nat.div_eq_of_lt inside, Nat.add_zero]

theorem Inv.declare (inv : Inv s) (shim : Shim S M cap w) (tables : shim.tables = s.shim.tables)
    (declared : ∀ at_ bufferIndex, shim.queryables at_ = some (.service bufferIndex) →
      bufferIndex < S * M ∧ bufferIndex / M = at_.1.val ∧ shim.sessions bufferIndex = some at_.1)
    (kept : ∀ at_, s.shim.queryables at_ ≠ none → shim.queryables at_ = s.shim.queryables at_) :
    Inv { s with shim := shim } := by
  refine ⟨?_, declared, ?_, inv.apart, inv.answers⟩
  · intro at_
    dsimp only
    rw [tables]
    exact inv.idle at_
  · intro request member
    obtain ⟨⟨bufferIndex, live⟩, slot⟩ := inv.held request member
    have still := kept request.server (by rw [live]; exact Option.some_ne_none _)
    refine ⟨⟨bufferIndex, still.trans live⟩, ?_⟩
    dsimp only
    rw [tables]
    exact slot

theorem Inv.newServer (inv : Inv s) (session : Fin S) (ring : Option (BoundHeader w))
    (keyFits : Bool) (calls : DeclareCalls) :
    Inv { s with shim := (s.shim.newServer session ring keyFits calls).1 } := by
  obtain ⟨tables, ⟨queryables, sessions⟩ | ⟨index, inside, sessions, declared⟩⟩ :=
    newServer_cases s.shim session ring keyFits calls
  · apply inv.declare _ tables
    · intro at_ bufferIndex live
      rw [queryables] at live
      rw [sessions]
      exact inv.declared at_ bufferIndex live
    · exact fun at_ _ => congrFun queryables at_
  · obtain ⟨bound, quotient⟩ : session.val * M + index < S * M ∧
        (session.val * M + index) / M = session.val := headerIndex_bounds inside
    have old : ∀ at_ bufferIndex, s.shim.queryables at_ = some (.service bufferIndex) →
        bufferIndex < S * M ∧ bufferIndex / M = at_.1.val ∧
          (s.shim.newServer session ring keyFits calls).1.sessions bufferIndex = some at_.1 := by
      intro at_ bufferIndex live
      obtain ⟨below, owner, recorded⟩ := inv.declared at_ bufferIndex live
      refine ⟨below, owner, ?_⟩
      rw [sessions]
      by_cases same : bufferIndex = session.val * M + index
      · rw [same, Function.update_self]
        rw [same, quotient] at owner
        exact congrArg some (Fin.ext owner)
      · rw [Function.update_of_ne same]
        exact recorded
    obtain queryables | ⟨i, free, queryables⟩ := declared
    · apply inv.declare _ tables
      · intro at_ bufferIndex live
        rw [queryables] at live
        exact old at_ bufferIndex live
      · exact fun at_ _ => congrFun queryables at_
    · apply inv.declare _ tables
      · intro at_ bufferIndex live
        rw [queryables] at live
        by_cases here : at_ = (session, i)
        · subst here
          rw [Function.update_self] at live
          cases live
          refine ⟨bound, quotient, ?_⟩
          rw [sessions, Function.update_self]
        · rw [Function.update_of_ne here] at live
          exact old at_ bufferIndex live
      · intro at_ live
        rw [queryables]
        apply Function.update_of_ne
        rintro rfl
        exact live free

theorem Inv.newHistory (inv : Inv s) (session : Fin S) (calls : DeclareCalls) :
    Inv { s with shim := (s.shim.declareQueryable session .history calls).1 } := by
  obtain result | ⟨i, free, result⟩ := declareQueryable_cases s.shim session .history calls
  · rw [result]
    exact inv
  · rw [result]
    refine inv.declare _ rfl ?_ ?_
    · intro at_ bufferIndex live
      dsimp only at live ⊢
      by_cases here : at_ = (session, i)
      · subst here
        rw [Function.update_self] at live
        cases live
      · rw [Function.update_of_ne here] at live
        exact inv.declared at_ bufferIndex live
    · intro at_ live
      apply Function.update_of_ne
      rintro rfl
      exact live free

theorem Inv.drop (inv : Inv s) (at_ : QueryableHandle S M) :
    Inv { s with
      shim := s.shim.undeclareQueryable at_
      pending := s.pending.filter fun request => request.server ≠ at_ } := by
  refine ⟨?_, ?_, ?_, inv.apart.filter _, inv.answers⟩
  · intro other
    dsimp only [Shim.undeclareQueryable]
    by_cases here : other = at_
    · rw [here, Function.update_self]
      rfl
    · rw [Function.update_of_ne here]
      exact inv.idle other
  · intro other bufferIndex live
    dsimp only [Shim.undeclareQueryable] at live
    by_cases here : other = at_
    · rw [here, Function.update_self] at live
      cases live
    · rw [Function.update_of_ne here] at live
      exact inv.declared other bufferIndex live
  · intro request member
    obtain ⟨listed, elsewhere⟩ := List.mem_filter.mp member
    have away : request.server ≠ at_ := of_decide_eq_true elsewhere
    dsimp only [Shim.undeclareQueryable]
    rw [Function.update_of_ne away, Function.update_of_ne away]
    exact inv.held request listed

theorem takeReplySeqAt_self (at_ : QueryableHandle S M)
    (tables : QueryableHandle S M → ReplyTable cap) :
    Shim.takeReplySeqAt (some at_.1) at_.2.val tables =
      (Function.update tables at_ (tables at_).takeReplySeq.1, (tables at_).lastReplySeq) := by
  rw [Shim.takeReplySeqAt]
  exact dif_pos at_.2.isLt

variable {at_ : QueryableHandle S M} {bufferIndex : Nat}

theorem takeReplySeqAt_other {tables : QueryableHandle S M → ReplyTable cap}
    (other : bufferIndex ≠ at_.2.val)
    (idle : ∀ handle, handle ≠ at_ → (tables handle).lastReplySeq = -1) :
    Shim.takeReplySeqAt (some at_.1) bufferIndex tables = (tables, -1) := by
  rw [Shim.takeReplySeqAt]
  dsimp only
  split
  · next inside =>
      have idle' := idle (at_.1, ⟨bufferIndex, inside⟩)
        (fun same => other (congrArg (fun handle => handle.2.val) same))
      have taken : (tables (at_.1, ⟨bufferIndex, inside⟩)).takeReplySeq =
          (tables (at_.1, ⟨bufferIndex, inside⟩), -1) := by
        rw [ReplyTable.takeReplySeq, ← idle']
      rw [taken, Function.update_eq_self]
  · rfl

theorem storedSeq_store (wide : 0 < w) (bound : BoundHeader w) (request : Request)
    (keyexpr : List UInt8) :
    have := bound.nonempty
    storedSeq bound { bound with
      header := ⟨bound.header.buffer.store bound.slotBytes bound.header.buffer.tail request,
        keyexpr⟩ } = some request.seq := by
  intro nonempty
  have moved : ¬ bound.header.buffer.tail + 1 = bound.header.buffer.tail := by
    intro same
    have none_ : w = 0 := BitVec.one_eq_zero_iff.mp (BitVec.add_right_eq_self.mp same)
    omega
  rw [storedSeq]
  refine (if_neg moved).trans (congrArg some ?_)
  dsimp only [ServiceBuffer.store]
  rw [Function.update_self, written_seq]

/-- What a query to a server changes: a stored request has the number of its own slot if the header
index is the handle, and -1 with the slot given back if it is not. -/
theorem Inv.queryHandler (inv : Inv s) (wide : 0 < w)
    (live : s.shim.queryables at_ = some (.service bufferIndex)) (query : ServiceQuery)
    (recvNs : Int) (samples : Option (List ReplyCalls)) :
    let next := s.shim.queryHandler at_ query recvNs samples
    let seq := storedSeq (s.shim.headers bufferIndex) (next.headers bufferIndex)
    let captured := (s.shim.tables at_).capture query true
    next.queryables = s.shim.queryables ∧ next.sessions = s.shim.sessions ∧
    (∀ other, (next.tables other).lastReplySeq = -1) ∧ (∀ other, other ≠ at_ →
      (next.tables other).storedQueries = (s.shim.tables other).storedQueries) ∧
    (¬ (s.shim.headers bufferIndex).header.Stores query ∧ seq = none ∧
        (next.tables at_).storedQueries = (s.shim.tables at_).storedQueries ∨
      (s.shim.headers bufferIndex).header.Stores query ∧ bufferIndex = at_.2.val ∧
        seq = some captured.2 ∧ (next.tables at_).storedQueries = captured.1.storedQueries ∨
      (s.shim.headers bufferIndex).header.Stores query ∧ bufferIndex ≠ at_.2.val ∧ seq = some (-1) ∧
        (next.tables at_).storedQueries = (s.shim.tables at_).storedQueries) := by
  intro next seq captured
  obtain ⟨bound, -, recorded⟩ := inv.declared at_ bufferIndex live
  have nonempty := (s.shim.headers bufferIndex).nonempty
  let called := queryableCallback (s.shim.headers bufferIndex).slotBytes
    (Shim.takeReplySeqAt (some at_.1) bufferIndex)
    (Function.update s.shim.tables at_ captured.1) (s.shim.headers bufferIndex).header query recvNs
  have tables : next.tables = Function.update called.1 at_ ((called.1 at_).reclaim captured.2) := by
    simp only [next, Shim.queryHandler, live, Shim.serviceCallback, Nat.not_le.mpr bound, if_false,
      Shim.setTable, recorded]
    rfl
  have header : next.headers bufferIndex =
      { s.shim.headers bufferIndex with header := called.2 } := by
    simp only [next, Shim.queryHandler, live, Shim.serviceCallback, Nat.not_le.mpr bound, if_false,
      Shim.setTable, recorded, Function.update_self]
    rfl
  have frame : next.queryables = s.shim.queryables ∧ next.sessions = s.shim.sessions := by
    simp only [next, Shim.queryHandler, live, Shim.serviceCallback, Nat.not_le.mpr bound, if_false,
      Shim.setTable]
    exact ⟨trivial, trivial⟩
  refine ⟨frame.1, frame.2, ?_⟩
  have last : captured.1.lastReplySeq = captured.2 := ReplyTable.capture_lastReplySeq ..
  obtain ⟨given, cleared⟩ := (s.shim.tables at_).capture_reclaim query true
  obtain ⟨refused, drops, result⟩ | ⟨stores, payload, result⟩ := callback_cases
      (s.shim.headers bufferIndex).slotBytes (Shim.takeReplySeqAt (some at_.1) bufferIndex)
      (Function.update s.shim.tables at_ captured.1) (s.shim.headers bufferIndex).header query
      recvNs
  · have result' : called = _ := result
    rw [result'] at tables header
    dsimp only at tables
    rw [Function.update_self, Function.update_idem] at tables
    refine ⟨?_, ?_, .inl ⟨refused, ?_, ?_⟩⟩
    · intro other
      rw [tables]
      by_cases here : other = at_
      · rw [here, Function.update_self]
        exact cleared
      · rw [Function.update_of_ne here]
        exact inv.idle other
    · intro other away
      rw [tables, Function.update_of_ne away]
    · dsimp only [seq]
      rw [header]
      exact if_pos rfl
    · rw [tables, Function.update_self]
      exact given
  · have result' : called = _ := result
    rw [result'] at tables header
    dsimp only at tables
    have number := storedSeq_store wide (s.shim.headers bufferIndex)
    by_cases same : bufferIndex = at_.2.val
    · rw [same, takeReplySeqAt_self, Function.update_self, Function.update_idem] at tables
      dsimp only at tables
      rw [Function.update_self, Function.update_idem, ReplyTable.reclaim_taken rfl] at tables
      refine ⟨?_, ?_, .inr (.inl ⟨stores, same, ?_, ?_⟩)⟩
      · intro other
        rw [tables]
        by_cases here : other = at_
        · rw [here, Function.update_self]
          rfl
        · rw [Function.update_of_ne here]
          exact inv.idle other
      · intro other away
        rw [tables, Function.update_of_ne away]
      · dsimp only [seq]
        rw [header, number, ← last]
        subst same
        rw [takeReplySeqAt_self, Function.update_self]
      · rw [tables, Function.update_self]
        rfl
    · have idle : ∀ handle, handle ≠ at_ →
          (Function.update s.shim.tables at_ captured.1 handle).lastReplySeq = -1 := by
        intro handle away
        rw [Function.update_of_ne away]
        exact inv.idle handle
      rw [takeReplySeqAt_other same idle] at tables header
      dsimp only at tables header
      rw [Function.update_self, Function.update_idem] at tables
      refine ⟨?_, ?_, .inr (.inr ⟨stores, same, ?_, ?_⟩)⟩
      · intro other
        rw [tables]
        by_cases here : other = at_
        · rw [here, Function.update_self]
          exact cleared
        · rw [Function.update_of_ne here]
          exact inv.idle other
      · intro other away
        rw [tables, Function.update_of_ne away]
      · dsimp only [seq]
        rw [header, number]
      · rw [tables, Function.update_self]
        exact given

theorem Inv.handled (inv : Inv s) (shim : Shim S M cap w)
    (queryables : shim.queryables = s.shim.queryables) (sessions : shim.sessions = s.shim.sessions)
    (idle : ∀ at_, (shim.tables at_).lastReplySeq = -1)
    (kept : ∀ request ∈ s.pending, ∀ j, (s.shim.tables request.server).storedQueries j =
      some request.query → (shim.tables request.server).storedQueries j = some request.query) :
    Inv { s with shim := shim } := by
  refine ⟨idle, ?_, ?_, inv.apart, inv.answers⟩
  · intro at_ bufferIndex live
    dsimp only at live ⊢
    rw [queryables] at live
    rw [sessions]
    exact inv.declared at_ bufferIndex live
  · intro request member
    obtain ⟨live, slot⟩ := inv.held request member
    dsimp only
    rw [queryables]
    refine ⟨live, fun positive => ?_⟩
    obtain ⟨j, named, holds⟩ := slot positive
    exact ⟨j, named, kept request member j holds⟩

theorem Inv.push (inv : Inv s) (request : StoredRequest S M) (log : StoredLog cap)
    (live : s.shim.queryables request.server = some (.service bufferIndex))
    (slot : 0 ≤ request.seq → ∃ j : Fin cap, request.seq = j.val ∧
      (s.shim.tables request.server).storedQueries j = some request.query)
    (apart : ∀ other ∈ s.pending, other.server = request.server → other.seq = request.seq →
      other.seq < 0) :
    Inv { s with pending := s.pending ++ [request], stored := s.stored ++ [log] } := by
  refine ⟨inv.idle, inv.declared, ?_, ?_, inv.answers⟩
  · intro other member
    obtain old | new := List.mem_append.mp member
    · exact inv.held other old
    · obtain rfl := List.mem_singleton.mp new
      exact ⟨⟨bufferIndex, live⟩, slot⟩
  · rw [List.pairwise_append]
    refine ⟨inv.apart, List.pairwise_singleton _ _, ?_⟩
    intro other member request' last
    obtain rfl := List.mem_singleton.mp last
    exact apart other member

theorem own_capture (t : ReplyTable cap) (query : ServiceQuery) :
    StoredLog.Own ⟨query, (t.capture query true).2, t.storedQueries,
      (t.capture query true).1.storedQueries⟩ := by
  obtain ⟨j, free, number, stored⟩ | ⟨number, stored, full⟩ := t.capture_cases query true
  · rw [number, stored]
    refine ⟨⟨fun negative => ?_, fun full => absurd free (full j)⟩, .inr ⟨j, rfl, free, ?_⟩⟩
    · dsimp only at negative
      omega
    · exact Function.update_self ..
  · rw [number, stored]
    exact ⟨⟨fun _ => full rfl, fun _ => rfl⟩, .inl rfl⟩

theorem own_unnumbered (query : ServiceQuery) (before after : Fin cap → Option ServiceQuery) :
    StoredLog.Own ⟨query, -1, before, after⟩ ↔ ∀ j, before j ≠ none := by
  constructor
  · exact fun own => own.1.mp rfl
  · exact fun full => ⟨⟨fun _ => full, fun _ => rfl⟩, .inl rfl⟩

theorem Inv.serviceStep (inv : Inv s) (wide : 0 < w)
    (declared : s.shim.queryables at_ = some (.service bufferIndex)) (query : ServiceQuery)
    (recvNs : Int) (samples : Option (List ReplyCalls)) :
    Inv (s.queryStep at_ query recvNs samples) ∧
      ((s.queryStep at_ query recvNs samples).stored = s.stored ∧
          Aligned s (.query at_ query recvNs samples) ∨
        ∃ log, (s.queryStep at_ query recvNs samples).stored = s.stored ++ [log] ∧
          (StoredLog.Own log ↔ Aligned s (.query at_ query recvNs samples))) := by
  obtain ⟨queryables, sessions, idle, elsewhere, outcome⟩ :=
    inv.queryHandler wide declared query recvNs samples
  have aligned : Aligned s (.query at_ query recvNs samples) ↔
      ((s.shim.headers bufferIndex).header.Stores query →
        bufferIndex = at_.2.val ∨ ∀ j, (s.shim.tables at_).storedQueries j ≠ none) := by
    constructor
    · exact fun all => all bufferIndex declared
    · intro one other live
      rw [declared] at live
      cases live
      exact one
  have kept : (∀ j held, (s.shim.tables at_).storedQueries j = some held →
        ((s.shim.queryHandler at_ query recvNs samples).tables at_).storedQueries j = some held) →
      Inv { s with shim := s.shim.queryHandler at_ query recvNs samples } := by
    intro here
    apply inv.handled _ queryables sessions idle
    intro request member j holds
    by_cases same : request.server = at_
    · rw [same] at holds ⊢
      exact here j _ holds
    · rw [elsewhere _ same]
      exact holds
  have live : (s.shim.queryHandler at_ query recvNs samples).queryables at_ =
      some (.service bufferIndex) := by
    rw [queryables]
    exact declared
  obtain ⟨refused, none_, same⟩ | ⟨stores, index, number, cloned⟩ | ⟨stores, index, number, same⟩ :=
    outcome
  · have after : s.queryStep at_ query recvNs samples =
        { s with shim := s.shim.queryHandler at_ query recvNs samples } := by
      simp only [ShimRun.queryStep, declared, none_]
    rw [after]
    refine ⟨kept ?_, .inl ⟨rfl, aligned.mpr fun stores => absurd stores refused⟩⟩
    intro j held holds
    rw [same]
    exact holds
  · have logged : s.queryStep at_ query recvNs samples =
        { s with
          shim := s.shim.queryHandler at_ query recvNs samples
          pending := s.pending ++ [⟨at_, ((s.shim.tables at_).capture query true).2, query⟩]
          stored := s.stored ++ [⟨query, ((s.shim.tables at_).capture query true).2,
            (s.shim.tables at_).storedQueries,
            ((s.shim.tables at_).capture query true).1.storedQueries⟩] } := by
      simp only [ShimRun.queryStep, declared, number, cloned]
    rw [logged]
    have own := own_capture (s.shim.tables at_) query
    refine ⟨?_, .inr ⟨_, rfl, iff_of_true own (aligned.mpr fun _ => .inl index)⟩⟩
    refine (kept ?_).push ⟨at_, ((s.shim.tables at_).capture query true).2, query⟩ _ live ?_ ?_
    · intro j held holds
      rw [cloned]
      obtain ⟨i, free, -, stored⟩ | ⟨-, stored, -⟩ :=
        (s.shim.tables at_).capture_cases query true
      · have away : j ≠ i := by
          rintro rfl
          rw [free] at holds
          cases holds
        rw [stored, Function.update_of_ne away]
        exact holds
      · rw [stored]
        exact holds
    · intro positive
      dsimp only at positive ⊢
      rw [cloned]
      obtain ⟨i, -, number', stored⟩ | ⟨number', -, -⟩ :=
        (s.shim.tables at_).capture_cases query true
      · refine ⟨i, number', ?_⟩
        rw [stored, Function.update_self]
      · omega
    · intro other member server seq
      dsimp only at server seq
      by_contra positive
      obtain ⟨-, slot⟩ := inv.held other member
      obtain ⟨j, named, holds⟩ := slot (by omega)
      obtain ⟨i, free, number', -⟩ | ⟨number', -, -⟩ :=
        (s.shim.tables at_).capture_cases query true
      · have same : j = i := Fin.ext (by omega)
        rw [server, same, free] at holds
        cases holds
      · omega
  · have logged : s.queryStep at_ query recvNs samples =
        { s with
          shim := s.shim.queryHandler at_ query recvNs samples
          pending := s.pending ++ [⟨at_, -1, query⟩]
          stored := s.stored ++ [⟨query, -1, (s.shim.tables at_).storedQueries,
            (s.shim.tables at_).storedQueries⟩] } := by
      simp only [ShimRun.queryStep, declared, number, same]
    rw [logged]
    refine ⟨?_, .inr ⟨_, rfl, ?_⟩⟩
    · refine (kept ?_).push ⟨at_, -1, query⟩ _ live nofun 
        fun _ _ _ seq => seq.trans_lt (by decide : (-1 : Int) < 0)
      intro j held holds
      rw [same]
      exact holds
    · rw [own_unnumbered, aligned]
      constructor
      · exact fun full _ => .inr full
      · intro all
        obtain index' | full := all stores
        · exact absurd index' index
        · exact full

theorem Inv.queryStep (inv : Inv s) (wide : 0 < w) (at_ : QueryableHandle S M)
    (query : ServiceQuery) (recvNs : Int) (samples : Option (List ReplyCalls)) :
    Inv (s.queryStep at_ query recvNs samples) ∧
      ((s.queryStep at_ query recvNs samples).stored = s.stored ∧
          Aligned s (.query at_ query recvNs samples) ∨
        ∃ log, (s.queryStep at_ query recvNs samples).stored = s.stored ++ [log] ∧
          (StoredLog.Own log ↔ Aligned s (.query at_ query recvNs samples))) := by
  cases declared : s.shim.queryables at_ with
  | none =>
    have same : s.queryStep at_ query recvNs samples = s := by
      simp only [ShimRun.queryStep, Shim.queryHandler, declared]
    rw [same]
    refine ⟨inv, .inl ⟨rfl, ?_⟩⟩
    intro bufferIndex live
    rw [declared] at live
    cases live
  | some callback =>
    cases callback with
    | history =>
      have after : s.queryStep at_ query recvNs samples =
          { s with shim := s.shim.queryHandler at_ query recvNs samples } := by
        simp only [ShimRun.queryStep, declared]
      have elsewhere : ∀ other, other ≠ at_ →
          (s.shim.queryHandler at_ query recvNs samples).tables other = s.shim.tables other := by
        intro other away
        simp only [Shim.queryHandler, declared, Shim.setTable, Function.update_of_ne away]
      have here : ((s.shim.queryHandler at_ query recvNs samples).tables at_).lastReplySeq =
          -1 := by
        simp only [Shim.queryHandler, declared, Shim.setTable, Function.update_self]
        exact history_lastReplySeq _ query samples
      rw [after]
      constructor
      · apply inv.handled
        · simp only [Shim.queryHandler, declared]
          rfl
        · simp only [Shim.queryHandler, declared]
          rfl
        · intro other
          by_cases same : other = at_
          · rw [same]
            exact here
          · rw [elsewhere other same]
            exact inv.idle other
        · intro request member j holds
          rw [elsewhere]
          · exact holds
          · intro same
            obtain ⟨⟨bufferIndex, live⟩, -⟩ := inv.held request member
            rw [same, declared] at live
            cases live
      · refine .inl ⟨rfl, ?_⟩
        intro bufferIndex live
        rw [declared] at live
        cases live
    | service bufferIndex =>
      exact inv.serviceStep wide declared query recvNs samples

theorem Inv.respondStep (inv : Inv s) {i : Nat} {request : StoredRequest S M}
    (found : s.pending[i]? = some request) (bufferIndex : Nat) (calls : ReplyCalls) :
    Inv (s.respondStep i request bufferIndex calls) := by
  obtain ⟨inside, rfl⟩ := List.getElem?_eq_some_iff.mp found
  have nonempty := (s.shim.headers bufferIndex).nonempty
  have erased := List.getElem_cons_eraseIdx_perm inside
  have apart : ∀ other ∈ s.pending.eraseIdx i, s.pending[i].server = other.server →
      s.pending[i].seq = other.seq → s.pending[i].seq < 0 := by
    have paired := (List.Perm.pairwise_iff (fun {one other} apart server seq =>
      seq ▸ apart server.symm seq.symm) erased).mpr inv.apart
    exact fun other member => (List.pairwise_cons.mp paired).1 other member
  obtain ⟨-, slot⟩ := inv.held _ (List.getElem_mem inside)
  obtain ⟨last, outcome⟩ := (ServiceServer.mk (s.shim.headers bufferIndex).header
    (s.shim.servers s.pending[i].server).replyKeyexpr
    (s.shim.servers s.pending[i].server).refusedLen).sendResponse_cases
    (s.shim.tables s.pending[i].server) s.pending[i].seq calls
  refine ⟨?_, inv.declared, ?_, inv.apart.sublist (List.eraseIdx_sublist _ _), ?_⟩
  · intro at_
    dsimp only [ShimRun.respondStep, Shim.sendResponse, Shim.setTable]
    by_cases here : at_ = s.pending[i].server
    · rw [here, Function.update_self]
      exact last.trans (inv.idle _)
    · rw [Function.update_of_ne here]
      exact inv.idle at_
  · intro other member
    have listed : other ∈ s.pending := (List.eraseIdx_sublist _ _).subset member
    obtain ⟨live, holds⟩ := inv.held other listed
    refine ⟨live, fun positive => ?_⟩
    obtain ⟨j, named, holds⟩ := holds positive
    refine ⟨j, named, ?_⟩
    dsimp only [ShimRun.respondStep, Shim.sendResponse, Shim.setTable]
    by_cases here : other.server = s.pending[i].server
    · rw [here] at holds ⊢
      rw [Function.update_self]
      obtain ⟨stored, -⟩ | ⟨k, number, stored, -⟩ := outcome
      · rw [stored]
        exact holds
      · have away : j ≠ k := by
          rintro rfl
          have negative := apart other member here.symm (number.trans named.symm)
          omega
        rw [stored, Function.update_of_ne away]
        exact holds
    · rw [Function.update_of_ne here]
      exact holds
  · intro answer member
    dsimp only [ShimRun.respondStep, Shim.sendResponse] at member
    split at member
    · next query sent =>
        obtain old | new := List.mem_append.mp member
        · exact inv.answers answer old
        · obtain rfl := List.mem_singleton.mp new
          obtain ⟨-, e, failed⟩ | ⟨k, number, -, answered⟩ := outcome
          · rw [failed] at sent
            cases sent
          · obtain ⟨j, named, holds⟩ := slot (by omega)
            have same : j = k := Fin.ext (by omega)
            rw [same, answered query sent] at holds
            exact Option.some.inj holds
    · exact inv.answers answer member

theorem Inv.step (inv : Inv s) (wide : 0 < w) (e : ShimEvent S M w)
    (stepped : s.step e = some next) :
    Inv next ∧ (next.stored = s.stored ∧ Aligned s e ∨
      ∃ log, next.stored = s.stored ++ [log] ∧ (StoredLog.Own log ↔ Aligned s e)) := by
  cases e with
  | newServer session ring keyFits calls =>
    cases stepped
    exact ⟨inv.newServer session ring keyFits calls, .inl ⟨rfl, trivial⟩⟩
  | newHistory session calls =>
    cases stepped
    exact ⟨inv.newHistory session calls, .inl ⟨rfl, trivial⟩⟩
  | drop at_ =>
    rw [ShimRun.step] at stepped
    split at stepped
    · cases stepped
    · cases stepped
      exact ⟨inv.drop at_, .inl ⟨rfl, trivial⟩⟩
  | query at_ query recvNs samples =>
    cases stepped
    exact inv.queryStep wide at_ query recvNs samples
  | take at_ room =>
    rw [ShimRun.step] at stepped
    split at stepped
    · cases stepped
      exact ⟨⟨inv.idle, inv.declared, inv.held, inv.apart, inv.answers⟩, .inl ⟨rfl, trivial⟩⟩
    · cases stepped
  | respond i calls =>
    rw [ShimRun.step] at stepped
    split at stepped
    · cases stepped
    · next request found =>
        split at stepped
        · next bufferIndex live =>
            cases stepped
            exact ⟨inv.respondStep found bufferIndex calls, .inl ⟨rfl, trivial⟩⟩
        · cases stepped

theorem stored_grows {e : ShimEvent S M w} (stepped : s.step e = some next) :
    ∃ more, next.stored = s.stored ++ more := by
  have unchanged : s.stored = s.stored ++ [] := (List.append_nil _).symm
  cases e with
  | newServer session ring keyFits calls | newHistory session calls =>
    cases stepped
    exact ⟨[], unchanged⟩
  | drop at_ =>
    rw [ShimRun.step] at stepped
    split at stepped
    · cases stepped
    · cases stepped
      exact ⟨[], unchanged⟩
  | query at_ query recvNs samples =>
    cases stepped
    rw [ShimRun.queryStep]
    split
    · exact ⟨[], unchanged⟩
    · exact ⟨_, rfl⟩
  | take at_ room =>
    rw [ShimRun.step] at stepped
    split at stepped
    · cases stepped
      exact ⟨[], unchanged⟩
    · cases stepped
  | respond i calls =>
    rw [ShimRun.step] at stepped
    split at stepped
    · cases stepped
    · split at stepped
      · cases stepped
        exact ⟨[], unchanged⟩
      · cases stepped

theorem start_inv (header : BoundHeader w) : Inv (start header : ShimRun S M cap w) :=
  ⟨fun _ => rfl, nofun, List.forall_mem_nil _, List.Pairwise.nil, List.forall_mem_nil _⟩

/-- In every run, each stored request is numbered by the reply slot of its own query and answered
through it if and only if each query a server stores comes on the handle that is its header index
or finds no slot free. -/
theorem routed_iff (wide : 0 < w) (header : BoundHeader w) (events : List (ShimEvent S M w))
    (last : ShimRun S M cap w) (reached : run step (start header) events = some last) :
    last.Routed ↔ Along step Aligned (start header : ShimRun S M cap w) events := by
  have inv : Inv last := run_invariant (fun s e next inv stepped => (inv.step wide e stepped).1)
    (start header) last events (start_inv header) reached
  have routed : last.Routed ↔ ¬ ∃ log ∈ last.stored, ¬ StoredLog.Own log := by
    rw [Routed, and_iff_left inv.answers]
    push Not
    rfl
  rw [routed]
  have clean : ∀ s : ShimRun S M cap w,
      (Inv s ∧ ∀ log ∈ s.stored, StoredLog.Own log) → ¬ ∃ log ∈ s.stored, ¬ StoredLog.Own log := by
    rintro s ⟨-, own⟩ ⟨log, member, wrong⟩
    exact wrong (own log member)
  have keeps : ∀ (s : ShimRun S M cap w) e next,
      (Inv s ∧ ∀ log ∈ s.stored, StoredLog.Own log) → Aligned s e → s.step e = some next →
      Inv next ∧ ∀ log ∈ next.stored, StoredLog.Own log := by
    rintro s e next ⟨inv, own⟩ aligned stepped
    obtain ⟨inv', ⟨same, -⟩ | ⟨log, logged, right⟩⟩ := inv.step wide e stepped
    · rw [same]
      exact ⟨inv', own⟩
    · rw [logged]
      refine ⟨inv', fun other member => ?_⟩
      obtain old | new := List.mem_append.mp member
      · exact own other old
      · rw [List.mem_singleton.mp new]
        exact right.mpr aligned
  have breaks : ∀ (s : ShimRun S M cap w) e next,
      (Inv s ∧ ∀ log ∈ s.stored, StoredLog.Own log) → ¬ Aligned s e → s.step e = some next →
      ∃ log ∈ next.stored, ¬ StoredLog.Own log := by
    rintro s e next ⟨inv, -⟩ apart stepped
    obtain ⟨-, ⟨-, aligned⟩ | ⟨log, logged, right⟩⟩ := inv.step wide e stepped
    · exact absurd aligned apart
    · exact ⟨log, logged ▸ List.mem_concat_self, fun own => apart (right.mp own)⟩
  have lasts : ∀ (s : ShimRun S M cap w) e next, (∃ log ∈ s.stored, ¬ StoredLog.Own log) →
      s.step e = some next → ∃ log ∈ next.stored, ¬ StoredLog.Own log := by
    rintro s e next ⟨log, member, wrong⟩ stepped
    obtain ⟨more, logged⟩ := stored_grows stepped
    exact ⟨log, logged ▸ List.mem_append_left more member, wrong⟩
  exact run_sound_iff clean keeps breaks lasts (start header) last events
    ⟨start_inv header, List.forall_mem_nil _⟩ reached

/-! ### A publisher before the server -/

def emptyRing : BoundHeader 64 where
  depth := 2
  nonempty := ⟨by decide⟩
  slotBytes := 8
  header := ⟨⟨fun _ => ⟨0, 0, false, 0, []⟩, 0, 0, .new⟩, []⟩

def request (id : Nat) : ServiceQuery := ⟨id, [115], some [7], oneLetter_ne_nil⟩

def granted : DeclareCalls := ⟨true, true, true⟩

def firstHandle : QueryableHandle 1 2 := (0, ⟨0, Nat.zero_lt_two⟩)

def secondHandle : QueryableHandle 1 2 := (0, ⟨1, Nat.one_lt_two⟩)

def serverFirst : List (ShimEvent 1 2 64) :=
  [.newServer 0 (some emptyRing) true granted, .newHistory 0 granted,
    .query firstHandle (request 0) 0 none, .query secondHandle (request 1) 0 (some []),
    .query firstHandle (request 2) 0 none, .take firstHandle 8, .respond 0 ⟨true, true, true, true⟩]

theorem routed_server_first :
    ∃ last : ShimRun 1 2 2 64, run step (start emptyRing) serverFirst = some last ∧
      last.stored.map StoredLog.seq = [0, 1] ∧ last.answers.length = 1 ∧ last.Routed := by
  refine ⟨_, rfl, by decide +kernel, by decide +kernel, ?_⟩
  rw [routed_iff (by decide) emptyRing serverFirst _ rfl]
  decide +kernel

/-- The server declared after a publisher has header index 0 on handle 1, and its requests get no
number although both reply slots are free. -/
theorem routed_claim_fails :
    ∃ last : ShimRun 1 2 2 64, run step (start emptyRing)
        [.newHistory 0 granted, .newServer 0 (some emptyRing) true granted,
          .query (0, 1) (request 0) 0 none] = some last ∧
      last.stored.map StoredLog.seq = [-1] ∧ ¬ last.Routed := by
  refine ⟨_, rfl, by decide +kernel, ?_⟩
  intro routed
  have own := routed.1 _ (List.mem_singleton_self _)
  exact own.1.mp (by decide +kernel) 0 (by decide +kernel)

end ShimRun

end NanoRos.Zenoh
