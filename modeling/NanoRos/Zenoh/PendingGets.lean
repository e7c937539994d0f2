import NanoRos.Lib.Runs

/-! The pool of pending gets of one session: the three calls that start a query, the reply and
dropper callbacks of a query in flight, and the two calls that poll a handle. -/

namespace NanoRos.Zenoh

variable {n : Nat}

inductive QueryKind where
  | get
  | livelinessGet
  | livelinessCollect
deriving DecidableEq

/-- A reply as the handler reads it; no `payload` is one that cannot be made a slice, `nowNs` the
platform's clock at the call. -/
structure GetReply where
  isOk : Bool
  keyexpr : List UInt8
  payload : Option (List UInt8)
  attachment : Option (List UInt8)
  nowNs : Nat

/-- `buf` up to `len`. -/
structure GetReplyCtx where
  buf : List UInt8
  received : Bool
  done : Bool
  replyCount : Nat
  collect : Bool
  entryCount : Nat
  att : List UInt8
  recvNs : Nat

structure PendingGetSlot where
  ctx : GetReplyCtx
  inUse : Bool

structure PendingGets (n : Nat) where
  sessionOpen : Bool
  slots : Fin n → PendingGetSlot

/-! ### The callbacks -/

def replyAttachmentCap : Nat := 33

def int64Max : Nat := 2 ^ 63 - 1

def getReplyHandler (bufSize : Nat) (ctx : GetReplyCtx) (reply : GetReply) : GetReplyCtx :=
  if !reply.isOk then ctx
  else
    let counted := { ctx with replyCount := ctx.replyCount + 1 }
    if counted.collect then
      let stored :=
        if 0 < reply.keyexpr.length ∧ counted.buf.length + reply.keyexpr.length + 1 ≤ bufSize then
          { counted with
            buf := counted.buf ++ reply.keyexpr ++ [0]
            entryCount := counted.entryCount + 1 }
        else counted
      if 0 < stored.entryCount then { stored with received := true } else stored
    else if counted.received then counted
    else
      match reply.payload with
      | none => counted
      | some data =>
        if data.length ≤ bufSize then
          { counted with
            buf := data
            recvNs := min reply.nowNs int64Max
            att :=
              match reply.attachment with
              | some att => if att.length ≤ replyAttachmentCap then att else []
              | none => []
            received := true }
        else counted

def pendingGetDropper (ctx : GetReplyCtx) : GetReplyCtx := { ctx with done := true }

/-! ### Starting a query -/

namespace PendingGets

def setSlot (gets : PendingGets n) (i : Fin n) (slot : PendingGetSlot) : PendingGets n :=
  { gets with slots := Function.update gets.slots i slot }

@[simp] theorem setSlot_same (gets : PendingGets n) (i : Fin n) (slot : PendingGetSlot) :
    (gets.setSlot i slot).slots i = slot := Function.update_self ..

theorem setSlot_other (gets : PendingGets n) {i j : Fin n} (slot : PendingGetSlot) (other : j ≠ i) :
    (gets.setSlot i slot).slots j = gets.slots j := Function.update_of_ne other ..

@[simp] theorem setSlot_setSlot (gets : PendingGets n) (i : Fin n) (first second : PendingGetSlot) :
    (gets.setSlot i first).setSlot i second = gets.setSlot i second := by
  rw [setSlot, setSlot, setSlot, Function.update_idem]

def release (gets : PendingGets n) (i : Fin n) : PendingGets n :=
  gets.setSlot i { gets.slots i with inUse := false }

/-- The loop that looks for a slot: a finished one is given back, the first free one taken. -/
def scan (gets : PendingGets n) : List (Fin n) → PendingGets n × Option (Fin n)
  | [] => (gets, none)
  | i :: rest =>
    let gets := if (gets.slots i).inUse && (gets.slots i).ctx.done then gets.release i else gets
    if !(gets.slots i).inUse then (gets, some i) else gets.scan rest

inductive StartError where
  | session
  | full
  | keyexpr
  | generic

/-- What `z_view_keyexpr_from_str` and the query call answer; a refused query may drop its closure,
which runs the dropper. -/
structure StartAnswer where
  keyexprOk : Bool
  queried : Bool
  closureDropped : Bool

/-- The body the three start functions share. -/
def startQuery (init : GetReplyCtx → GetReplyCtx) (checksKeyexpr : Bool) (gets : PendingGets n)
    (answer : StartAnswer) : PendingGets n × Except StartError (Fin n) :=
  if !gets.sessionOpen then (gets, .error .session)
  else
    match gets.scan (List.finRange n) with
    | (gets, none) => (gets, .error .full)
    | (gets, some slot) =>
      let ctx := init (gets.slots slot).ctx
      if checksKeyexpr && !answer.keyexprOk then (gets.setSlot slot ⟨ctx, false⟩, .error .keyexpr)
      else if !answer.queried then
        let ctx := if answer.closureDropped then pendingGetDropper ctx else ctx
        (gets.setSlot slot ⟨ctx, false⟩, .error .generic)
      else (gets.setSlot slot ⟨ctx, true⟩, .ok slot)

def initGet (ctx : GetReplyCtx) : GetReplyCtx :=
  { ctx with
    buf := [], received := false, done := false
    replyCount := 0, att := [], recvNs := 0 }

def initLivelinessGet (ctx : GetReplyCtx) : GetReplyCtx :=
  { ctx with
    buf := [], received := false, done := false
    replyCount := 0, collect := false, entryCount := 0 }

def initLivelinessCollect (ctx : GetReplyCtx) : GetReplyCtx :=
  { ctx with
    buf := [], received := false, done := false
    replyCount := 0, entryCount := 0, collect := true }

/-- The key expression is not checked here. -/
def getStartWithAttachment (gets : PendingGets n) (answer : StartAnswer) :
    PendingGets n × Except StartError (Fin n) := startQuery initGet false gets answer

def livelinessGetStart (gets : PendingGets n) (answer : StartAnswer) :
    PendingGets n × Except StartError (Fin n) := startQuery initLivelinessGet true gets answer

def livelinessCollectStart (gets : PendingGets n) (answer : StartAnswer) :
    PendingGets n × Except StartError (Fin n) := startQuery initLivelinessCollect true gets answer

def start : QueryKind → PendingGets n → StartAnswer → PendingGets n × Except StartError (Fin n)
  | .get => getStartWithAttachment
  | .livelinessGet => livelinessGetStart
  | .livelinessCollect => livelinessCollectStart

/-! ### Polling a handle -/

inductive CheckAnswer where
  | reply (bytes att : List UInt8) (recvNs : Nat)
  | full
  | timeout
  | pending
  | invalid

/-- An empty reply is the return value 0, which says pending. -/
def CheckAnswer.isFinal : CheckAnswer → Bool
  | .reply bytes _ _ => !bytes.isEmpty
  | .full => true
  | .timeout => true
  | .pending => false
  | .invalid => false

/-- `attCap` is none where no attachment is asked for. -/
def getCheckInfo (gets : PendingGets n) (handle : Fin n) (replyBufSize : Nat)
    (attCap : Option Nat) : PendingGets n × CheckAnswer :=
  let slot := gets.slots handle
  if !slot.inUse then (gets, .invalid)
  else if slot.ctx.received then
    let released := if slot.ctx.done then gets.release handle else gets
    if slot.ctx.buf.length > replyBufSize then (released, .full)
    else
      let att :=
        match attCap with
        | some cap => if slot.ctx.att.length ≤ cap then slot.ctx.att else []
        | none => []
      (released, .reply slot.ctx.buf att slot.ctx.recvNs)
  else if slot.ctx.done then (gets.release handle, .timeout)
  else (gets, .pending)

inductive LivelinessAnswer where
  | replied
  | timeout
  | pending
  | invalid

def LivelinessAnswer.isFinal : LivelinessAnswer → Bool
  | .replied => true
  | .timeout => true
  | .pending => false
  | .invalid => false

def livelinessGetCheck (gets : PendingGets n) (handle : Fin n) : PendingGets n × LivelinessAnswer :=
  let slot := gets.slots handle
  if !slot.inUse then (gets, .invalid)
  else if slot.ctx.received then
    (if slot.ctx.done then gets.release handle else gets, .replied)
  else if slot.ctx.done then (gets.release handle, .timeout)
  else (gets, .pending)

end PendingGets

/-! ### Runs -/

/-- A query a start returned a handle for: whether its holder has a final answer, whether its
closure is dropped, and the replies it has had. -/
structure GetQuery (n : Nat) where
  kind : QueryKind
  handle : Fin n
  told : Bool
  dropped : Bool
  replies : List GetReply

structure HandledReply where
  kind : QueryKind
  before : GetReplyCtx
  reply : GetReply
  after : GetReplyCtx

/-- `started` logs each returned handle with the queries there were, `answered` each payload handed
out with the replies its query had had, `handled` each run of the reply handler. -/
structure GetRun (n : Nat) where
  gets : PendingGets n
  queries : List (GetQuery n)
  started : List (Fin n × List (GetQuery n))
  answered : List (List UInt8 × List GetReply)
  handled : List HandledReply

inductive GetEvent where
  | start (kind : QueryKind) (answer : PendingGets.StartAnswer)
  | reply (query : Nat) (reply : GetReply)
  | drop (query : Nat)
  | checkInfo (query : Nat) (replyBufSize : Nat) (attCap : Option Nat)
  | livelinessCheck (query : Nat)

namespace GetRun

open PendingGets

def idle : PendingGetSlot := ⟨⟨[], false, false, 0, false, 0, [], 0⟩, false⟩

def fresh : GetRun n := ⟨⟨true, fun _ => idle⟩, [], [], [], []⟩

def started? (s : GetRun n) (kind : QueryKind) (gets : PendingGets n) :
    Except StartError (Fin n) → GetRun n
  | .error _ => { s with gets := gets }
  | .ok handle =>
    { s with
      gets := gets
      queries := s.queries ++ [⟨kind, handle, false, false, []⟩]
      started := s.started ++ [(handle, s.queries)] }

def replied (bufSize : Nat) (s : GetRun n) (i : Nat) (query : GetQuery n) (reply : GetReply) :
    GetRun n :=
  let slot := s.gets.slots query.handle
  let after := getReplyHandler bufSize slot.ctx reply
  { s with
    gets := s.gets.setSlot query.handle { slot with ctx := after }
    queries := s.queries.set i { query with replies := query.replies ++ [reply] }
    handled := s.handled ++ [⟨query.kind, slot.ctx, reply, after⟩] }

def droppedAt (s : GetRun n) (i : Nat) (query : GetQuery n) : GetRun n :=
  let slot := s.gets.slots query.handle
  { s with
    gets := s.gets.setSlot query.handle { slot with ctx := pendingGetDropper slot.ctx }
    queries := s.queries.set i { query with dropped := true } }

def checked (s : GetRun n) (i : Nat) (query : GetQuery n) (gets : PendingGets n)
    (answer : CheckAnswer) : GetRun n :=
  { s with
    gets := gets
    queries := s.queries.set i { query with told := answer.isFinal }
    answered :=
      match answer with
      | .reply bytes _ _ => s.answered ++ [(bytes, query.replies)]
      | _ => s.answered }

def livelinessChecked (s : GetRun n) (i : Nat) (query : GetQuery n) (gets : PendingGets n)
    (answer : LivelinessAnswer) : GetRun n :=
  { s with gets := gets, queries := s.queries.set i { query with told := answer.isFinal } }

/-- A query that is not dropped may have a reply or be dropped; a holder polls until told. -/
def step (bufSize : Nat) (s : GetRun n) : GetEvent → Option (GetRun n)
  | .start kind answer =>
    let result := s.gets.start kind answer
    some (s.started? kind result.1 result.2)
  | .reply i reply =>
    match s.queries[i]? with
    | none => none
    | some query => if query.dropped then none else some (s.replied bufSize i query reply)
  | .drop i =>
    match s.queries[i]? with
    | none => none
    | some query => if query.dropped then none else some (s.droppedAt i query)
  | .checkInfo i replyBufSize attCap =>
    match s.queries[i]? with
    | none => none
    | some query =>
      if query.told then none
      else
        let result := s.gets.getCheckInfo query.handle replyBufSize attCap
        some (s.checked i query result.1 result.2)
  | .livelinessCheck i =>
    match s.queries[i]? with
    | none => none
    | some query =>
      if query.told then none
      else
        let result := s.gets.livelinessGetCheck query.handle
        some (s.livelinessChecked i query result.1 result.2)

/-! ### What is promised of a handle -/

/-- No start returned a handle whose holder was still waiting. -/
def OwnHandles (s : GetRun n) : Prop :=
  ∀ start ∈ s.started, ∀ query ∈ start.2, query.handle = start.1 → query.told = true

/-- Every payload handed out is that of a reply to the query. -/
def OwnReplies (s : GetRun n) : Prop :=
  ∀ answer ∈ s.answered, ∃ reply ∈ answer.2, reply.isOk = true ∧ reply.payload = some answer.1

/-- The buffer after a reply in the mode that stores key expressions. -/
def keyexprStored (bufSize : Nat) (before : GetReplyCtx) (reply : GetReply) : List UInt8 :=
  if 0 < reply.keyexpr.length ∧ before.buf.length + reply.keyexpr.length + 1 ≤ bufSize then
    before.buf ++ reply.keyexpr ++ [0]
  else before.buf

/-- The buffer after a reply in the mode that stores the first payload. -/
def payloadStored (bufSize : Nat) (before : GetReplyCtx) (reply : GetReply) : List UInt8 :=
  if before.received then before.buf
  else (reply.payload.filter fun data => data.length ≤ bufSize).getD before.buf

def HandledReply.Own (bufSize : Nat) (handled : HandledReply) : Prop :=
  handled.reply.isOk = true → handled.after.buf =
    if handled.kind = .livelinessCollect then
      keyexprStored bufSize handled.before handled.reply
    else payloadStored bufSize handled.before handled.reply

/-- The reply handler stored key expressions for the collecting queries and payloads for the
others. -/
def OwnModes (bufSize : Nat) (s : GetRun n) : Prop :=
  ∀ handled ∈ s.handled, HandledReply.Own bufSize handled

instance (s : GetRun n) : Decidable s.OwnHandles :=
  inferInstanceAs (Decidable (∀ start ∈ s.started, ∀ query ∈ start.2, _))

instance (s : GetRun n) : Decidable s.OwnReplies :=
  inferInstanceAs (Decidable (∀ answer ∈ s.answered, _))

instance (bufSize : Nat) (handled : HandledReply) : Decidable (HandledReply.Own bufSize handled) :=
  inferInstanceAs (Decidable (_ → _ = _))

instance (bufSize : Nat) (s : GetRun n) : Decidable (s.OwnModes bufSize) :=
  inferInstanceAs (Decidable (∀ handled ∈ s.handled, _))

def Sound (bufSize : Nat) (s : GetRun n) : Prop :=
  s.OwnHandles ∧ s.OwnReplies ∧ s.OwnModes bufSize

/-! ### What the operations do -/

def firstClaimable (gets : PendingGets n) : Option (Fin n) :=
  (List.finRange n).find? fun i => !(gets.slots i).inUse || (gets.slots i).ctx.done

theorem release_of_free (gets : PendingGets n) (i : Fin n) (free : (gets.slots i).inUse = false) :
    gets.release i = gets := by
  have same : { gets.slots i with inUse := false } = gets.slots i := by rw [← free]
  rw [release, setSlot, same, Function.update_eq_self]

theorem scan_of_find (gets : PendingGets n) (order : List (Fin n)) (i : Fin n)
    (found : (order.find? fun i => !(gets.slots i).inUse || (gets.slots i).ctx.done) = some i) :
    gets.scan order = (gets.release i, some i) := by
  induction order with
  | nil => cases found
  | cons j rest ih =>
    rw [List.find?_cons] at found
    cases used : (gets.slots j).inUse with
    | false =>
      rw [used] at found
      cases found
      rw [scan, release_of_free gets i used]
      simp [used]
    | true =>
      cases finished : (gets.slots j).ctx.done with
      | false =>
        rw [used, finished] at found
        simp only [scan, used, finished, Bool.and_false, Bool.false_eq_true, if_false,
          Bool.not_true]
        exact ih found
      | true =>
        rw [used, finished] at found
        cases found
        simp [scan, used, finished, release]

theorem scan_of_none (gets : PendingGets n) (order : List (Fin n))
    (none_ : (order.find? fun i => !(gets.slots i).inUse || (gets.slots i).ctx.done) = none) :
    gets.scan order = (gets, none) := by
  induction order with
  | nil => rfl
  | cons j rest ih =>
    rw [List.find?_eq_none] at none_
    have here := none_ j List.mem_cons_self
    rw [Bool.not_eq_true, Bool.or_eq_false_iff, Bool.not_eq_false'] at here
    simp only [scan, here.1, here.2, Bool.and_false, Bool.false_eq_true, if_false, Bool.not_true]
    apply ih
    rw [List.find?_eq_none]
    exact fun i member => none_ i (List.mem_cons_of_mem _ member)

theorem startQuery_cases (init : GetReplyCtx → GetReplyCtx) (checksKeyexpr : Bool)
    (gets : PendingGets n) (answer : StartAnswer) :
    (∃ e, gets.startQuery init checksKeyexpr answer = (gets, .error e)) ∨
    (∃ slot ctx e, firstClaimable gets = some slot ∧
      gets.startQuery init checksKeyexpr answer = (gets.setSlot slot ⟨ctx, false⟩, .error e)) ∨
    ∃ slot, firstClaimable gets = some slot ∧ gets.startQuery init checksKeyexpr answer =
      (gets.setSlot slot ⟨init (gets.slots slot).ctx, true⟩, .ok slot) := by
  rw [startQuery]
  split
  · exact .inl ⟨_, rfl⟩
  · cases found : firstClaimable gets with
    | none =>
      rw [scan_of_none gets _ found]
      exact .inl ⟨_, rfl⟩
    | some slot =>
      rw [scan_of_find gets _ slot found]
      simp only [release, setSlot_same, setSlot_setSlot]
      right
      split
      · exact .inl ⟨slot, _, _, rfl, rfl⟩
      · split
        · exact .inl ⟨slot, _, _, rfl, rfl⟩
        · exact .inr ⟨slot, rfl, rfl⟩

def initOf : QueryKind → GetReplyCtx → GetReplyCtx
  | .get => initGet
  | .livelinessGet => initLivelinessGet
  | .livelinessCollect => initLivelinessCollect

section

variable (kind : QueryKind)

theorem start_cases (gets : PendingGets n) (answer : StartAnswer) :
    (∃ e, gets.start kind answer = (gets, .error e)) ∨
    (∃ slot ctx e, firstClaimable gets = some slot ∧
      gets.start kind answer = (gets.setSlot slot ⟨ctx, false⟩, .error e)) ∨
    ∃ slot, firstClaimable gets = some slot ∧ gets.start kind answer =
      (gets.setSlot slot ⟨initOf kind (gets.slots slot).ctx, true⟩, .ok slot) := by
  cases kind with
  | get => exact startQuery_cases initGet false gets answer
  | livelinessGet => exact startQuery_cases initLivelinessGet true gets answer
  | livelinessCollect => exact startQuery_cases initLivelinessCollect true gets answer

variable (ctx : GetReplyCtx)

theorem initOf_received : (initOf kind ctx).received = false := by cases kind <;> rfl

theorem initOf_done : (initOf kind ctx).done = false := by
  cases kind <;> rfl

theorem initOf_collect (plain : kind = .get → ctx.collect = false) :
    (initOf kind ctx).collect = true ↔ kind = .livelinessCollect := by
  cases kind with
  | get => simp [initOf, initGet, plain rfl]
  | livelinessGet => simp [initOf, initLivelinessGet]
  | livelinessCollect => simp [initOf, initLivelinessCollect]

end

theorem getReplyHandler_done (bufSize : Nat) (ctx : GetReplyCtx) (reply : GetReply) :
    (getReplyHandler bufSize ctx reply).done = ctx.done := by
  rw [getReplyHandler]
  grind

theorem getReplyHandler_collect (bufSize : Nat) (ctx : GetReplyCtx) (reply : GetReply) :
    (getReplyHandler bufSize ctx reply).collect = ctx.collect := by
  rw [getReplyHandler]
  grind

theorem getReplyHandler_buf (bufSize : Nat) (ctx : GetReplyCtx) (reply : GetReply)
    (isOk : reply.isOk = true) : (getReplyHandler bufSize ctx reply).buf =
      if ctx.collect then keyexprStored bufSize ctx reply else payloadStored bufSize ctx reply := by
  cases mode : ctx.collect with
  | true =>
    simp only [getReplyHandler, isOk, mode, keyexprStored, Bool.not_true, Bool.false_eq_true,
      if_false, if_true]
    split <;> split <;> rfl
  | false =>
    cases had : ctx.received with
    | true => simp [getReplyHandler, isOk, mode, had, payloadStored]
    | false =>
      cases carried : reply.payload with
      | none => simp [getReplyHandler, isOk, mode, had, payloadStored, carried]
      | some data =>
        by_cases fits : data.length ≤ bufSize
        · simp [getReplyHandler, isOk, mode, had, payloadStored, carried, fits, Option.filter]
        · simp [getReplyHandler, isOk, mode, had, payloadStored, carried, fits, Option.filter]

theorem getReplyHandler_received (bufSize : Nat) (ctx : GetReplyCtx) (reply : GetReply)
    (mode : ctx.collect = false) (has : (getReplyHandler bufSize ctx reply).received = true) :
    (ctx.received = true ∧ (getReplyHandler bufSize ctx reply).buf = ctx.buf) ∨ (reply.isOk = true ∧
        reply.payload = some (getReplyHandler bufSize ctx reply).buf) := by
  cases isOk : reply.isOk with
  | false => simp_all [getReplyHandler]
  | true =>
    cases had : ctx.received with
    | true => simp [getReplyHandler, isOk, mode, had]
    | false =>
      cases carried : reply.payload with
      | none => simp [getReplyHandler, isOk, mode, had, carried] at has
      | some data =>
        by_cases fits : data.length ≤ bufSize
        · simp [getReplyHandler, isOk, mode, had, carried, fits]
        · simp [getReplyHandler, isOk, mode, had, carried, fits] at has

/-! ### Handles in use -/

/-- The slot scan reclaims no query whose holder still waits, and a plain get starts on no slot
that collected; no collecting query is polled for a payload, and no empty reply is polled once its
query is finished. -/
def Clear (s : GetRun n) : GetEvent → Prop
  | .start kind _ => ∀ slot, firstClaimable s.gets = some slot →
      ((s.gets.slots slot).inUse = true →
        ∀ query ∈ s.queries, query.handle = slot → query.told = true) ∧
      (kind = .get → (s.gets.slots slot).ctx.collect = false)
  | .checkInfo i _ _ => ∀ query ∈ s.queries[i]?,
      (s.gets.slots query.handle).ctx.received = true → query.kind ≠ .livelinessCollect ∧
        ((s.gets.slots query.handle).ctx.done = true → (s.gets.slots query.handle).ctx.buf ≠ [])
  | _ => True

instance (s : GetRun n) : ∀ e, Decidable (Clear s e)
  | .start .. => by dsimp only [Clear]; infer_instance
  | .checkInfo .. => by dsimp only [Clear]; infer_instance
  | .reply .. => .isTrue trivial
  | .drop _ => .isTrue trivial
  | .livelinessCheck _ => .isTrue trivial

/-- A query that is still waited for, or that may still call back. -/
def Live (query : GetQuery n) : Prop := query.told = false ∨ query.dropped = false

structure Holds (slot : PendingGetSlot) (query : GetQuery n) : Prop where
  inUse : slot.inUse = true
  done : slot.ctx.done = query.dropped
  collect : slot.ctx.collect = true ↔ query.kind = .livelinessCollect
  stored : slot.ctx.received = true → query.kind ≠ .livelinessCollect →
    ∃ reply ∈ query.replies, reply.isOk = true ∧ reply.payload = some slot.ctx.buf

/-- Each live query holds its slot, and no two live queries hold one. -/
structure Owned (gets : PendingGets n) (queries : List (GetQuery n)) : Prop where
  holds : ∀ (i : Nat) query, queries[i]? = some query → Live query →
    Holds (gets.slots query.handle) query
  apart : ∀ (i j : Nat) query other, queries[i]? = some query → queries[j]? = some other → i ≠ j →
    Live query → Live other → query.handle ≠ other.handle

variable {gets : PendingGets n} {queries : List (GetQuery n)}

theorem Owned.setSlot (owned : Owned gets queries) (slot : Fin n) (next : PendingGetSlot)
    (unheld : ∀ query ∈ queries, Live query → query.handle ≠ slot) :
    Owned (gets.setSlot slot next) queries := by
  refine ⟨fun i query found live => ?_, owned.apart⟩
  rw [setSlot_other gets next (unheld query (List.mem_of_getElem? found) live)]
  exact owned.holds i query found live

theorem Owned.push (owned : Owned gets queries) (query : GetQuery n)
    (unheld : ∀ other ∈ queries, Live other → other.handle ≠ query.handle)
    (holds : Holds (gets.slots query.handle) query) : Owned gets (queries ++ [query]) := by
  constructor
  · intro i other found live
    rw [List.getElem?_append] at found
    split at found
    · exact owned.holds i other found live
    · rw [List.getElem?_singleton] at found
      split at found
      · cases found
        exact holds
      · cases found
  · intro i j one other foundOne foundOther apart liveOne liveOther
    rw [List.getElem?_append] at foundOne foundOther
    split at foundOne <;> split at foundOther
    · exact owned.apart i j one other foundOne foundOther apart liveOne liveOther
    · rw [List.getElem?_singleton] at foundOther
      split at foundOther
      · cases foundOther
        exact unheld one (List.mem_of_getElem? foundOne) liveOne
      · cases foundOther
    · rw [List.getElem?_singleton] at foundOne
      split at foundOne
      · cases foundOne
        exact (unheld other (List.mem_of_getElem? foundOther) liveOther).symm
      · cases foundOne
    · rw [List.getElem?_singleton] at foundOne foundOther
      split at foundOne
      · split at foundOther
        · exact absurd (by omega) apart
        · cases foundOther
      · cases foundOne

variable {i : Nat} {query : GetQuery n}

theorem Owned.update (owned : Owned gets queries) (found : queries[i]? = some query)
    (live : Live query) (query' : GetQuery n) (same : query'.handle = query.handle)
    (gets' : PendingGets n) (others : ∀ j, j ≠ query.handle → gets'.slots j = gets.slots j)
    (holds : Live query' → Holds (gets'.slots query.handle) query') :
    Owned gets' (queries.set i query') := by
  have inside : i < queries.length := (List.getElem?_eq_some_iff.mp found).1
  constructor
  · intro j other placed live'
    rw [List.getElem?_set] at placed
    split at placed
    · cases placed
      rw [same]
      exact holds live'
    · next apart =>
        have away := owned.apart j i other query placed found (Ne.symm apart) live' live
        rw [others other.handle away]
        exact owned.holds j other placed live'
  · intro j k one other placedOne placedOther apart liveOne liveOther
    rw [List.getElem?_set] at placedOne placedOther
    split at placedOne <;> split at placedOther
    · omega
    · next here there =>
        cases placedOne
        rw [same]
        exact owned.apart i k query other found placedOther there live liveOther
    · next there here =>
        cases placedOther
        rw [same]
        exact owned.apart j i one query placedOne found (Ne.symm there) liveOne live
    · exact owned.apart j k one other placedOne placedOther apart liveOne liveOther

theorem Owned.unheld (owned : Owned gets queries) {slot : Fin n}
    (found : firstClaimable gets = some slot) (told : (gets.slots slot).inUse = true →
      ∀ query ∈ queries, query.handle = slot → query.told = true) :
    ∀ query ∈ queries, Live query → query.handle ≠ slot := by
  rintro query member live rfl
  obtain ⟨i, placed⟩ := List.mem_iff_getElem?.mp member
  have held := owned.holds i query placed live
  have claimable := List.find?_some found
  rw [held.inUse, Bool.not_true, Bool.false_or, held.done] at claimable
  obtain waits | calls := live
  · rw [told held.inUse query member rfl] at waits
    cases waits
  · rw [calls] at claimable
    cases claimable

structure Inv (bufSize : Nat) (s : GetRun n) : Prop where
  owned : Owned s.gets s.queries
  sound : Sound bufSize s

variable {bufSize : Nat} {s : GetRun n}

theorem Inv.start (inv : Inv bufSize s) (kind : QueryKind) (answer : StartAnswer)
    (clear : Clear s (.start kind answer)) :
    Inv bufSize (s.started? kind (s.gets.start kind answer).1 (s.gets.start kind answer).2) := by
  obtain ⟨e, result⟩ | ⟨slot, ctx, e, found, result⟩ | ⟨slot, found, result⟩ :=
    start_cases kind s.gets answer
  · rw [result]
    exact ⟨inv.owned, inv.sound⟩
  · rw [result]
    have unheld := inv.owned.unheld found (clear slot found).1
    exact ⟨inv.owned.setSlot slot _ unheld, inv.sound⟩
  · rw [result]
    obtain ⟨told, plain⟩ := clear slot found
    have unheld := inv.owned.unheld found told
    constructor
    · apply (inv.owned.setSlot slot _ unheld).push _ unheld
      dsimp only
      rw [setSlot_same]
      refine ⟨rfl, initOf_done kind _, initOf_collect kind _ plain, fun received => ?_⟩
      rw [initOf_received] at received
      cases received
    · refine ⟨?_, inv.sound.2.1, inv.sound.2.2⟩
      intro start listed query member here
      obtain old | new := List.mem_append.mp listed
      · exact inv.sound.1 start old query member here
      · obtain rfl := List.mem_singleton.mp new
        by_contra waits
        exact unheld query member (.inl (Bool.eq_false_iff.mpr waits)) here

theorem Inv.replied (inv : Inv bufSize s) (found : s.queries[i]? = some query)
    (open_ : query.dropped = false) (reply : GetReply) :
    Inv bufSize (s.replied bufSize i query reply) := by
  have held := inv.owned.holds i query found (.inr open_)
  have collects := getReplyHandler_collect bufSize (s.gets.slots query.handle).ctx reply
  constructor
  · apply inv.owned.update found (.inr open_)
    case same => rfl
    case others => exact fun j other => setSlot_other _ _ other
    intro _
    dsimp only [GetRun.replied]
    rw [setSlot_same]
    refine ⟨held.inUse, ?_, ?_, fun received kind => ?_⟩
    · exact (getReplyHandler_done bufSize _ reply).trans held.done
    · exact (Bool.coe_iff_coe.mpr collects).trans held.collect
    · have mode : (s.gets.slots query.handle).ctx.collect = false :=
        Bool.eq_false_iff.mpr fun collect => kind (held.collect.mp collect)
      obtain ⟨had, same⟩ | ⟨isOk, carried⟩ := getReplyHandler_received bufSize _ reply mode received
      · obtain ⟨first, member, isOk, carried⟩ := held.stored had kind
        refine ⟨first, List.mem_append_left _ member, isOk, ?_⟩
        rw [carried]
        exact congrArg some same.symm
      · exact ⟨reply, List.mem_concat_self, isOk, carried⟩
  · refine ⟨inv.sound.1, inv.sound.2.1, ?_⟩
    intro handled listed
    obtain old | new := List.mem_append.mp listed
    · exact inv.sound.2.2 handled old
    · obtain rfl := List.mem_singleton.mp new
      intro isOk
      dsimp only
      rw [getReplyHandler_buf bufSize _ reply isOk]
      exact if_congr held.collect rfl rfl

theorem Inv.droppedAt (inv : Inv bufSize s) (found : s.queries[i]? = some query)
    (open_ : query.dropped = false) :
    Inv bufSize (s.droppedAt i query) := by
  have held := inv.owned.holds i query found (.inr open_)
  refine ⟨?_, inv.sound⟩
  apply inv.owned.update found (.inr open_)
  case same => rfl
  case others => exact fun j other => setSlot_other _ _ other
  intro _
  dsimp only [GetRun.droppedAt]
  rw [setSlot_same]
  exact ⟨held.inUse, rfl, held.collect, held.stored⟩

theorem Owned.told (owned : Owned gets queries) (found : queries[i]? = some query)
    (waits : query.told = false) (gets' : PendingGets n) (told : Bool) (kept : gets' = gets ∨
      gets' = gets.release query.handle ∧ told = true ∧ query.dropped = true) :
    Owned gets' (queries.set i { query with told := told }) := by
  have held := owned.holds i query found (.inl waits)
  obtain rfl | ⟨rfl, rfl, dropped⟩ := kept
  · apply owned.update found (.inl waits)
    case same => rfl
    case others => exact fun _ _ => rfl
    exact fun _ => ⟨held.inUse, held.done, held.collect, held.stored⟩
  · apply owned.update found (.inl waits)
    case same => rfl
    case others => exact fun j other => setSlot_other _ _ other
    rintro (untold | open_)
    · cases untold
    · rw [dropped] at open_
      cases open_

theorem getCheckInfo_cases (gets : PendingGets n) (handle : Fin n) (replyBufSize : Nat)
    (attCap : Option Nat) (inUse : (gets.slots handle).inUse = true) :
    ((gets.slots handle).ctx.received = true ∧ ∃ answer,
      gets.getCheckInfo handle replyBufSize attCap =
        (if (gets.slots handle).ctx.done then gets.release handle else gets, answer) ∧
      (answer = .full ∨ ∃ att recvNs, answer = .reply (gets.slots handle).ctx.buf att recvNs)) ∨
    ((gets.slots handle).ctx.done = true ∧
      gets.getCheckInfo handle replyBufSize attCap = (gets.release handle, .timeout)) ∨
    gets.getCheckInfo handle replyBufSize attCap = (gets, .pending) := by
  simp only [getCheckInfo, inUse, Bool.not_true, Bool.false_eq_true, if_false]
  cases received : (gets.slots handle).ctx.received with
  | true =>
    refine .inl ⟨rfl, ?_⟩
    by_cases long : (gets.slots handle).ctx.buf.length > replyBufSize
    · exact ⟨.full, by simp [long], .inl rfl⟩
    · exact ⟨.reply _ _ _, by simp only [if_neg long]; rfl, .inr ⟨_, _, rfl⟩⟩
  | false =>
    right
    cases done : (gets.slots handle).ctx.done with
    | true => exact .inl ⟨rfl, rfl⟩
    | false => exact .inr rfl

theorem livelinessGetCheck_cases (gets : PendingGets n) (handle : Fin n)
    (inUse : (gets.slots handle).inUse = true) :
    ((gets.slots handle).ctx.received = true ∧ gets.livelinessGetCheck handle =
        (if (gets.slots handle).ctx.done then gets.release handle else gets, .replied)) ∨
    ((gets.slots handle).ctx.done = true ∧
      gets.livelinessGetCheck handle = (gets.release handle, .timeout)) ∨
    gets.livelinessGetCheck handle = (gets, .pending) := by
  simp only [livelinessGetCheck, inUse, Bool.not_true, Bool.false_eq_true, if_false]
  cases received : (gets.slots handle).ctx.received with
  | true => exact .inl ⟨rfl, rfl⟩
  | false =>
    right
    cases done : (gets.slots handle).ctx.done with
    | true => exact .inl ⟨rfl, rfl⟩
    | false => exact .inr rfl

theorem Holds.kept (held : Holds (gets.slots query.handle) query) {told : Bool}
    (final : query.dropped = true → told = true) :
    (if (gets.slots query.handle).ctx.done then gets.release query.handle else gets) = gets ∨
      (if (gets.slots query.handle).ctx.done then gets.release query.handle else gets) =
        gets.release query.handle ∧ told = true ∧ query.dropped = true := by
  rw [held.done]
  cases dropped : query.dropped with
  | false => exact .inl rfl
  | true => exact .inr ⟨rfl, final dropped, rfl⟩

theorem Inv.checked (inv : Inv bufSize s) (found : s.queries[i]? = some query)
    (waits : query.told = false) (replyBufSize : Nat) (attCap : Option Nat)
    (clear : Clear s (.checkInfo i replyBufSize attCap)) :
    Inv bufSize (s.checked i query (s.gets.getCheckInfo query.handle replyBufSize attCap).1
      (s.gets.getCheckInfo query.handle replyBufSize attCap).2) := by
  have held := inv.owned.holds i query found (.inl waits)
  obtain ⟨received, answer, result, given⟩ | ⟨done, result⟩ | result :=
    getCheckInfo_cases s.gets query.handle replyBufSize attCap held.inUse
  · obtain ⟨kind, filled⟩ := clear query found received
    rw [result]
    obtain rfl | ⟨att, recvNs, rfl⟩ := given
    · exact ⟨inv.owned.told found waits _ true (held.kept fun _ => rfl), inv.sound⟩
    · constructor
      · apply inv.owned.told found waits
        apply held.kept
        intro dropped
        simpa [CheckAnswer.isFinal] using filled (held.done.trans dropped)
      · refine ⟨inv.sound.1, ?_, inv.sound.2.2⟩
        intro handed listed
        obtain old | new := List.mem_append.mp listed
        · exact inv.sound.2.1 handed old
        · obtain rfl := List.mem_singleton.mp new
          exact held.stored received kind
  · rw [result]
    have dropped := held.done.symm.trans done
    exact ⟨inv.owned.told found waits _ true (.inr ⟨rfl, rfl, dropped⟩), inv.sound⟩
  · rw [result]
    exact ⟨inv.owned.told found waits _ false (.inl rfl), inv.sound⟩

theorem Inv.livelinessChecked (inv : Inv bufSize s) (found : s.queries[i]? = some query)
    (waits : query.told = false) :
    Inv bufSize (s.livelinessChecked i query (s.gets.livelinessGetCheck query.handle).1
      (s.gets.livelinessGetCheck query.handle).2) := by
  have held := inv.owned.holds i query found (.inl waits)
  refine ⟨?_, inv.sound⟩
  obtain ⟨-, result⟩ | ⟨done, result⟩ | result :=
    livelinessGetCheck_cases s.gets query.handle held.inUse
  · rw [result]
    exact inv.owned.told found waits _ true (held.kept fun _ => rfl)
  · rw [result]
    exact inv.owned.told found waits _ true (.inr ⟨rfl, rfl, held.done.symm.trans done⟩)
  · rw [result]
    exact inv.owned.told found waits _ false (.inl rfl)

theorem Inv.step (inv : Inv bufSize s) (e : GetEvent) (next : GetRun n) (clear : Clear s e)
    (stepped : s.step bufSize e = some next) : Inv bufSize next := by
  cases e with
  | start kind answer =>
    cases stepped
    exact inv.start kind answer clear
  | reply i reply =>
    rw [GetRun.step] at stepped
    split at stepped
    · cases stepped
    · next query found =>
        split at stepped
        · cases stepped
        · next open_ =>
            cases stepped
            exact inv.replied found (Bool.eq_false_iff.mpr open_) reply
  | drop i =>
    rw [GetRun.step] at stepped
    split at stepped
    · cases stepped
    · next query found =>
        split at stepped
        · cases stepped
        · next open_ =>
            cases stepped
            exact inv.droppedAt found (Bool.eq_false_iff.mpr open_)
  | checkInfo i replyBufSize attCap =>
    rw [GetRun.step] at stepped
    split at stepped
    · cases stepped
    · next query found =>
        split at stepped
        · cases stepped
        · next waits =>
            cases stepped
            exact inv.checked found (Bool.eq_false_iff.mpr waits) replyBufSize attCap clear
  | livelinessCheck i =>
    rw [GetRun.step] at stepped
    split at stepped
    · cases stepped
    · next query found =>
        split at stepped
        · cases stepped
        · next waits =>
            cases stepped
            exact inv.livelinessChecked found (Bool.eq_false_iff.mpr waits)

theorem fresh_inv : Inv bufSize (fresh : GetRun n) :=
  ⟨⟨nofun, nofun⟩, List.forall_mem_nil _, List.forall_mem_nil _, List.forall_mem_nil _⟩

/-- In every run whose steps are clear, a handle belongs to one query until its holder is told. -/
theorem handle_owned (bufSize : Nat) (events : List GetEvent) (last : GetRun n)
    (clear : Along (step bufSize) Clear (fresh : GetRun n) events)
    (reached : run (step bufSize) (fresh : GetRun n) events = some last) : Sound bufSize last :=
  (run_invariant_along (fun _ e next inv clear stepped => inv.step e next clear stepped)
    fresh last events fresh_inv clear reached).sound

/-! ### Two clients of one pool -/

def accepted : StartAnswer := ⟨true, true, false⟩

def token : GetReply := ⟨true, [107], some [], none, 0⟩

def response : GetReply := ⟨true, [113], some [1, 2, 3], none, 0⟩

def calls : List GetEvent :=
  [.start .livelinessGet accepted, .start .get accepted, .reply 1 response, .reply 0 token,
    .drop 1, .livelinessCheck 0, .checkInfo 1 8 none, .drop 0, .start .get accepted,
    .reply 2 response]

theorem handle_owned_calls :
    ∃ last : GetRun 4, run (step 64) fresh calls = some last ∧
      last.started.map Prod.fst = [0, 1, 0] ∧ Sound 64 last := by
  refine ⟨_, rfl, by decide +kernel, ?_⟩
  exact handle_owned 64 calls _ (by decide +kernel) rfl

/-- A get on the slot a collecting query left: its reply is stored as a key expression and handed
out as one. A second get is finished and not polled when the next start takes its slot. -/
def misdelivery : List GetEvent :=
  [.start .livelinessCollect accepted, .reply 0 token, .livelinessCheck 0, .drop 0,
    .start .get accepted, .reply 1 response, .checkInfo 1 8 none, .drop 1,
    .start .livelinessGet accepted, .reply 2 token, .drop 2, .start .get accepted]

theorem handle_claim_fails : ∃ last : GetRun 4, run (step 64) fresh misdelivery = some last ∧
    ¬ last.OwnHandles ∧ ¬ last.OwnReplies ∧ ¬ last.OwnModes 64 := by
  exact ⟨_, rfl, by decide +kernel, by decide +kernel, by decide +kernel⟩

end GetRun

end NanoRos.Zenoh
