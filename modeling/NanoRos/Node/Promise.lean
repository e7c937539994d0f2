import NanoRos.Node.ActionClient

/-! The promise of a service or action client, and the service client that lends it (`handles.rs`).
-/

namespace NanoRos

open Memory

structure RequestId where
  writerGuid : Vector UInt8 16
  sequenceNumber : Int64

structure ServiceInfo where
  sourceTimestamp : Option Time
  receivedTimestamp : Option Time
  requestId : Option RequestId

def ServiceInfo.notReported : ServiceInfo := ⟨none, none, none⟩

/-- One answer to `take_response_raw`, with a buffer of `size` bytes. -/
inductive ReplyAnswer (size : Nat) where
  | nothing
  | failure (e : TransportError)
  | reply (seq : Int64) (payload : List UInt8) (info : ServiceInfo) (fits : payload.length ≤ size)

structure ReplyQueue (size : Nat) where
  answers : List (ReplyAnswer size)
  responseInfo : ServiceInfo

def ReplyQueue.new (size : Nat) : ReplyQueue size := ⟨[], .notReported⟩

def ReplyQueue.arrive {size : Nat} (queue : ReplyQueue size) (answer : ReplyAnswer size) :
    ReplyQueue size :=
  { queue with answers := queue.answers ++ [answer] }

/-- The queue and the buffer that the reply is taken into. -/
def ReplyQueue.takeResponseRaw {size : Nat} (port : ReplyQueue size × List UInt8) :
    Except TransportError (Option (Nat × Int64)) × ReplyQueue size × List UInt8 :=
  match port.1.answers with
  | [] => (.ok none, port)
  | .nothing :: rest => (.ok none, { port.1 with answers := rest }, port.2)
  | .failure e :: rest => (.error e, { port.1 with answers := rest }, port.2)
  | .reply seq payload info _ :: rest =>
    (.ok (some (payload.length, seq)), ⟨rest, info⟩, overwrite port.2 0 payload)

/-- What a promise borrows from its client. -/
structure Promise (K : Type) (N size : Nat) where
  handle : ReplyQueue size
  replyBuffer : List UInt8
  inFlightFlag : Bool
  pending : RequestCorrelator K N

namespace Promise

variable {K T : Type} {N size : Nat}

def takeWithInfo (parse : List UInt8 → Except NodeError T) (promise : Promise K N size) :
    Except NodeError (Option (T × ServiceInfo)) × Promise K N size :=
  match RequestCorrelator.takeMatched ReplyQueue.takeResponseRaw
      (promise.handle, promise.replyBuffer) promise.pending with
  | (.error .noData, (handle, buffer), pending) =>
    (.ok none, ⟨handle, buffer, promise.inFlightFlag, pending⟩)
  | (.error e, (handle, buffer), pending) =>
    (.error (.transport e), ⟨handle, buffer, promise.inFlightFlag, pending⟩)
  | (.ok none, (handle, buffer), pending) =>
    (.ok none, ⟨handle, buffer, promise.inFlightFlag, pending⟩)
  | (.ok (some (len, _)), (handle, buffer), pending) =>
    -- The request is out of the correlator by now; the flag waits for the parse.
    match parse (buffer.take len) with
    | .error e => (.error e, ⟨handle, buffer, promise.inFlightFlag, pending⟩)
    | .ok reply => (.ok (some (reply, handle.responseInfo)), ⟨handle, buffer, false, pending⟩)

def take (parse : List UInt8 → Except NodeError T) (promise : Promise K N size) :
    Except NodeError (Option T) × Promise K N size :=
  ((promise.takeWithInfo parse).1.map (Option.map Prod.fst), (promise.takeWithInfo parse).2)

end Promise

/-- A service type, by its request's `serialize` and its reply's `deserialize`. -/
structure RosService (ω ρ : Type) where
  serialize : ω → CdrWriter → Except SerError CdrWriter
  deserialize : CdrReader → Except DeserError (ρ × CdrReader)

def cdrDeserializeReply {ω ρ : Type} (svc : RosService ω ρ) (data : List UInt8) :
    Except NodeError ρ := do
  let reader ← (CdrReader.newWithHeader data).mapError fun _ => NodeError.deserialization
  let (reply, _) ← (svc.deserialize reader).mapError fun _ => NodeError.deserialization
  return reply

structure EmbeddedServiceClient (replyBuf : Nat) where
  handle : RmwServiceClient
  replies : ReplyQueue replyBuf
  reqBuffer : List UInt8
  replyBuffer : List UInt8
  inFlight : Bool
  pending : RequestCorrelator Unit 1

namespace EmbeddedServiceClient

variable {ω ρ : Type} {replyBuf : Nat}

def new (handle : RmwServiceClient) (reqBuf : Nat) : EmbeddedServiceClient replyBuf where
  handle := handle
  replies := .new replyBuf
  reqBuffer := List.replicate reqBuf 0
  replyBuffer := List.replicate replyBuf 0
  inFlight := false
  pending := .new

/-- The promise of a call that is `.ok` is `promise` of the client it leaves. -/
def call (svc : RosService ω ρ) (client : EmbeddedServiceClient replyBuf) (request : ω) :
    Except NodeError Unit × EmbeddedServiceClient replyBuf :=
  if client.inFlight then (.error .requestInFlight, client)
  else
    match CdrWriter.newWithHeader client.reqBuffer with
    | .error _ => (.error .bufferTooSmall, client)
    | .ok writer =>
      match svc.serialize request writer with
      | .error _ => (.error .serialization, client)
      | .ok writer =>
        let client := { client with reqBuffer := writer.buf }
        match client.handle.sendRequestRaw (client.reqBuffer.take writer.position) with
        | (.error _, handle) => (.error .serviceRequestFailed, { client with handle := handle })
        | (.ok seq, handle) =>
          let pending := client.pending.clear
          (.ok (), { client with
            handle := handle
            pending := match pending.insert seq () with
              | .ok pending => pending
              | .error _ => pending
            inFlight := true })

def resetInFlight (client : EmbeddedServiceClient replyBuf) : EmbeddedServiceClient replyBuf :=
  { client with inFlight := false, pending := client.pending.clear }

def promise (client : EmbeddedServiceClient replyBuf) : Promise Unit 1 replyBuf :=
  ⟨client.replies, client.replyBuffer, client.inFlight, client.pending⟩

/-- The client once the promise is given back. -/
def after (client : EmbeddedServiceClient replyBuf) (promise : Promise Unit 1 replyBuf) :
    EmbeddedServiceClient replyBuf :=
  { client with
    replies := promise.handle
    replyBuffer := promise.replyBuffer
    inFlight := promise.inFlightFlag
    pending := promise.pending }

end EmbeddedServiceClient

section Poll

variable {K T : Type} {N size : Nat}

/-- The payload that a poll of `n` tries comes to: of the first reply that answers a pending
request, if neither an error nor an empty queue comes first. -/
def awaitedReply : Nat → List (ReplyAnswer size) → RequestCorrelator K N → Option (List UInt8)
  | n + 1, .reply seq payload _ _ :: rest, pending =>
    match pending.resolve seq with
    | (some _, _) => some payload
    | (none, pending) => awaitedReply n rest pending
  | _, _, _ => none

/-- What a promise comes to in its next poll. -/
def Promise.awaited (promise : Promise K N size) : Option (List UInt8) :=
  awaitedReply maxStaleDrainPerPoll promise.handle.answers promise.pending

/-- The awaited reply, if there is one, parses. -/
def Promise.Decodes (parse : List UInt8 → Except NodeError T) (promise : Promise K N size) : Prop :=
  ∀ payload, promise.awaited = some payload → (parse payload).isOk = true

theorem matchLoop_of_awaited (n : Nat) (handle : ReplyQueue size) (buffer payload : List UInt8)
    (pending : RequestCorrelator K N)
    (awaited : awaitedReply n handle.answers pending = some payload) :
    ∃ seq handle' buffer' pending' i,
      RequestCorrelator.matchLoop ReplyQueue.takeResponseRaw n (handle, buffer) pending =
        (.ok (some (payload.length, seq)), (handle', buffer'), pending') ∧
      buffer'.take payload.length = payload ∧ i < pending.len ∧
      pending'.live = pending.live.eraseIdx i := by
  induction n generalizing handle buffer pending with
  | zero => cases awaited
  | succ n ih =>
    rcases handle with ⟨_ | ⟨_ | e | ⟨seq, bytes, info, _⟩, rest⟩, responseInfo⟩
    · cases awaited
    · cases awaited
    · cases awaited
    · rw [awaitedReply] at awaited
      rw [RequestCorrelator.matchLoop, ReplyQueue.takeResponseRaw]
      rcases pending.resolve_cases seq with ⟨i, key, pending', inside, hit, erased⟩ |
        ⟨pending', miss, kept⟩
      · simp only [hit, Option.some.injEq] at awaited
        subst awaited
        simp only [RequestCorrelator.matchReply, hit, Option.isSome_some]
        have whole := take_overwrite buffer 0 bytes (Nat.zero_le _)
        rw [Nat.zero_add, List.take_zero, List.nil_append] at whole
        exact ⟨seq, _, _, pending', i, rfl, whole, inside, erased⟩
      · simp only [miss] at awaited
        simp only [RequestCorrelator.matchReply, miss, Option.isSome_none]
        have onward := ih ⟨rest, info⟩ (overwrite buffer 0 bytes) pending' awaited
        rw [kept, ← pending'.length_live, kept, pending.length_live] at onward
        exact onward

theorem matchLoop_of_not_awaited (n : Nat) (handle : ReplyQueue size) (buffer : List UInt8)
    (pending : RequestCorrelator K N) (awaited : awaitedReply n handle.answers pending = none) :
    ∃ result port pending',
      RequestCorrelator.matchLoop ReplyQueue.takeResponseRaw n (handle, buffer) pending =
        (result, port, pending') ∧
      (∀ hit, result ≠ .ok (some hit)) ∧ pending'.live = pending.live := by
  induction n generalizing handle buffer pending with
  | zero => exact ⟨_, _, _, rfl, nofun, rfl⟩
  | succ n ih =>
    rcases handle with ⟨_ | ⟨_ | e | ⟨seq, bytes, info, _⟩, rest⟩, responseInfo⟩
    · exact ⟨_, _, _, rfl, nofun, rfl⟩
    · exact ⟨_, _, _, rfl, nofun, rfl⟩
    · exact ⟨_, _, _, rfl, nofun, rfl⟩
    · rw [awaitedReply] at awaited
      rw [RequestCorrelator.matchLoop, ReplyQueue.takeResponseRaw]
      rcases pending.resolve_cases seq with ⟨i, key, pending', _, hit, _⟩ |
        ⟨pending', miss, kept⟩
      · simp only [hit] at awaited
        cases awaited
      · simp only [miss] at awaited
        simp only [RequestCorrelator.matchReply, miss, Option.isSome_none]
        have onward := ih ⟨rest, info⟩ (overwrite buffer 0 bytes) pending' awaited
        rw [kept] at onward
        exact onward

namespace Promise

variable {promise : Promise K N size} {parse : List UInt8 → Except NodeError T}

theorem takeWithInfo_of_awaited {payload : List UInt8} (awaited : promise.awaited = some payload) :
    ∃ i, i < promise.pending.len ∧
      (promise.takeWithInfo parse).2.pending.live = promise.pending.live.eraseIdx i ∧
      (promise.takeWithInfo parse).2.inFlightFlag =
        (promise.inFlightFlag && !(parse payload).isOk) := by
  rcases matchLoop_of_awaited maxStaleDrainPerPoll promise.handle promise.replyBuffer payload
    promise.pending awaited with ⟨seq, handle, buffer, pending, i, polled, whole, inside, erased⟩
  refine ⟨i, inside, ?_⟩
  rw [takeWithInfo, RequestCorrelator.takeMatched, polled]
  simp only [whole]
  cases parse payload with
  | error e => exact ⟨erased, (Bool.and_true _).symm⟩
  | ok reply => exact ⟨erased, (Bool.and_false _).symm⟩

theorem takeWithInfo_of_not_awaited (awaited : promise.awaited = none) :
    (promise.takeWithInfo parse).2.pending.live = promise.pending.live ∧
      (promise.takeWithInfo parse).2.inFlightFlag = promise.inFlightFlag := by
  rcases matchLoop_of_not_awaited maxStaleDrainPerPoll promise.handle promise.replyBuffer
    promise.pending awaited with ⟨result, port, pending, polled, nobody, kept⟩
  rw [takeWithInfo, RequestCorrelator.takeMatched, polled]
  rcases result with (e | _ | hit)
  · cases e <;> exact ⟨kept, rfl⟩
  · exact ⟨kept, rfl⟩
  · exact absurd rfl (nobody hit)

end Promise

end Poll

/-- One request/reply channel of a client: where the requests go, and the two records of the
request in flight. -/
structure RequestChannel (K : Type) (N : Nat) where
  handle : RmwServiceClient
  inFlight : Bool
  pending : RequestCorrelator K N

namespace RequestChannel

variable {K T α : Type} {N size : Nat}

/-- The correlator has the last request that was sent. -/
def holdsPending (c : RequestChannel K N) : Bool :=
  c.handle.sent.getLast?.any fun request => c.pending.contains request.1

def Agrees (c : RequestChannel K N) : Prop := c.inFlight = true ↔ c.holdsPending = true

/-- The flag is up for a request that the correlator gave away. -/
def Lost (c : RequestChannel K N) : Prop := c.inFlight = true ∧ c.pending.live = []

/-- All that a channel can be in. -/
inductive Known (c : RequestChannel K N) : Prop where
  | idle (flag : c.inFlight = false) (live : c.pending.live = [])
  | waiting (seq : Int64) (data : List UInt8) (key : K) (flag : c.inFlight = true)
      (last : c.handle.sent.getLast? = some (seq, data)) (live : c.pending.live = [(seq, key)])
  | lost (flag : c.inFlight = true) (live : c.pending.live = [])

/-- What asking for a request to be sent does to the channel. -/
inductive Sends (c next : RequestChannel K N) : Except NodeError α → Prop where
  | failed (e : NodeError) (sent : next.handle.sent = c.handle.sent)
      (flag : next.inFlight = c.inFlight) (live : next.pending.live = c.pending.live)
      (refused : e = .requestInFlight → c.inFlight = true ∨ c.pending.canSend ≠ .ok ()) :
      Sends c next (.error e)
  | sent (seq : Int64) (data : List UInt8) (key : K) (result : α) (free : c.inFlight = false)
      (sent : next.handle.sent = c.handle.sent ++ [(seq, data)]) (flag : next.inFlight = true)
      (live : c.pending.live = [] → next.pending.live = [(seq, key)]) : Sends c next (.ok result)

variable {c next : RequestChannel K N}

theorem holdsPending_of_empty (live : c.pending.live = []) : c.holdsPending = false := by
  rw [holdsPending]
  cases c.handle.sent.getLast? with
  | none => rfl
  | some request =>
    rw [Option.any_some, RequestCorrelator.contains, live]
    rfl

theorem Known.agrees_iff (known : c.Known) : c.Agrees ↔ ¬ c.Lost := by
  cases known with
  | idle flag live => simp [Agrees, Lost, flag, holdsPending_of_empty live]
  | waiting seq data key flag last live =>
    simp [Agrees, Lost, flag, live, holdsPending, last, RequestCorrelator.contains]
  | lost flag live => simp [Agrees, Lost, flag, live, holdsPending_of_empty live]

theorem Known.idle_of (known : c.Known) (found : ¬ c.Lost) (gone : c.holdsPending = false) :
    c.inFlight = false ∧ c.pending.live = [] := by
  cases known with
  | idle flag live => exact ⟨flag, live⟩
  | waiting seq data key flag last live =>
    simp [holdsPending, last, live, RequestCorrelator.contains] at gone
  | lost flag live => exact absurd ⟨flag, live⟩ found

theorem Known.live_of_down (known : c.Known) (down : c.inFlight = false) :
    c.pending.live = [] := by
  cases known with
  | idle _ live => exact live
  | waiting _ _ _ up _ _ | lost up _ =>
    rw [down] at up
    cases up

theorem canSend_of_empty (positive : 0 < N) (live : c.pending.live = []) :
    c.pending.canSend = .ok () := by
  have empty := c.pending.length_live
  rw [live, List.length_nil] at empty
  rw [RequestCorrelator.canSend, live, ← empty]
  simp [Nat.not_le.mpr positive]

variable {result : Except NodeError α}

section

variable (sends : Sends c next result)
include sends

theorem Sends.admitted (positive : 0 < N) (flag : c.inFlight = false) (live : c.pending.live = []) :
    result ≠ .error .requestInFlight := by
  intro same
  subst same
  cases sends with
  | failed _ _ _ _ refused =>
    rcases refused rfl with up | full
    · rw [flag] at up
      cases up
    · exact full (canSend_of_empty positive live)

theorem Sends.known (known : c.Known) : next.Known := by
  cases sends with
  | failed _ sent flag live _ =>
    cases known with
    | idle down empty => exact .idle (flag.trans down) (live.trans empty)
    | waiting seq data key up last held =>
      exact .waiting seq data key (flag.trans up) (by rw [sent, last]) (live.trans held)
    | lost up empty => exact .lost (flag.trans up) (live.trans empty)
  | sent seq data key _ free sent flag live =>
    have held := live (known.live_of_down free)
    exact .waiting seq data key flag (by rw [sent, List.getLast?_concat]) held

theorem Sends.lost_iff (known : c.Known) : next.Lost ↔ c.Lost := by
  cases sends with
  | failed _ _ flag live _ => rw [Lost, Lost, flag, live]
  | sent seq data key _ free _ _ live =>
    have held := live (known.live_of_down free)
    simp [Lost, free, held]

theorem Sends.map {β : Type} (f : α → β) :
    Sends c next (result.map f) := by
  cases sends with
  | failed e sent flag live refused => exact .failed e sent flag live refused
  | sent seq data key result free sent flag live => exact .sent seq data key _ free sent flag live

end

def reset (c : RequestChannel K N) : RequestChannel K N :=
  { c with inFlight := false, pending := c.pending.clear }

theorem reset_known (c : RequestChannel K N) : c.reset.Known := .idle rfl c.pending.live_clear

theorem reset_found (c : RequestChannel K N) : ¬ c.reset.Lost := by
  rintro ⟨up, _⟩
  cases up

def promise (c : RequestChannel K N) (handle : ReplyQueue size) (buffer : List UInt8) :
    Promise K N size :=
  ⟨handle, buffer, c.inFlight, c.pending⟩

/-- The channel once the promise is given back. -/
def polled (c : RequestChannel K N) (promise : Promise K N size) : RequestChannel K N :=
  { c with inFlight := promise.inFlightFlag, pending := promise.pending }

variable {handle : ReplyQueue size} {buffer : List UInt8}
  {parse : List UInt8 → Except NodeError T}

theorem polled_cases (c : RequestChannel K N) (known : c.Known) :
    (c.polled ((c.promise handle buffer).takeWithInfo parse).2).Known ∧
      ((c.polled ((c.promise handle buffer).takeWithInfo parse).2).Lost ↔
        c.Lost ∨ ¬ (c.promise handle buffer).Decodes parse) := by
  cases awaited : (c.promise handle buffer).awaited with
  | none =>
    have decodes : (c.promise handle buffer).Decodes parse := by
      intro payload found
      rw [awaited] at found
      cases found
    have kept := @Promise.takeWithInfo_of_not_awaited _ _ _ _ _ parse awaited
    have same : (c.polled ((c.promise handle buffer).takeWithInfo parse).2).Lost ↔ c.Lost := by
      rw [Lost, Lost, polled, kept.1, kept.2]
      rfl
    refine ⟨?_, by rw [same]; simp [decodes]⟩
    cases known with
    | idle flag live => exact .idle (kept.2.trans flag) (kept.1.trans live)
    | waiting seq data key flag last live =>
      exact .waiting seq data key (kept.2.trans flag) last (kept.1.trans live)
    | lost flag live => exact .lost (kept.2.trans flag) (kept.1.trans live)
  | some payload =>
    rcases @Promise.takeWithInfo_of_awaited _ _ _ _ _ parse _ awaited with
      ⟨i, inside, erased, flagged⟩
    have some_live : 0 < c.pending.live.length := by
      rw [c.pending.length_live]
      exact Nat.lt_of_le_of_lt (Nat.zero_le i) inside
    cases known with
    | idle _ live | lost _ live => simp [live] at some_live
    | waiting seq data key flag last live =>
      have first : i = 0 := by
        have one := c.pending.length_live
        rw [live, List.length_singleton] at one
        have within : i < c.pending.len := inside
        omega
      have gone : ((c.promise handle buffer).takeWithInfo parse).2.pending.live = [] := by
        rw [erased, first]
        change c.pending.live.eraseIdx 0 = []
        rw [live]
        rfl
      have decodes : (c.promise handle buffer).Decodes parse ↔ (parse payload).isOk = true := by
        simp [Promise.Decodes, awaited]
      have down : ((c.promise handle buffer).takeWithInfo parse).2.inFlightFlag =
          !(parse payload).isOk := by
        rw [flagged]
        change (c.inFlight && !(parse payload).isOk) = _
        rw [flag, Bool.true_and]
      have found : ¬ c.Lost := by simp [Lost, live]
      constructor
      · cases parsed : (parse payload).isOk with
        | true => exact .idle (by rw [polled, down, parsed]; rfl) gone
        | false => exact .lost (by rw [polled, down, parsed]; rfl) gone
      · simp [Lost, polled, down, gone, decodes, live]

end RequestChannel

namespace EmbeddedServiceClient

variable {ω ρ : Type} {replyBuf : Nat}

def channel (client : EmbeddedServiceClient replyBuf) : RequestChannel Unit 1 :=
  ⟨client.handle, client.inFlight, client.pending⟩

theorem call_sends (svc : RosService ω ρ) (client : EmbeddedServiceClient replyBuf) (request : ω) :
    client.channel.Sends (client.call svc request).2.channel (client.call svc request).1 := by
  rw [call]
  split
  case isTrue up => exact .failed _ rfl rfl rfl fun _ => .inl up
  case isFalse down =>
    rw [Bool.not_eq_true] at down
    cases CdrWriter.newWithHeader client.reqBuffer with
    | error => exact .failed _ rfl rfl rfl nofun
    | ok writer =>
      dsimp only
      cases svc.serialize request writer with
      | error => exact .failed _ rfl rfl rfl nofun
      | ok writer =>
        dsimp only
        cases answered : client.handle.answers client.handle.calls with
        | error e =>
          simp only [RmwServiceClient.sendRequestRaw, answered]
          exact .failed _ rfl rfl rfl nofun
        | ok seq =>
          simp only [RmwServiceClient.sendRequestRaw, answered]
          refine .sent seq _ () () down rfl rfl fun _ => ?_
          rcases client.pending.clear.insert_of_room seq () Nat.zero_lt_one with
            ⟨pending, stored, appended, _⟩
          simp only [channel, stored]
          rw [appended, RequestCorrelator.live_clear]
          rfl

end EmbeddedServiceClient

end NanoRos
