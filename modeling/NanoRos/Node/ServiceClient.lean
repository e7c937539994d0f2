import NanoRos.Rmw.Correlation

/-! A service client the executor owns: one logical call at a time, sent in several generations, its
reply dispatched by `service_client_raw_try_process` or `service_client_callback_try_process`. -/

namespace NanoRos

def maxClientResendGenerations : Nat := 4

abbrev ClientSequences : Type := RequestCorrelator Unit maxClientResendGenerations

/-- What the backend has for the client: a reply with the id of its request, or an error. -/
inductive Delivery where
  | reply (seq : Int64) (payload : List UInt8)
  | failure
  deriving DecidableEq

/-- The backend's client handle, with the buffer its replies are taken into. -/
structure ReplyHandle where
  inbox : List Delivery
  replyBuffer : List UInt8

def ReplyHandle.takeResponseRaw (handle : ReplyHandle) :
    Except Unit (Option (Nat × Int64)) × ReplyHandle :=
  match handle.inbox with
  | [] => (.ok none, handle)
  | .failure :: rest => (.error (), { handle with inbox := rest })
  | .reply seq payload :: rest => (.ok (some (payload.length, seq)), ⟨rest, payload⟩)

inductive ClientProcessError where
  | serviceRequestFailed
  | deserializationError
  deriving DecidableEq

structure ServiceClientEntry where
  handle : ReplyHandle
  pending : Bool
  sequences : ClientSequences

/-- What the callback is run with. -/
structure HandedReply where
  seq : Int64
  payload : List UInt8

def recordClientSend (seqs : ClientSequences) (seq : Int64) (resend : Bool) : ClientSequences :=
  if !resend then seqs.clear.insertEvicting seq ()
  else if seq = sequenceIdUnknown ∧ seqs.contains seq then seqs
  else seqs.insertEvicting seq ()

def takeClientReply (handle : ReplyHandle) (seqs : ClientSequences) :
    Except Unit (Option (Nat × Int64)) × ReplyHandle × ClientSequences :=
  match RequestCorrelator.takeCorrelated ReplyHandle.takeResponseRaw handle seqs with
  | (.error e, handle, seqs) => (.error e, handle, seqs)
  | (.ok none, handle, seqs) => (.ok none, handle, seqs)
  | (.ok (some (len, seq, ())), handle, seqs) => (.ok (some (len, seq)), handle, seqs.clear)

namespace ServiceClientEntry

/-- `send_request_async_inner`, and with `resend` off `ServiceClientCallback::call` and the C++
send: a fresh call is refused while another is pending. A send the backend fails leaves the
entry as it was. -/
def sendRequestAsync (entry : ServiceClientEntry) (resend : Bool) (sent : Option Int64) :
    ServiceClientEntry :=
  if entry.pending && !resend then entry
  else
    match sent with
    | none => entry
    | some seq =>
      { entry with sequences := recordClientSend entry.sequences seq resend, pending := true }

/-- The send of `call_raw`, which polls for its own reply and does not look at `pending`. -/
def callRaw (entry : ServiceClientEntry) (sent : Option Int64) : ServiceClientEntry :=
  match sent with
  | none => entry
  | some seq => { entry with sequences := recordClientSend entry.sequences seq false }

def takeReply (entry : ServiceClientEntry) :
    Except Unit (Option (Nat × Int64)) × ServiceClientEntry :=
  match takeClientReply entry.handle entry.sequences with
  | (result, handle, seqs) => (result, { entry with handle := handle, sequences := seqs })

/-- `rclc_client_take_response`. -/
def takeResponse (entry : ServiceClientEntry) : ServiceClientEntry :=
  if !entry.pending then entry
  else
    match entry.takeReply with
    | (.ok (some _), entry) => { entry with pending := false }
    | (.ok none, entry) => entry
    | (.error _, entry) => { entry with pending := false }

/-- A blocking call that ran out of time; that of `call_raw` leaves `pending` alone. -/
def abandon (entry : ServiceClientEntry) (blocking : Bool) : ServiceClientEntry :=
  { entry with
    pending := if blocking then false else entry.pending
    sequences := entry.sequences.clear }

/-- `service_client_raw_try_process`, with the callbacks that are registered now. -/
def rawTryProcess (callback requestIdCallback : Bool) (entry : ServiceClientEntry) :
    Except ClientProcessError Bool × Option HandedReply × ServiceClientEntry :=
  if !entry.pending then (.ok false, none, entry)
  else if !callback && !requestIdCallback then (.ok false, none, entry)
  else
    match takeClientReply entry.handle entry.sequences with
    | (.ok (some (len, seq)), handle, seqs) =>
      (.ok true, some ⟨seq, handle.replyBuffer.take len⟩, ⟨handle, false, seqs⟩)
    | (.ok none, handle, seqs) => (.ok false, none, ⟨handle, true, seqs⟩)
    | (.error _, handle, seqs) => (.error .serviceRequestFailed, none, ⟨handle, false, seqs⟩)

/-- `service_client_callback_try_process`; `decodes` is the reply type's own `deserialize`. -/
def callbackTryProcess (decodes : List UInt8 → Bool) (entry : ServiceClientEntry) :
    Except ClientProcessError Bool × Option HandedReply × ServiceClientEntry :=
  if !entry.pending then (.ok false, none, entry)
  else
    match takeClientReply entry.handle entry.sequences with
    | (.ok (some (len, seq)), handle, seqs) =>
      let reply := handle.replyBuffer.take len
      if decodes reply then (.ok true, some ⟨seq, reply⟩, ⟨handle, false, seqs⟩)
      else (.error .deserializationError, none, ⟨handle, false, seqs⟩)
    | (.ok none, handle, seqs) => (.ok false, none, ⟨handle, true, seqs⟩)
    | (.error _, handle, seqs) => (.error .serviceRequestFailed, none, ⟨handle, false, seqs⟩)

end ServiceClientEntry

/-- One run of the callback: in which call, and with what. -/
structure Dispatch where
  call : Nat
  seq : Int64
  payload : List UInt8

structure ServiceClient where
  entry : ServiceClientEntry
  /-- The number of the current call: how many fresh sends the backend took. -/
  calls : Nat
  /-- Every request id with the call it is a generation of. -/
  sent : List (Int64 × Nat)
  arrived : List (Int64 × List UInt8)
  dispatched : List Dispatch

namespace ServiceClient

inductive Event where
  /-- `send_request_raw` gives the request an id, or fails. -/
  | send (sent : Option Int64)
  | callRaw (sent : Option Int64)
  | resend (sent : Option Int64)
  | deliver (delivery : Delivery)
  | rawTryProcess (callback requestIdCallback : Bool)
  | callbackTryProcess (decodes : List UInt8 → Bool)
  | takeResponse
  | takeReply
  | abandon (blocking : Bool)

def init : ServiceClient where
  entry := ⟨⟨[], []⟩, false, RequestCorrelator.new⟩
  calls := 0
  sent := []
  arrived := []
  dispatched := []

/-- The backend's part of the contract: a real id that no request had before. -/
def assigns (c : ServiceClient) (id : Int64) : Bool :=
  id != sequenceIdUnknown && !(c.sent.map Prod.fst).contains id

/-- The callback of the current call has run. -/
def answered (c : ServiceClient) : Bool := (c.dispatched.map Dispatch.call).contains c.calls

/-- A request of call number `call` goes out. -/
def requested (c : ServiceClient) (entry : ServiceClientEntry) (call : Nat) (sent : Option Int64) :
    Option ServiceClient :=
  match sent with
  | none => some { c with entry := entry }
  | some id =>
    if c.assigns id then
      some { c with entry := entry, calls := call, sent := c.sent ++ [(id, call)] }
    else none

def processed (c : ServiceClient)
    (result : Except ClientProcessError Bool × Option HandedReply × ServiceClientEntry) :
    ServiceClient :=
  { c with
    entry := result.2.2
    dispatched := c.dispatched ++
      (result.2.1.map fun handed => ⟨c.calls, handed.seq, handed.payload⟩).toList }

/-- `none` where the backend breaks its contract, and for a re-send outside its call: the loop of
`rclc_client_call` sends again only after its own first send and until its callback ran. -/
def step (c : ServiceClient) : Event → Option ServiceClient
  | .send sent =>
    if c.entry.pending then some { c with entry := c.entry.sendRequestAsync false sent }
    else c.requested (c.entry.sendRequestAsync false sent) (c.calls + 1) sent
  | .callRaw sent => c.requested (c.entry.callRaw sent) (c.calls + 1) sent
  | .resend sent =>
    if c.calls = 0 ∨ c.answered then none
    else c.requested (c.entry.sendRequestAsync true sent) c.calls sent
  | .deliver delivery =>
    let handle := { c.entry.handle with inbox := c.entry.handle.inbox ++ [delivery] }
    let entry := { c.entry with handle := handle }
    match delivery with
    | .failure => some { c with entry := entry }
    | .reply seq payload =>
      if (c.sent.map Prod.fst).contains seq then
        some { c with entry := entry, arrived := c.arrived ++ [(seq, payload)] }
      else none
  | .rawTryProcess callback requestIdCallback =>
    some (c.processed (c.entry.rawTryProcess callback requestIdCallback))
  | .callbackTryProcess decodes => some (c.processed (c.entry.callbackTryProcess decodes))
  | .takeResponse => some { c with entry := c.entry.takeResponse }
  | .takeReply => some { c with entry := c.entry.takeReply.2 }
  | .abandon blocking => some { c with entry := c.entry.abandon blocking }

end ServiceClient

/-- Requests and replies all carry real ids. -/
structure ServiceClientEntry.Keyed (entry : ServiceClientEntry) : Prop where
  requests : ∀ request ∈ entry.sequences.live, request.1 ≠ sequenceIdUnknown
  replies : ∀ seq payload, Delivery.reply seq payload ∈ entry.handle.inbox → seq ≠ sequenceIdUnknown

theorem takeLoop_handle (n : Nat) (handle : ReplyHandle) (seqs : ClientSequences)
    (requests : ∀ request ∈ seqs.live, request.1 ≠ sequenceIdUnknown)
    (replies : ∀ seq payload, Delivery.reply seq payload ∈ handle.inbox → seq ≠ sequenceIdUnknown) :
    ∃ result handle' seqs', RequestCorrelator.takeLoop ReplyHandle.takeResponseRaw n handle seqs =
        (result, handle', seqs') ∧
      handle'.inbox ⊆ handle.inbox ∧
      ((∃ seq, result = .ok (some (handle'.replyBuffer.length, seq, ())) ∧
          (seq, ()) ∈ seqs.live ∧ Delivery.reply seq handle'.replyBuffer ∈ handle.inbox) ∨
        ((∀ hit, result ≠ .ok (some hit)) ∧ seqs'.live = seqs.live)) := by
  induction n generalizing handle seqs with
  | zero => exact ⟨_, _, _, rfl, List.Subset.refl _, .inr ⟨by simp, rfl⟩⟩
  | succ n ih =>
    rcases handle with ⟨_ | ⟨_ | _, rest⟩, buffer⟩
    case nil => exact ⟨_, _, _, rfl, List.Subset.refl _, .inr ⟨by simp, rfl⟩⟩
    case cons.failure =>
      exact ⟨_, _, _, rfl, List.subset_cons_self _ _, .inr ⟨by simp, rfl⟩⟩
    case cons.reply seq payload =>
      have real := replies seq payload List.mem_cons_self
      rcases seqs.resolve_keyed seq real requests with
        ⟨i, request, placed, named, inside, resolved⟩ | ⟨_, dropped⟩
      · refine ⟨.ok (some (payload.length, seq, ())), ⟨rest, payload⟩, seqs.removeAt i, ?_,
          List.subset_cons_self _ _, .inl ⟨seq, rfl, ?_, List.mem_cons_self⟩⟩
        · simp only [RequestCorrelator.takeLoop, ReplyHandle.takeResponseRaw, resolved]
        · rw [← named]
          exact List.mem_of_getElem? placed
      · -- a stale reply: the table only counts it, and the poll goes on with the next
        have later : ∀ other payload, Delivery.reply other payload ∈ rest →
            other ≠ sequenceIdUnknown :=
          fun other payload member => replies other payload (List.mem_cons_of_mem _ member)
        rcases ih ⟨rest, payload⟩ { seqs with dropped := seqs.dropped + 1 } requests later with
          ⟨result, handle', seqs', looped, consumed, outcome⟩
        refine ⟨result, handle', seqs', ?_, List.subset_cons_of_subset _ consumed, ?_⟩
        · simp only [RequestCorrelator.takeLoop, ReplyHandle.takeResponseRaw, dropped]
          exact looped
        · rcases outcome with ⟨hit, found, pending, taken⟩ | missed
          · exact .inl ⟨hit, found, pending, List.mem_cons_of_mem _ taken⟩
          · exact .inr missed

theorem takeClientReply_cases (entry : ServiceClientEntry) (keyed : entry.Keyed) :
    ∃ result handle seqs, takeClientReply entry.handle entry.sequences = (result, handle, seqs) ∧
      handle.inbox ⊆ entry.handle.inbox ∧
      ((∃ seq, result = .ok (some (handle.replyBuffer.length, seq)) ∧
          (seq, ()) ∈ entry.sequences.live ∧
          Delivery.reply seq handle.replyBuffer ∈ entry.handle.inbox ∧ seqs.live = []) ∨
        ((∀ hit, result ≠ .ok (some hit)) ∧ seqs.live = entry.sequences.live)) := by
  rcases takeLoop_handle maxStaleDrainPerPoll entry.handle entry.sequences keyed.requests
    keyed.replies with ⟨result, handle, seqs, looped, consumed, outcome⟩
  rw [takeClientReply, RequestCorrelator.takeCorrelated, looped]
  rcases outcome with ⟨seq, rfl, pending, taken⟩ | ⟨missed, same⟩
  · exact ⟨_, _, _, rfl, consumed, .inl ⟨seq, rfl, pending, taken, seqs.live_clear⟩⟩
  · rcases result with _ | _ | hit
    · exact ⟨_, _, _, rfl, consumed, .inr ⟨by simp, same⟩⟩
    · exact ⟨_, _, _, rfl, consumed, .inr ⟨by simp, same⟩⟩
    · exact absurd rfl (missed hit)

/-- Nothing new in the table or in the inbox. -/
structure ServiceClientEntry.Within (later entry : ServiceClientEntry) : Prop where
  inbox : later.handle.inbox ⊆ entry.handle.inbox
  live : later.sequences.live ⊆ entry.sequences.live

/-- What a dispatcher may do: run no callback, or run it with a reply to a pending request and
retire every request. -/
def Processes (entry : ServiceClientEntry)
    (result : Except ClientProcessError Bool × Option HandedReply × ServiceClientEntry) : Prop :=
  result.2.2.Within entry ∧ ∀ handed, result.2.1 = some handed →
    (handed.seq, ()) ∈ entry.sequences.live ∧
      Delivery.reply handed.seq handed.payload ∈ entry.handle.inbox ∧ result.2.2.sequences.live = []

namespace ServiceClientEntry

variable {entry : ServiceClientEntry}

theorem within_refl (entry : ServiceClientEntry) : entry.Within entry :=
  ⟨List.Subset.refl _, List.Subset.refl _⟩

theorem Within.silent {later : ServiceClientEntry} (within : later.Within entry)
    (result : Except ClientProcessError Bool) : Processes entry (result, none, later) := by
  refine ⟨within, ?_⟩
  intro handed ran
  cases ran

theorem within_retired {handle : ReplyHandle} {pending : Bool} {seqs : ClientSequences}
    (consumed : handle.inbox ⊆ entry.handle.inbox) (retired : seqs.live = []) :
    (ServiceClientEntry.mk handle pending seqs).Within entry := by
  refine ⟨consumed, ?_⟩
  simp only [retired, List.nil_subset]

theorem within_same {handle : ReplyHandle} {pending : Bool} {seqs : ClientSequences}
    (consumed : handle.inbox ⊆ entry.handle.inbox) (same : seqs.live = entry.sequences.live) :
    (ServiceClientEntry.mk handle pending seqs).Within entry := by
  refine ⟨consumed, ?_⟩
  simp only [same, List.Subset.refl]

theorem rawTryProcess_processes (keyed : entry.Keyed) (callback requestIdCallback : Bool) :
    Processes entry (entry.rawTryProcess callback requestIdCallback) := by
  rw [rawTryProcess]
  split
  · exact (within_refl entry).silent _
  split
  · exact (within_refl entry).silent _
  rcases takeClientReply_cases entry keyed with
    ⟨result, handle, seqs, taken, consumed, ⟨seq, rfl, pending, arrived, retired⟩ | ⟨missed, same⟩⟩
  · rw [taken]
    refine ⟨within_retired consumed retired, ?_⟩
    intro handed ran
    cases ran
    simp only [List.take_length]
    exact ⟨pending, arrived, retired⟩
  · rw [taken]
    rcases result with _ | _ | hit
    · exact (within_same consumed same).silent _
    · exact (within_same consumed same).silent _
    · exact absurd rfl (missed hit)

theorem callbackTryProcess_processes (keyed : entry.Keyed) (decodes : List UInt8 → Bool) :
    Processes entry (entry.callbackTryProcess decodes) := by
  rw [callbackTryProcess]
  split
  · exact (within_refl entry).silent _
  rcases takeClientReply_cases entry keyed with
    ⟨result, handle, seqs, taken, consumed, ⟨seq, rfl, pending, arrived, retired⟩ | ⟨missed, same⟩⟩
  · rw [taken]
    simp only [List.take_length]
    split
    · refine ⟨within_retired consumed retired, ?_⟩
      intro handed ran
      cases ran
      exact ⟨pending, arrived, retired⟩
    · exact (within_retired consumed retired).silent _
  · rw [taken]
    rcases result with _ | _ | hit
    · exact (within_same consumed same).silent _
    · exact (within_same consumed same).silent _
    · exact absurd rfl (missed hit)

theorem takeReply_within (keyed : entry.Keyed) (pending : Bool) :
    { entry.takeReply.2 with pending := pending }.Within entry := by
  rcases takeClientReply_cases entry keyed with
    ⟨result, handle, seqs, taken, consumed, ⟨seq, _, _, _, retired⟩ | ⟨_, same⟩⟩
  · simp only [takeReply, taken]
    exact within_retired consumed retired
  · simp only [takeReply, taken]
    exact within_same consumed same

theorem takeResponse_within (keyed : entry.Keyed) : entry.takeResponse.Within entry := by
  rw [takeResponse]
  split
  · exact within_refl entry
  · rcases taken : entry.takeReply with ⟨result, later⟩
    have within := takeReply_within keyed
    rw [taken] at within
    rcases result with _ | _ | hit
    · exact within false
    · exact within later.pending
    · exact within false

theorem abandon_within (entry : ServiceClientEntry) (blocking : Bool) :
    (entry.abandon blocking).Within entry := by
  refine ⟨List.Subset.refl _, ?_⟩
  simp only [abandon, RequestCorrelator.live_clear, List.nil_subset]

end ServiceClientEntry

theorem live_recordClientSend_fresh (seqs : ClientSequences) (seq : Int64) :
    (recordClientSend seqs seq false).live = [(seq, ())] := by
  have positive : 1 ≤ maxClientResendGenerations := by decide
  have empty : seqs.clear.len = 0 := by
    rw [← RequestCorrelator.length_live, RequestCorrelator.live_clear, List.length_nil]
  simp only [recordClientSend, Bool.not_false, if_true,
    RequestCorrelator.live_insertEvicting _ positive, RequestCorrelator.live_clear, empty]
  rfl

theorem live_recordClientSend_resend (seqs : ClientSequences) (seq : Int64)
    (request : Int64 × Unit) (member : request ∈ (recordClientSend seqs seq true).live) :
    request ∈ seqs.live ∨ request = (seq, ()) := by
  have positive : 1 ≤ maxClientResendGenerations := by decide
  simp only [recordClientSend, Bool.not_true, Bool.false_eq_true, if_false] at member
  split at member
  · exact .inl member
  · rw [RequestCorrelator.live_insertEvicting _ positive, List.mem_append,
      List.mem_singleton] at member
    rcases member with old | new
    · split at old
      · exact .inl (List.mem_of_mem_eraseIdx old)
      · exact .inl old
    · exact .inr new

namespace ServiceClient

/-- Table, flag and ledger tell one story: every id in the table is a generation of the current
call, and once its callback ran there is none left. -/
structure Attributed (c : ServiceClient) : Prop where
  distinct : (c.sent.map Prod.fst).Nodup
  real : ∀ request ∈ c.sent, request.1 ≠ sequenceIdUnknown
  known : ∀ request ∈ c.sent, request.2 ≤ c.calls
  current : ∀ request ∈ c.entry.sequences.live, (request.1, c.calls) ∈ c.sent
  inbox : ∀ seq payload, Delivery.reply seq payload ∈ c.entry.handle.inbox →
    (seq, payload) ∈ c.arrived
  stamped : ∀ reply ∈ c.arrived, reply.1 ∈ c.sent.map Prod.fst
  own : ∀ d ∈ c.dispatched, (d.seq, d.call) ∈ c.sent ∧ (d.seq, d.payload) ∈ c.arrived
  settled : c.answered = true → c.entry.sequences.live = []
  ordered : c.dispatched.Pairwise fun earlier later => earlier.call < later.call

theorem attributed_init : init.Attributed := by
  constructor <;> simp [init, RequestCorrelator.new, RequestCorrelator.live, SlotTable.live,
    SlotTable.empty]

variable {c : ServiceClient}

theorem Attributed.keyed (attributed : c.Attributed) : c.entry.Keyed where
  requests := fun request member => attributed.real _ (attributed.current request member)
  replies := by
    intro seq payload member
    rcases List.mem_map.mp (attributed.stamped _ (attributed.inbox seq payload member)) with
      ⟨request, listed, named⟩
    have real := attributed.real request listed
    rw [named] at real
    exact real

theorem Attributed.within (attributed : c.Attributed) {later : ServiceClientEntry}
    (within : later.Within c.entry) : { c with entry := later }.Attributed where
  distinct := attributed.distinct
  real := attributed.real
  known := attributed.known
  current := fun request member => attributed.current request (within.live member)
  inbox := fun seq payload member => attributed.inbox seq payload (within.inbox member)
  stamped := attributed.stamped
  own := attributed.own
  settled := by
    intro done
    have none := attributed.settled done
    apply List.eq_nil_of_subset_nil
    rw [← none]
    exact within.live
  ordered := attributed.ordered

theorem Attributed.processed (attributed : c.Attributed)
    {result : Except ClientProcessError Bool × Option HandedReply × ServiceClientEntry}
    (processes : Processes c.entry result) : (c.processed result).Attributed := by
  rcases result with ⟨outcome, _ | handed, later⟩
  · have kept := attributed.within processes.1
    simp only [ServiceClient.processed, Option.map_none, Option.toList_none, List.append_nil]
    exact kept
  · rcases processes.2 handed rfl with ⟨pending, arrived, retired⟩
    have unanswered : c.calls ∉ c.dispatched.map Dispatch.call := by
      intro ran
      have none := attributed.settled (List.contains_iff_mem.mpr ran)
      rw [none] at pending
      cases pending
    have kept := attributed.within processes.1
    refine ⟨kept.distinct, kept.real, kept.known, kept.current, kept.inbox, kept.stamped, ?_,
      fun _ => retired, ?_⟩
    · intro d member
      rcases List.mem_append.mp member with old | new
      · exact attributed.own d old
      · simp only [Option.map_some, Option.toList_some, List.mem_singleton] at new
        rw [new]
        exact ⟨attributed.current _ pending, attributed.inbox _ _ arrived⟩
    · simp only [ServiceClient.processed, Option.map_some, Option.toList_some]
      rw [List.pairwise_append]
      refine ⟨attributed.ordered, List.pairwise_singleton _ _, ?_⟩
      intro earlier member last single
      rw [List.mem_singleton.mp single]
      have atMost := attributed.known _ (attributed.own earlier member).1
      have other : earlier.call ≠ c.calls := by
        intro same
        exact unanswered (List.mem_map.mpr ⟨earlier, member, same⟩)
      exact Nat.lt_of_le_of_ne atMost other

theorem assigns_iff (c : ServiceClient) (id : Int64) :
    c.assigns id = true ↔ id ≠ sequenceIdUnknown ∧ id ∉ c.sent.map Prod.fst := by
  simp [assigns]

/-- A request of a new call, which starts with an empty table, or one more generation of a call
whose callback has not run. -/
theorem Attributed.sent (attributed : c.Attributed) {entry : ServiceClientEntry} {call : Nat}
    {id : Int64} (assigned : c.assigns id = true)
    (numbered : c.calls ≤ call) (opened : call = c.calls → c.answered = false)
    (inbox : entry.handle.inbox = c.entry.handle.inbox) (live : ∀ request ∈ entry.sequences.live,
      request.1 = id ∨ (call = c.calls ∧ request ∈ c.entry.sequences.live)) :
    { c with entry := entry, calls := call, sent := c.sent ++ [(id, call)] }.Attributed := by
  rcases (c.assigns_iff id).mp assigned with ⟨real, fresh⟩
  refine ⟨?_, ?_, ?_, ?_, ?_, ?_, ?_, ?_, attributed.ordered⟩
  · simp only [List.map_append, List.map_cons, List.map_nil]
    rw [← List.concat_eq_append]
    exact List.Nodup.concat fresh attributed.distinct
  · intro request member
    rcases List.mem_append.mp member with old | new
    · exact attributed.real request old
    · rw [List.mem_singleton.mp new]
      exact real
  · intro request member
    rcases List.mem_append.mp member with old | new
    · exact le_trans (attributed.known request old) numbered
    · rw [List.mem_singleton.mp new]
  · intro request member
    rcases live request member with rfl | ⟨rfl, old⟩
    · exact List.mem_append_right _ (List.mem_singleton.mpr rfl)
    · exact List.mem_append_left _ (attributed.current request old)
  · intro seq payload member
    rw [inbox] at member
    exact attributed.inbox seq payload member
  · intro reply member
    rw [List.map_append]
    exact List.mem_append_left _ (attributed.stamped reply member)
  · intro d member
    have own := attributed.own d member
    exact ⟨List.mem_append_left _ own.1, own.2⟩
  · intro done
    rcases List.mem_map.mp (List.contains_iff_mem.mp done) with ⟨d, member, same⟩
    have before := attributed.known _ (attributed.own d member).1
    have again : call = c.calls := by
      simp only at same before
      omega
    have unanswered := opened again
    rw [answered, ← again, Bool.eq_false_iff] at unanswered
    exact absurd done unanswered

theorem requested_attributed (attributed : c.Attributed) (call : Nat) (numbered : c.calls ≤ call)
    (opened : call = c.calls → c.answered = false) (entry : Option Int64 → ServiceClientEntry)
    (failed : entry none = c.entry)
    (inbox : ∀ id, (entry (some id)).handle.inbox = c.entry.handle.inbox)
    (live : ∀ id, ∀ request ∈ (entry (some id)).sequences.live,
      request.1 = id ∨ (call = c.calls ∧ request ∈ c.entry.sequences.live))
    (sent : Option Int64) (next : ServiceClient)
    (stepped : c.requested (entry sent) call sent = some next) : next.Attributed := by
  cases sent with
  | none =>
    rw [requested, failed] at stepped
    cases stepped
    exact attributed
  | some id =>
    simp only [requested] at stepped
    split at stepped
    case isTrue assigned =>
      cases stepped
      exact attributed.sent assigned numbered opened (inbox id) (live id)
    case isFalse => cases stepped

theorem deliver_attributed (attributed : c.Attributed) (delivery : Delivery)
    (next : ServiceClient) (stepped : c.step (.deliver delivery) = some next) :
    next.Attributed := by
  cases delivery with
  | failure =>
    cases stepped
    refine { attributed with inbox := ?_ }
    intro seq payload member
    rcases List.mem_append.mp member with old | new
    · exact attributed.inbox seq payload old
    · cases List.mem_singleton.mp new
  | reply seq payload =>
    simp only [step] at stepped
    split at stepped
    case isFalse => cases stepped
    case isTrue stamped =>
      cases stepped
      refine { attributed with inbox := ?_, stamped := ?_, own := ?_ }
      · intro other content member
        rcases List.mem_append.mp member with old | new
        · exact List.mem_append_left _ (attributed.inbox other content old)
        · cases List.mem_singleton.mp new
          exact List.mem_append_right _ (List.mem_singleton.mpr rfl)
      · intro reply member
        rcases List.mem_append.mp member with old | new
        · exact attributed.stamped reply old
        · rw [List.mem_singleton.mp new]
          exact List.contains_iff_mem.mp stamped
      · intro d member
        have own := attributed.own d member
        exact ⟨own.1, List.mem_append_left _ own.2⟩

theorem step_attributed (c : ServiceClient) (e : Event) (next : ServiceClient)
    (attributed : c.Attributed) (stepped : c.step e = some next) : next.Attributed := by
  have keyed := attributed.keyed
  -- a fresh call starts a new number and leaves only its own id in the table
  have fresh : ∀ id, ∀ request ∈ (recordClientSend c.entry.sequences id false).live,
      request.1 = id ∨ (c.calls + 1 = c.calls ∧ request ∈ c.entry.sequences.live) := by
    intro id request member
    rw [live_recordClientSend_fresh, List.mem_singleton] at member
    rw [member]
    exact .inl rfl
  have later : c.calls + 1 = c.calls → c.answered = false := by
    intro impossible
    omega
  cases e with
  | send sent =>
    simp only [step] at stepped
    split at stepped
    case isTrue pending =>
      have refused : c.entry.sendRequestAsync false sent = c.entry := by
        simp [ServiceClientEntry.sendRequestAsync, pending]
      rw [refused] at stepped
      cases stepped
      exact attributed
    case isFalse idle =>
      refine requested_attributed attributed _ (Nat.le_succ _) later
        (c.entry.sendRequestAsync false) ?_ ?_ ?_ sent next stepped
      · simp [ServiceClientEntry.sendRequestAsync]
      · intro id
        simp [ServiceClientEntry.sendRequestAsync, idle]
      · intro id
        simp only [ServiceClientEntry.sendRequestAsync, idle, Bool.false_and, Bool.false_eq_true,
          if_false]
        exact fresh id
  | callRaw sent =>
    exact requested_attributed attributed _ (Nat.le_succ _) later c.entry.callRaw rfl
      (fun _ => rfl) fresh sent next stepped
  | resend sent =>
    simp only [step] at stepped
    split at stepped
    case isTrue => cases stepped
    case isFalse going =>
      have unanswered : c.answered = false := by
        rw [not_or] at going
        exact Bool.eq_false_iff.mpr going.2
      refine requested_attributed attributed _ (le_refl _) (fun _ => unanswered)
        (c.entry.sendRequestAsync true) ?_ ?_ ?_ sent next stepped
      · simp [ServiceClientEntry.sendRequestAsync]
      · intro id
        simp [ServiceClientEntry.sendRequestAsync]
      · intro id request member
        simp only [ServiceClientEntry.sendRequestAsync, Bool.not_true, Bool.and_false,
          Bool.false_eq_true, if_false] at member
        rcases live_recordClientSend_resend _ _ _ member with old | new
        · exact .inr ⟨rfl, old⟩
        · rw [new]
          exact .inl rfl
  | deliver delivery => exact deliver_attributed attributed delivery next stepped
  | rawTryProcess callback requestIdCallback =>
    cases stepped
    exact attributed.processed
      (ServiceClientEntry.rawTryProcess_processes keyed callback requestIdCallback)
  | callbackTryProcess decodes =>
    cases stepped
    exact attributed.processed (ServiceClientEntry.callbackTryProcess_processes keyed decodes)
  | takeResponse =>
    cases stepped
    exact attributed.within (ServiceClientEntry.takeResponse_within keyed)
  | takeReply =>
    cases stepped
    exact attributed.within (ServiceClientEntry.takeReply_within keyed c.entry.pending)
  | abandon blocking =>
    cases stepped
    exact attributed.within (c.entry.abandon_within blocking)

/-- Every run of the callback is recorded with the number of the call current at that moment. Its
reply answers a generation of that call, and the numbers only go up: one run a call, and none for
a call the client has left behind. -/
theorem replies_dispatched_once_and_never_stale (events : List Event) (c : ServiceClient)
    (reached : run step init events = some c) :
    (∀ d ∈ c.dispatched, (d.seq, d.call) ∈ c.sent ∧ (d.seq, d.payload) ∈ c.arrived) ∧
      (c.sent.map Prod.fst).Nodup ∧
      c.dispatched.Pairwise fun earlier later => earlier.call < later.call := by
  have attributed : c.Attributed :=
    run_invariant step_attributed init c events attributed_init reached
  exact ⟨attributed.own, attributed.distinct, attributed.ordered⟩

/-- Six generations of one call; the evicted ones and the repeats are dropped, also behind the
next call. -/
theorem replies_dispatched_once_after_eviction : ∃ c : ServiceClient,
    run step init [.send (some 1), .resend (some 2), .resend (some 3), .resend (some 4),
      .resend (some 5), .resend (some 6), .deliver (.reply 1 [1]), .deliver (.reply 6 [6]),
      .deliver (.reply 5 [5]), .rawTryProcess true false, .rawTryProcess true false,
      .send (some 7), .deliver (.reply 6 [6]), .deliver (.reply 7 [7]),
      .callbackTryProcess fun _ => true] = some c ∧
    c.dispatched.map Dispatch.seq = [6, 7] ∧
    c.dispatched.Pairwise fun earlier later => earlier.call < later.call := by
  refine ⟨_, rfl, by decide, ?_⟩
  exact (replies_dispatched_once_and_never_stale [.send (some 1), .resend (some 2),
    .resend (some 3), .resend (some 4), .resend (some 5), .resend (some 6),
    .deliver (.reply 1 [1]), .deliver (.reply 6 [6]), .deliver (.reply 5 [5]),
    .rawTryProcess true false, .rawTryProcess true false, .send (some 7),
    .deliver (.reply 6 [6]), .deliver (.reply 7 [7]), .callbackTryProcess fun _ => true] _ rfl).2.2

end ServiceClient

end NanoRos
