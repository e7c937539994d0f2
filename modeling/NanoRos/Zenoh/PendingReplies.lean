import NanoRos.Lib.Runs

/-! A service client with several requests in flight: `send_request_raw` lists the get slot of each,
`take_response_raw` polls the slots from the newest to the oldest. -/

namespace NanoRos.Zenoh

inductive ZpicoError where
  | generic
  | config
  | session
  | task
  | keyExpr
  | full
  | invalid
  | publish
  | notOpen
  | timeout
  deriving DecidableEq

inductive RmwTransportError where
  | connectionFailed
  | invalidArgument
  | taskStartFailed
  | topicNameInvalid
  | invalidConfig
  | publishFailed
  | disconnected
  | timeout
  | bufferTooSmall
  deriving DecidableEq

def RmwTransportError.ofZpico : ZpicoError → RmwTransportError
  | .generic | .session => .connectionFailed
  | .config | .invalid => .invalidArgument
  | .task => .taskStartFailed
  | .keyExpr => .topicNameInvalid
  | .full => .invalidConfig
  | .publish => .publishFailed
  | .notOpen => .disconnected
  | .timeout => .timeout

/-- What the get slots of a session answer at one poll: `get_check_info` with the reply's bytes,
`none` while the query is pending, and `get_reply_len`. -/
structure GetSlots where
  check : Nat → Except ZpicoError (Option (List UInt8))
  replyLen : Nat → Option Nat

structure ZenohServiceClient (w : Nat) where
  pendingHandles : List (Nat × BitVec w)
  requestSeq : BitVec w
  refusedLen : Option Nat
  deriving DecidableEq

/-- How a poll of the listed slots ends. -/
inductive Scan (w : Nat) where
  | hit (entry : Nat × BitVec w) (reply : List UInt8)
  | refused (entry : Nat × BitVec w) (needed : Option Nat)
  | finished (hardErr : Option RmwTransportError)
  deriving DecidableEq

/-- The loop of `take_response_raw`, over the entries from the newest on. -/
def scan {w : Nat} (slots : GetSlots) (hardErr : Option RmwTransportError) :
    List (Nat × BitVec w) → Scan w
  | [] => .finished hardErr
  | entry :: older =>
    match slots.check entry.1 with
    | .ok (some reply) => .hit entry reply
    | .ok none => scan slots hardErr older
    | .error .full => .refused entry (slots.replyLen entry.1)
    | .error e => scan slots (some (.ofZpico e)) older

namespace ZenohServiceClient

variable {w : Nat}

def new : ZenohServiceClient w := ⟨[], 0, none⟩

/-- A full list drops its oldest entry. -/
def trackOutstanding (maxPending : Nat) (client : ZenohServiceClient w) (handle : Nat)
    (seq : BitVec w) : ZenohServiceClient w :=
  let kept := if client.pendingHandles.length = maxPending then client.pendingHandles.drop 1
    else client.pendingHandles
  { client with
    pendingHandles := if kept.length = maxPending then kept else kept ++ [(handle, seq)] }

/-- `got` is what the last `zpico_get_start` came to; the number is used up either way. -/
def sendRequestRaw (maxPending : Nat) (client : ZenohServiceClient w)
    (got : Except ZpicoError Nat) : Except RmwTransportError (BitVec w) × ZenohServiceClient w :=
  let seq := client.requestSeq + 1
  let client := { client with requestSeq := seq }
  match got with
  | .ok handle => (.ok seq, client.trackOutstanding maxPending handle seq)
  | .error e => (.error (.ofZpico e), client)

def retire (client : ZenohServiceClient w) (answered : BitVec w) : ZenohServiceClient w :=
  { client with pendingHandles := client.pendingHandles.filter (·.2 ≠ answered) }

def takeResponseRaw (client : ZenohServiceClient w) (slots : GetSlots) :
    Except RmwTransportError (Option (List UInt8 × BitVec w)) × ZenohServiceClient w :=
  if client.pendingHandles = [] then (.ok none, client)
  else
    match scan slots none client.pendingHandles.reverse with
    | .refused entry needed =>
      (.error .bufferTooSmall, { client.retire entry.2 with refusedLen := needed })
    | .hit entry reply => (.ok (some (reply, entry.2)), client.retire entry.2)
    | .finished (some e) => (.error e, { client with pendingHandles := [] })
    | .finished none => (.ok none, client)

end ZenohServiceClient

/-- A request in the order it was sent, with its get slot and its sequence number. -/
structure SentRequest (w : Nat) where
  id : Nat
  handle : Nat
  seq : BitVec w
  deriving DecidableEq

def SentRequest.entry {w : Nat} (request : SentRequest w) : Nat × BitVec w :=
  (request.handle, request.seq)

inductive ClientEvent where
  | send (got : Except ZpicoError Nat)
  | take (slots : GetSlots)

/-- The client, with a record of the requests sent, of those it lists, of those whose slot has
reported a reply or an error, and of what every response was and which request's slot held it. -/
structure ClientRun (w : Nat) where
  client : ZenohServiceClient w
  sent : List (SentRequest w)
  listed : List (SentRequest w)
  reported : List Nat
  returned : List (SentRequest w × BitVec w × List UInt8)
  deriving DecidableEq

/-- The slots a poll hears a reply or an error of, asked from the newest on. -/
def reporting {w : Nat} (slots : GetSlots) : List (Nat × BitVec w) → List Nat
  | [] => []
  | entry :: older =>
    match slots.check entry.1 with
    | .ok (some _) | .error .full => [entry.1]
    | .ok none => reporting slots older
    | .error _ => entry.1 :: reporting slots older

namespace ClientRun

variable {w : Nat}

def start : ClientRun w := ⟨.new, [], [], [], []⟩

/-- The listed requests with entries the client still lists. -/
def relist (s : ClientRun w) (client : ZenohServiceClient w) : List (SentRequest w) :=
  s.listed.filter fun request => request.entry ∈ client.pendingHandles

def afterSend (maxPending : Nat) (s : ClientRun w) (got : Except ZpicoError Nat) : ClientRun w :=
  let (outcome, client) := s.client.sendRequestRaw maxPending got
  match got, outcome with
  | .ok handle, .ok seq =>
    let request : SentRequest w := ⟨s.sent.length, handle, seq⟩
    { s with
      client := client
      sent := s.sent ++ [request]
      listed := { s with listed := s.listed ++ [request] }.relist client }
  | _, _ => { s with client := client }

def afterTake (s : ClientRun w) (slots : GetSlots) : ClientRun w :=
  let heard := reporting slots s.client.pendingHandles.reverse
  let (outcome, client) := s.client.takeResponseRaw slots
  { s with
    client := client
    listed := s.relist client
    reported := s.reported ++ (s.listed.filter (·.handle ∈ heard)).map SentRequest.id
    returned := match outcome with
      | .ok (some (reply, seq)) =>
        s.returned ++ (s.listed.filter fun request =>
          request.handle ∈ heard ∧ slots.check request.handle = .ok (some reply)).map
            fun request => (request, seq, reply)
      | _ => s.returned }

def step (maxPending : Nat) (s : ClientRun w) : ClientEvent → Option (ClientRun w)
  | .send got => some (s.afterSend maxPending got)
  | .take slots => some (s.afterTake slots)

/-- A send gets a slot none of the outstanding requests has, and there are fewer of them than
slots. -/
def OwnSlots (maxPending : Nat) (s : ClientRun w) : ClientEvent → Prop
  | .send (.ok handle) =>
    s.client.pendingHandles.length < maxPending ∧ handle ∉ s.client.pendingHandles.map Prod.fst
  | _ => True

/-- A poll that finds a failed slot and neither a reply nor a refusal finds none pending, and no
send takes the number of an outstanding request. -/
def SparesSiblings (s : ClientRun w) : ClientEvent → Prop
  | .send (.ok _) => s.client.requestSeq + 1 ∉ s.client.pendingHandles.map Prod.snd
  | .send (.error _) => True
  | .take slots =>
    (∃ entry ∈ s.client.pendingHandles, slots.check entry.1 = .ok none) →
    (∃ entry ∈ s.client.pendingHandles, ∃ e ≠ .full, slots.check entry.1 = .error e) →
    ∃ entry ∈ s.client.pendingHandles,
      (∃ reply, slots.check entry.1 = .ok (some reply)) ∨ slots.check entry.1 = .error .full

/-- A request without a report is still listed, a response carries the number of the request whose
slot held it, and no request is answered twice. -/
structure Delivers (s : ClientRun w) : Prop where
  kept : ∀ request ∈ s.sent, request.id ∉ s.reported → request.entry ∈ s.client.pendingHandles
  own : ∀ response ∈ s.returned, response.1 ∈ s.sent ∧ response.2.1 = response.1.seq
  once : (s.returned.map (·.1.id)).Nodup

/-- The record and the client's list agree, and nothing answered is listed. -/
structure Tracks (s : ClientRun w) : Prop where
  lists : s.client.pendingHandles = s.listed.map SentRequest.entry
  handles : (s.listed.map SentRequest.handle).Nodup
  seqs : (s.listed.map SentRequest.seq).Nodup
  ids : s.sent.map SentRequest.id = List.range s.sent.length
  sent : ∀ request ∈ s.listed, request ∈ s.sent
  kept : ∀ request ∈ s.sent, request.id ∉ s.reported → request ∈ s.listed
  own : ∀ response ∈ s.returned, response.1 ∈ s.sent ∧ response.2.1 = response.1.seq
  gone : ∀ response ∈ s.returned, response.1 ∉ s.listed
  once : (s.returned.map (·.1.id)).Nodup

end ClientRun

section Scan

variable {w : Nat} {slots : GetSlots} {entries : List (Nat × BitVec w)}

theorem reporting_failed {entry : Nat × BitVec w} {e : ZpicoError}
    (answer : slots.check entry.1 = .error e) (notFull : e = .full → False) :
    reporting slots (entry :: entries) = entry.1 :: reporting slots entries := by
  rw [reporting]
  cases e <;> simp_all only [reduceCtorEq, forall_const]

variable {hardErr : Option RmwTransportError}

theorem scan_hit {entry : Nat × BitVec w} {reply : List UInt8}
    (hit : scan slots hardErr entries = .hit entry reply) :
    entry ∈ entries ∧ slots.check entry.1 = .ok (some reply) ∧
      entry.1 ∈ reporting slots entries := by
  induction entries generalizing hardErr with
  | nil => cases hit
  | cons first older ih =>
    rw [scan] at hit
    split at hit
    case h_1 held answer =>
      cases hit
      simp [reporting, answer]
    case h_2 answer =>
      obtain ⟨member, held, heard⟩ := ih hit
      simp [reporting, answer, member, held, heard]
    case h_3 answer => cases hit
    case h_4 e notFull answer =>
      obtain ⟨member, held, heard⟩ := ih hit
      rw [reporting_failed answer notFull]
      simp [member, held, heard]

theorem scan_refused {entry : Nat × BitVec w} {needed : Option Nat}
    (refused : scan slots hardErr entries = .refused entry needed) :
    entry ∈ entries ∧ slots.check entry.1 = .error .full ∧ entry.1 ∈ reporting slots entries := by
  induction entries generalizing hardErr with
  | nil => cases refused
  | cons first older ih =>
    rw [scan] at refused
    split at refused
    case h_1 held answer => cases refused
    case h_2 answer =>
      obtain ⟨member, full, heard⟩ := ih refused
      simp [reporting, answer, member, full, heard]
    case h_3 answer =>
      cases refused
      simp [reporting, answer]
    case h_4 e notFull answer =>
      obtain ⟨member, full, heard⟩ := ih refused
      rw [reporting_failed answer notFull]
      simp [member, full, heard]

theorem scan_finished {found : Option RmwTransportError}
    (finished : scan slots hardErr entries = .finished found) :
    (∀ entry ∈ entries, slots.check entry.1 = .ok none ∨
      (entry.1 ∈ reporting slots entries ∧ ∃ e ≠ .full, slots.check entry.1 = .error e)) ∧
    (found ≠ hardErr → ∃ entry ∈ entries, ∃ e ≠ .full, slots.check entry.1 = .error e) := by
  induction entries generalizing hardErr with
  | nil =>
    cases finished
    exact ⟨fun _ member => absurd member List.not_mem_nil, fun changed => absurd rfl changed⟩
  | cons first older ih =>
    rw [scan] at finished
    split at finished
    case h_1 held answer => cases finished
    case h_2 answer =>
      obtain ⟨silent, failed⟩ := ih finished
      rw [List.forall_mem_cons, List.exists_mem_cons_iff]
      refine ⟨⟨.inl answer, fun entry member => ?_⟩, fun changed => .inr (failed changed)⟩
      rw [reporting, answer]
      exact silent entry member
    case h_3 answer => cases finished
    case h_4 e notFull answer =>
      obtain ⟨silent, -⟩ := ih finished
      rw [List.forall_mem_cons, List.exists_mem_cons_iff, reporting_failed answer notFull]
      have here : ∃ e ≠ .full, slots.check first.1 = .error e := ⟨e, notFull, answer⟩
      refine ⟨⟨.inr ⟨List.mem_cons_self, here⟩, fun entry member => ?_⟩, fun _ => .inl here⟩
      obtain pending | ⟨heard, error⟩ := silent entry member
      · exact .inl pending
      · exact .inr ⟨List.mem_cons_of_mem _ heard, error⟩

theorem scan_of_heard (hardErr : Option RmwTransportError) {handle : Nat} {reply : List UInt8}
    (heard : handle ∈ reporting slots entries) (held : slots.check handle = .ok (some reply)) :
    ∃ entry, entry.1 = handle ∧ scan slots hardErr entries = .hit entry reply := by
  induction entries generalizing hardErr with
  | nil => exact absurd heard List.not_mem_nil
  | cons first older ih =>
    rw [scan]
    split
    case h_1 other answer =>
      simp only [reporting, answer, List.mem_singleton] at heard
      subst heard
      rw [held] at answer
      cases answer
      exact ⟨first, rfl, rfl⟩
    case h_2 answer =>
      simp only [reporting, answer] at heard
      exact ih _ heard
    case h_3 answer =>
      simp only [reporting, answer, List.mem_singleton] at heard
      rw [heard, answer] at held
      cases held
    case h_4 e notFull answer =>
      rw [reporting_failed answer notFull, List.mem_cons] at heard
      obtain rfl | later := heard
      · rw [held] at answer
        cases answer
      · exact ih _ later

theorem scan_append_finished {found : Option RmwTransportError}
    {newer older : List (Nat × BitVec w)} (finished : scan slots hardErr newer = .finished found) :
    scan slots hardErr (newer ++ older) = scan slots found older := by
  induction newer generalizing hardErr with
  | nil =>
    cases finished
    rfl
  | cons first newer ih =>
    rw [scan] at finished
    rw [List.cons_append, scan]
    split at finished
    · cases finished
    · exact ih finished
    · cases finished
    · exact ih finished

theorem scan_append_ended {newer older : List (Nat × BitVec w)}
    (ended : ∀ found, scan slots hardErr newer ≠ .finished found) :
    scan slots hardErr (newer ++ older) = scan slots hardErr newer := by
  induction newer generalizing hardErr with
  | nil => exact absurd rfl (ended hardErr)
  | cons first newer ih =>
    rw [scan] at ended
    rw [List.cons_append, scan, scan]
    split at ended
    · rfl
    · exact ih ended
    · rfl
    · exact ih ended

end Scan

namespace ClientRun

variable {w maxPending : Nat} {s next : ClientRun w}

theorem tracks_start : Tracks (start : ClientRun w) where
  lists := rfl
  handles := List.nodup_nil
  seqs := List.nodup_nil
  ids := rfl
  sent := fun _ member => member
  kept := fun _ member => absurd member List.not_mem_nil
  own := fun _ member => absurd member List.not_mem_nil
  gone := fun _ member => absurd member List.not_mem_nil
  once := List.nodup_nil

theorem Tracks.delivers (tracks : Tracks s) : Delivers s where
  kept := by
    intro request member silent
    rw [tracks.lists]
    exact List.mem_map_of_mem (tracks.kept request member silent)
  own := tracks.own
  once := tracks.once

variable {a b : SentRequest w} {client : ZenohServiceClient w} {slots : GetSlots}
  {request : SentRequest w} {reply : List UInt8} {older newer : List (Nat × BitVec w)}

section

variable (tracks : Tracks s)
include tracks

theorem Tracks.same_of_handle (left : a ∈ s.listed) (right : b ∈ s.listed)
    (same : a.handle = b.handle) : a = b :=
  List.inj_on_of_nodup_map tracks.handles left right same

theorem Tracks.same_of_seq (left : a ∈ s.listed) (right : b ∈ s.listed) (same : a.seq = b.seq)
    : a = b :=
  List.inj_on_of_nodup_map tracks.seqs left right same

theorem Tracks.same_of_id (left : a ∈ s.sent) (right : b ∈ s.sent) (same : a.id = b.id)
    : a = b := by
  have nodup : (s.sent.map SentRequest.id).Nodup := by
    rw [tracks.ids]
    exact List.nodup_range
  exact List.inj_on_of_nodup_map nodup left right same

theorem Tracks.exists_of_entry {entry : Nat × BitVec w} (member : entry ∈ s.client.pendingHandles)
    : ∃ request ∈ s.listed, request.entry = entry := by
  rw [tracks.lists] at member
  exact List.mem_map.mp member

theorem Tracks.relist_eq (stays : SentRequest w → Bool)
    (lists : client.pendingHandles = (s.listed.filter stays).map SentRequest.entry) :
    s.relist client = s.listed.filter stays := by
  apply List.filter_congr
  intro request member
  rw [lists]
  cases held : stays request with
  | true => exact decide_eq_true (List.mem_map_of_mem (List.mem_filter.mpr ⟨member, held⟩))
  | false =>
    apply decide_eq_false
    intro listed
    obtain ⟨other, inside, same⟩ := List.mem_map.mp listed
    obtain ⟨inside, stays⟩ := List.mem_filter.mp inside
    rw [tracks.same_of_handle inside member (congrArg Prod.fst same), held] at stays
    cases stays

theorem Tracks.narrow {reported : List Nat}
    {returned : List (SentRequest w × BitVec w × List UInt8)} (stays : SentRequest w → Bool)
    (lists : client.pendingHandles = (s.listed.filter stays).map SentRequest.entry)
    (heard : s.reported ⊆ reported)
    (kept : ∀ request ∈ s.listed, request.id ∉ reported → stays request = true)
    (own : ∀ response ∈ returned, response.1 ∈ s.sent ∧ response.2.1 = response.1.seq)
    (gone : ∀ response ∈ returned, response.1 ∈ s.listed → stays response.1 = false)
    (once : (returned.map (·.1.id)).Nodup) :
    Tracks ⟨client, s.sent, s.relist client, reported, returned⟩ := by
  rw [tracks.relist_eq stays lists]
  exact {
    lists := lists
    handles := tracks.handles.sublist (List.filter_sublist.map _)
    seqs := tracks.seqs.sublist (List.filter_sublist.map _)
    ids := tracks.ids
    sent := fun request member => tracks.sent request (List.mem_filter.mp member).1
    kept := by
      intro request member silent
      have listed := tracks.kept request member fun reported => silent (heard reported)
      exact List.mem_filter.mpr ⟨listed, kept request listed silent⟩
    own := own
    gone := by
      intro response member listed
      obtain ⟨listed, stays⟩ := List.mem_filter.mp listed
      rw [gone response member listed] at stays
      cases stays
    once := once }

theorem Tracks.retire (answered : BitVec w) : (s.client.retire answered).pendingHandles =
      (s.listed.filter (·.seq ≠ answered)).map SentRequest.entry := by
  rw [ZenohServiceClient.retire, tracks.lists, List.filter_map]
  rfl

end

/-- The requests a poll hears something of. -/
def heardAt (s : ClientRun w) (slots : GetSlots) : List (SentRequest w) :=
  s.listed.filter (·.handle ∈ reporting slots s.client.pendingHandles.reverse)

theorem mem_heardAt (listed : request ∈ s.listed)
    (heard : request.handle ∈ reporting slots s.client.pendingHandles.reverse) :
    request.id ∈ s.reported ++ (s.heardAt slots).map SentRequest.id :=
  List.mem_append_right _
    (List.mem_map_of_mem (List.mem_filter.mpr ⟨listed, decide_eq_true heard⟩))

section

variable (tracks : Tracks s)
include tracks

theorem Tracks.retire_spares {entry : Nat × BitVec w} (member : entry ∈ s.client.pendingHandles)
    (heard : entry.1 ∈ reporting slots s.client.pendingHandles.reverse) :
    ∀ request ∈ s.listed, request.id ∉ s.reported ++ (s.heardAt slots).map SentRequest.id →
      decide (request.seq ≠ entry.2) = true := by
  intro request listed silent
  obtain ⟨other, otherListed, rfl⟩ := tracks.exists_of_entry member
  apply decide_eq_true
  intro same
  obtain rfl := tracks.same_of_seq listed otherListed same
  exact silent (mem_heardAt listed heard)

theorem Tracks.answered (listed : request ∈ s.listed)
    (hit : scan slots none s.client.pendingHandles.reverse = .hit request.entry reply) :
    (s.listed.filter fun other => other.handle ∈ reporting slots s.client.pendingHandles.reverse ∧
      slots.check other.handle = .ok (some reply)) = [request] := by
  have nodup := tracks.handles.of_map.filter (fun other => decide
    (other.handle ∈ reporting slots s.client.pendingHandles.reverse ∧
      slots.check other.handle = .ok (some reply)))
  obtain ⟨-, held, heard⟩ := scan_hit hit
  apply List.perm_singleton.mp
  rw [List.perm_ext_iff_of_nodup nodup (List.nodup_singleton _)]
  intro other
  rw [List.mem_filter, List.mem_singleton, decide_eq_true_iff]
  constructor
  · rintro ⟨otherListed, otherHeard, otherHeld⟩
    obtain ⟨entry, same, again⟩ := scan_of_heard none otherHeard otherHeld
    rw [hit] at again
    cases again
    exact tracks.same_of_handle otherListed listed same.symm
  · rintro rfl
    exact ⟨listed, heard, held⟩

theorem tracks_take (spares : SparesSiblings s (.take slots)) :
    Tracks (s.afterTake slots) := by
  have heardMore : s.reported ⊆ s.reported ++ (s.heardAt slots).map SentRequest.id :=
    List.subset_append_left _ _
  cases scanned : scan slots none s.client.pendingHandles.reverse with
  | hit entry reply =>
    obtain ⟨member, held, heard⟩ := scan_hit scanned
    rw [List.mem_reverse] at member
    have taken : s.client.takeResponseRaw slots =
        (.ok (some (reply, entry.2)), s.client.retire entry.2) := by
      rw [ZenohServiceClient.takeResponseRaw, if_neg (List.ne_nil_of_mem member), scanned]
    obtain ⟨request, listed, rfl⟩ := tracks.exists_of_entry member
    rw [afterTake, taken]
    simp only [tracks.answered listed scanned, List.map_singleton]
    refine tracks.narrow (·.seq ≠ request.seq) (tracks.retire _) heardMore
      (tracks.retire_spares member heard) ?own ?gone ?once
    case own =>
      intro response inside
      obtain earlier | here := List.mem_append.mp inside
      · exact tracks.own response earlier
      · rw [List.mem_singleton.mp here]
        exact ⟨tracks.sent request listed, rfl⟩
    case gone =>
      intro response inside stillListed
      obtain earlier | here := List.mem_append.mp inside
      · exact absurd stillListed (tracks.gone response earlier)
      · rw [List.mem_singleton.mp here]
        exact decide_eq_false fun differs => differs rfl
    case once =>
      rw [List.map_append]
      apply tracks.once.append (List.nodup_singleton _)
      intro id again here
      obtain rfl := List.mem_singleton.mp here
      obtain ⟨response, inside, same⟩ := List.mem_map.mp again
      have answered := tracks.same_of_id (tracks.own response inside).1
        (tracks.sent request listed) same
      exact tracks.gone response inside (answered ▸ listed)
  | refused entry needed =>
    obtain ⟨member, -, heard⟩ := scan_refused scanned
    rw [List.mem_reverse] at member
    have taken : s.client.takeResponseRaw slots =
        (.error .bufferTooSmall, { s.client.retire entry.2 with refusedLen := needed }) := by
      rw [ZenohServiceClient.takeResponseRaw, if_neg (List.ne_nil_of_mem member), scanned]
    rw [afterTake, taken]
    exact tracks.narrow (·.seq ≠ entry.2) (tracks.retire _) heardMore
      (tracks.retire_spares member heard) tracks.own
      (fun response inside listed => absurd listed (tracks.gone response inside)) tracks.once
  | finished found =>
    obtain ⟨silent, failed⟩ := scan_finished scanned
    simp only [List.mem_reverse] at silent failed
    cases found with
    | none =>
      have taken : s.client.takeResponseRaw slots = (.ok none, s.client) := by
        rw [ZenohServiceClient.takeResponseRaw, scanned]
        exact ite_self _
      rw [afterTake, taken]
      apply tracks.narrow (fun _ => true) ?_ heardMore (fun _ _ _ => rfl) tracks.own
        (fun response inside listed => absurd listed (tracks.gone response inside)) tracks.once
      rw [List.filter_true]
      exact tracks.lists
    | some e =>
      obtain ⟨entry, member, error⟩ := failed (by simp)
      have taken : s.client.takeResponseRaw slots =
          (.error e, { s.client with pendingHandles := [] }) := by
        rw [ZenohServiceClient.takeResponseRaw, if_neg (List.ne_nil_of_mem member), scanned]
      have pending : ∀ request ∈ s.listed, slots.check request.handle ≠ .ok none := by
        intro request listed waits
        have waiting : request.entry ∈ s.client.pendingHandles := by
          rw [tracks.lists]
          exact List.mem_map_of_mem listed
        obtain ⟨other, otherMember, answer⟩ :=
          spares ⟨request.entry, waiting, waits⟩ ⟨entry, member, error⟩
        obtain pending | ⟨-, e, notFull, error⟩ := silent other otherMember
        · simp [pending] at answer
        · simp [error, notFull] at answer
      rw [afterTake, taken]
      apply tracks.narrow (fun _ => false) ?_ heardMore ?_ tracks.own
        (fun _ _ _ => rfl) tracks.once
      · rw [List.filter_false]
        rfl
      · intro request listed unheard
        have member : request.entry ∈ s.client.pendingHandles := by
          rw [tracks.lists]
          exact List.mem_map_of_mem listed
        obtain waits | ⟨heard, -⟩ := silent request.entry member
        · exact absurd waits (pending request listed)
        · exact absurd (mem_heardAt listed heard) unheard

theorem afterSend_ok (handle : Nat) (room : s.client.pendingHandles.length < maxPending) :
    s.afterSend maxPending (.ok handle) =
      let request : SentRequest w := ⟨s.sent.length, handle, s.client.requestSeq + 1⟩
      { s with
        client := { s.client with
          pendingHandles := s.client.pendingHandles ++ [request.entry]
          requestSeq := s.client.requestSeq + 1 }
        sent := s.sent ++ [request]
        listed := s.listed ++ [request] } := by
  have tracked : s.client.sendRequestRaw maxPending (.ok handle) =
      (.ok (s.client.requestSeq + 1), { s.client with
        pendingHandles := s.client.pendingHandles ++ [(handle, s.client.requestSeq + 1)]
        requestSeq := s.client.requestSeq + 1 }) := by
    simp only [ZenohServiceClient.sendRequestRaw, ZenohServiceClient.trackOutstanding,
      if_neg room.ne]
  have relisted : relist
      { s with listed := s.listed ++ [⟨s.sent.length, handle, s.client.requestSeq + 1⟩] }
      { s.client with
        pendingHandles := s.client.pendingHandles ++ [(handle, s.client.requestSeq + 1)]
        requestSeq := s.client.requestSeq + 1 } =
      s.listed ++ [⟨s.sent.length, handle, s.client.requestSeq + 1⟩] := by
    apply List.filter_eq_self.mpr
    intro request member
    apply decide_eq_true
    change request.entry ∈ s.client.pendingHandles ++ _
    rw [tracks.lists]
    obtain earlier | here := List.mem_append.mp member
    · exact List.mem_append_left _ (List.mem_map_of_mem earlier)
    · rw [List.mem_singleton.mp here]
      exact List.mem_append_right _ List.mem_cons_self
  rw [afterSend, tracked]
  change ClientRun.mk _ _ (relist _ _) _ _ = _
  rw [relisted]
  rfl

theorem tracks_send {handle : Nat} (slots : OwnSlots maxPending s (.send (.ok handle)))
    (fresh : SparesSiblings s (.send (.ok handle))) :
    Tracks (s.afterSend maxPending (.ok handle)) := by
  obtain ⟨room, apart⟩ := slots
  rw [SparesSiblings] at fresh
  rw [tracks.lists, List.map_map] at apart fresh
  rw [afterSend_ok tracks handle room]
  have newSeq : ∀ other ∈ s.listed, other.seq ≠ s.client.requestSeq + 1 :=
    fun other listed same => fresh (same ▸ List.mem_map_of_mem listed)
  have newHandle : ∀ other ∈ s.listed, other.handle ≠ handle :=
    fun other listed same => apart (same ▸ List.mem_map_of_mem listed)
  exact {
    lists := by
      rw [List.map_append, tracks.lists]
      rfl
    handles := by
      rw [List.map_append]
      apply tracks.handles.append (List.nodup_singleton _)
      intro same inside here
      obtain ⟨other, listed, rfl⟩ := List.mem_map.mp inside
      exact newHandle other listed (List.mem_singleton.mp here)
    seqs := by
      rw [List.map_append]
      apply tracks.seqs.append (List.nodup_singleton _)
      intro same inside here
      obtain ⟨other, listed, rfl⟩ := List.mem_map.mp inside
      exact newSeq other listed (List.mem_singleton.mp here)
    ids := by
      rw [List.map_append, tracks.ids, List.length_append, List.length_singleton, List.range_succ]
      rfl
    sent := by
      intro request member
      obtain earlier | here := List.mem_append.mp member
      · exact List.mem_append_left _ (tracks.sent request earlier)
      · exact List.mem_append_right _ here
    kept := by
      intro request member silent
      obtain earlier | here := List.mem_append.mp member
      · exact List.mem_append_left _ (tracks.kept request earlier silent)
      · exact List.mem_append_right _ here
    own := fun response inside =>
      ⟨List.mem_append_left _ (tracks.own response inside).1, (tracks.own response inside).2⟩
    gone := by
      intro response inside member
      obtain earlier | here := List.mem_append.mp member
      · exact tracks.gone response inside earlier
      · have id : response.1.id ∈ List.range s.sent.length := by
          rw [← tracks.ids]
          exact List.mem_map_of_mem (tracks.own response inside).1
        rw [List.mem_singleton.mp here] at id
        exact absurd (List.mem_range.mp id) (Nat.lt_irrefl _)
    once := tracks.once }

end

theorem tracks_step (event : ClientEvent) (tracks : Tracks s)
    (slots : OwnSlots maxPending s event) (spares : SparesSiblings s event)
    (stepped : s.step maxPending event = some next) : Tracks next := by
  cases event with
  | take answers =>
    cases stepped
    exact tracks_take tracks spares
  | send got =>
    cases stepped
    cases got with
    | ok handle => exact tracks_send tracks slots spares
    | error e => exact { tracks with }

/-! ### When a listed request's slot replies -/

def takes : List ClientEvent → Nat :=
  List.countP fun | .take _ => true | .send _ => false

def sends : List ClientEvent → Nat :=
  List.countP fun | .take _ => false | .send _ => true

def FindsReply (handle : Nat) : ClientEvent → Prop
  | .take slots => ∃ reply, slots.check handle = .ok (some reply)
  | .send _ => True

theorem retire_append {entry other : Nat × BitVec w}
    (lists : client.pendingHandles = older ++ entry :: newer) (differs : entry.2 ≠ other.2)
    (member : other ∈ newer) :
    ∃ older' newer' : List (Nat × BitVec w), newer'.length < newer.length ∧
      (client.retire other.2).pendingHandles = older' ++ entry :: newer' := by
  refine ⟨older.filter (·.2 ≠ other.2), newer.filter (·.2 ≠ other.2), ?_, ?_⟩
  · exact List.length_filter_lt_length_iff_exists.mpr ⟨other, member, by simp⟩
  · rw [ZenohServiceClient.retire, lists, List.filter_append, List.filter_cons_of_pos]
    exact decide_eq_true differs

def Answered (request : SentRequest w) (s : ClientRun w) : Prop :=
  ∃ response ∈ s.returned, response.1 = request

theorem take_advances (tracks : Tracks s) (listed : request ∈ s.listed)
    (lists : s.client.pendingHandles = older ++ request.entry :: newer)
    (held : slots.check request.handle = .ok (some reply)) :
    Answered request (s.afterTake slots) ∨
      ∃ older' newer' : List (Nat × BitVec w), newer'.length < newer.length ∧
        (s.afterTake slots).client.pendingHandles = older' ++ request.entry :: newer' := by
  have nonempty : s.client.pendingHandles ≠ [] := by
    rw [lists]
    exact List.append_ne_nil_of_right_ne_nil _ (List.cons_ne_nil _ _)
  have reversed : s.client.pendingHandles.reverse =
      newer.reverse ++ (request.entry :: older.reverse) := by
    rw [lists, List.reverse_append, List.reverse_cons, List.append_assoc, List.singleton_append]
  have apart : ∀ entry ∈ newer, request.entry.2 ≠ entry.2 := by
    have nodup := tracks.seqs
    have seqs : s.listed.map SentRequest.seq = s.client.pendingHandles.map Prod.snd := by
      rw [tracks.lists, List.map_map]
      rfl
    rw [seqs, lists, List.map_append, List.map_cons, List.nodup_append, List.nodup_cons] at nodup
    intro entry member same
    exact nodup.2.1.1 (same ▸ List.mem_map_of_mem member)
  cases scanned : scan slots none newer.reverse with
  | finished found =>
    have hit : scan slots none s.client.pendingHandles.reverse = .hit request.entry reply := by
      rw [reversed, scan_append_finished scanned, scan]
      simp only [SentRequest.entry, held]
    left
    refine ⟨(request, request.seq, reply), ?_, rfl⟩
    rw [afterTake, ZenohServiceClient.takeResponseRaw, if_neg nonempty, hit]
    simp only [tracks.answered listed hit, List.map_singleton]
    exact List.mem_append_right _ List.mem_cons_self
  | hit entry other =>
    have hit : scan slots none s.client.pendingHandles.reverse = .hit entry other := by
      rw [reversed, scan_append_ended (by simp [scanned]), scanned]
    right
    have member := List.mem_reverse.mp (scan_hit scanned).1
    obtain ⟨older', newer', fewer, left⟩ := retire_append lists (apart entry member) member
    refine ⟨older', newer', fewer, ?_⟩
    rw [← left, afterTake, ZenohServiceClient.takeResponseRaw, if_neg nonempty, hit]
  | refused entry needed =>
    have refused : scan slots none s.client.pendingHandles.reverse = .refused entry needed := by
      rw [reversed, scan_append_ended (by simp [scanned]), scanned]
    right
    have member := List.mem_reverse.mp (scan_refused scanned).1
    obtain ⟨older', newer', fewer, left⟩ := retire_append lists (apart entry member) member
    refine ⟨older', newer', fewer, ?_⟩
    rw [← left, afterTake, ZenohServiceClient.takeResponseRaw, if_neg nonempty, refused]

theorem returned_step (event : ClientEvent) (stepped : s.step maxPending event = some next) :
    s.returned ⊆ next.returned := by
  cases event with
  | send got =>
    cases stepped
    cases got <;> exact List.Subset.refl _
  | take slots =>
    cases stepped
    simp only [afterTake]
    split
    · exact List.subset_append_left _ _
    · exact List.Subset.refl _

theorem answered_step (s : ClientRun w) (event : ClientEvent) (next : ClientRun w)
    (answered : Answered request s) (stepped : s.step maxPending event = some next) :
    Answered request next := by
  obtain ⟨response, inside, own⟩ := answered
  exact ⟨response, returned_step event stepped inside, own⟩

theorem returned_in_time {last : ClientRun w} (events : List ClientEvent) (tracks : Tracks s)
    (listed : request ∈ s.listed)
    (lists : s.client.pendingHandles = older ++ request.entry :: newer)
    (slots : Along (step maxPending) (OwnSlots maxPending) s events)
    (spares : Along (step maxPending) SparesSiblings s events)
    (finds : ∀ event ∈ events, FindsReply request.handle event)
    (enough : newer.length + sends events < takes events)
    (reached : run (step maxPending) s events = some last) :
    Answered request last := by
  induction events generalizing s older newer with
  | nil => exact absurd enough (Nat.not_lt_zero _)
  | cons event events ih =>
    obtain ⟨next, stepped, rest⟩ := Option.bind_eq_some_iff.mp reached
    have tracked := tracks_step event tracks slots.1 spares.1 stepped
    have slots' := slots.2 next stepped
    have spares' := spares.2 next stepped
    have finds' := fun later member => finds later (List.mem_cons_of_mem _ member)
    cases event with
    | send got =>
      have fewer : newer.length + 1 + sends events < takes events := by
        simp only [sends, takes, List.countP_cons, if_true, Bool.false_eq_true, if_false]
          at enough ⊢
        omega
      cases got with
      | ok handle =>
        have sent := afterSend_ok tracks handle slots.1.1
        cases stepped
        have lists' : (s.afterSend maxPending (.ok handle)).client.pendingHandles =
            older ++ request.entry :: (newer ++ [(handle, s.client.requestSeq + 1)]) := by
          rw [sent]
          change s.client.pendingHandles ++ _ = _
          rw [lists, List.append_assoc, List.cons_append]
          rfl
        have still : request ∈ (s.afterSend maxPending (.ok handle)).listed := by
          rw [sent]
          exact List.mem_append_left _ listed
        apply ih tracked still lists' slots' spares' finds' ?_ rest
        rw [List.length_append, List.length_singleton]
        exact fewer
      | error e =>
        cases stepped
        exact ih tracked listed lists slots' spares' finds' (by omega) rest
    | take answers =>
      have fewer : newer.length + sends events < takes events + 1 := by
        simp only [sends, takes, List.countP_cons, if_true, Bool.false_eq_true, if_false]
          at enough ⊢
        omega
      obtain ⟨reply, held⟩ := finds _ List.mem_cons_self
      cases stepped
      obtain returned | ⟨older', newer', shorter, lists'⟩ :=
        take_advances tracks listed lists held
      · exact run_invariant answered_step _ last events returned rest
      · have entry : request.entry ∈ (s.afterTake answers).client.pendingHandles := by
          rw [lists']
          exact List.mem_append_right _ List.mem_cons_self
        have still : request ∈ (s.afterTake answers).listed :=
          List.mem_filter.mpr ⟨listed, decide_eq_true entry⟩
        exact ih tracked still lists' slots' spares' finds' (by omega) rest

theorem bounded_step (event : ClientEvent) (tracks : Tracks s)
    (bounded : s.client.pendingHandles.length ≤ maxPending) (slots : OwnSlots maxPending s event)
    (stepped : s.step maxPending event = some next) :
    next.client.pendingHandles.length ≤ maxPending := by
  cases event with
  | send got =>
    cases stepped
    cases got with
    | ok handle =>
      rw [afterSend_ok tracks handle slots.1]
      change (s.client.pendingHandles ++ [_]).length ≤ maxPending
      rw [List.length_append, List.length_singleton]
      exact slots.1
    | error e => exact bounded
  | take answers =>
    cases stepped
    apply le_trans ?_ bounded
    change (s.client.takeResponseRaw answers).2.pendingHandles.length ≤ _
    rw [ZenohServiceClient.takeResponseRaw]
    split
    · exact le_rfl
    · split
      · exact List.length_filter_le _ _
      · exact List.length_filter_le _ _
      · exact Nat.zero_le _
      · exact le_rfl

theorem reached_tracks_from {last : ClientRun w} {events : List ClientEvent} (tracks : Tracks s)
    (bounded : s.client.pendingHandles.length ≤ maxPending)
    (slots : Along (step maxPending) (OwnSlots maxPending) s events)
    (spares : Along (step maxPending) SparesSiblings s events)
    (reached : run (step maxPending) s events = some last) :
    Tracks last ∧ last.client.pendingHandles.length ≤ maxPending := by
  have keeps : ∀ (s : ClientRun w) (event : ClientEvent) (next : ClientRun w),
      Tracks s ∧ s.client.pendingHandles.length ≤ maxPending →
      OwnSlots maxPending s event ∧ SparesSiblings s event → s.step maxPending event = some next →
      Tracks next ∧ next.client.pendingHandles.length ≤ maxPending := by
    rintro s event next ⟨tracks, bounded⟩ ⟨slots, spares⟩ stepped
    exact ⟨tracks_step event tracks slots spares stepped,
      bounded_step event tracks bounded slots stepped⟩
  exact run_invariant_along keeps s last events ⟨tracks, bounded⟩ (along_and slots spares) reached

/-- Two requests, the second answered at once and the first afterwards. -/
def slotReplies (handle : Nat) (reply : List UInt8) : GetSlots where
  check asked := if asked = handle then .ok (some reply) else .ok none
  replyLen _ := none

def slotFails (handle : Nat) (e : ZpicoError) : GetSlots where
  check asked := if asked = handle then .error e else .ok none
  replyLen _ := none

theorem slotReplies_spares (s : ClientRun w) {handle : Nat} :
    SparesSiblings s (.take (slotReplies handle reply)) := by
  rintro - ⟨entry, -, e, -, answer⟩
  simp only [slotReplies] at answer
  split at answer <;> cases answer

instance (maxPending : Nat) (s : ClientRun w) (event : ClientEvent) :
    Decidable (OwnSlots maxPending s event) :=
  match event with
  | .send (.ok _) => inferInstanceAs (Decidable (_ ∧ _))
  | .send (.error _) | .take _ => isTrue trivial

end ClientRun

end NanoRos.Zenoh
