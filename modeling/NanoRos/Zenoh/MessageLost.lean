import NanoRos.Lib.LittleEndian
import NanoRos.Zenoh.SubscriberRing

/-! The `MessageLost` count of a subscriber: publishers that number their samples, a transport that
loses, repeats and reorders them, and the calls that take them out of the subscriber's ring. -/

namespace NanoRos.Zenoh

open LittleEndian

def rmwGidSize : Nat := 16

def rmwAttachmentSize : Nat := 8 + 8 + 1 + rmwGidSize

def i64FromLe (bytes : List UInt8) : Int := (BitVec.ofNat 64 (leNat bytes)).toInt

def serializeAttachment (seq ts : BitVec 64) (gid : Vector UInt8 16) : List UInt8 :=
  leBytes 8 seq.toNat ++ leBytes 8 ts.toNat ++ [UInt8.ofNat rmwGidSize] ++ gid.toList

structure MessageInfo where
  sequenceNumber : Int
  timestampNs : Int
  publisherGid : List UInt8
  receivedTimestampNs : Int
  deriving DecidableEq

def MessageInfo.fromAttachment (attachment : List UInt8) : Option MessageInfo :=
  if attachment.length < rmwAttachmentSize then none
  else if (attachment.drop 16).head? ≠ some (UInt8.ofNat rmwGidSize) then none
  else some ⟨i64FromLe (attachment.take 8), i64FromLe ((attachment.drop 8).take 8),
    (attachment.drop 17).take rmwGidSize, 0⟩

namespace RingSlot

def slotInfo (slot : RingSlot) : Option MessageInfo :=
  if slot.attachment = [] then none
  else (MessageInfo.fromAttachment slot.attachment).map fun info =>
    { info with receivedTimestampNs := slot.recvNs }

def numbered (slot : RingSlot) : Bool := rmwAttachmentSize ≤ slot.attachment.length

def seq (slot : RingSlot) : Int := i64FromLe (slot.attachment.take 8)

def attachmentTimestampMs (slot : RingSlot) : Nat :=
  if slot.numbered then
    let ns := i64FromLe ((slot.attachment.drop 8).take 8)
    if ns ≤ 0 then 0 else ns.toNat / 1000000
  else 0

/-- The verdict of the lifespan filter, `now` in milliseconds. -/
def expired (slot : RingSlot) (lifespanMs now : Nat) : Bool :=
  lifespanMs ≠ 0 && slot.attachmentTimestampMs ≠ 0 &&
    min (slot.attachmentTimestampMs + lifespanMs) (2 ^ 64 - 1) < now

end RingSlot

/-- A sample in the ring, with a record of who published it and of its number. -/
structure QueuedSample where
  publisher : Nat
  number : Nat
  slot : RingSlot

def QueuedSample.key (sample : QueuedSample) : Nat × Nat := (sample.publisher, sample.number)

/-- The one `TransportError` of the calls that take a sample. -/
inductive TakeError where
  | bufferTooSmall
  deriving DecidableEq

/-- A subscriber, with a record of the samples that entered its ring, of those consumed, and of
those whose number `take_serialized` looked at. -/
structure ZenohSubscriber where
  queue : List QueuedSample
  nextExpectedSeq : Int
  msgLostTotal : Nat
  pendingTooSmall : Bool
  refusedLen : Option Nat
  arrived : List (Nat × Nat)
  consumed : List (Nat × Nat)
  checked : List (Nat × Nat)

namespace ZenohSubscriber

def consumeHead (s : ZenohSubscriber) : ZenohSubscriber :=
  { s with
    queue := s.queue.tail
    consumed := s.consumed ++ (s.queue.take 1).map QueuedSample.key }

def refuseOversizedHead (s : ZenohSubscriber) (len : Nat) : ZenohSubscriber :=
  { s.consumeHead with refusedLen := some len }

/-- Both counts saturate: the gap as the `u32` of the event, and the total. -/
def checkMsgLostAndFire (s : ZenohSubscriber) : ZenohSubscriber :=
  match s.queue with
  | [] => s
  | sample :: _ =>
    if sample.slot.numbered then
      let seq := sample.slot.seq
      let expected := s.nextExpectedSeq
      let gap := if expected = 0 then 0 else if expected < seq then (seq - expected).toNat else 0
      let synced := { s with
        nextExpectedSeq := min (seq + 1) (2 ^ 63 - 1)
        checked := s.checked ++ [sample.key] }
      if gap = 0 then synced
      else { synced with
        msgLostTotal := min (s.msgLostTotal + min gap (2 ^ 32 - 1)) (2 ^ 32 - 1) }
    else s

/-- Whether `take_serialized` delivers this head, rather than refuse or filter it. -/
def delivers (lifespanMs : Nat) (s : ZenohSubscriber) (cap now : Nat) (slot : RingSlot) : Bool :=
  !s.pendingTooSmall && slot.payload.length ≤ cap && !slot.expired lifespanMs now

def takeSerialized (lifespanMs : Nat) (s : ZenohSubscriber) (cap now : Nat) :
    ZenohSubscriber × Except TakeError (Option (List UInt8)) :=
  if s.pendingTooSmall then ({ s with pendingTooSmall := false }, .error .bufferTooSmall)
  else
    match s.queue with
    | [] => (s, .ok none)
    | sample :: _ =>
      let payload := sample.slot.payload
      if cap < payload.length then (s.refuseOversizedHead payload.length, .error .bufferTooSmall)
      else if sample.slot.expired lifespanMs now then (s.consumeHead, .ok none)
      else (s.checkMsgLostAndFire.consumeHead, .ok (some payload))

def takeWithInfo (s : ZenohSubscriber) (cap : Nat) :
    ZenohSubscriber × Except TakeError (Option (List UInt8 × Option MessageInfo)) :=
  match s.queue with
  | [] => (s, .ok none)
  | sample :: _ =>
    let payload := sample.slot.payload
    if cap < payload.length then (s.refuseOversizedHead payload.length, .error .bufferTooSmall)
    else (s.consumeHead, .ok (some (payload, sample.slot.slotInfo)))

/-- The payload is what the callback is shown. -/
def processRawInPlace (s : ZenohSubscriber) : ZenohSubscriber × Option (List UInt8) :=
  match s.queue with
  | [] => (s, none)
  | sample :: _ => (s.consumeHead, some sample.slot.payload)

/-- The loop of `take_sequence`, with the messages still to take. -/
def drain (perMsgCap : Nat) : Nat → ZenohSubscriber → ZenohSubscriber × List (List UInt8)
  | 0, s => (s, [])
  | left + 1, s =>
    match s.queue with
    | [] => (s, [])
    | sample :: _ =>
      let payload := sample.slot.payload
      if perMsgCap < payload.length then
        ({ s.refuseOversizedHead payload.length with pendingTooSmall := true }, [])
      else
        let rest := drain perMsgCap left s.consumeHead
        (rest.1, payload :: rest.2)

def takeSequence (s : ZenohSubscriber) (bufLen perMsgCap maxMsgs outLens : Nat) :
    ZenohSubscriber × Except TakeError (List (List UInt8)) :=
  if s.pendingTooSmall then ({ s with pendingTooSmall := false }, .error .bufferTooSmall)
  else if perMsgCap = 0 ∨ maxMsgs = 0 then (s, .ok [])
  else if bufLen < min maxMsgs outLens * perMsgCap then (s, .error .bufferTooSmall)
  else
    let taken := drain perMsgCap (min maxMsgs outLens) s
    (taken.1, .ok taken.2)

end ZenohSubscriber

/-- The sizes and the lifespan of a subscriber, and the identities of the publishers. -/
structure TopicConfig where
  gid : Nat → Vector UInt8 16
  depth : Nat
  payloadStride : Nat
  attStride : Nat
  lifespanMs : Nat

inductive TopicEvent where
  | publish (publisher : Nat)
  | arrive (publisher number : Nat) (ts : BitVec 64) (crc payload : List UInt8) (admitted : Bool)
      (recvNs : Int) (held : Bool)
  | takeSerialized (cap now : Nat)
  | takeWithInfo (cap : Nat)
  | processRawInPlace
  | takeSequence (bufLen perMsgCap maxMsgs outLens : Nat)

/-- How many samples each publisher has numbered, from 1 on, and the subscriber. -/
structure TopicRun where
  published : Nat → Nat
  sub : ZenohSubscriber

namespace TopicRun

def new : TopicRun := ⟨fun _ => 0, ⟨[], 0, 0, false, none, [], [], []⟩⟩

/-- A sample comes in, any time and any number of times once it is published, behind a reader that
holds the head of the ring or not. Only a ring of one entry, held, has no place for it. -/
def arrive (config : TopicConfig) (s : TopicRun) (publisher number : Nat) (slot : RingSlot)
    (held : Bool) : TopicRun :=
  if held = true ∧ config.depth ≤ s.sub.queue.length ∧ config.depth < 2 then s
  else
    { s with sub := { s.sub with
      queue := keepLast config.depth held s.sub.queue ⟨publisher, number, slot⟩
      arrived := s.sub.arrived ++ [(publisher, number)] } }

def step (config : TopicConfig) (s : TopicRun) : TopicEvent → Option TopicRun
  | .publish publisher =>
    if s.published publisher + 1 < 2 ^ 63 then
      some { s with published :=
        Function.update s.published publisher (s.published publisher + 1) }
    else none
  | .arrive publisher number ts crc payload admitted recvNs held =>
    if 0 < number ∧ number ≤ s.published publisher then
      let attachment := serializeAttachment (BitVec.ofNat 64 number) ts (config.gid publisher)
      let call := PushCall.sample payload (attachment ++ crc) admitted recvNs
      match call.entry config.payloadStride config.attStride with
      | none => some s
      | some slot => some (s.arrive config publisher number slot held)
    else none
  | .takeSerialized cap now =>
    some { s with sub := (s.sub.takeSerialized config.lifespanMs cap now).1 }
  | .takeWithInfo cap => some { s with sub := (s.sub.takeWithInfo cap).1 }
  | .processRawInPlace => some { s with sub := s.sub.processRawInPlace.1 }
  | .takeSequence bufLen perMsgCap maxMsgs outLens =>
    some { s with sub := (s.sub.takeSequence bufLen perMsgCap maxMsgs outLens).1 }

end TopicRun

namespace ZenohSubscriber

/-- The samples numbered between two of their publisher's that entered the ring, and never
consumed. -/
def missing (s : ZenohSubscriber) : Finset (Nat × Nat) :=
  (s.arrived.toFinset.biUnion fun first => s.arrived.toFinset.biUnion fun latest =>
    if first.1 = latest.1 then (Finset.Icc first.2 latest.2).image (Prod.mk first.1) else ∅) \
      s.consumed.toFinset

/-- What `take_serialized` needs before it counts the numbers from the expected one up to its
sample's as lost: that the cell speaks of that publisher, that nobody took those numbers, and that
none of them waits behind. -/
def gapIsReal (s : ZenohSubscriber) (sample : QueuedSample) (behind : List QueuedSample) : Bool :=
  (s.arrived.any fun seen => seen.1 = sample.publisher && (seen.2 : Int) ≤ s.nextExpectedSeq) &&
  (s.consumed.all fun taken => taken.1 ≠ sample.publisher || (taken.2 : Int) < s.nextExpectedSeq) &&
  behind.all fun other => other.publisher ≠ sample.publisher ||
    (other.number : Int) < s.nextExpectedSeq || sample.number ≤ other.number

end ZenohSubscriber

/-- Every gap counted is real, and a sample that comes in is one consumed before or is numbered
above those `take_serialized` looked at. -/
def TopicRun.faithful (config : TopicConfig) (s : TopicRun) : TopicEvent → Bool
  | .arrive publisher number _ _ _ _ _ _ =>
    s.sub.consumed.contains (publisher, number) ||
      s.sub.checked.all fun seen => seen.1 ≠ publisher || seen.2 < number
  | .takeSerialized cap now =>
    match s.sub.queue with
    | [] => true
    | sample :: behind =>
      !(s.sub.delivers config.lifespanMs cap now sample.slot && sample.slot.numbered &&
        s.sub.nextExpectedSeq ≠ 0 && s.sub.nextExpectedSeq < sample.slot.seq) ||
      s.sub.gapIsReal sample behind
  | _ => true

namespace ZenohSubscriber

variable {s : ZenohSubscriber} {reported : Finset (Nat × Nat)} {lifespanMs cap now : Nat}

theorem mem_missing_iff (publisher number : Nat) : (publisher, number) ∈ s.missing ↔
    (∃ first latest, (publisher, first) ∈ s.arrived ∧ (publisher, latest) ∈ s.arrived ∧
      first ≤ number ∧ number ≤ latest) ∧ (publisher, number) ∉ s.consumed := by
  simp only [missing, Finset.mem_sdiff, Finset.mem_biUnion, List.mem_toFinset]
  apply and_congr_left
  intro _
  constructor
  · rintro ⟨⟨p, first⟩, seen, ⟨q, latest⟩, seen', inside⟩
    dsimp only at inside
    split at inside
    next same =>
      rcases Finset.mem_image.mp inside with ⟨n, between, named⟩
      cases named
      cases same
      exact ⟨first, latest, seen, seen', Finset.mem_Icc.mp between⟩
    next => cases inside
  · rintro ⟨first, latest, seen, seen', between⟩
    refine ⟨_, seen, _, seen', ?_⟩
    rw [if_pos rfl]
    exact Finset.mem_image.mpr ⟨number, Finset.mem_Icc.mpr between, rfl⟩

/-- Which samples the count stands for: each in its publisher's range, not consumed and not to be
consumed from the ring, and numbered below one that was looked at. -/
structure Accounted (s : ZenohSubscriber) (reported : Finset (Nat × Nat)) : Prop where
  total : s.msgLostTotal ≤ reported.card
  within : ∀ lost ∈ reported, ∃ first latest, (lost.1, first) ∈ s.arrived ∧
    (lost.1, latest) ∈ s.arrived ∧ first ≤ lost.2 ∧ lost.2 ≤ latest
  untaken : ∀ lost ∈ reported, lost ∉ s.consumed
  absent : ∀ sample ∈ s.queue, sample.key ∉ reported
  passed : ∀ lost ∈ reported, ∃ number, (lost.1, number) ∈ s.checked ∧ lost.2 < number
  entered : ∀ sample ∈ s.queue, sample.key ∈ s.arrived ∧
    (sample.slot.numbered = true → sample.slot.seq = sample.number)
  took : ∀ seen ∈ s.checked, seen ∈ s.consumed

section

variable (accounted : Accounted s reported)
include accounted

theorem Accounted.le_missing :
    s.msgLostTotal ≤ s.missing.card := by
  apply accounted.total.trans
  apply Finset.card_le_card
  intro lost member
  exact (mem_missing_iff lost.1 lost.2).mpr
    ⟨accounted.within lost member, accounted.untaken lost member⟩

theorem Accounted.consumeHead :
    Accounted s.consumeHead reported := by
  refine ⟨accounted.total, accounted.within, ?_, ?_, accounted.passed, ?_, ?_⟩
  · intro lost member taken
    rcases List.mem_append.mp taken with before | head
    · exact accounted.untaken lost member before
    · rcases List.mem_map.mp head with ⟨sample, first, rfl⟩
      exact accounted.absent sample (List.mem_of_mem_take first) member
  · intro sample queued
    exact accounted.absent sample (List.mem_of_mem_tail queued)
  · intro sample queued
    exact accounted.entered sample (List.mem_of_mem_tail queued)
  · intro seen member
    exact List.mem_append_left _ (accounted.took seen member)

theorem Accounted.refuse (len : Nat) :
    Accounted (s.refuseOversizedHead len) reported :=
  { accounted.consumeHead with }

end

/-- The numbers of a publisher from `low` up to `high`, without it. -/
def span (publisher low high : Nat) : Finset (Nat × Nat) :=
  (Finset.Ico low high).image (Prod.mk publisher)

theorem mem_span_iff (publisher low high : Nat) (lost : Nat × Nat) :
    lost ∈ span publisher low high ↔ lost.1 = publisher ∧ low ≤ lost.2 ∧ lost.2 < high := by
  constructor
  · intro member
    rcases Finset.mem_image.mp member with ⟨n, inside, rfl⟩
    exact ⟨rfl, Finset.mem_Ico.mp inside⟩
  · rintro ⟨rfl, inside⟩
    exact Finset.mem_image.mpr ⟨lost.2, Finset.mem_Ico.mpr inside, rfl⟩

theorem card_span (publisher low high : Nat) : (span publisher low high).card = high - low := by
  rw [span, Finset.card_image_of_injective _ (Prod.mk_right_injective publisher), Nat.card_Ico]

variable {sample : QueuedSample} {behind : List QueuedSample}

theorem Accounted.count (accounted : Accounted s reported) (head : s.queue = sample :: behind)
    {low total : Nat} {expected : Int}
    (first : ∃ number, (sample.publisher, number) ∈ s.arrived ∧ number ≤ low)
    (taken : ∀ number, (sample.publisher, number) ∈ s.consumed → number < low)
    (waiting : ∀ other ∈ behind, other.publisher = sample.publisher →
      other.number < low ∨ sample.number ≤ other.number)
    (counted : total ≤ s.msgLostTotal + (sample.number - low)) :
    Accounted { s.consumeHead with
      nextExpectedSeq := expected
      checked := s.checked ++ [sample.key]
      msgLostTotal := total } (reported ∪ span sample.publisher low sample.number) := by
  have consumed : s.consumeHead.consumed = s.consumed ++ [sample.key] := by
    rw [ZenohSubscriber.consumeHead, head]
    rfl
  have queue : s.consumeHead.queue = behind := by
    rw [ZenohSubscriber.consumeHead, head]
    rfl
  have old := accounted.consumeHead
  have apart : Disjoint reported (span sample.publisher low sample.number) := by
    apply Finset.disjoint_left.mpr
    intro lost member inside
    rcases (mem_span_iff _ _ _ _).mp inside with ⟨rfl', low', _⟩
    obtain ⟨number, seen, below⟩ := accounted.passed lost member
    rw [rfl'] at seen
    have := taken number (accounted.took _ seen)
    omega
  constructor
  · rw [Finset.card_union_of_disjoint apart, card_span]
    exact counted.trans (Nat.add_le_add_right accounted.total _)
  · intro lost member
    rcases Finset.mem_union.mp member with before | inside
    · exact accounted.within lost before
    · rcases (mem_span_iff _ _ _ _).mp inside with ⟨publisher, low', high⟩
      obtain ⟨number, seen, least⟩ := first
      rw [publisher]
      refine ⟨number, sample.number, seen, ?_, least.trans low', high.le⟩
      exact (accounted.entered sample (head ▸ List.mem_cons_self)).1
  · intro lost member gone
    rcases Finset.mem_union.mp member with before | inside
    · exact old.untaken lost before gone
    · rcases (mem_span_iff _ _ _ _).mp inside with ⟨publisher, low', high⟩
      dsimp only at gone
      rw [consumed] at gone
      rcases List.mem_append.mp gone with earlier | now
      · have := taken lost.2 (publisher ▸ earlier)
        omega
      · rw [List.mem_singleton.mp now] at high
        exact lt_irrefl _ high
  · intro other member
    dsimp only at member
    rw [Finset.mem_union, not_or]
    refine ⟨old.absent other member, ?_⟩
    intro inside
    rcases (mem_span_iff _ _ _ _).mp inside with ⟨publisher, low', high⟩
    rw [queue] at member
    rcases waiting other member publisher with below | above
    · exact absurd below (Nat.not_lt.mpr low')
    · exact absurd high (Nat.not_lt.mpr above)
  · intro lost member
    rcases Finset.mem_union.mp member with before | inside
    · obtain ⟨number, seen, below⟩ := accounted.passed lost before
      exact ⟨number, List.mem_append_left _ seen, below⟩
    · rcases (mem_span_iff _ _ _ _).mp inside with ⟨publisher, _, high⟩
      refine ⟨sample.number, List.mem_append_right _ ?_, high⟩
      rw [publisher]
      exact List.mem_singleton_self _
  · exact old.entered
  · intro seen member
    dsimp only
    rw [consumed]
    rcases List.mem_append.mp member with before | now
    · exact List.mem_append_left _ (accounted.took seen before)
    · exact List.mem_append_right _ now

theorem Accounted.look (accounted : Accounted s reported) (head : s.queue = sample :: behind)
    (expected : Int) :
    Accounted { s.consumeHead with
      nextExpectedSeq := expected
      checked := s.checked ++ [sample.key] } reported := by
  have old := accounted.consumeHead
  refine ⟨old.total, old.within, old.untaken, old.absent, ?_, old.entered, ?_⟩
  · intro lost member
    obtain ⟨number, seen, below⟩ := accounted.passed lost member
    exact ⟨number, List.mem_append_left _ seen, below⟩
  · intro seen member
    rcases List.mem_append.mp member with before | now
    · exact old.took seen before
    · dsimp only [ZenohSubscriber.consumeHead]
      rw [head]
      exact List.mem_append_right _ now

theorem gapIsReal_iff (sample : QueuedSample) (behind : List QueuedSample) :
    s.gapIsReal sample behind = true ↔
      (∃ number, (sample.publisher, number) ∈ s.arrived ∧ (number : Int) ≤ s.nextExpectedSeq) ∧
      (∀ number, (sample.publisher, number) ∈ s.consumed → (number : Int) < s.nextExpectedSeq) ∧
      ∀ other ∈ behind, other.publisher = sample.publisher →
        (other.number : Int) < s.nextExpectedSeq ∨ sample.number ≤ other.number := by
  simp only [gapIsReal, Bool.and_eq_true, List.any_eq_true, List.all_eq_true, Bool.or_eq_true,
    decide_eq_true_eq, Prod.exists, Prod.forall]
  constructor
  · rintro ⟨⟨⟨_, number, seen, rfl, least⟩, taken⟩, waiting⟩
    refine ⟨⟨number, seen, least⟩, ?_, ?_⟩
    · intro number member
      exact (taken _ number member).resolve_left fun other => other rfl
    · intro other member same
      rcases waiting other member with (differs | below) | above
      · exact absurd same differs
      · exact .inl below
      · exact .inr above
  · rintro ⟨⟨number, seen, least⟩, taken, waiting⟩
    refine ⟨⟨⟨_, number, seen, rfl, least⟩, ?_⟩, ?_⟩
    · intro publisher number member
      by_cases same : publisher = sample.publisher
      · subst same
        exact .inr (taken number member)
      · exact .inl same
    · intro other member
      by_cases same : other.publisher = sample.publisher
      · rw [or_assoc]
        exact .inr (waiting other member same)
      · exact .inl (.inl same)

theorem Accounted.checked (accounted : Accounted s reported) (head : s.queue = sample :: behind)
    (real : sample.slot.numbered = true → s.nextExpectedSeq ≠ 0 →
      s.nextExpectedSeq < sample.slot.seq → s.gapIsReal sample behind = true) :
    ∃ reported', Accounted s.checkMsgLostAndFire.consumeHead reported' := by
  have stamped := (accounted.entered sample (head ▸ List.mem_cons_self)).2
  obtain ⟨queue, expected, total, pending, refused, arrived, consumed, checked⟩ := s
  cases head
  rw [checkMsgLostAndFire]
  dsimp only at real ⊢
  by_cases numbered : sample.slot.numbered = true
  · rw [if_pos numbered]
    have seq := stamped numbered
    by_cases synced : expected = 0
    · rw [if_pos synced, if_pos rfl]
      exact ⟨reported, accounted.look rfl (min (sample.slot.seq + 1) (2 ^ 63 - 1))⟩
    · rw [if_neg synced]
      by_cases lag : expected < sample.slot.seq
      · obtain ⟨⟨number, seen, least⟩, taken, waiting⟩ :=
          (gapIsReal_iff sample behind).mp (real numbered synced lag)
        dsimp only at least taken waiting
        rw [seq] at lag
        rw [seq, if_pos lag, if_neg (by omega)]
        have counted :
            min (total + min ((sample.number : Int) - expected).toNat (2 ^ 32 - 1)) (2 ^ 32 - 1) ≤
              total + (sample.number - expected.toNat) := by
          apply (Nat.min_le_left _ _).trans
          apply Nat.add_le_add_left
          apply (Nat.min_le_left _ _).trans
          omega
        refine ⟨_, accounted.count rfl ⟨number, seen, by omega⟩ ?_ ?_ counted⟩
        · intro number member
          have := taken number member
          omega
        · intro other member same
          have := waiting other member same
          omega
      · rw [if_neg lag, if_pos rfl]
        exact ⟨reported, accounted.look rfl (min (sample.slot.seq + 1) (2 ^ 63 - 1))⟩
  · rw [if_neg numbered]
    exact ⟨reported, accounted.consumeHead⟩

theorem Accounted.takeSerialized (accounted : Accounted s reported)
    (real : ∀ sample behind, s.queue = sample :: behind →
      s.delivers lifespanMs cap now sample.slot = true → sample.slot.numbered = true →
      s.nextExpectedSeq ≠ 0 → s.nextExpectedSeq < sample.slot.seq →
      s.gapIsReal sample behind = true) :
    ∃ reported', Accounted (s.takeSerialized lifespanMs cap now).1 reported' := by
  rw [ZenohSubscriber.takeSerialized]
  split
  next => exact ⟨reported, { accounted with }⟩
  next clear =>
    split
    next => exact ⟨reported, accounted⟩
    next sample behind head =>
      dsimp only
      split
      next => exact ⟨reported, accounted.refuse _⟩
      next fits =>
        split
        next => exact ⟨reported, accounted.consumeHead⟩
        next fresh =>
          apply accounted.checked head
          apply real sample behind head
          simp [delivers, clear, fresh, not_lt.mp fits]

theorem Accounted.drain (perMsgCap left : Nat) {s : ZenohSubscriber}
    (accounted : Accounted s reported) : Accounted (s.drain perMsgCap left).1 reported := by
  induction left generalizing s with
  | zero => exact accounted
  | succ left ih =>
    rw [ZenohSubscriber.drain]
    split
    next => exact accounted
    next sample _ _ =>
      dsimp only
      split
      next => exact { accounted.refuse sample.slot.payload.length with }
      next => exact ih accounted.consumeHead

section

variable (accounted : Accounted s reported)
include accounted

theorem Accounted.takeSequence (bufLen perMsgCap maxMsgs outLens : Nat) :
    Accounted (s.takeSequence bufLen perMsgCap maxMsgs outLens).1 reported := by
  rw [ZenohSubscriber.takeSequence]
  split_ifs
  · exact { accounted with }
  · exact accounted
  · exact accounted
  · exact accounted.drain perMsgCap _

theorem Accounted.takeWithInfo (cap : Nat) :
    Accounted (s.takeWithInfo cap).1 reported := by
  rw [ZenohSubscriber.takeWithInfo]
  split
  next => exact accounted
  next =>
    dsimp only
    split
    next => exact accounted.refuse _
    next => exact accounted.consumeHead

theorem Accounted.processRawInPlace :
    Accounted s.processRawInPlace.1 reported := by
  rw [ZenohSubscriber.processRawInPlace]
  split
  next => exact accounted
  next => exact accounted.consumeHead

end

end ZenohSubscriber

theorem seq_of_entry {payloadStride attStride number : Nat} {ts : BitVec 64}
    {gid : Vector UInt8 16} {crc payload : List UInt8} {admitted : Bool} {recvNs : Int}
    {slot : RingSlot} (small : number < 2 ^ 63)
    (entry : (PushCall.sample payload
      (serializeAttachment (BitVec.ofNat 64 number) ts gid ++ crc) admitted recvNs).entry
        payloadStride attStride = some slot) (numbered : slot.numbered = true) :
    slot.seq = number := by
  rw [PushCall.entry] at entry
  split at entry
  next => cases entry
  next =>
    cases entry
    split at numbered
    next fits =>
      have low : leNat (leBytes 8 (BitVec.ofNat 64 number).toNat) = number := by
        rw [leNat_leBytes, BitVec.toNat_ofNat]
        omega
      rw [RingSlot.seq, i64FromLe, if_pos fits, serializeAttachment, List.append_assoc,
        List.append_assoc, List.append_assoc, List.take_append_of_le_length (by simp),
        List.take_of_length_le (by simp), low, BitVec.toInt_ofNat']
      exact Int.bmod_eq_of_le (by omega) (by omega)
    next => cases numbered

namespace TopicRun

variable {config : TopicConfig} {s next : TopicRun} {reported : Finset (Nat × Nat)}

/-- The numbers published are those an attachment can carry, and the count has its samples. -/
structure Inv (s : TopicRun) : Prop where
  published : ∀ publisher, s.published publisher < 2 ^ 63
  accounted : ∃ reported, s.sub.Accounted reported

theorem inv_new : Inv new := by
  constructor
  · intro publisher
    exact Nat.two_pow_pos 63
  · refine ⟨∅, ⟨le_rfl, ?_, ?_, ?_, ?_, ?_, ?_⟩⟩
    · intro lost member
      cases member
    · intro lost member
      cases member
    · intro sample member
      cases member
    · intro lost member
      cases member
    · intro sample member
      cases member
    · intro seen member
      cases member

theorem accounted_arrive (accounted : s.sub.Accounted reported) {publisher number : Nat}
    {slot : RingSlot} (stamped : slot.numbered = true → slot.seq = number)
    (unreported : (publisher, number) ∉ reported) (held : Bool) :
    (s.arrive config publisher number slot held).sub.Accounted reported := by
  rw [arrive]
  split
  next => exact accounted
  next =>
    have known (sample : QueuedSample) (member : sample ∈ keepLast config.depth held s.sub.queue
        ⟨publisher, number, slot⟩) :
        sample ∈ s.sub.queue ∨ sample = ⟨publisher, number, slot⟩ := by
      rcases List.mem_append.mp (keepLast_sublist.subset member) with old | fresh
      · exact .inl old
      · exact .inr (List.mem_singleton.mp fresh)
    refine ⟨accounted.total, ?_, accounted.untaken, ?_, accounted.passed, ?_, accounted.took⟩
    · intro lost member
      obtain ⟨first, latest, seen, seen', between⟩ := accounted.within lost member
      exact ⟨first, latest, List.mem_append_left _ seen, List.mem_append_left _ seen', between⟩
    · intro sample member
      rcases known sample member with old | rfl
      · exact accounted.absent sample old
      · exact unreported
    · intro sample member
      rcases known sample member with old | rfl
      · have before := accounted.entered sample old
        exact ⟨List.mem_append_left _ before.1, before.2⟩
      · exact ⟨List.mem_append_right _ (List.mem_singleton_self _), stamped⟩

theorem Inv.step {event : TopicEvent} (inv : Inv s) (met : s.faithful config event = true)
    (stepped : s.step config event = some next) : Inv next := by
  obtain ⟨reported, accounted⟩ := inv.accounted
  cases event with
  | publish publisher =>
    rw [TopicRun.step] at stepped
    split at stepped
    next small =>
      cases stepped
      refine ⟨?_, reported, accounted⟩
      intro other
      dsimp only
      by_cases same : other = publisher
      · rw [same, Function.update_self]
        exact small
      · rw [Function.update_of_ne same]
        exact inv.published other
    next => cases stepped
  | arrive publisher number ts crc payload admitted recvNs held =>
    rw [TopicRun.step] at stepped
    split at stepped
    next published =>
      dsimp only at stepped
      split at stepped
      next =>
        cases stepped
        exact inv
      next slot entry =>
        cases stepped
        have small := published.2.trans_lt (inv.published publisher)
        have unreported : (publisher, number) ∉ reported := by
          intro member
          rw [faithful, Bool.or_eq_true] at met
          rcases met with again | above
          · exact accounted.untaken _ member (List.contains_iff_mem.mp again)
          · obtain ⟨later, seen, below⟩ := accounted.passed _ member
            have := List.all_eq_true.mp above _ seen
            simp only [ne_eq, not_true_eq_false, decide_false, Bool.false_or,
              decide_eq_true_eq] at this
            exact absurd below (Nat.not_lt.mpr this.le)
        refine ⟨?_, reported, accounted_arrive accounted (seq_of_entry small entry)
          unreported held⟩
        rw [arrive]
        split_ifs
        · exact inv.published
        · exact inv.published
    next => cases stepped
  | takeSerialized cap now =>
    cases stepped
    refine ⟨inv.published, accounted.takeSerialized ?_⟩
    intro sample behind head delivers numbered synced lag
    simpa [faithful, head, delivers, numbered, synced, lag] using met
  | takeWithInfo cap =>
    cases stepped
    exact ⟨inv.published, reported, accounted.takeWithInfo cap⟩
  | processRawInPlace =>
    cases stepped
    exact ⟨inv.published, reported, accounted.processRawInPlace⟩
  | takeSequence bufLen perMsgCap maxMsgs outLens =>
    cases stepped
    exact ⟨inv.published, reported, accounted.takeSequence bufLen perMsgCap maxMsgs outLens⟩

/-- In a run whose gaps are real and whose samples do not come in after they were given up, the
count is never above the number of samples missing. -/
theorem lost_le_missing (config : TopicConfig) (events : List TopicEvent) (last : TopicRun)
    (reached : run (step config) new events = some last)
    (met : Along (step config) (fun s event => s.faithful config event = true) new events) :
    last.sub.msgLostTotal ≤ last.sub.missing.card := by
  have inv : Inv last := run_invariant_along
    (fun s event next inv holds stepped => Inv.step inv holds stepped) new last events inv_new met
    reached
  obtain ⟨reported, accounted⟩ := inv.accounted
  exact accounted.le_missing

def shared (lifespanMs : Nat) : TopicConfig :=
  ⟨fun publisher => Vector.replicate 16 (UInt8.ofNat publisher), 4, 64, 33, lifespanMs⟩

def arrival (publisher number : Nat) (ts : BitVec 64) : TopicEvent :=
  .arrive publisher number ts [] [1] true 0 false

/-- Of two publishers' samples, two of the first's are lost before `take_serialized` takes its
fourth, and the other's are taken in batches and in place. -/
def twoPublishers : List TopicEvent :=
  [.publish 0, .publish 0, .publish 0, .publish 0, .publish 1, .publish 1,
    arrival 0 1 5, .takeSerialized 8 0, arrival 1 1 5, .takeSequence 8 4 2 2, arrival 1 2 5,
    .processRawInPlace, arrival 0 4 5, arrival 0 4 5, .takeSerialized 8 0, .takeWithInfo 0]

theorem lost_le_missing_two : ∃ last, run (step (shared 0)) new twoPublishers = some last ∧
    last.sub.msgLostTotal = 2 ∧ last.sub.msgLostTotal ≤ last.sub.missing.card :=
  ⟨_, rfl, by decide +kernel, lost_le_missing (shared 0) twoPublishers _ rfl (by decide +kernel)⟩

/-- One publisher, nothing lost: the second sample's lifespan is over when it is taken. -/
def filtered : List TopicEvent :=
  [.publish 0, .publish 0, .publish 0, arrival 0 1 5000000, arrival 0 2 5000000,
    arrival 0 3 900000000, .takeSerialized 8 6, .takeSerialized 8 800, .takeSerialized 8 900]

theorem lost_claim_fails : ¬ ∀ (config : TopicConfig) (events : List TopicEvent) (last : TopicRun),
    run (step config) new events = some last → last.sub.msgLostTotal ≤ last.sub.missing.card := by
  intro all
  have bound := all (shared 100) filtered _ rfl
  revert bound
  decide +kernel

end TopicRun

end NanoRos.Zenoh
