import NanoRos.Rmw.Bridge
import NanoRos.Lib.Runs

/-! A bridge on its own, and two bridges back to back over two networks. -/

namespace NanoRos.Bridge

/-! ### One drain -/

/-- The hashes a ring remembers of those it was given, the last one first. -/
def recent (sent : List UInt64) : List UInt64 :=
  (sent ++ List.replicate dedupWindow 0).take dedupWindow

/-- The bridge called `origin`, which has recorded `sent`, takes the sample for an echo. -/
def Dropped (origin : List UInt8) (sent : List UInt64) (sample : Sample) : Prop :=
  wireEcho origin sample ∨ payloadHash sample.payload ∈ recent sent

instance (origin : List UInt8) (sent : List UInt64) (sample : Sample) :
    Decidable (Dropped origin sent sample) := inferInstanceAs (Decidable (_ ∨ _))

def passed (origin : List UInt8) (sent : List UInt64) : List Sample → List Sample
  | [] => []
  | sample :: waiting =>
    if Dropped origin sent sample then passed origin sent waiting
    else sample :: passed origin (payloadHash sample.payload :: sent) waiting

def hashes (samples : List Sample) : List UInt64 :=
  (samples.map fun sample => payloadHash sample.payload).reverse

/-- No sample passes that has been recorded before. -/
def Caught (origin : List UInt8) (sent : List UInt64) : List Sample → Prop
  | [] => True
  | sample :: waiting =>
    if Dropped origin sent sample then Caught origin sent waiting
    else payloadHash sample.payload ∉ sent ∧
      Caught origin (payloadHash sample.payload :: sent) waiting

instance decidableCaught (origin : List UInt8) :
    ∀ (waiting : List Sample) (sent : List UInt64), Decidable (Caught origin sent waiting)
  | [], _ => isTrue trivial
  | sample :: waiting, sent =>
    if dropped : Dropped origin sent sample then
      have := decidableCaught origin waiting sent
      decidable_of_iff (Caught origin sent waiting) (by rw [Caught, if_pos dropped])
    else
      have := decidableCaught origin waiting (payloadHash sample.payload :: sent)
      decidable_of_iff (payloadHash sample.payload ∉ sent ∧
        Caught origin (payloadHash sample.payload :: sent) waiting)
        (by rw [Caught, if_neg dropped])

theorem hashes_cons (sample : Sample) (samples : List Sample) (sent : List UInt64) :
    hashes (sample :: samples) ++ sent = hashes samples ++ payloadHash sample.payload :: sent := by
  rw [hashes, List.map_cons, List.reverse_cons, List.append_assoc]
  rfl

theorem caught_iff (origin : List UInt8) (sent : List UInt64) (waiting : List Sample)
    (once : sent.Nodup) :
    Caught origin sent waiting ↔ (hashes (passed origin sent waiting) ++ sent).Nodup := by
  induction waiting generalizing sent with
  | nil => exact iff_of_true trivial once
  | cons sample waiting ih =>
    rw [Caught, passed]
    by_cases dropped : Dropped origin sent sample
    · rw [if_pos dropped, if_pos dropped]
      exact ih sent once
    · rw [if_neg dropped, if_neg dropped, hashes_cons]
      constructor
      · rintro ⟨unsent, rest⟩
        exact (ih _ (List.nodup_cons.mpr ⟨unsent, once⟩)).mp rest
      · intro all
        have here : (payloadHash sample.payload :: sent).Nodup := all.of_append_right
        exact ⟨(List.nodup_cons.mp here).1, (ih _ here).mpr all⟩

theorem passed_subset (origin : List UInt8) (sent : List UInt64) (waiting : List Sample) :
    ∀ sample ∈ passed origin sent waiting, sample ∈ waiting := by
  induction waiting generalizing sent with
  | nil => exact fun _ none => none
  | cons head waiting ih =>
    intro sample member
    rw [passed] at member
    split at member
    · exact List.mem_cons_of_mem _ (ih sent sample member)
    · rcases List.mem_cons.mp member with rfl | later
      · exact List.mem_cons_self
      · exact List.mem_cons_of_mem _ (ih _ sample later)

/-- A bridge without a converter, and the hashes it has recorded. -/
structure Bridges (origin : List UInt8) (sent : List UInt64) (b : PubSubBridge) : Prop where
  origin : b.origin = origin
  plain : b.conv = none
  remembers : Remembers b.dedup.ring b.dedup.head (sent ++ List.replicate dedupWindow 0)

variable {origin : List UInt8} {sent : List UInt64} {b : PubSubBridge}

theorem bridges_new (origin : List UInt8) : Bridges origin [] (.new origin) :=
  ⟨rfl, rfl, remembers_fill 0 0⟩

theorem Bridges.contains_iff (bridges : Bridges origin sent b) (hash : UInt64) :
    b.dedup.contains hash = true ↔ hash ∈ recent sent := by
  rw [LoopGuard.contains, decide_eq_true_iff, bridges.remembers.mem_iff]
  rfl

/-- The sample as it leaves, under the bridge's tag. -/
def stamp (origin : List UInt8) (sample : Sample) : Sample :=
  ⟨sample.payload, encodeBridgeOrigin origin 64⟩

variable {sample : Sample} {way : Way} {carried : List Bool}

theorem forward_dropped (bridges : Bridges origin sent b) (named : origin ≠ []) (stats : PumpStats)
    (dropped : Dropped origin sent sample) :
    (forward b stats sample).1 = b ∧ (forward b stats sample).2.2 = none := by
  have named' : b.origin ≠ [] := bridges.origin ▸ named
  rw [forward]
  rcases dropped with wire | recent
  · rw [if_pos (bridges.origin ▸ wire)]
    exact ⟨rfl, rfl⟩
  · split
    · exact ⟨rfl, rfl⟩
    · dsimp only
      rw [if_pos ⟨named', (bridges.contains_iff _).mpr recent⟩]
      exact ⟨rfl, rfl⟩

theorem forward_passed (bridges : Bridges origin sent b) (named : origin ≠ []) (stats : PumpStats)
    (passes : ¬ Dropped origin sent sample) :
    Bridges origin (payloadHash sample.payload :: sent) (forward b stats sample).1 ∧
      (forward b stats sample).2.2 = some (stamp origin sample) := by
  have wire : ¬ wireEcho b.origin sample := fun echo => passes (.inl (bridges.origin ▸ echo))
  have unseen : ¬ (b.origin ≠ [] ∧ b.dedup.contains (payloadHash sample.payload)) :=
    fun seen => passes (.inr ((bridges.contains_iff _).mp seen.2))
  have named' : b.origin ≠ [] := bridges.origin ▸ named
  rw [forward, if_neg wire]
  dsimp only
  rw [if_neg unseen, bridges.plain]
  dsimp only
  rw [if_pos named']
  constructor
  · exact ⟨bridges.origin, rfl, bridges.remembers.record _⟩
  · rw [bridges.origin]
    rfl

theorem drain_eq (named : origin ≠ []) (stats : PumpStats) (waiting : List Sample)
    (bridges : Bridges origin sent b) :
    Bridges origin (hashes (passed origin sent waiting) ++ sent) (drain b stats waiting).1 ∧
      (drain b stats waiting).2.2 = (passed origin sent waiting).map (stamp origin) := by
  induction waiting generalizing b sent stats with
  | nil => exact ⟨bridges, rfl⟩
  | cons sample waiting ih =>
    rw [drain, passed]
    dsimp only
    by_cases dropped : Dropped origin sent sample
    · rcases forward_dropped bridges named stats dropped with ⟨kept, nothing⟩
      rw [if_pos dropped, kept, nothing]
      exact ih _ bridges
    · rcases forward_passed bridges named stats dropped with ⟨after, sample'⟩
      rw [if_neg dropped, hashes_cons, sample']
      rcases ih (forward b stats sample).2.1 after with ⟨last, rest⟩
      refine ⟨last, ?_⟩
      rw [rest]
      rfl

/-! ### One way -/

/-- Pumps a batch at a time, with how many were forwarded and what was published. -/
def pumps (b : PubSubBridge) : List (List Sample) → PubSubBridge × Nat × List Sample
  | [] => (b, 0, [])
  | waiting :: batches =>
    let pumped := pumpWithStats b waiting
    let rest := pumps pumped.1 batches
    (rest.1, pumped.2.1.forwarded + rest.2.1, pumped.2.2 ++ rest.2.2)

/-- No payload's hash is one of the last sixteen before it, counting zeros before the first. -/
def Unrepeated (sent : List UInt64) : List Sample → Prop
  | [] => True
  | sample :: samples => payloadHash sample.payload ∉ recent sent ∧
      Unrepeated (payloadHash sample.payload :: sent) samples

theorem drain_forwarded (b : PubSubBridge) (stats : PumpStats) (waiting : List Sample) :
    (drain b stats waiting).2.1.forwarded = stats.forwarded + (drain b stats waiting).2.2.length := by
  induction waiting generalizing b stats with
  | nil => rfl
  | cons sample waiting ih =>
    have turn : (forward b stats sample).2.1.forwarded =
        stats.forwarded + (forward b stats sample).2.2.toList.length := by
      dsimp only [forward]
      split_ifs
      · rfl
      · rfl
      · split <;> rfl
      · split <;> rfl
    simp [drain, ih, turn, Nat.add_assoc]

theorem pumps_forwarded (b : PubSubBridge) (batches : List (List Sample)) :
    (pumps b batches).2.1 = (pumps b batches).2.2.length := by
  induction batches generalizing b with
  | nil => rfl
  | cons waiting batches ih =>
    have first := drain_forwarded b 0 waiting
    rw [show (0 : PumpStats).forwarded = 0 from rfl, Nat.zero_add] at first
    simp [pumps, pumpWithStats, first, ih]

theorem pumps_unnamed (batches : List (List Sample)) :
    (pumps (.new []) batches).2.2.map Sample.payload = batches.flatten.map Sample.payload := by
  have drained : ∀ stats waiting, (drain (.new []) stats waiting).1 = .new [] ∧
      (drain (.new []) stats waiting).2.2.map Sample.payload = waiting.map Sample.payload := by
    intro stats waiting
    induction waiting generalizing stats with
    | nil => exact ⟨rfl, rfl⟩
    | cons sample waiting ih =>
      have turn : (forward (.new []) stats sample).1 = .new [] := by
        simp [forward, wireEcho, PubSubBridge.new]
      have out : (forward (.new []) stats sample).2.2.toList.map Sample.payload =
          [sample.payload] := by
        simp [forward, wireEcho, PubSubBridge.new]
      simp [drain, turn, out, ih]
  induction batches with
  | nil => rfl
  | cons waiting batches ih => simp [pumps, pumpWithStats, drained, ih]

theorem passed_append (first second : List Sample) :
    passed origin sent (first ++ second) = passed origin sent first ++
      passed origin (hashes (passed origin sent first) ++ sent) second := by
  induction first generalizing sent with
  | nil => rfl
  | cons sample first ih =>
    rw [List.cons_append, passed, passed]
    split
    · exact ih
    · rw [ih, hashes_cons]
      rfl

theorem pumps_named (named : origin ≠ []) (bridges : Bridges origin sent b)
    (batches : List (List Sample)) :
    (pumps b batches).2.2 = (passed origin sent batches.flatten).map (stamp origin) := by
  induction batches generalizing b sent with
  | nil => rfl
  | cons waiting batches ih =>
    have pumped := drain_eq named 0 waiting bridges
    simp [pumps, pumpWithStats, pumped.2, ih pumped.1, passed_append]

theorem length_passed (sent : List UInt64) (waiting : List Sample) :
    (passed origin sent waiting).length ≤ waiting.length := by
  induction waiting generalizing sent with
  | nil => exact le_rfl
  | cons sample waiting ih =>
    rw [passed]
    split
    · exact Nat.le_succ_of_le (ih _)
    · exact Nat.succ_le_succ (ih _)

theorem passed_all_iff (samples : List Sample)
    (untagged : ∀ sample ∈ samples, parseBridgeOrigin sample.attachment = none) :
    (passed origin sent samples).map Sample.payload = samples.map Sample.payload ↔
      Unrepeated sent samples := by
  induction samples generalizing sent with
  | nil => exact iff_of_true rfl trivial
  | cons sample samples ih =>
    have dropped : Dropped origin sent sample ↔ payloadHash sample.payload ∈ recent sent := by
      simp [Dropped, wireEcho, untagged]
    rw [passed, Unrepeated]
    by_cases repeats : payloadHash sample.payload ∈ recent sent
    · rw [if_pos (dropped.mpr repeats)]
      refine iff_of_false ?_ fun fresh => fresh.1 repeats
      intro same
      have short := @length_passed origin sent samples
      have lengths := congrArg List.length same
      simp only [List.length_map, List.length_cons] at lengths
      omega
    · rw [if_neg (mt dropped.mp repeats)]
      simp [repeats, ih fun later member => untagged later (List.mem_cons_of_mem _ member)]

theorem pumps_deliver_iff (origin : List UInt8) (batches : List (List Sample))
    (untagged : ∀ sample ∈ batches.flatten, parseBridgeOrigin sample.attachment = none) :
    ((pumps (.new origin) batches).2.2.map Sample.payload = batches.flatten.map Sample.payload ∧
      (pumps (.new origin) batches).2.1 = batches.flatten.length) ↔
      origin = [] ∨ Unrepeated [] batches.flatten := by
  have counted : (pumps (.new origin) batches).2.2.map Sample.payload =
      batches.flatten.map Sample.payload →
      (pumps (.new origin) batches).2.1 = batches.flatten.length := by
    intro all
    have lengths := congrArg List.length all
    rwa [List.length_map, List.length_map, ← pumps_forwarded] at lengths
  rw [and_iff_left_of_imp counted]
  by_cases unnamed : origin = []
  · rw [unnamed]
    exact iff_of_true (pumps_unnamed batches) (.inl rfl)
  · rw [pumps_named unnamed (bridges_new origin), List.map_map, or_iff_right unnamed]
    exact passed_all_iff _ untagged

theorem pumps_deliver_two : Unrepeated [] [⟨[1], []⟩, ⟨[2], []⟩] ∧
    (pumps (.new [122]) [[⟨[1], []⟩], [⟨[2], []⟩]]).2.1 = 2 := by
  have fresh : Unrepeated [] [⟨[1], []⟩, ⟨[2], []⟩] := ⟨by decide, by decide, trivial⟩
  exact ⟨fresh, ((pumps_deliver_iff [122] [[⟨[1], []⟩], [⟨[2], []⟩]] (by decide)).mpr
    (.inr fresh)).2⟩

/-- A publisher that sends the same payload twice. -/
theorem pumps_lose : ¬ ∀ (origin : List UInt8) (batches : List (List Sample)),
    (∀ sample ∈ batches.flatten, parseBridgeOrigin sample.attachment = none) →
    (pumps (.new origin) batches).2.2.map Sample.payload = batches.flatten.map Sample.payload ∧
      (pumps (.new origin) batches).2.1 = batches.flatten.length := by
  intro all
  have delivered := all [122] [[⟨[1], []⟩, ⟨[1], []⟩]] (by decide)
  revert delivered
  decide

/-! ### The pair -/

/-- `a` takes from the network `x` and publishes on `y`, `b` the other way. -/
inductive Way where
  | a
  | b
  deriving DecidableEq

def Way.back : Way → Way
  | .a => .b
  | .b => .a

instance decidableForallWay (P : Way → Prop) [∀ way, Decidable (P way)] :
    Decidable (∀ way, P way) :=
  decidable_of_iff (P .a ∧ P .b) ⟨fun both way => by cases way; exacts [both.1, both.2],
    fun all => ⟨all .a, all .b⟩⟩

/-- Per bridge, what waits in the network it takes from and the payloads it has published, the
last one first; and the payloads published natively on either network. -/
structure Pair where
  bridge : Way → PubSubBridge
  waiting : Way → List Sample
  published : Way → List (List UInt8)
  native : List (List UInt8)

def originOf (x y : List UInt8) : Way → List UInt8
  | .a => x
  | .b => y

def Pair.start (x y : List UInt8) : Pair where
  bridge way := .new (originOf x y way)
  waiting _ := []
  published _ := []
  native := []

/-- A network queues each sample with or without its attachment. -/
def queued : List Bool → List Sample → List Sample
  | _, [] => []
  | [], sample :: samples => sample :: queued [] samples
  | carried :: rest, sample :: samples =>
    (if carried then sample else { sample with attachment := [] }) :: queued rest samples

inductive PairEvent where
  | publish (network : Way) (sample : Sample)
  | pump (way : Way) (carried : List Bool)

def step (p : Pair) : PairEvent → Option Pair
  | .publish network sample =>
    some { p with
      waiting := Function.update p.waiting network (p.waiting network ++ [sample])
      native := sample.payload :: p.native }
  | .pump way carried =>
    let pumped := pumpWithStats (p.bridge way) (p.waiting way)
    let drained := Function.update p.waiting way []
    some { p with
      bridge := Function.update p.bridge way pumped.1
      waiting := Function.update drained way.back
        (drained way.back ++ queued carried pumped.2.2)
      published := Function.update p.published way
        ((pumped.2.2.map Sample.payload).reverse ++ p.published way) }

/-- Each bridge has published natively published payloads only, and each once. -/
def OnceEachWay (p : Pair) : Prop :=
  ∀ way, (p.published way).Nodup ∧ ∀ payload ∈ p.published way, payload ∈ p.native

instance (p : Pair) : Decidable (OnceEachWay p) :=
  inferInstanceAs (Decidable (∀ _, _ ∧ _))

/-- The native payloads' hashes are distinct. -/
def DistinctNative (p : Pair) : PairEvent → Prop
  | .publish _ sample => payloadHash sample.payload ∉ p.native.map payloadHash
  | .pump _ _ => True

def sentHashes (p : Pair) (way : Way) : List UInt64 := (p.published way).map payloadHash

/-- Every waiting sample that the bridge has forwarded carries its own tag or is still in its
ring when its turn comes. -/
def EchoesCaught (p : Pair) : PairEvent → Prop
  | .publish _ _ => True
  | .pump way _ => Caught (p.bridge way).origin (sentHashes p way) (p.waiting way)

instance (p : Pair) : ∀ event, Decidable (EchoesCaught p event)
  | .publish _ _ => isTrue trivial
  | .pump _ _ => inferInstanceAs (Decidable (Caught _ _ _))

instance (p : Pair) : ∀ event, Decidable (DistinctNative p event)
  | .publish _ _ => inferInstanceAs (Decidable (_ ∉ _))
  | .pump _ _ => isTrue trivial

/-- What holds of a pair in every run: the bridges know what they have published, and no payload
turns up that nobody published. -/
structure Wired (x y : List UInt8) (p : Pair) : Prop where
  bridges : ∀ way, Bridges (originOf x y way) (sentHashes p way) (p.bridge way)
  waiting : ∀ way, ∀ sample ∈ p.waiting way, sample.payload ∈ p.native
  published : ∀ way, ∀ payload ∈ p.published way, payload ∈ p.native
  distinct : (p.native.map payloadHash).Nodup

variable {x y : List UInt8} {p next : Pair}

theorem wired_start (x y : List UInt8) : Wired x y (.start x y) where
  bridges way := bridges_new (originOf x y way)
  waiting _ _ member := by cases member
  published _ _ member := by cases member
  distinct := List.nodup_nil

theorem payload_queued (carried : List Bool) (samples : List Sample) :
    (queued carried samples).map Sample.payload = samples.map Sample.payload := by
  induction samples generalizing carried with
  | nil => cases carried <;> rfl
  | cons sample samples ih =>
    cases carried with
    | nil => exact congrArg (sample.payload :: ·) (ih [])
    | cons carried rest =>
      rw [queued, List.map_cons, List.map_cons, ih rest]
      cases carried <;> rfl

theorem wired_publish {network : Way} (wired : Wired x y p)
    (fresh : DistinctNative p (.publish network sample))
    (stepped : step p (.publish network sample) = some next) : Wired x y next := by
  cases stepped
  refine ⟨wired.bridges, fun way queuedSample member => ?_, fun way payload member => ?_, ?_⟩
  · by_cases here : way = network
    · subst here
      dsimp only at member
      rw [Function.update_self] at member
      rcases List.mem_append.mp member with before | last
      · exact List.mem_cons_of_mem _ (wired.waiting way _ before)
      · rw [List.mem_singleton.mp last]
        exact List.mem_cons_self
    · dsimp only at member
      rw [Function.update_of_ne here] at member
      exact List.mem_cons_of_mem _ (wired.waiting way _ member)
  · exact List.mem_cons_of_mem _ (wired.published way payload member)
  · exact List.nodup_cons.mpr ⟨fresh, wired.distinct⟩

/-- What a pump leaves behind. -/
structure Pumped (x y : List UInt8) (p next : Pair) (way : Way) (carried : List Bool) : Prop where
  native : next.native = p.native
  bridge : Bridges (originOf x y way)
    (hashes (passed (originOf x y way) (sentHashes p way) (p.waiting way)) ++ sentHashes p way)
    (next.bridge way)
  elsewhere : ∀ other, other ≠ way → next.bridge other = p.bridge other ∧
    next.published other = p.published other
  published : next.published way =
    ((passed (originOf x y way) (sentHashes p way) (p.waiting way)).map Sample.payload).reverse ++
      p.published way
  drained : ∀ other, ∀ sample ∈ next.waiting other, sample ∈ p.waiting other ∨
    sample.payload ∈ (passed (originOf x y way) (sentHashes p way) (p.waiting way)).map
      Sample.payload

theorem pumped_of_step (wired : Wired x y p) (named : originOf x y way ≠ [])
    (stepped : step p (.pump way carried) = some next) :
    Pumped x y p next way carried := by
  rcases drain_eq named 0 (p.waiting way) (wired.bridges way) with ⟨after, out⟩
  have payloads : ((pumpWithStats (p.bridge way) (p.waiting way)).2.2).map Sample.payload =
      (passed (originOf x y way) (sentHashes p way) (p.waiting way)).map Sample.payload := by
    rw [pumpWithStats, out, List.map_map]
    rfl
  cases stepped
  refine ⟨rfl, ?_, fun other apart => ?_, ?_, fun other sample member => ?_⟩
  · dsimp only
    rw [Function.update_self]
    exact after
  · exact ⟨Function.update_of_ne apart .., Function.update_of_ne apart ..⟩
  · dsimp only
    rw [Function.update_self, payloads]
  · dsimp only at member
    have kept : ∀ s ∈ Function.update p.waiting way [] other, s ∈ p.waiting other := by
      intro s present
      by_cases here : other = way
      · subst here
        rw [Function.update_self] at present
        cases present
      · rwa [Function.update_of_ne here] at present
    by_cases peer : other = way.back
    · subst peer
      rw [Function.update_self] at member
      rcases List.mem_append.mp member with before | new
      · exact .inl (kept _ before)
      · right
        rw [← payloads, ← payload_queued carried]
        exact List.mem_map_of_mem new
    · rw [Function.update_of_ne peer] at member
      exact .inl (kept _ member)

theorem sent_pumped (pumped : Pumped x y p next way carried) :
    sentHashes next way = hashes (passed (originOf x y way) (sentHashes p way) (p.waiting way)) ++
        sentHashes p way := by
  rw [sentHashes, pumped.published, List.map_append, List.map_reverse, List.map_map]
  rfl

theorem Wired.passed_native (wired : Wired x y p) (way : Way) :
    ∀ payload ∈ (passed (originOf x y way) (sentHashes p way) (p.waiting way)).map Sample.payload,
      payload ∈ p.native := by
  intro payload member
  rcases List.mem_map.mp member with ⟨sample, inside, rfl⟩
  exact wired.waiting way sample (passed_subset _ _ _ sample inside)

theorem wired_pump (wired : Wired x y p) (pumped : Pumped x y p next way carried) :
    Wired x y next := by
  refine ⟨fun other => ?_, fun other sample member => ?_, fun other payload member => ?_, ?_⟩
  · by_cases here : other = way
    · subst here
      rw [sent_pumped pumped]
      exact pumped.bridge
    · rcases pumped.elsewhere other here with ⟨bridge, published⟩
      rw [bridge, sentHashes, published]
      exact wired.bridges other
  · rw [pumped.native]
    rcases pumped.drained other sample member with before | new
    · exact wired.waiting other sample before
    · exact wired.passed_native way _ new
  · rw [pumped.native]
    by_cases here : other = way
    · subst here
      rw [pumped.published] at member
      rcases List.mem_append.mp member with new | before
      · exact wired.passed_native other payload (List.mem_reverse.mp new)
      · exact wired.published other payload before
    · rw [(pumped.elsewhere other here).2] at member
      exact wired.published other payload member
  · rw [pumped.native]
    exact wired.distinct

theorem Wired.nodup_iff (wired : Wired x y p) (way : Way) :
    (sentHashes p way).Nodup ↔ (p.published way).Nodup := by
  constructor
  · exact List.Nodup.of_map payloadHash
  · intro once
    refine once.map_on fun first inside second inside' same => ?_
    have told := List.inj_on_of_nodup_map wired.distinct
    exact told (wired.published way first inside) (wired.published way second inside') same

/-! ### Runs -/

def Repeats (p : Pair) : Prop := ∃ way, ¬ (p.published way).Nodup

theorem repeats_lasts (p : Pair) (event : PairEvent) (next : Pair) (repeats : Repeats p)
    (stepped : step p event = some next) : Repeats next := by
  rcases repeats with ⟨way, twice⟩
  refine ⟨way, fun once => twice ?_⟩
  cases event with
  | publish network sample =>
    cases stepped
    exact once
  | pump other carried =>
    cases stepped
    dsimp only at once
    by_cases here : way = other
    · subst here
      rw [Function.update_self] at once
      exact once.of_append_right
    · rwa [Function.update_of_ne here] at once

theorem named_originOf (named : x ≠ []) (named' : y ≠ []) (way : Way) : originOf x y way ≠ [] := by
  cases way
  · exact named
  · exact named'

theorem pump_once_iff (wired : Wired x y p) (once : (p.published way).Nodup)
    (pumped : Pumped x y p next way carried) :
    (next.published way).Nodup ↔ EchoesCaught p (.pump way carried) := by
  have after := wired_pump wired pumped
  have once' := (wired.nodup_iff way).mpr once
  rw [← after.nodup_iff, sent_pumped pumped, EchoesCaught, (wired.bridges way).origin]
  exact (caught_iff _ _ _ once').symm

theorem wired_step (named : x ≠ []) (named' : y ≠ []) (p : Pair) (event : PairEvent) (next : Pair)
    (wired : Wired x y p) (fresh : DistinctNative p event) (stepped : step p event = some next) :
    Wired x y next := by
  cases event with
  | publish network sample => exact wired_publish wired fresh stepped
  | pump way carried =>
    exact wired_pump wired (pumped_of_step wired (named_originOf named named' way) stepped)

theorem once_keeps (named : x ≠ []) (named' : y ≠ []) (p : Pair) (event : PairEvent) (next : Pair)
    (before : Wired x y p ∧ ¬ Repeats p) (fresh : DistinctNative p event)
    (caught : EchoesCaught p event) (stepped : step p event = some next) :
    Wired x y next ∧ ¬ Repeats next := by
  rcases before with ⟨wired, once⟩
  refine ⟨wired_step named named' p event next wired fresh stepped, ?_⟩
  cases event with
  | publish network sample =>
    cases stepped
    exact once
  | pump way carried =>
    have pumped := pumped_of_step wired (named_originOf named named' way) stepped
    rintro ⟨other, twice⟩
    apply twice
    by_cases here : other = way
    · subst here
      exact (pump_once_iff wired (not_not.mp fun again => once ⟨_, again⟩) pumped).mpr caught
    · rw [(pumped.elsewhere other here).2]
      exact not_not.mp fun again => once ⟨_, again⟩

theorem repeats_breaks (named : x ≠ []) (named' : y ≠ []) (p : Pair) (event : PairEvent)
    (next : Pair) (before : Wired x y p ∧ ¬ Repeats p) (missed : ¬ EchoesCaught p event)
    (stepped : step p event = some next) : Repeats next := by
  rcases before with ⟨wired, once⟩
  cases event with
  | publish network sample => exact absurd trivial missed
  | pump way carried =>
    have pumped := pumped_of_step wired (named_originOf named named' way) stepped
    refine ⟨way, fun again => missed ?_⟩
    exact (pump_once_iff wired (not_not.mp fun twice => once ⟨_, twice⟩) pumped).mp again

theorem wired_run (named : x ≠ []) (named' : y ≠ []) (events : List PairEvent)
    (wired : Wired x y p) (distinct : Along step DistinctNative p events)
    (reached : run step p events = some next) : Wired x y next :=
  run_invariant_along (wired_step named named') p next events wired distinct reached

theorem onceEachWay_iff (wired : Wired x y p) : OnceEachWay p ↔ ¬ Repeats p := by
  constructor
  · rintro once ⟨way, twice⟩
    exact twice (once way).1
  · intro once way
    exact ⟨not_not.mp fun twice => once ⟨way, twice⟩, wired.published way⟩

theorem OnceEachWay.total_le (once : OnceEachWay p) :
    (p.published .a).length + (p.published .b).length ≤ 2 * p.native.length := by
  have bound (way : Way) : (p.published way).length ≤ p.native.length :=
    ((once way).1.subperm (once way).2).length_le
  have there := bound .a
  have back := bound .b
  omega

/-- A pair publishes each native payload at most once each way, and so at most twice, exactly if
every pump catches the echoes it takes. -/
theorem once_each_way_iff (x y : List UInt8) (named : x ≠ []) (named' : y ≠ [])
    (events : List PairEvent) (last : Pair)
    (distinct : Along step DistinctNative (.start x y) events)
    (reached : run step (.start x y) events = some last) : (OnceEachWay last ∧
        (last.published .a).length + (last.published .b).length ≤ 2 * last.native.length) ↔
      Along step EchoesCaught (.start x y) events := by
  have wired := wired_run named named' events (wired_start x y) distinct reached
  have fresh : Wired x y (.start x y) ∧ ¬ Repeats (.start x y) :=
    ⟨wired_start x y, fun ⟨_, twice⟩ => twice List.nodup_nil⟩
  rw [and_iff_left_of_imp OnceEachWay.total_le, onceEachWay_iff wired]
  exact run_sound_iff_of (fun _ before => before.2) (once_keeps named named')
    (fun p event next before _ => repeats_breaks named named' p event next before) repeats_lasts
    _ _ events fresh distinct reached

/-- `n` payloads published in one burst on the network `x`, and back to its bridge. -/
def burst (n : Nat) : List PairEvent :=
  ((List.range n).map fun i => .publish .a ⟨[UInt8.ofNat i], []⟩) ++
    [.pump .a [], .pump .b [], .pump .a []]

def zenoh : List UInt8 := [122, 101, 110, 111, 104]

def xrce : List UInt8 := [120, 114, 99, 101]

theorem once_each_way_three :
    ∃ last, run step (.start zenoh xrce) (burst 3) = some last ∧ OnceEachWay last ∧
      (last.published .a).length + (last.published .b).length ≤ 2 * last.native.length := by
  have reached : run step (.start zenoh xrce) (burst 3) = some _ := rfl
  refine ⟨_, reached, ?_⟩
  exact (once_each_way_iff zenoh xrce (by decide) (by decide) (burst 3) _ (by decide +kernel)
    reached).mpr (by decide +kernel)

/-- Seventeen payloads at once: the first echo has left the ring when it comes back, and forwarding
it puts the next one out. -/
theorem once_claim_fails :
    ∃ last, run step (.start zenoh xrce) (burst 17) = some last ∧
      Along step DistinctNative (.start zenoh xrce) (burst 17) ∧ ¬ OnceEachWay last ∧
      2 * last.native.length < (last.published .a).length + (last.published .b).length := by
  refine ⟨_, rfl, ?_, ?_, ?_⟩
  · decide +kernel
  · decide +kernel
  · decide +kernel

end NanoRos.Bridge
