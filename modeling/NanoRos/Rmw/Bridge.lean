import NanoRos.Lib.RecentRing

/-! A bridge from the subscription on one network to the publisher on another: the origin tag it
stamps on what it forwards, the ring of hashes it has forwarded lately, and the drain loop. -/

namespace NanoRos.Bridge

/-- An attachment is given as the take reports it, empty if the sample came without one. -/
structure Sample where
  payload : List UInt8
  attachment : List UInt8
  deriving DecidableEq

def dedupWindow : Nat := 16

instance : NeZero dedupWindow := ⟨by decide⟩

structure LoopGuard where
  ring : Fin dedupWindow → UInt64
  head : Fin dedupWindow

namespace LoopGuard

def new : LoopGuard := ⟨fun _ => 0, 0⟩

def record (g : LoopGuard) (hash : UInt64) : LoopGuard :=
  ⟨Function.update g.ring g.head hash, g.head + 1⟩

def contains (g : LoopGuard) (hash : UInt64) : Bool := decide (∃ i, g.ring i = hash)

end LoopGuard

/-! ### The origin tag -/

/-- `NROSBRDG` -/
def bridgeOriginMagic : List UInt8 := [78, 82, 79, 83, 66, 82, 68, 71]

def bridgeOriginVersion : UInt8 := 1

def bridgeOriginHeaderLen : Nat := 10

/-- What is written of a buffer of `outLen` bytes. -/
def encodeBridgeOrigin (origin : List UInt8) (outLen : Nat) : List UInt8 :=
  if origin = [] then []
  else
    let copy := min origin.length (min (outLen - bridgeOriginHeaderLen) 0xFF)
    if outLen < bridgeOriginHeaderLen + copy then []
    else bridgeOriginMagic ++ bridgeOriginVersion :: UInt8.ofNat copy :: origin.take copy

def parseBridgeOrigin (att : List UInt8) : Option (List UInt8) :=
  if att.length < bridgeOriginHeaderLen then none
  else if att.take 8 ≠ bridgeOriginMagic then none
  else if att.getD 8 0 ≠ bridgeOriginVersion then none
  else
    let n := (att.getD 9 0).toNat
    if att.length < bridgeOriginHeaderLen + n then none
    else some ((att.drop bridgeOriginHeaderLen).take n)

theorem parse_encode (origin : List UInt8) (outLen : Nat) (named : origin ≠ [])
    (room : bridgeOriginHeaderLen ≤ outLen) :
    parseBridgeOrigin (encodeBridgeOrigin origin outLen) =
      some (origin.take (min (outLen - bridgeOriginHeaderLen) 0xFF)) := by
  let most := min (outLen - bridgeOriginHeaderLen) 0xFF
  let copy := min origin.length most
  have room' : 10 ≤ outLen := room
  have small : copy < 256 := by
    apply lt_of_le_of_lt (Nat.min_le_right _ _)
    exact lt_of_le_of_lt (Nat.min_le_right _ _) (by decide)
  have fits : ¬ outLen < bridgeOriginHeaderLen + copy := by
    have within : copy ≤ outLen - bridgeOriginHeaderLen :=
      (Nat.min_le_right _ _).trans (Nat.min_le_left _ _)
    omega
  have tag : encodeBridgeOrigin origin outLen =
      bridgeOriginMagic ++ bridgeOriginVersion :: UInt8.ofNat copy :: origin.take copy := by
    rw [encodeBridgeOrigin, if_neg named]
    exact if_neg fits
  have length : (origin.take copy).length = copy :=
    (List.length_take ..).trans (Nat.min_eq_left (Nat.min_le_left _ _))
  have whole : origin.take copy = origin.take most := by
    rw [List.take_eq_take_iff, Nat.min_comm, Nat.min_comm most, ← Nat.min_assoc, Nat.min_self]
  rw [tag, parseBridgeOrigin, ← whole]
  simp only [bridgeOriginMagic, bridgeOriginHeaderLen, List.cons_append, List.nil_append,
    List.length_cons, List.take_succ_cons, List.take_zero, List.getD_cons_succ, List.getD_cons_zero,
    List.drop_succ_cons, List.drop_zero, length, ne_eq, not_true_eq_false, if_false, List.take_take]
  have size : (UInt8.ofNat copy).toNat = copy := UInt8.toNat_ofNat_of_lt small
  rw [size, if_neg (by omega), if_neg (by omega), Nat.min_self]

theorem parse_encode_cut :
    parseBridgeOrigin (encodeBridgeOrigin [100, 100, 115] 12) = some [100, 100] :=
  parse_encode [100, 100, 115] 12 (by decide) (by decide)

/-! ### Forwarding -/

def payloadHash (bytes : List UInt8) : UInt64 :=
  bytes.foldl (fun h b => (h ^^^ b.toUInt64) * 0x100000001b3) 0xcbf29ce484222325

/-- `conv` is what the converter makes of a payload, or nothing where it refuses it. -/
structure PubSubBridge where
  origin : List UInt8
  dedup : LoopGuard
  conv : Option (List UInt8 → Option (List UInt8))

def PubSubBridge.new (origin : List UInt8) : PubSubBridge := ⟨origin, .new, none⟩

structure PumpStats where
  forwarded : Nat
  droppedEcho : Nat
  droppedConvert : Nat
  deriving DecidableEq

instance : Zero PumpStats := ⟨⟨0, 0, 0⟩⟩

/-- The attachment carries this origin's tag. -/
def wireEcho (origin : List UInt8) (sample : Sample) : Prop :=
  origin ≠ [] ∧ sample.attachment ≠ [] ∧ parseBridgeOrigin sample.attachment = some origin

instance (origin : List UInt8) (sample : Sample) : Decidable (wireEcho origin sample) :=
  inferInstanceAs (Decidable (_ ∧ _))

/-- One turn of the drain loop, with what it publishes. -/
def forward (b : PubSubBridge) (stats : PumpStats) (sample : Sample) :
    PubSubBridge × PumpStats × Option Sample :=
  if wireEcho b.origin sample then
    (b, { stats with droppedEcho := stats.droppedEcho + 1 }, none)
  else
    let hash := payloadHash sample.payload
    if b.origin ≠ [] ∧ b.dedup.contains hash then
      (b, { stats with droppedEcho := stats.droppedEcho + 1 }, none)
    else
      let out := match b.conv with
        | none => some sample.payload
        | some c => c sample.payload
      match out with
      | none => (b, { stats with droppedConvert := stats.droppedConvert + 1 }, none)
      | some out =>
        let dedup := if b.origin ≠ [] then b.dedup.record hash else b.dedup
        ({ b with dedup := dedup }, { stats with forwarded := stats.forwarded + 1 },
          some ⟨out, encodeBridgeOrigin b.origin 64⟩)

/-- Drains the samples that wait, on networks whose calls succeed. -/
def drain (b : PubSubBridge) (stats : PumpStats) :
    List Sample → PubSubBridge × PumpStats × List Sample
  | [] => (b, stats, [])
  | sample :: waiting =>
    let turn := forward b stats sample
    let rest := drain turn.1 turn.2.1 waiting
    (rest.1, rest.2.1, turn.2.2.toList ++ rest.2.2)

def pumpWithStats (b : PubSubBridge) (waiting : List Sample) :
    PubSubBridge × PumpStats × List Sample := drain b 0 waiting

end NanoRos.Bridge
