import NanoRos.Node.ParameterServices
import NanoRos.Serdes.RoundTrip

/-! The atomic set over the wire: what the check pass promises and what the write pass does. -/

namespace NanoRos

open Memory

/-- A parameter of a set request: its name, and its value if it could be converted. -/
abbrev RequestItem := String × Except ConversionError ParameterValue

def setItems (caps : ParamCaps) : Nat → CdrReader → Except DeserError (List RequestItem × CdrReader)
  | 0, r => .ok ([], r)
  | n + 1, r => do
    let (item, r) ← readSetItem caps r
    let (items, r) ← setItems caps n r
    return (item :: items, r)

/-- The parameters of an atomic set request, as the handler's passes read them. -/
def requestItems (caps : ParamCaps) (r : CdrReader) : Except DeserError (List RequestItem) := do
  if !r.isAtOrigin then throw .unexpectedEof
  let (body, _) ← r.readBytes r.remaining
  let (count, pass) ← atomicPass body r.version
  let (items, _) ← setItems caps count pass
  return items

/-- The first field of the `SetParametersResult` in a reply, as a client reads it. -/
def replySuccessful (w : CdrWriter) : Except DeserError Bool := do
  let r ← CdrReader.newWithHeader w.asSlice
  let (successful, _) ← r.readBool
  return successful

/-! The handler over the items. -/

section

variable (caps : ParamCaps) (node : NodeKey)

def applyItem (s : ParameterServer) : RequestItem → ParameterServer
  | (_, .error _) => s
  | (name, .ok value) => (s.applyRef caps node name value).2

theorem atomicCheckLoop_eq (s : ParameterServer) (n : Nat) (canSetAll : Bool) (r : CdrReader) :
    atomicCheckLoop caps s node n canSetAll r = (fun read : List RequestItem × CdrReader =>
        (canSetAll && read.1.all fun item => atomicFine caps s node item.1 item.2, read.2)) <$>
        setItems caps n r := by
  induction n generalizing canSetAll r with
  | zero => simp [atomicCheckLoop, setItems]
  | succ n ih =>
    rw [atomicCheckLoop, setItems]
    cases first : readSetItem caps r with
    | error e => rfl
    | ok read =>
      obtain ⟨⟨name, value⟩, r⟩ := read
      simp only [ok_bind]
      rw [ih]
      cases setItems caps n r with
      | error e => rfl
      | ok rest => simp [Bool.and_assoc]

theorem atomicApplyLoop_eq {items : List RequestItem} {n : Nat} {r last : CdrReader}
    (s : ParameterServer) (read : setItems caps n r = .ok (items, last)) :
    atomicApplyLoop caps node n s r = (items.foldl (applyItem caps node) s, .ok ()) := by
  induction n generalizing s r items with
  | zero =>
    cases read
    rfl
  | succ n ih =>
    rw [setItems] at read
    obtain ⟨⟨⟨name, value⟩, r⟩, first, rest⟩ := bind_eq_ok.mp read
    obtain ⟨⟨items, last'⟩, later, done⟩ := bind_eq_ok.mp rest
    cases done
    rw [atomicApplyLoop, first]
    cases value with
    | error e =>
      dsimp only
      rw [ih s later]
      rfl
    | ok value =>
      dsimp only
      rw [ParameterServer.applyStaged_eq_apply, ih _ later]
      rfl

end

variable {caps : ParamCaps} {s : ParameterServer} {node : NodeKey}

theorem streamSetParametersAtomically_eq {r : CdrReader} {items : List RequestItem}
    (decoded : requestItems caps r = .ok items) (w : CdrWriter) :
    streamSetParametersAtomically caps s node r w =
      if items.all fun item => atomicFine caps s node item.1 item.2 then
        (items.foldl (applyItem caps node) s, serFailed (writeSetResult w true ""))
      else (s, serFailed (writeSetResult w false atomicFailureReason)) := by
  unfold requestItems at decoded
  by_cases origin : r.isAtOrigin = true
  · rw [if_neg (by simp [origin])] at decoded
    obtain ⟨⟨body, behind⟩, taken, decoded⟩ := bind_eq_ok.mp decoded
    obtain ⟨⟨count, pass⟩, begun, decoded⟩ := bind_eq_ok.mp decoded
    obtain ⟨⟨items', last⟩, read, same⟩ := bind_eq_ok.mp decoded
    cases same
    unfold streamSetParametersAtomically
    rw [if_neg (by simp [origin]), taken]
    dsimp only
    rw [begun, ok_bind, atomicCheckLoop_eq, read, ok_map, Bool.true_and]
    cases items.all fun item => atomicFine caps s node item.1 item.2 with
    | true =>
      dsimp only
      rw [atomicApplyLoop_eq caps node s read]
      rfl
    | false => rfl
  · rw [if_pos (by simpa using origin)] at decoded
    cases decoded

/-! The reply. -/

theorem reply_asSlice {buf : List UInt8} {w : CdrWriter}
    (opened : CdrWriter.newWithHeader buf = .ok w) {bytes : List UInt8}
    (fits : w.pos + bytes.length ≤ w.buf.length) : (w.after bytes).asSlice = cdrLeHeader ++ bytes := by
  rw [CdrWriter.newWithHeader] at opened
  split at opened
  · cases opened
  next room =>
    cases opened
    rw [CdrWriter.asSlice, CdrWriter.after]
    dsimp only at fits ⊢
    have front := take_overwrite buf 0 cdrLeHeader (Nat.zero_le _)
    rw [take_overwrite _ _ _ (Nat.le_trans (Nat.le_add_right _ _) fits)]
    have header : (0 : Nat) + cdrLeHeader.length = 4 := rfl
    rw [header] at front
    rw [front]
    rfl

theorem newWithHeader_ready {buf : List UInt8} {w : CdrWriter}
    (opened : CdrWriter.newWithHeader buf = .ok w) : w.Ready := by
  rw [CdrWriter.newWithHeader] at opened
  split at opened
  · cases opened
  next room =>
    cases opened
    refine ⟨Nat.le_refl _, ?_, rfl⟩
    show 4 ≤ (overwrite buf 0 cdrLeHeader).length
    rw [length_overwrite _ _ _ (by show 0 + 4 ≤ _; omega)]
    omega

theorem replySuccessful_written {buf : List UInt8} {w w' : CdrWriter}
    (opened : CdrWriter.newWithHeader buf = .ok w) {successful : Bool} {reason : String}
    (written : writeSetResult w successful reason = .ok w') :
    replySuccessful w' = .ok successful := by
  have ready := newWithHeader_ready opened
  obtain ⟨next, flagged, told⟩ := bind_eq_ok.mp written
  have flag : w.emit (Wire.lit [if successful then 1 else 0]) = .ok next := flagged
  obtain ⟨moved, _, nextReady⟩ := CdrWriter.emit_eq_ok ready flag
  rw [CdrWriter.writeString_eq_emit next nextReady _ (CdrWriter.writeString_fits told)] at told
  obtain ⟨placed, fits, _⟩ := CdrWriter.emit_eq_ok nextReady told
  have room := (CdrWriter.emit_eq_ok ready flag).2.1
  rw [moved] at placed fits
  have grown := length_overwrite w.buf w.pos _ room
  rw [CdrWriter.after_pos, CdrWriter.after, grown] at fits
  rw [placed, CdrWriter.after_after _ _ _ room, replySuccessful, reply_asSlice opened]
  · cases successful <;> rfl
  · rw [List.length_append]
    dsimp only [CdrWriter.after] at fits ⊢
    omega

/-! The write pass. -/

namespace ParameterServer

/-- What a request asks a parameter to be. -/
def wanted (s : ParameterServer) (node : NodeKey) (value : ParameterValue) :
    Option ParameterValue := if s.deletes node value then none else some value

/-- No hook refuses the change, as the write pass presents it. -/
def Accepts (s : ParameterServer) (node : NodeKey) (name : String) (value : ParameterValue) :
    Prop :=
  if s.deletes node value then
    s.entryOf node name = none ∨ s.runOnSetCallbacks node name (s.get node name) none = true
  else s.runOnSetCallbacks node name (s.get node name) (some value) = true

/-- The slots taken once a parameter is as asked, of `taken` before. -/
def takenAfter (s : ParameterServer) (node : NodeKey) (name : String) (value : ParameterValue)
    (taken : Nat) : Nat :=
  if s.deletes node value then taken - (s.entryOf node name).isSome.toNat
  else taken + (s.entryOf node name).isNone.toNat

/-- A set of a name the store does not hold, which needs a slot. -/
def Declares (s : ParameterServer) (node : NodeKey) (name : String) (value : ParameterValue) :
    Prop := s.entryOf node name = none ∧ s.deletes node value = false

/-- Each undeclared name of the request finds an empty slot when its turn comes. -/
def Roomy (s : ParameterServer) (node : NodeKey) : Nat → List RequestItem → Prop
  | _, [] => True
  | taken, (_, .error _) :: items => Roomy s node taken items
  | taken, (name, .ok value) :: items =>
    (s.Declares node name value → taken < s.capacity) ∧
      Roomy s node (s.takenAfter node name value taken) items

/-- The store in the middle of the write pass: nothing has happened to `names` yet. -/
structure Midway (s cur : ParameterServer) (node : NodeKey) (names : List String) : Prop where
  valid : cur.Valid
  entryOf : ∀ m ∈ names, cur.entryOf node m = s.entryOf node m
  capacity : cur.capacity = s.capacity
  allowUndeclared : cur.allowUndeclared = s.allowUndeclared
  deleteOnNotSet : cur.deleteOnNotSet = s.deleteOnNotSet
  onSet : cur.onSet = s.onSet

namespace Midway

variable {cur : ParameterServer} {name : String} {names : List String} {value : ParameterValue}

theorem mono {names' : List String} (mid : s.Midway cur node names)
    (fewer : ∀ m ∈ names', m ∈ names) : s.Midway cur node names' :=
  ⟨mid.valid, fun m member => mid.entryOf m (fewer m member), mid.capacity, mid.allowUndeclared,
    mid.deleteOnNotSet, mid.onSet⟩

theorem writes (mid : s.Midway cur node (name :: names)) (fresh : name ∉ names)
    {next : ParameterServer} {new : Option ParameterEntry}
    (writes : cur.Writes next node name new) : s.Midway next node names where
  valid := writes.valid
  entryOf := fun m member => by
    have other : ¬ (node, m) = (node, name) := fun same => fresh ((Prod.mk.inj same).2 ▸ member)
    rw [writes.entryOf, if_neg other]
    exact mid.entryOf m (List.mem_cons_of_mem _ member)
  capacity := writes.capacity.trans mid.capacity
  allowUndeclared := writes.allowUndeclared.trans mid.allowUndeclared
  deleteOnNotSet := writes.deleteOnNotSet.trans mid.deleteOnNotSet
  onSet := writes.onSet.trans mid.onSet

section

variable (mid : s.Midway cur node names)
include mid

theorem deletes : cur.deletes node value = s.deletes node value := by
  rw [ParameterServer.deletes, ParameterServer.deletes, mid.deleteOnNotSet]

theorem hooks (old new : Option ParameterValue) :
    cur.runOnSetCallbacks node name old new = s.runOnSetCallbacks node name old new := by
  rw [runOnSetCallbacks, runOnSetCallbacks, mid.onSet]

theorem get (member : name ∈ names) :
    cur.get node name = s.get node name := by
  rw [ParameterServer.get, ParameterServer.get, mid.entryOf name member]

theorem checkApply (member : name ∈ names) (checked : s.checkApply caps node name value = .ok ()) :
    cur.checkApply caps node name value = .ok () ↔
      (s.entryOf node name = none → cur.count < s.capacity) := by
  have held := mid.entryOf name member
  cases missing : s.entryOf node name with
  | some entry =>
    rw [missing] at held
    rw [ParameterServer.checkApply, missing] at checked
    rw [ParameterServer.checkApply, held]
    exact iff_of_true checked fun impossible => by cases impossible
  | none =>
    rw [missing] at held
    obtain ⟨allowed, _, short⟩ := (checkApply_missing missing value).mp checked
    rw [checkApply_missing held, mid.capacity, allowsUndeclared, mid.allowUndeclared]
    exact ⟨fun passes _ => passes.2.1, fun room => ⟨allowed, room rfl, short⟩⟩

end

theorem apply (mid : s.Midway cur node (name :: names)) (fresh : name ∉ names)
    (checked : s.checkApply caps node name value = .ok ()) (accepts : s.Accepts node name value)
    {next : ParameterServer} (applied : next = (cur.applyRef caps node name value).2) :
    s.Midway next node names ∧ (∀ m, m ≠ name → next.entryOf node m = cur.entryOf node m) ∧
      ((s.Declares node name value → cur.count < s.capacity) →
        next.get node name = s.wanted node value ∧
          next.count = s.takenAfter node name value cur.count) ∧
      (¬(s.Declares node name value → cur.count < s.capacity) → next = cur) := by
  have member : name ∈ name :: names := List.mem_cons_self
  have deletes := @Midway.deletes s node cur _ value mid
  have held := mid.entryOf name member
  have got := mid.get member
  have others : ∀ {new}, cur.Writes next node name new →
      ∀ m, m ≠ name → next.entryOf node m = cur.entryOf node m := by
    intro new writes m other
    rw [writes.entryOf, if_neg fun same => other (Prod.mk.inj same).2]
  have later := mid.mono fun m member => List.mem_cons_of_mem name member
  unfold Accepts at accepts
  cases sets : s.deletes node value with
  | false =>
    rw [sets] at deletes
    rw [sets, if_neg Bool.false_ne_true, ← mid.hooks, ← got] at accepts
    have room := mid.checkApply member checked
    have declares : s.Declares node name value ↔ s.entryOf node name = none :=
      and_iff_left sets
    rw [declares, ← room]
    cases verdict : cur.checkApply caps node name value with
    | ok =>
      obtain ⟨entry, holds, writes⟩ := mid.valid.applyRef deletes verdict accepts
      rw [← applied] at writes
      refine ⟨mid.writes fresh writes, others writes, fun _ => ⟨?_, ?_⟩, ?_⟩
      · rw [ParameterServer.get, writes.entryOf, if_pos rfl, wanted, sets]
        exact congrArg some holds
      · have counts := writes.count
        rw [held] at counts
        rw [takenAfter, sets]
        cases present : s.entryOf node name with
        | none | some entry => simpa [present] using counts
      · intro refused
        exact absurd rfl refused
    | error e =>
      rw [applyRef_unchecked deletes verdict] at applied
      subst applied
      refine ⟨later, fun _ _ => rfl, ?_, fun _ => rfl⟩
      intro impossible
      cases impossible
  | true =>
    have lax : s.Declares node name value → cur.count < s.capacity := by
      intro declares
      rw [declares.2] at sets
      cases sets
    rw [sets] at deletes
    rw [sets, if_pos rfl, ← mid.hooks, ← got] at accepts
    have delete : cur.applyRef caps node name value = cur.applyDelete caps node name := by
      rw [applyRef, deletes]
      rfl
    rw [delete] at applied
    rw [wanted, takenAfter, sets]
    cases present : s.entryOf node name with
    | none =>
      rw [present] at held
      rw [applyDelete_missing held] at applied
      subst applied
      refine ⟨later, fun _ _ => rfl, fun _ => ⟨?_, rfl⟩, fun _ => rfl⟩
      rw [ParameterServer.get, held]
      rfl
    | some entry =>
      rw [present] at held
      have accepted := accepts.resolve_left (by rw [present]; exact Option.some_ne_none entry)
      have writes := @Valid.applyDelete caps _ _ _ _ mid.valid held
        (writable_of_checked present checked) accepted
      rw [← applied] at writes
      refine ⟨mid.writes fresh writes, others writes, fun _ => ⟨?_, ?_⟩, absurd lax⟩
      · rw [ParameterServer.get, writes.entryOf, if_pos rfl]
        rfl
      · have counts := writes.count
        rw [held] at counts
        simp at counts ⊢
        omega

end Midway

/-- The request as far as the check pass and the hooks have a say in it. -/
def Passes (caps : ParamCaps) (s : ParameterServer) (node : NodeKey) : RequestItem → Prop
  | (_, .error _) => False
  | (name, .ok value) => s.checkApply caps node name value = .ok () ∧ s.Accepts node name value

/-- The parameter is as the request asks. -/
def AsAsked (s next : ParameterServer) (node : NodeKey) : RequestItem → Prop
  | (_, .error _) => True
  | (name, .ok value) => next.get node name = s.wanted node value

/-- The parameter was to be declared and is not. -/
def LeftOut (s next : ParameterServer) (node : NodeKey) : RequestItem → Prop
  | (_, .error _) => False
  | (name, .ok value) => s.Declares node name value ∧ next.get node name = none

theorem Declares.not_asAsked {name : String} {value : ParameterValue} {next : ParameterServer}
    (declares : s.Declares node name value) (absent : next.get node name = none) :
    ¬ s.AsAsked next node (name, .ok value) := by
  intro asked
  rw [AsAsked, absent, wanted, declares.2] at asked
  cases asked

theorem Midway.applyItems {cur : ParameterServer} {items : List RequestItem}
    (mid : s.Midway cur node (items.map Prod.fst)) (nodup : (items.map Prod.fst).Nodup)
    (passes : ∀ item ∈ items, s.Passes caps node item) {next : ParameterServer}
    (applied : next = items.foldl (NanoRos.applyItem caps node) cur) :
    (∀ m, m ∉ items.map Prod.fst → next.entryOf node m = cur.entryOf node m) ∧
      ((∀ item ∈ items, s.AsAsked next node item) ↔ Roomy s node cur.count items) ∧
      ∀ item ∈ items, s.AsAsked next node item ∨ s.LeftOut next node item := by
  induction items generalizing cur with
  | nil =>
    subst applied
    simp [Roomy]
  | cons item items ih =>
    obtain ⟨name, value⟩ := item
    cases value with
    | error e => exact (passes _ List.mem_cons_self).elim
    | ok value =>
      obtain ⟨checked, accepts⟩ := passes _ List.mem_cons_self
      obtain ⟨fresh, nodup⟩ := List.nodup_cons.mp nodup
      have entered : NanoRos.applyItem caps node cur (name, .ok value) =
        (cur.applyRef caps node name value).2 := rfl
      obtain ⟨later, others, served, unserved⟩ := mid.apply fresh checked accepts entered
      obtain ⟨kept, asked, each⟩ := ih later nodup
        (fun item member => passes item (List.mem_cons_of_mem _ member)) applied
      have entry := kept name fresh
      have got : next.get node name =
          (NanoRos.applyItem caps node cur (name, .ok value)).get node name := by
        rw [ParameterServer.get, ParameterServer.get, entry]
      have leftOut : ¬(s.Declares node name value → cur.count < s.capacity) →
          s.LeftOut next node (name, .ok value) := by
        intro full
        refine ⟨(Classical.not_imp.mp full).1, ?_⟩
        rw [got, unserved full, mid.get List.mem_cons_self, ParameterServer.get,
          (Classical.not_imp.mp full).1.1]
        rfl
      refine ⟨?_, ?_, ?_⟩
      · intro m outside
        rw [List.map_cons, List.mem_cons, not_or] at outside
        rw [kept m outside.2, others m outside.1]
      · rw [List.forall_mem_cons, Roomy]
        by_cases room : s.Declares node name value → cur.count < s.capacity
        · obtain ⟨holds, counts⟩ := served room
          rw [asked, counts]
          exact and_congr_left fun _ => iff_of_true (got.trans holds) room
        · obtain ⟨declares, absent⟩ := leftOut room
          exact iff_of_false (fun all => declares.not_asAsked absent all.1)
            fun all => room all.1
      · rw [List.forall_mem_cons]
        refine ⟨?_, each⟩
        by_cases room : s.Declares node name value → cur.count < s.capacity
        · exact Or.inl (got.trans (served room).1)
        · exact Or.inr (leftOut room)

end ParameterServer

theorem serFailed_eq_ok {α : Type} {outcome : Except SerError α} {a : α} :
    serFailed outcome = .ok a ↔ outcome = .ok a := by
  cases outcome <;> simp [serFailed, Except.mapError]

theorem atomicFine_iff {name : String} {value : Except ConversionError ParameterValue} :
    atomicFine caps s node name value = true ↔ byteLen name ≤ wireStringCap ∧
      ∃ v, value = .ok v ∧ s.checkApply caps node name v = .ok () := by
  cases value with
  | error e => simp [atomicFine]
  | ok v =>
    have checked : (s.checkApply caps node name v).isOk = true ↔
        s.checkApply caps node name v = .ok () := by
      cases s.checkApply caps node name v <;> simp [Except.isOk, Except.toBool]
    simp [atomicFine, checked]

theorem ParameterServer.passes_of_fine {item : RequestItem}
    (fine : atomicFine caps s node item.1 item.2 = true)
    (accepts : ∀ value, item.2 = .ok value → s.Accepts node item.1 value) :
    s.Passes caps node item := by
  obtain ⟨name, value⟩ := item
  obtain ⟨_, v, rfl, checked⟩ := atomicFine_iff.mp fine
  exact ⟨checked, accepts v rfl⟩

theorem ParameterServer.accepts_of_unhooked (unhooked : s.onSet.filterMap id = [])
    {name : String} {value : ParameterValue} : s.Accepts node name value := by
  have lets (old new : Option ParameterValue) : s.runOnSetCallbacks node name old new = true := by
    rw [runOnSetCallbacks, unhooked]
    rfl
  unfold Accepts
  split
  · exact Or.inr (lets _ _)
  · exact lets _ _

/-- An empty store whose node takes undeclared names. -/
def emptyStore (slots : Nat) : ParameterServer :=
  { ParameterServer.newIn (List.replicate slots none) with
    allowUndeclared := NodeFlags.set 0 0 true }

theorem emptyStore_valid (slots : Nat) : (emptyStore slots).Valid where
  counted := rfl
  distinct := by
    intro i j a b held
    rw [emptyStore, ParameterServer.newIn, List.getElem?_replicate] at held
    split at held <;> cases held

def defaultCaps : ParamCaps := ⟨64, 128, 16, 32⟩

/-- A request that sets `a` and `b` to `true`. -/
def setBothRequest : List UInt8 :=
  let encoded (letter : UInt8) : List UInt8 :=
    [2, 0, 0, 0, letter, 0, 1, 1] ++ List.replicate 20 0 ++ [1, 0, 0, 0] ++ List.replicate 24 0
  [0, 1, 0, 0] ++ [2, 0, 0, 0] ++ encoded 97 ++ encoded 98

def setBothItems : List RequestItem := [("a", .ok (.bool true)), ("b", .ok (.bool true))]

/-- The request, served by a store of so many slots. -/
def setBoth (slots : Nat) : ParameterServer × Except HandlerError CdrWriter :=
  streamSetParametersAtomically defaultCaps (emptyStore slots) 0 ⟨setBothRequest, 4, 4, .xcdr1⟩
    ⟨overwrite (List.replicate 16 0) 0 cdrLeHeader, 4, 4, .xcdr1, false⟩

end NanoRos
