import NanoRos.Node.AtomicSet

/-! What a set request that gets no reply leaves behind. -/

namespace NanoRos

/-! The set handler, over the parameters it gets to read. -/

section

variable (caps : ParamCaps) (node : NodeKey)

/-- The parameters of a request of so many, up to the first that does not decode. -/
def readableItems : Nat → CdrReader → List RequestItem
  | 0, _ => []
  | n + 1, r =>
    match readSetItem caps r with
    | .error _ => []
    | .ok (item, r) => item :: readableItems n r

def serveItem (s : ParameterServer) (item : RequestItem) : ParameterServer :=
  (setOne caps s node item.1 item.2).2

/-- How many results go into the reply before one does not fit. -/
def answeredItems : ParameterServer → CdrWriter → List RequestItem → Nat
  | _, _, [] => 0
  | s, w, item :: items =>
    let verdict := (setOne caps s node item.1 item.2).1
    match writeSetResult w verdict.1 verdict.2 with
    | .error _ => 0
    | .ok w => answeredItems (serveItem caps node s item) w items + 1

variable {caps node}

theorem streamSetLoop_store (n : Nat) (s : ParameterServer) (r : CdrReader) (w : CdrWriter) :
    (streamSetLoop caps node n s r w).1 = ((readableItems caps n r).take
        (answeredItems caps node s w (readableItems caps n r) + 1)).foldl
          (serveItem caps node) s := by
  induction n generalizing s r w with
  | zero => rfl
  | succ n ih =>
    rw [streamSetLoop, readableItems]
    cases first : readSetItem caps r with
    | error e => rfl
    | ok read =>
      obtain ⟨⟨name, value⟩, r⟩ := read
      dsimp only
      rw [answeredItems, List.take_succ_cons, List.foldl_cons]
      cases written : writeSetResult w (setOne caps s node name value).1.1
          (setOne caps s node name value).1.2 with
      | error e => simp [serveItem]
      | ok w =>
        dsimp only
        exact ih (setOne caps s node name value).2 r w

theorem streamSetLoop_answers (n : Nat) (s : ParameterServer) (r : CdrReader) (w : CdrWriter) :
    (streamSetLoop caps node n s r w).2.isOk = true ↔ (readableItems caps n r).length = n ∧
        answeredItems caps node s w (readableItems caps n r) = n := by
  induction n generalizing s r w with
  | zero => simp [streamSetLoop, readableItems, answeredItems, Except.isOk, Except.toBool]
  | succ n ih =>
    rw [streamSetLoop, readableItems]
    cases first : readSetItem caps r with
    | error e => simp [Except.isOk, Except.toBool]
    | ok read =>
      obtain ⟨⟨name, value⟩, r⟩ := read
      dsimp only
      rw [answeredItems, List.length_cons]
      cases written : writeSetResult w (setOne caps s node name value).1.1
          (setOne caps s node name value).1.2 with
      | error e => simp [Except.isOk, Except.toBool]
      | ok w =>
        dsimp only
        rw [ih, serveItem, Nat.add_right_cancel_iff, Nat.add_right_cancel_iff]

end

section

variable (caps : ParamCaps) (s : ParameterServer) (node : NodeKey)

/-- Where no reply goes out, the store is as it was. -/
def RepliesOrUntouched (out : ParameterServer × Except HandlerError CdrWriter) : Prop :=
  ∀ e, out.2 = .error e → out.1 = s

/-- Past the two counts, the request is served to its end, or the parameters served before it
fails leave the store where they found it. -/
def SetServable (r : CdrReader) (w : CdrWriter) : Prop :=
  ∀ count body reply, r.readSequenceLen = .ok (count, body) → w.writeSequenceLen count = .ok reply →
      let items := readableItems caps count body
      let answered := answeredItems caps node s reply items
      (items.length = count ∧ answered = count) ∨
        (items.take (answered + 1)).foldl (serveItem caps node) s = s

/-- A request whose parameters all pass has a reply that fits, or leaves the store where it found
it. -/
def AtomicSetServable (r : CdrReader) (w : CdrWriter) : Prop :=
  ∀ items, requestItems caps r = .ok items →
    (∀ item ∈ items, atomicFine caps s node item.1 item.2 = true) →
      (writeSetResult w true "").isOk = true ∨ items.foldl (applyItem caps node) s = s

end

variable {caps : ParamCaps} {s : ParameterServer} {node : NodeKey}

theorem repliesOrUntouched_iff {out : ParameterServer × Except HandlerError CdrWriter} :
    RepliesOrUntouched s out ↔ out.2.isOk = true ∨ out.1 = s := by
  unfold RepliesOrUntouched
  cases out.2 with
  | ok w | error e => simp [Except.isOk, Except.toBool]

theorem isOk_serFailed {α : Type} (outcome : Except SerError α) :
    (serFailed outcome).isOk = outcome.isOk := by
  cases outcome <;> rfl

theorem streamSetParameters_repliesOrUntouched (r : CdrReader) (w : CdrWriter) :
    RepliesOrUntouched s (streamSetParameters caps s node r w) ↔ SetServable caps s node r w := by
  rw [repliesOrUntouched_iff, streamSetParameters]
  cases counted : r.readSequenceLen with
  | error e =>
    refine iff_of_true (Or.inr rfl) ?_
    intro count body reply read
    rw [counted] at read
    cases read
  | ok read =>
    obtain ⟨count, body⟩ := read
    dsimp only
    cases announced : w.writeSequenceLen count with
    | error e =>
      refine iff_of_true (Or.inr rfl) ?_
      intro count body reply read written
      rw [counted] at read
      cases read
      rw [announced] at written
      cases written
    | ok reply =>
      dsimp only
      rw [streamSetLoop_answers, streamSetLoop_store]
      constructor
      · intro served count' body' reply' read written
        rw [counted] at read
        cases read
        rw [announced] at written
        cases written
        exact served
      · intro servable
        exact servable count body reply counted announced

theorem streamSetParametersAtomically_undecoded {r : CdrReader} {e : DeserError}
    (malformed : requestItems caps r = .error e) (w : CdrWriter) :
    (streamSetParametersAtomically caps s node r w).1 = s := by
  unfold requestItems at malformed
  unfold streamSetParametersAtomically
  split
  · rfl
  next origin =>
    rw [if_neg origin] at malformed
    cases taken : r.readBytes r.remaining with
    | error e => rfl
    | ok read =>
      obtain ⟨body, behind⟩ := read
      dsimp only
      cases begun : atomicPass body r.version with
      | error e => rfl
      | ok pass =>
        obtain ⟨count, pass⟩ := pass
        rw [ok_bind, atomicCheckLoop_eq]
        cases read : setItems caps count pass with
        | error e => rfl
        | ok items =>
          simp [taken, begun, read] at malformed

theorem streamSetParametersAtomically_repliesOrUntouched (r : CdrReader) (w : CdrWriter) :
    RepliesOrUntouched s (streamSetParametersAtomically caps s node r w) ↔
      AtomicSetServable caps s node r w := by
  rw [repliesOrUntouched_iff, AtomicSetServable]
  cases decoded : requestItems caps r with
  | error e =>
    rw [streamSetParametersAtomically_undecoded decoded]
    refine iff_of_true (Or.inr rfl) ?_
    intro items impossible
    cases impossible
  | ok items =>
    rw [streamSetParametersAtomically_eq decoded]
    by_cases fine : items.all fun item => atomicFine caps s node item.1 item.2
    · rw [if_pos fine]
      dsimp only
      rw [isOk_serFailed]
      rw [List.all_eq_true] at fine
      constructor
      · intro served items' same _
        cases same
        exact served
      · intro servable
        exact servable items rfl fine
    · rw [if_neg fine]
      refine iff_of_true (Or.inr rfl) ?_
      intro items' same all
      cases same
      exact absurd (List.all_eq_true.mpr all) fine

theorem not_repliesOrUntouched {out : ParameterServer × Except HandlerError CdrWriter}
    (node : NodeKey) (name : String) (failed : out.2.isOk = false)
    (changed : out.1.get node name ≠ s.get node name) : ¬ RepliesOrUntouched s out := by
  rw [repliesOrUntouched_iff, failed]
  intro either
  rcases either with replied | same
  · cases replied
  · rw [same] at changed
    exact changed rfl

theorem newWithHeader_xcdr1 {request : List UInt8} (long : 4 ≤ request.length)
    (first : request.getD 0 0 = 0x00) (second : request.getD 1 0 = 0x01) :
    CdrReader.newWithHeader request = .ok ⟨request, 4, 4, .xcdr1⟩ := by
  rw [CdrReader.newWithHeader, if_neg (Nat.not_lt.mpr long), if_neg (not_not.mpr first),
    if_pos (Or.inr second)]

/-- A body that ends after the first of the two parameters it counts. -/
def cutRequest : List UInt8 := setBothRequest.take 64

/-- A reply buffer of so many bytes, its header written. -/
def replyBuffer (size : Nat) : CdrWriter :=
  ⟨Memory.overwrite (List.replicate size 0) 0 cdrLeHeader, 4, 4, .xcdr1, false⟩

end NanoRos
