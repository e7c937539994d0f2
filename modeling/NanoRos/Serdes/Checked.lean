import NanoRos.Lib.Runs
import NanoRos.Serdes.Borrowed

/-! The reader with every access to the buffer and every sum and difference of positions checked. -/

namespace NanoRos

open LittleEndian Memory

/-- Nothing stands for an access out of range or a number that a `usize` cannot hold. -/
def Checked (α : Type) := CdrReader → Option (Except DeserError α × CdrReader)

namespace Checked

variable {α β : Type}

def andThen (x : Checked α) (f : α → Checked β) : Checked β := fun r =>
  match x r with
  | none => none
  | some (.error e, r) => some (.error e, r)
  | some (.ok a, r) => f a r

instance : Monad Checked where
  pure a := fun r => some (.ok a, r)
  bind := andThen

def fail (e : DeserError) : Checked α := fun r => some (.error e, r)

def reader : Checked CdrReader := fun r => some (.ok r, r)

def moveTo (pos : Nat) : Checked Unit := fun r => some (.ok (), { r with pos := pos })

/-- `top` is `usize::MAX`. -/
def add (top a b : Nat) : Checked Nat := fun r => if a + b ≤ top then some (.ok (a + b), r) else none

def sub (a b : Nat) : Checked Nat := fun r => if b ≤ a then some (.ok (a - b), r) else none

def rem (a b : Nat) : Checked Nat := fun r => if b = 0 then none else some (.ok (a % b), r)

def byteAt (i : Nat) : Checked UInt8 := fun r => (r.buf[i]?).map fun byte => (.ok byte, r)

def range (lo hi : Nat) : Checked (List UInt8) := fun r =>
  if lo ≤ hi ∧ hi ≤ r.buf.length then some (.ok (slice r.buf lo (hi - lo)), r) else none

/-! ### The operations -/

variable (top : Nat)

def align (alignment : Nat) : Checked Unit := do
  let r ← reader
  let alignment := alignCap r.version alignment
  let offset ← sub r.pos r.origin
  let past ← rem offset alignment
  let gap ← sub alignment past
  let padding ← rem gap alignment
  if r.remaining < padding then fail .unexpectedEof
  else do
    let pos ← add top r.pos padding
    moveTo pos

def readU8 : Checked UInt8 := do
  let r ← reader
  if r.remaining < 1 then fail .unexpectedEof
  else do
    let value ← byteAt r.pos
    let pos ← add top r.pos 1
    moveTo pos
    return value

/-- `buf[pos], buf[pos + 1], ..` -/
def bytesAt (pos : Nat) : Nat → Checked (List UInt8)
  | 0 => pure []
  | n + 1 => do
    let bytes ← bytesAt pos n
    let i ← add top pos n
    let byte ← byteAt i
    return bytes ++ [byte]

def readWord (width : Nat) : Checked Nat := do
  align top width
  let r ← reader
  if r.remaining < width then fail .unexpectedEof
  else do
    let bytes ← bytesAt top r.pos width
    let pos ← add top r.pos width
    moveTo pos
    return leNat bytes

def readU32 : Checked UInt32 := do
  let value ← readWord top 4
  return UInt32.ofNat value

def readBytes (len : Nat) : Checked (List UInt8) := do
  let r ← reader
  if r.remaining < len then fail .unexpectedEof
  else do
    let stop ← add top r.pos len
    let bytes ← range r.pos stop
    let pos ← add top r.pos len
    moveTo pos
    return bytes

/-- The reader is behind the string when its bytes turn out to be no text. -/
def readString : Checked String := do
  let prefixed ← readU32 top
  let len := prefixed.toNat
  if len = 0 then fail .invalidData
  else do
    let r ← reader
    if r.remaining < len then fail .unexpectedEof
    else do
      let stop ← add top r.pos len
      let last ← sub stop 1
      let bytes ← range r.pos last
      let pos ← add top r.pos len
      moveTo pos
      match fromUtf8 bytes with
      | some s => return s
      | none => fail .invalidUtf8

def readSliceU8 : Checked (List UInt8) := do
  let len ← readU32 top
  readBytes top len.toNat

/-- Nothing is aligned for an empty sequence. -/
def alignSome (len size : Nat) : Checked Unit := if 0 < len then align top size else pure ()

/-- `read_le_slice` of elements of this size. -/
def readLeSlice (size : Nat) : Checked (List UInt8) := do
  let len ← readU32 top
  let byteLen := len.toNat * size
  if top < byteLen then fail .invalidData
  else do
    alignSome top len.toNat size
    readBytes top byteLen

def beginDheader : Checked (Option Nat) := do
  let r ← reader
  match r.version with
  | .xcdr1 => return none
  | .xcdr2 => do
    let size ← readU32 top
    let r ← reader
    let stop := r.pos + size.toNat
    if top < stop then fail .unexpectedEof
    else if r.buf.length < stop then fail .unexpectedEof
    else return some stop

def endDheader : Option Nat → Checked Unit
  | none => pure ()
  | some stop => do
    let r ← reader
    if stop < r.pos then fail .dHeaderOverrun else moveTo stop

/-! ### What a safe operation does -/

/-- The reader behind an operation: at the same buffer and no earlier. -/
structure Later (r r' : CdrReader) : Prop where
  buf : r'.buf = r.buf
  origin : r'.origin = r.origin
  version : r'.version = r.version
  pos : r.pos ≤ r'.pos
  ready : r'.Ready

variable {r r' : CdrReader} {x : Checked α} {plain : CdrReader → Except DeserError (α × CdrReader)}
  {a b size : Nat}

theorem Later.refl (ready : r.Ready) : Later r r := ⟨rfl, rfl, rfl, le_rfl, ready⟩

theorem Later.trans {r'' : CdrReader} (one : Later r r') (two : Later r' r'') : Later r r'' :=
  ⟨two.buf.trans one.buf, two.origin.trans one.origin, two.version.trans one.version,
    one.pos.trans two.pos, two.ready⟩

/-- From a reader inside its buffer, the operation faults nowhere, leaves the reader inside the
buffer and no earlier, whatever it answers, and answers what the plain one does. -/
def Safe (x : Checked α) (plain : CdrReader → Except DeserError (α × CdrReader)) : Prop :=
  ∀ r : CdrReader, r.Ready → r.buf.length ≤ top → ∃ out r', x r = some (out, r') ∧ Later r r' ∧
    plain r = out.map fun a => (a, r')

theorem bind_apply (x : Checked α) (f : α → Checked β) (r : CdrReader) :
    (x >>= f) r = andThen x f r := rfl

theorem bind_of_ok {a : α} (done : x r = some (.ok a, r')) (f : α → Checked β) :
    (x >>= f) r = f a r' := by
  rw [bind_apply, andThen, done]

theorem bind_of_error {e : DeserError} (failed : x r = some (.error e, r')) (f : α → Checked β) :
    (x >>= f) r = some (.error e, r') := by
  rw [bind_apply, andThen, failed]

variable {top}

theorem Safe.bind {f : α → Checked β} {plain' : α → CdrReader → Except DeserError (β × CdrReader)}
    (one : Safe top x plain) (two : ∀ a, Safe top (f a) (plain' a)) :
    Safe top (x >>= f) fun r => plain r >>= fun p => plain' p.1 p.2 := by
  intro r ready small
  rcases one r ready small with ⟨out, r', done, later, same⟩
  cases out with
  | error e =>
    refine ⟨.error e, r', bind_of_error done f, later, ?_⟩
    dsimp only
    rw [same]
    rfl
  | ok a =>
    rcases two a r' later.ready (later.buf ▸ small) with ⟨out', r'', done', later', same'⟩
    refine ⟨out', r'', (bind_of_ok done f).trans done', later.trans later', ?_⟩
    dsimp only
    rw [same]
    exact same'

theorem Safe.congr {plain' : CdrReader → Except DeserError (α × CdrReader)}
    (safe : Safe top x plain) (same : ∀ r, plain r = plain' r) : Safe top x plain' := by
  have functions : plain = plain' := funext same
  exact functions ▸ safe

theorem Safe.map (f : α → β) (safe : Safe top x plain) :
    Safe top (x >>= fun a => pure (f a)) fun r => plain r >>= fun p => .ok (f p.1, p.2) :=
  safe.bind fun a r ready _ => ⟨.ok (f a), r, rfl, .refl ready, rfl⟩

theorem safe_fail (e : DeserError) : Safe top (fail e : Checked α) fun _ => .error e :=
  fun r ready _ => ⟨.error e, r, rfl, .refl ready, rfl⟩

theorem Later.advance {count : Nat} (ready : r.Ready) (room : ¬ r.remaining < count) :
    Later r (r.advance count) := by
  have within := ready.within
  rw [CdrReader.remaining] at room
  refine ⟨rfl, rfl, rfl, Nat.le_add_right _ _, ?_, ?_⟩
  · exact ready.origin_le.trans (Nat.le_add_right _ _)
  · change r.pos + count ≤ r.buf.length
    omega

theorem add_apply (fits : a + b ≤ top) (r : CdrReader) :
    add top a b r = some (.ok (a + b), r) := if_pos fits

theorem sub_apply (fits : b ≤ a) (r : CdrReader) : sub a b r = some (.ok (a - b), r) :=
  if_pos fits

theorem rem_apply (positive : b ≠ 0) (r : CdrReader) :
    rem a b r = some (.ok (a % b), r) := if_neg positive

theorem range_apply {lo hi : Nat} (order : lo ≤ hi) (inside : hi ≤ r.buf.length) :
    range lo hi r = some (.ok (slice r.buf lo (hi - lo)), r) := if_pos ⟨order, inside⟩

theorem reader_bind (f : CdrReader → Checked β) (r : CdrReader) : (reader >>= f) r = f r r := rfl

theorem alignCap_ne_zero (version : EncodingVersion) {alignment : Nat} (positive : 0 < alignment) :
    alignCap version alignment ≠ 0 := by
  cases version with
  | xcdr1 => exact positive.ne'
  | xcdr2 => exact (Nat.lt_min.mpr ⟨positive, by decide⟩).ne'

theorem safe_align {alignment : Nat} (positive : 0 < alignment) :
    Safe top (align top alignment) fun r => r.align alignment >>= fun r => .ok ((), r) := by
  intro r ready small
  have cap := alignCap_ne_zero r.version positive
  have past := Nat.mod_lt (r.pos - r.origin) (Nat.pos_of_ne_zero cap)
  have within := ready.within
  rw [align, reader_bind, bind_of_ok (sub_apply ready.origin_le r), bind_of_ok (rem_apply cap r),
    bind_of_ok (sub_apply past.le r), bind_of_ok (rem_apply cap r)]
  dsimp only
  rw [CdrReader.align]
  by_cases short : r.remaining < padding (alignCap r.version alignment) (r.pos - r.origin)
  · refine ⟨.error .unexpectedEof, r, ?_, .refl ready, ?_⟩
    · rw [← padding, if_pos short]
      rfl
    · rw [if_pos short]
      rfl
  · have later := Later.advance ready short
    have room : r.pos + padding (alignCap r.version alignment) (r.pos - r.origin) ≤ top :=
      later.ready.within.trans small
    refine ⟨.ok (), _, ?_, later, ?_⟩
    · rw [← padding, if_neg short, bind_of_ok (add_apply room r)]
      rfl
    · rw [if_neg short]
      rfl

theorem safe_readU8 : Safe top (readU8 top) CdrReader.readU8 := by
  intro r ready small
  rw [readU8, reader_bind, CdrReader.readU8]
  by_cases short : r.remaining < 1
  · refine ⟨.error .unexpectedEof, r, ?_, .refl ready, ?_⟩
    · rw [if_pos short]
      rfl
    · rw [if_pos short]
      rfl
  · have later := Later.advance ready short
    have room : r.pos + 1 ≤ top := later.ready.within.trans small
    have inside : r.pos < r.buf.length := later.ready.within
    have byte : byteAt r.pos r = some (.ok (r.buf.getD r.pos 0), r) := by
      rw [byteAt, List.getD_eq_getElem?_getD, List.getElem?_eq_getElem inside]
      rfl
    refine ⟨.ok (r.buf.getD r.pos 0), _, ?_, later, ?_⟩
    · rw [if_neg short, bind_of_ok byte, bind_of_ok (add_apply room r)]
      rfl
    · rw [if_neg short]
      rfl

theorem bytesAt_apply (n : Nat) {pos : Nat} (inside : pos + n ≤ r.buf.length)
    (small : r.buf.length ≤ top) :
    bytesAt top pos n r = some (.ok (slice r.buf pos n), r) := by
  induction n with
  | zero => rfl
  | succ n ih =>
    have here : pos + n < r.buf.length := inside
    have byte : byteAt (pos + n) r = some (.ok r.buf[pos + n], r) := by
      rw [byteAt, List.getElem?_eq_getElem here]
      rfl
    have next : slice r.buf pos (n + 1) = slice r.buf pos n ++ [r.buf[pos + n]] := by
      have rest : n < (r.buf.drop pos).length := by
        rw [List.length_drop]
        omega
      rw [slice, List.take_succ_eq_append_getElem rest, List.getElem_drop]
      rfl
    rw [bytesAt, bind_of_ok (ih here.le), bind_of_ok (add_apply (here.le.trans small) r),
      bind_of_ok byte, next]
    rfl

theorem safe_readWord {width : Nat} (positive : 0 < width) :
    Safe top (readWord top width) (CdrReader.readWord width) := by
  have body : Safe top (reader >>= fun r =>
      if r.remaining < width then fail .unexpectedEof
      else do
        let bytes ← bytesAt top r.pos width
        let pos ← add top r.pos width
        moveTo pos
        return leNat bytes) fun r =>
      if r.remaining < width then .error .unexpectedEof
      else .ok (leNat (slice r.buf r.pos width), { r with pos := r.pos + width }) := by
    intro r ready small
    rw [reader_bind]
    by_cases short : r.remaining < width
    · refine ⟨.error .unexpectedEof, r, ?_, .refl ready, ?_⟩
      · rw [if_pos short]
        rfl
      · dsimp only
        rw [if_pos short]
        rfl
    · have later := Later.advance ready short
      have inside : r.pos + width ≤ r.buf.length := later.ready.within
      refine ⟨.ok (leNat (slice r.buf r.pos width)), _, ?_, later, ?_⟩
      · rw [if_neg short, bind_of_ok (bytesAt_apply width inside small),
          bind_of_ok (add_apply (inside.trans small) r)]
        rfl
      · dsimp only
        rw [if_neg short]
        rfl
  apply ((safe_align positive).bind fun _ => body).congr
  intro r
  rw [CdrReader.readWord]
  cases r.align width with
  | error e => rfl
  | ok aligned =>
    by_cases short : aligned.remaining < width
    · change (if aligned.remaining < width then _ else _) = _
      rw [ok_bind, if_pos short, if_pos short]
      rfl
    · change (if aligned.remaining < width then _ else _) = _
      rw [ok_bind, if_neg short, if_neg short]
      rfl

theorem safe_readU32 : Safe top (readU32 top) CdrReader.readU32 :=
  (safe_readWord (by decide)).map UInt32.ofNat

variable (len : Nat)

theorem safe_readBytes : Safe top (readBytes top len) fun r => r.readBytes len := by
  intro r ready small
  rw [readBytes, reader_bind]
  dsimp only
  rw [CdrReader.readBytes]
  by_cases short : r.remaining < len
  · refine ⟨.error .unexpectedEof, r, ?_, .refl ready, ?_⟩
    · rw [if_pos short]
      rfl
    · rw [if_pos short]
      rfl
  · have later := Later.advance ready short
    have inside : r.pos + len ≤ r.buf.length := later.ready.within
    have room := add_apply (inside.trans small) r
    have bytes := range_apply (Nat.le_add_right r.pos len) inside
    rw [Nat.add_sub_cancel_left] at bytes
    refine ⟨.ok (slice r.buf r.pos len), _, ?_, later, ?_⟩
    · rw [if_neg short, bind_of_ok room, bind_of_ok bytes, bind_of_ok room]
      rfl
    · rw [if_neg short]
      rfl

theorem safe_text : Safe top (if len = 0 then fail .invalidData else do
      let r ← reader
      if r.remaining < len then fail .unexpectedEof
      else do
        let stop ← add top r.pos len
        let last ← sub stop 1
        let bytes ← range r.pos last
        let pos ← add top r.pos len
        moveTo pos
        match fromUtf8 bytes with
        | some s => return s
        | none => fail .invalidUtf8) fun r =>
    if len = 0 then .error .invalidData
    else if r.remaining < len then .error .unexpectedEof
    else match fromUtf8 (slice r.buf r.pos (len - 1)) with
      | some s => .ok (s, { r with pos := r.pos + len })
      | none => .error .invalidUtf8 := by
  by_cases empty : len = 0
  · rw [if_pos empty]
    apply (safe_fail .invalidData).congr
    intro r
    rw [if_pos empty]
  intro r ready small
  rw [if_neg empty, reader_bind]
  dsimp only
  rw [if_neg empty]
  by_cases short : r.remaining < len
  · refine ⟨.error .unexpectedEof, r, ?_, .refl ready, ?_⟩
    · rw [if_pos short]
      rfl
    · rw [if_pos short]
      rfl
  · have later := Later.advance ready short
    have inside : r.pos + len ≤ r.buf.length := later.ready.within
    have room := add_apply (inside.trans small) r
    have last : r.pos + len - 1 = r.pos + (len - 1) := by omega
    have order : r.pos ≤ r.pos + len - 1 := by omega
    have bytes := range_apply order ((Nat.sub_le _ _).trans inside)
    rw [last, Nat.add_sub_cancel_left] at bytes
    have dropped := sub_apply (show 1 ≤ r.pos + len by omega) r
    rw [last] at dropped
    have moved : moveTo (r.pos + len) r = some (.ok (), { r with pos := r.pos + len }) := rfl
    rw [if_neg short, if_neg short, bind_of_ok room, bind_of_ok dropped, bind_of_ok bytes,
      bind_of_ok room, bind_of_ok moved]
    cases fromUtf8 (slice r.buf r.pos (len - 1)) with
    | some s => exact ⟨.ok s, _, rfl, later, rfl⟩
    | none => exact ⟨.error .invalidUtf8, _, rfl, later, rfl⟩

theorem safe_readString : Safe top (readString top) CdrReader.readString := by
  apply (safe_readU32.bind fun prefixed => safe_text prefixed.toNat).congr
  intro r
  rw [CdrReader.readString]
  cases r.readU32 with
  | error e => rfl
  | ok x =>
    rw [ok_bind, ok_bind]
    dsimp only
    by_cases empty : x.1.toNat = 0
    · rw [if_pos empty, if_pos empty]
      rfl
    · rw [if_neg empty, if_neg empty]
      by_cases short : x.2.remaining < x.1.toNat
      · rw [if_pos short, if_pos short]
        rfl
      · rw [if_neg short, if_neg short]
        rfl

theorem safe_readSliceU8 : Safe top (readSliceU8 top) CdrReader.readSliceU8 :=
  safe_readU32.bind fun len => safe_readBytes len.toNat

theorem safe_alignSome (positive : 0 < size) :
    Safe top (alignSome top len size) fun r =>
      if 0 < len then r.align size >>= fun r => .ok ((), r) else .ok ((), r) := by
  rw [alignSome]
  by_cases some : 0 < len
  · rw [if_pos some]
    apply (safe_align positive).congr
    intro r
    rw [if_pos some]
  · rw [if_neg some]
    intro r ready _
    refine ⟨.ok (), r, rfl, .refl ready, ?_⟩
    dsimp only
    rw [if_neg some]
    rfl

theorem safe_elements (positive : 0 < size) :
    Safe top (if top < len * size then fail .invalidData
      else do
        alignSome top len size
        readBytes top (len * size)) fun r =>
      if top < len * size then .error .invalidData
      else (if 0 < len then r.align size >>= fun r => .ok ((), r) else .ok ((), r)) >>= fun p =>
        p.2.readBytes (len * size) := by
  by_cases wide : top < len * size
  · rw [if_pos wide]
    apply (safe_fail .invalidData).congr
    intro r
    rw [if_pos wide]
  · rw [if_neg wide]
    apply ((safe_alignSome len positive).bind fun _ => safe_readBytes (len * size)).congr
    intro r
    rw [if_neg wide]

theorem safe_readLeSlice (positive : 0 < size) :
    Safe top (readLeSlice top size) fun r => r.readU32 >>= fun p =>
      if top < p.1.toNat * size then .error .invalidData
      else (if 0 < p.1.toNat then p.2.align size >>= fun r => .ok ((), r) else .ok ((), p.2)) >>=
        fun q => q.2.readBytes (p.1.toNat * size) :=
  safe_readU32.bind fun len => safe_elements len.toNat positive

theorem safe_stop (size : Nat) : Safe top (do
      let r ← reader
      let stop := r.pos + size
      if top < stop then fail .unexpectedEof
      else if r.buf.length < stop then fail .unexpectedEof
      else return some stop) fun r =>
    if r.pos + size > r.buf.length then .error .unexpectedEof else .ok (some (r.pos + size), r) := by
  intro r ready small
  rw [reader_bind]
  dsimp only
  by_cases beyond : r.buf.length < r.pos + size
  · refine ⟨.error .unexpectedEof, r, ?_, .refl ready, ?_⟩
    · rw [if_pos beyond, ite_self]
      rfl
    · rw [if_pos beyond]
      rfl
  · have inside : ¬ top < r.pos + size := by omega
    refine ⟨.ok (some (r.pos + size)), r, ?_, .refl ready, ?_⟩
    · rw [if_neg inside, if_neg beyond]
      rfl
    · rw [if_neg beyond]
      rfl

theorem safe_beginDheader : Safe top (beginDheader top) CdrReader.beginDheader := by
  intro r ready small
  rw [beginDheader, reader_bind, CdrReader.beginDheader]
  cases r.version with
  | xcdr1 => exact ⟨.ok none, r, rfl, .refl ready, rfl⟩
  | xcdr2 =>
    rcases (safe_readU32.bind fun size => safe_stop size.toNat) r ready small with
      ⟨out, r', done, later, same⟩
    refine ⟨out, r', done, later, ?_⟩
    rw [← same]
    dsimp only
    cases r.readU32 with
    | error e => rfl
    | ok x =>
      rw [ok_bind, ok_bind]
      by_cases beyond : x.2.pos + x.1.toNat > x.2.buf.length
      · rw [if_pos beyond, if_pos beyond]
        rfl
      · rw [if_neg beyond, if_neg beyond]
        rfl

theorem beginDheader_stop {stop : Nat} (opened : r.beginDheader = .ok (some stop, r')) :
    stop ≤ r'.buf.length := by
  rw [CdrReader.beginDheader] at opened
  cases version : r.version with
  | xcdr1 =>
    rw [version] at opened
    cases opened
  | xcdr2 =>
    rw [version] at opened
    rcases bind_eq_ok.mp opened with ⟨x, _, rest⟩
    dsimp only at rest
    split at rest
    · cases rest
    case isFalse within =>
      cases rest
      exact Nat.not_lt.mp within

theorem endDheader_apply (ready : r.Ready) (scope : Option Nat)
    (inside : ∀ stop ∈ scope, stop ≤ r.buf.length) : ∃ out r', endDheader scope r = some (out, r') ∧
      Later r r' ∧ (r.endDheader scope >>= fun r => .ok ((), r)) = out.map fun a => (a, r') := by
  cases scope with
  | none => exact ⟨.ok (), r, rfl, .refl ready, rfl⟩
  | some stop =>
    rw [endDheader, reader_bind, CdrReader.endDheader]
    by_cases overrun : stop < r.pos
    · refine ⟨.error .dHeaderOverrun, r, ?_, .refl ready, ?_⟩
      · rw [if_pos overrun]
        rfl
      · rw [if_pos overrun]
        rfl
    · have later := Nat.not_lt.mp overrun
      refine ⟨.ok (), { r with pos := stop }, ?_, ?_, ?_⟩
      · rw [if_neg overrun]
        rfl
      · exact ⟨rfl, rfl, rfl, later, ready.origin_le.trans later, inside stop rfl⟩
      · rw [if_neg overrun]
        rfl

end Checked

/-! ### Sequences of operations -/

/-- A primitive read is one of a byte or of a word. -/
inductive ReadOp where
  | align (alignment : Nat) (known : alignment ∈ [1, 2, 4, 8])
  | readU8
  | readWord (width : Nat) (known : width ∈ [2, 4, 8])
  | readString
  | readBytes (len : Nat)
  | readSliceU8
  | readLeSlice (size : Nat) (positive : 0 < size)
  | beginDheader
  | endDheader

/-- A reader and the scopes that are open, the innermost first. -/
structure ReadSession where
  reader : CdrReader
  scopes : List (Option Nat)

namespace ReadSession

def quiet {α : Type} (x : Checked α) (s : ReadSession) :
    Option (Except DeserError Unit × ReadSession) :=
  (x s.reader).map fun out => (out.1.map fun _ => (), { s with reader := out.2 })

/-- An `end_dheader` closes the innermost open scope. -/
def perform (top : Nat) : ReadOp → ReadSession → Option (Except DeserError Unit × ReadSession)
  | .align alignment _, s => s.quiet (Checked.align top alignment)
  | .readU8, s => s.quiet (Checked.readU8 top)
  | .readWord width _, s => s.quiet (Checked.readWord top width)
  | .readString, s => s.quiet (Checked.readString top)
  | .readBytes len, s => s.quiet (Checked.readBytes top len)
  | .readSliceU8, s => s.quiet (Checked.readSliceU8 top)
  | .readLeSlice size _, s => s.quiet (Checked.readLeSlice top size)
  | .beginDheader, s =>
    (Checked.beginDheader top s.reader).map fun out =>
      (out.1.map fun _ => (), ⟨out.2, out.1.toOption.toList ++ s.scopes⟩)
  | .endDheader, s =>
    match s.scopes with
    | [] => some (.ok (), s)
    | scope :: outer =>
      (Checked.endDheader scope s.reader).map fun out =>
        (out.1.map fun _ => (), ⟨out.2, outer⟩)

/-- Whatever an operation answers, the next one is made on the reader it leaves. -/
def step (top : Nat) (s : ReadSession) (op : ReadOp) : Option ReadSession :=
  (perform top op s).map Prod.snd

structure Sound (buf : List UInt8) (s : ReadSession) : Prop where
  source : s.reader.buf = buf
  ready : s.reader.Ready
  scopes : ∀ scope ∈ s.scopes, ∀ stop ∈ scope, stop ≤ buf.length

/-- The operation faults nowhere, keeps the reader inside its buffer, and no success moves it
back. -/
def Keeps (top : Nat) (buf : List UInt8) (s : ReadSession) (op : ReadOp) : Prop :=
  ∃ out s', perform top op s = some (out, s') ∧ s'.Sound buf ∧
    (out = .ok () → s.reader.pos ≤ s'.reader.pos)

variable {top : Nat} {buf : List UInt8} {s : ReadSession}

theorem keeps_quiet {α : Type} {x : Checked α}
    {plain : CdrReader → Except DeserError (α × CdrReader)} (safe : Checked.Safe top x plain)
    (sound : s.Sound buf) (small : buf.length ≤ top) : ∃ out s', s.quiet x = some (out, s') ∧
      s'.Sound buf ∧ (out = .ok () → s.reader.pos ≤ s'.reader.pos) := by
  rcases safe s.reader sound.ready (sound.source.symm ▸ small) with ⟨out, r', done, later, _⟩
  refine ⟨out.map fun _ => (), { s with reader := r' }, ?_, ?_, fun _ => later.pos⟩
  · rw [quiet, done]
    rfl
  · exact ⟨later.buf.trans sound.source, later.ready, sound.scopes⟩

theorem keeps_beginDheader (sound : s.Sound buf) (small : buf.length ≤ top) :
    Keeps top buf s .beginDheader := by
  have small' : s.reader.buf.length ≤ top := sound.source.symm ▸ small
  rcases Checked.safe_beginDheader s.reader sound.ready small' with ⟨out, r', done, later, same⟩
  refine ⟨out.map fun _ => (), ⟨r', out.toOption.toList ++ s.scopes⟩, ?_, ?_, fun _ => later.pos⟩
  · rw [perform, done]
    rfl
  · refine ⟨later.buf.trans sound.source, later.ready, fun scope member stop inside => ?_⟩
    rcases List.mem_append.mp member with opened | before
    · cases out with
      | error e => cases opened
      | ok scope' =>
        rw [List.mem_singleton.mp opened] at inside
        cases inside
        have within := Checked.beginDheader_stop same
        rwa [later.buf, sound.source] at within
    · exact sound.scopes scope before stop inside

theorem keeps_endDheader (sound : s.Sound buf) : Keeps top buf s .endDheader := by
  cases open_ : s.scopes with
  | nil =>
    refine ⟨.ok (), s, ?_, sound, fun _ => le_rfl⟩
    rw [perform, open_]
  | cons scope outer =>
    have inside : ∀ stop ∈ scope, stop ≤ s.reader.buf.length := by
      intro stop member
      rw [sound.source]
      exact sound.scopes scope (open_ ▸ List.mem_cons_self) stop member
    rcases Checked.endDheader_apply sound.ready scope inside with ⟨out, r', done, later, _⟩
    refine ⟨out.map fun _ => (), ⟨r', outer⟩, ?_, ?_, fun _ => later.pos⟩
    · rw [perform, open_]
      dsimp only
      rw [done]
      rfl
    · refine ⟨later.buf.trans sound.source, later.ready, fun other member => ?_⟩
      exact sound.scopes other (open_ ▸ List.mem_cons_of_mem _ member)

theorem keeps (sound : s.Sound buf) (small : buf.length ≤ top) (op : ReadOp) :
    Keeps top buf s op := by
  cases op with
  | align alignment known =>
    have positive : 0 < alignment := by
      simp only [List.mem_cons, List.not_mem_nil, or_false] at known
      omega
    exact keeps_quiet (Checked.safe_align positive) sound small
  | readU8 => exact keeps_quiet Checked.safe_readU8 sound small
  | readWord width known =>
    have positive : 0 < width := by
      simp only [List.mem_cons, List.not_mem_nil, or_false] at known
      omega
    exact keeps_quiet (Checked.safe_readWord positive) sound small
  | readString => exact keeps_quiet Checked.safe_readString sound small
  | readBytes len => exact keeps_quiet (Checked.safe_readBytes len) sound small
  | readSliceU8 => exact keeps_quiet Checked.safe_readSliceU8 sound small
  | readLeSlice size positive => exact keeps_quiet (Checked.safe_readLeSlice positive) sound small
  | beginDheader => exact keeps_beginDheader sound small
  | endDheader => exact keeps_endDheader sound

/-- A reader as the constructors hand it out. -/
inductive Opened (buf : List UInt8) : CdrReader → Prop where
  | new : Opened buf (.new buf)
  | newAt (pos : Nat) (r : CdrReader) (opened : CdrReader.newAt buf pos = .ok r) : Opened buf r
  | newAtXcdr2 (pos : Nat) (r : CdrReader) (opened : CdrReader.newAtXcdr2 buf pos = .ok r) :
      Opened buf r
  | newWithHeader (r : CdrReader) (opened : CdrReader.newWithHeader buf = .ok r) : Opened buf r

theorem Opened.sound {r : CdrReader} (opened : Opened buf r) : Sound buf ⟨r, []⟩ := by
  have sound (pos origin : Nat) (version : EncodingVersion) (order : origin ≤ pos)
      (within : pos ≤ buf.length) : Sound buf ⟨⟨buf, pos, origin, version⟩, []⟩ :=
    ⟨rfl, ⟨order, within⟩, nofun⟩
  cases opened with
  | new => exact sound 0 0 .xcdr1 le_rfl (Nat.zero_le _)
  | newAt pos r opened =>
    rw [CdrReader.newAt] at opened
    split at opened
    · cases opened
    case isFalse within =>
      cases opened
      exact sound pos 0 .xcdr1 (Nat.zero_le _) (Nat.not_lt.mp within)
  | newAtXcdr2 pos r opened =>
    rw [CdrReader.newAtXcdr2] at opened
    split at opened
    · cases opened
    case isFalse within =>
      cases opened
      exact sound pos 0 .xcdr2 (Nat.zero_le _) (Nat.not_lt.mp within)
  | newWithHeader r opened =>
    rw [CdrReader.newWithHeader] at opened
    split at opened
    · cases opened
    case isFalse within =>
      have four : 4 ≤ buf.length := Nat.not_lt.mp within
      split at opened
      · cases opened
      · split at opened
        · cases opened
          exact sound 4 4 .xcdr1 le_rfl four
        · split at opened
          · cases opened
            exact sound 4 4 .xcdr2 le_rfl four
          · cases opened

/-- Over any bytes, every sequence of operations runs without a fault, and so does one more. -/
theorem reader_safe (top : Nat) (buf : List UInt8) (small : buf.length ≤ top) (r : CdrReader)
    (opened : Opened buf r) (ops : List ReadOp) (op : ReadOp) :
    ∃ s, run (step top) ⟨r, []⟩ ops = some s ∧ s.Sound buf ∧ Keeps top buf s op := by
  have reaches : ∃ s, run (step top) ⟨r, []⟩ ops = some s ∧ s.Sound buf := by
    have sound := opened.sound
    generalize (⟨r, []⟩ : ReadSession) = s at sound ⊢
    induction ops generalizing s with
    | nil => exact ⟨s, rfl, sound⟩
    | cons first ops ih =>
      rcases keeps sound small first with ⟨out, next, done, sound', _⟩
      rcases ih next sound' with ⟨last, reached, sound''⟩
      refine ⟨last, ?_, sound''⟩
      rw [run, step, done]
      exact reached
  rcases reaches with ⟨s, reached, sound⟩
  exact ⟨s, reached, sound, keeps sound small op⟩

/-- A string cut short and a delimited struct that claims more than there is. -/
theorem reader_safe_malformed : ∃ s,
    run (step usizeMax) ⟨⟨[0, 9, 0, 0, 255, 255, 255, 255, 1], 4, 4, .xcdr2⟩, []⟩
        [.readString, .beginDheader, .readU8] = some s ∧
      s.Sound [0, 9, 0, 0, 255, 255, 255, 255, 1] ∧
      Keeps usizeMax [0, 9, 0, 0, 255, 255, 255, 255, 1] s .endDheader :=
  reader_safe usizeMax [0, 9, 0, 0, 255, 255, 255, 255, 1] (by decide) _
    (.newWithHeader _ rfl) _ _

end ReadSession

end NanoRos
