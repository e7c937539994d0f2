import NanoRos.Lib.Loops
import NanoRos.Serdes.Cdr

/-! Programs of writer operations, such as a generated `serialize` body, run on a measuring writer
and on one over a real buffer. -/

namespace NanoRos

open LittleEndian Memory

namespace CdrWriter

/-- Slices and strings are as long as a `usize` can say, alignments are not zero. -/
inductive WriterOp where
  | align (alignment : UInt64) (positive : alignment ≠ 0)
  | writeU8 (value : UInt8)
  | writeU16 (value : UInt16)
  | writeU32 (value : UInt32)
  | writeU64 (value : UInt64)
  | writeBytes (bytes : List UInt8) (slice : bytes.length ≤ usizeMax)
  | writeString (s : String)
  | writeSequenceLen (len : Nat)

def WriterOp.perform : WriterOp → CdrWriter → Except SerError CdrWriter
  | .align alignment _, w => w.align alignment.toNat
  | .writeU8 value, w => w.writeU8 value
  | .writeU16 value, w => w.writeU16 value
  | .writeU32 value, w => w.writeU32 value
  | .writeU64 value, w => w.writeU64 value
  | .writeBytes bytes _, w => w.writeBytes bytes
  | .writeString s, w => w.writeString s
  | .writeSequenceLen len, w => w.writeSequenceLen len

/-- Operations in sequence, with the members of a struct between `begin_dheader` and
`end_dheader`. -/
inductive Program where
  | done
  | op (first : WriterOp) (rest : Program)
  | delimited (members rest : Program)

def delimit (members : CdrWriter → Except SerError CdrWriter) (w : CdrWriter) :
    Except SerError CdrWriter := do
  let (mark, w) ← w.beginDheader
  let w ← members w
  w.endDheader mark

/-- Every operation's error is handed on. -/
def Program.run : Program → CdrWriter → Except SerError CdrWriter
  | .done, w => .ok w
  | .op first rest, w => first.perform w >>= rest.run
  | .delimited members rest, w => delimit members.run w >>= rest.run

def newHeaded : EncodingVersion → List UInt8 → Except SerError CdrWriter
  | .xcdr1, buf => newWithHeader buf
  | .xcdr2, buf => newWithHeaderXcdr2 buf

structure Counting (m : CdrWriter) : Prop where
  measure : m.measure = true
  origin : m.origin = 0

/-- A real writer at the place in the body where a measuring one stands. -/
structure Abreast (m w : CdrWriter) : Prop where
  stores : w.measure = false
  version : w.version = m.version
  origin : w.origin = 4
  pos : w.pos = 4 + m.pos
  fits : w.pos ≤ w.buf.length

/-- The operation measures without running out of room, and gets as far on a buffer of any size as
the measured bytes fit. -/
structure Measures (write : CdrWriter → Except SerError CdrWriter) : Prop where
  ample : ∀ m, Counting m → write m ≠ .error .bufferTooSmall
  counts : ∀ m m', Counting m → write m = .ok m' → Counting m' ∧ m.pos ≤ m'.pos
  fails : ∀ m w e, Counting m → Abreast m w → write m = .error e → ∃ e', write w = .error e'
  short : ∀ m w m', Counting m → Abreast m w → write m = .ok m' → w.buf.length < 4 + m'.pos →
    ∃ e, write w = .error e
  long : ∀ m w m', Counting m → Abreast m w → write m = .ok m' → 4 + m'.pos ≤ w.buf.length →
    ∃ w', write w = .ok w' ∧ Abreast m' w' ∧ w'.buf.length = w.buf.length

theorem bind_eq_error {α β : Type} {first : Except SerError α} {next : α → Except SerError β}
    {e : SerError} : first >>= next = .error e ↔
      first = .error e ∨ ∃ a, first = .ok a ∧ next a = .error e := by
  cases first with
  | error found | ok a => simp [bind, Except.bind]

theorem Measures.bind {first second : CdrWriter → Except SerError CdrWriter}
    (one : Measures first) (two : Measures second) : Measures fun w => first w >>= second where
  ample m counting failed := by
    rcases bind_eq_error.mp failed with here | ⟨middle, done, later⟩
    · exact one.ample m counting here
    · exact two.ample middle (one.counts m middle counting done).1 later
  counts m m' counting done := by
    rcases bind_eq_ok.mp done with ⟨middle, here, later⟩
    have before := one.counts m middle counting here
    have after := two.counts middle m' before.1 later
    exact ⟨after.1, before.2.trans after.2⟩
  fails m w e counting abreast failed := by
    rcases bind_eq_error.mp failed with here | ⟨middle, done, later⟩
    · rcases one.fails m w e counting abreast here with ⟨e', stopped⟩
      exact ⟨e', bind_eq_error.mpr (.inl stopped)⟩
    · rcases Nat.lt_or_ge w.buf.length (4 + middle.pos) with small | room
      · rcases one.short m w middle counting abreast done small with ⟨e', stopped⟩
        exact ⟨e', bind_eq_error.mpr (.inl stopped)⟩
      · rcases one.long m w middle counting abreast done room with ⟨w', reached, abreast', _⟩
        have counting' := (one.counts m middle counting done).1
        rcases two.fails middle w' e counting' abreast' later with ⟨e', stopped⟩
        exact ⟨e', bind_eq_error.mpr (.inr ⟨w', reached, stopped⟩)⟩
  short m w m' counting abreast done small := by
    rcases bind_eq_ok.mp done with ⟨middle, here, later⟩
    rcases Nat.lt_or_ge w.buf.length (4 + middle.pos) with small' | room
    · rcases one.short m w middle counting abreast here small' with ⟨e', stopped⟩
      exact ⟨e', bind_eq_error.mpr (.inl stopped)⟩
    · rcases one.long m w middle counting abreast here room with ⟨w', reached, abreast', same⟩
      have counting' := (one.counts m middle counting here).1
      rcases two.short middle w' m' counting' abreast' later (same ▸ small) with ⟨e', stopped⟩
      exact ⟨e', bind_eq_error.mpr (.inr ⟨w', reached, stopped⟩)⟩
  long m w m' counting abreast done room := by
    rcases bind_eq_ok.mp done with ⟨middle, here, later⟩
    have before := one.counts m middle counting here
    have after := two.counts middle m' before.1 later
    have room' : 4 + middle.pos ≤ w.buf.length := (Nat.add_le_add_left after.2 4).trans room
    rcases one.long m w middle counting abreast here room' with ⟨w', reached, abreast', same⟩
    rcases two.long middle w' m' before.1 abreast' later (same ▸ room) with
      ⟨w'', reached', abreast'', same'⟩
    exact ⟨w'', bind_eq_ok.mpr ⟨w', reached, reached'⟩, abreast'', same'.trans same⟩

theorem measures_done : Measures .ok where
  ample _ _ failed := nomatch failed
  counts m m' counting done := by
    cases done
    exact ⟨counting, le_rfl⟩
  fails _ _ _ _ _ failed := nomatch failed
  short m w m' _ abreast done small := by
    cases done
    have pos := abreast.pos
    have fits := abreast.fits
    omega
  long m w m' _ abreast done _ := by
    cases done
    exact ⟨w, rfl, abreast, rfl⟩

theorem measures_throw (e : SerError) (other : e ≠ .bufferTooSmall) :
    Measures fun _ => .error e where
  ample _ _ failed := other (Except.error.inj failed)
  counts _ _ _ done := nomatch done
  fails _ _ _ _ _ _ := ⟨_, rfl⟩
  short _ _ _ _ _ done := nomatch done
  long _ _ _ _ _ done := nomatch done

theorem put_counting {m : CdrWriter} (counting : Counting m) (bytes : List UInt8)
    (slice : bytes.length ≤ usizeMax) :
    m.put bytes = .ok { m with pos := m.pos + bytes.length } := by
  rw [put, remaining, if_pos counting.measure, if_neg (Nat.not_lt.mpr slice), if_pos counting.measure]

theorem measures_store (bytes : CdrWriter → List UInt8)
    (slice : ∀ m, Counting m → (bytes m).length ≤ usizeMax)
    (same : ∀ m w, Counting m → Abreast m w → bytes w = bytes m) :
    Measures fun w => w.put (bytes w) where
  ample m counting failed := by
    rw [put_counting counting _ (slice m counting)] at failed
    cases failed
  counts m m' counting done := by
    rw [put_counting counting _ (slice m counting)] at done
    cases done
    exact ⟨⟨counting.measure, counting.origin⟩, Nat.le_add_right _ _⟩
  fails m w e counting _ failed := by
    rw [put_counting counting _ (slice m counting)] at failed
    cases failed
  short m w m' counting abreast done small := by
    rw [put_counting counting _ (slice m counting)] at done
    cases done
    have pos := abreast.pos
    have fits := abreast.fits
    have full : w.remaining < (bytes m).length := by
      rw [remaining, abreast.stores, if_neg Bool.false_ne_true]
      change w.buf.length < 4 + (m.pos + (bytes m).length) at small
      omega
    rw [same m w counting abreast, put, if_pos full]
    exact ⟨_, rfl⟩
  long m w m' counting abreast done room := by
    rw [put_counting counting _ (slice m counting)] at done
    cases done
    change 4 + (m.pos + (bytes m).length) ≤ w.buf.length at room
    have pos := abreast.pos
    have fits : ¬ w.remaining < (bytes m).length := by
      rw [remaining, abreast.stores, if_neg Bool.false_ne_true]
      omega
    have stop : w.pos + (bytes m).length ≤ w.buf.length := by omega
    rw [same m w counting abreast, put, if_neg fits, abreast.stores]
    refine ⟨_, rfl, ?_, length_overwrite _ _ _ stop⟩
    refine ⟨rfl, abreast.version, abreast.origin, ?_, ?_⟩
    · dsimp only
      omega
    · dsimp only
      rw [if_neg Bool.false_ne_true, length_overwrite _ _ _ stop]
      exact stop

theorem measures_put (bytes : List UInt8) (slice : bytes.length ≤ usizeMax) :
    Measures fun w => w.put bytes :=
  measures_store (fun _ => bytes) (fun _ _ => slice) fun _ _ _ _ => rfl

theorem measures_align (alignment : Nat) (positive : 0 < alignment) (word : alignment ≤ usizeMax) :
    Measures fun w => w.align alignment := by
  apply measures_store
  · intro m _
    have cap : 0 < alignCap m.version alignment ∧ alignCap m.version alignment ≤ alignment := by
      cases m.version with
      | xcdr1 => exact ⟨positive, le_rfl⟩
      | xcdr2 => exact ⟨Nat.lt_min.mpr ⟨positive, by decide⟩, Nat.min_le_left _ _⟩
    rw [List.length_replicate]
    exact ((padding_lt _ _ cap.1).le.trans cap.2).trans word
  · intro m w counting abreast
    rw [abreast.version, abreast.pos, abreast.origin, counting.origin, Nat.add_sub_cancel_left,
      Nat.sub_zero]

theorem measures_word (width value : Nat) (positive : 0 < width) (word : width ≤ usizeMax) :
    Measures fun w => writeWord width w value := by
  apply (measures_align width positive word).bind
  apply measures_put
  rw [length_leBytes]
  exact word

theorem measures_string (s : String) : Measures fun w => w.writeString s := by
  by_cases long : (asBytes s).length + 1 > u32Max
  · have refused : (fun w : CdrWriter => w.writeString s) = fun _ => .error .stringTooLong := by
      funext w
      rw [writeString, if_pos long]
      rfl
    rw [refused]
    exact measures_throw _ nofun
  · have written : (fun w : CdrWriter => w.writeString s) = fun w =>
        w.writeU32 (UInt32.ofNat ((asBytes s).length + 1)) >>= fun w =>
          w.writeBytes (asBytes s) >>= fun w => w.writeU8 0 := by
      funext w
      rw [writeString, if_neg long]
    have small : u32Max ≤ usizeMax := by decide
    rw [written]
    apply (measures_word 4 _ (by decide) (by decide)).bind
    exact (measures_put _ (by omega)).bind (measures_put [0] (by decide))

theorem measures_sequenceLen (len : Nat) : Measures fun w => w.writeSequenceLen len := by
  by_cases long : len > u32Max
  · have refused : (fun w : CdrWriter => w.writeSequenceLen len) =
        fun _ => .error .sequenceTooLong := by
      funext w
      rw [writeSequenceLen, if_pos long]
      rfl
    rw [refused]
    exact measures_throw _ nofun
  · have written : (fun w : CdrWriter => w.writeSequenceLen len) =
        fun w => w.writeU32 (UInt32.ofNat len) := by
      funext w
      rw [writeSequenceLen, if_neg long]
    rw [written]
    exact measures_word 4 _ (by decide) (by decide)

theorem measures_op (op : WriterOp) : Measures op.perform := by
  cases op with
  | align alignment positive =>
    apply measures_align
    · exact Nat.pos_of_ne_zero fun zero => positive (UInt64.toNat_inj.mp zero)
    · exact Nat.le_sub_one_of_lt alignment.toNat_lt
  | writeU8 value => exact measures_put [value] (Nat.one_le_two_pow.trans (by decide : 2 ^ 0 ≤ usizeMax))
  | writeU16 value => exact measures_word 2 _ (by decide) (by decide)
  | writeU32 value => exact measures_word 4 _ (by decide) (by decide)
  | writeU64 value => exact measures_word 8 _ (by decide) (by decide)
  | writeBytes bytes slice => exact measures_put bytes slice
  | writeString s => exact measures_string s
  | writeSequenceLen len => exact measures_sequenceLen len

/-! ### Delimited structs -/

/-- A step back in the buffer that moves no writer. -/
structure Patches (patch : CdrWriter → Except SerError CdrWriter) (slot : Nat) : Prop where
  counts : ∀ m, Counting m → patch m = .ok m
  stores : ∀ w, w.measure = false → slot + 4 ≤ w.buf.length →
    ∃ buf, patch w = .ok { w with buf := buf } ∧ buf.length = w.buf.length

theorem patches_endDheader (slot : Nat) : Patches (fun w => w.endDheader (some slot)) slot where
  counts m counting := by
    rw [endDheader, if_pos counting.measure]
  stores w stores room := by
    refine ⟨overwrite w.buf slot (leBytes 4 (w.pos - (slot + 4))), ?_, ?_⟩
    · rw [endDheader, stores, if_neg Bool.false_ne_true]
    · apply length_overwrite
      rw [length_leBytes]
      exact room

theorem Measures.bracket {start members : CdrWriter → Except SerError CdrWriter}
    {patch : Nat → CdrWriter → Except SerError CdrWriter} (one : Measures start)
    (slot : ∀ w w', start w = .ok w' → 4 ≤ w'.pos) (two : Measures members)
    (patches : ∀ at_, Patches (patch at_) at_) :
    Measures fun w => start w >>= fun opened =>
      members opened >>= fun written => patch (opened.pos - 4) written := by
  have inner := one.bind two
  have counted (m opened written : CdrWriter) (counting : Counting m)
      (here : start m = .ok opened) (there : members opened = .ok written) :
      patch (opened.pos - 4) written = .ok written :=
    (patches _).counts written (two.counts _ _ (one.counts m _ counting here).1 there).1
  have split {m : CdrWriter} {m' : CdrWriter} (counting : Counting m)
      (done : (start m >>= fun opened => members opened >>= fun written =>
        patch (opened.pos - 4) written) = .ok m') : (start m >>= members) = .ok m' := by
    rcases bind_eq_ok.mp done with ⟨opened, here, later⟩
    rcases bind_eq_ok.mp later with ⟨written, there, patched⟩
    rw [counted m opened written counting here there] at patched
    cases patched
    exact bind_eq_ok.mpr ⟨opened, here, there⟩
  have halts {w : CdrWriter} {e : SerError} (failed : (start w >>= members) = .error e) :
      (start w >>= fun opened => members opened >>= fun written =>
        patch (opened.pos - 4) written) = .error e := by
    rcases bind_eq_error.mp failed with here | ⟨opened, here, there⟩
    · exact bind_eq_error.mpr (.inl here)
    · exact bind_eq_error.mpr (.inr ⟨opened, here, bind_eq_error.mpr (.inl there)⟩)
  have fails {m : CdrWriter} {e : SerError} (counting : Counting m)
      (failed : (start m >>= fun opened => members opened >>= fun written =>
        patch (opened.pos - 4) written) = .error e) : (start m >>= members) = .error e := by
    rcases bind_eq_error.mp failed with here | ⟨opened, here, later⟩
    · exact bind_eq_error.mpr (.inl here)
    · rcases bind_eq_error.mp later with there | ⟨written, there, patched⟩
      · exact bind_eq_error.mpr (.inr ⟨opened, here, there⟩)
      · rw [counted m opened written counting here there] at patched
        cases patched
  refine ⟨fun m counting failed => ?_, fun m m' counting done => ?_,
    fun m w e counting abreast failed => ?_, fun m w m' counting abreast done small => ?_,
    fun m w m' counting abreast done room => ?_⟩
  · exact inner.ample m counting (fails counting failed)
  · exact inner.counts m m' counting (split counting done)
  · rcases inner.fails m w e counting abreast (fails counting failed) with ⟨e', stopped⟩
    exact ⟨e', halts stopped⟩
  · rcases inner.short m w m' counting abreast (split counting done) small with ⟨e', stopped⟩
    exact ⟨e', halts stopped⟩
  · rcases inner.long m w m' counting abreast (split counting done) room with
      ⟨w', reached, abreast', same⟩
    rcases bind_eq_ok.mp reached with ⟨opened, here, there⟩
    have four := slot w opened here
    have fits : opened.pos ≤ w'.buf.length := by
      rcases bind_eq_ok.mp (split counting done) with ⟨begun, here', there'⟩
      have before := one.counts m begun counting here'
      have after := two.counts begun m' before.1 there'
      have room' : 4 + begun.pos ≤ w.buf.length := (Nat.add_le_add_left after.2 4).trans room
      rcases one.long m w begun counting abreast here' room' with ⟨w'', reached', abreast'', same'⟩
      rw [here] at reached'
      cases reached'
      rw [same, ← same']
      exact abreast''.fits
    have inside : opened.pos - 4 + 4 ≤ w'.buf.length := by omega
    rcases (patches (opened.pos - 4)).stores w' abreast'.stores inside with ⟨buf, patched, length⟩
    refine ⟨{ w' with buf := buf }, ?_, ?_, length.trans same⟩
    · exact bind_eq_ok.mpr ⟨opened, here, bind_eq_ok.mpr ⟨w', there, patched⟩⟩
    · exact ⟨abreast'.stores, abreast'.version, abreast'.origin, abreast'.pos,
        length.symm ▸ abreast'.fits⟩

theorem Measures.byVersion {write one two : CdrWriter → Except SerError CdrWriter}
    (first : Measures one) (second : Measures two)
    (plain : ∀ w, w.version = .xcdr1 → write w = one w)
    (delimits : ∀ w, w.version = .xcdr2 → write w = two w) : Measures write := by
  have either (m : CdrWriter) : ∃ chosen, Measures chosen ∧
      ∀ w, w.version = m.version → write w = chosen w := by
    cases version : m.version with
    | xcdr1 => exact ⟨one, first, plain⟩
    | xcdr2 => exact ⟨two, second, delimits⟩
  refine ⟨fun m counting => ?_, fun m m' counting => ?_, fun m w e counting abreast => ?_,
    fun m w m' counting abreast => ?_, fun m w m' counting abreast => ?_⟩ <;>
    rcases either m with ⟨chosen, measures, same⟩ <;> rw [same m rfl]
  · exact measures.ample m counting
  · exact measures.counts m m' counting
  · rw [same w abreast.version]
    exact measures.fails m w e counting abreast
  · rw [same w abreast.version]
    exact measures.short m w m' counting abreast
  · rw [same w abreast.version]
    exact measures.long m w m' counting abreast

theorem measures_delimited {members : CdrWriter → Except SerError CdrWriter}
    (measures : Measures members) : Measures (delimit members) := by
  have start : Measures fun w => w.align 4 >>= fun w => w.put [0, 0, 0, 0] :=
    (measures_align 4 (by decide) (by decide)).bind (measures_put _ (by decide))
  have slot (w w' : CdrWriter) (done : (w.align 4 >>= fun w => w.put [0, 0, 0, 0]) = .ok w') :
      4 ≤ w'.pos := by
    rcases bind_eq_ok.mp done with ⟨aligned, _, stored⟩
    rw [put] at stored
    split at stored
    · cases stored
    · cases stored
      exact Nat.le_add_left 4 _
  refine (measures.bind measures_done).byVersion
    (start.bracket slot measures patches_endDheader) (fun w plain => ?_) fun w delimits => ?_
  · rw [delimit, beginDheader, plain]
    rfl
  · rw [delimit, beginDheader, delimits]
    cases w.align 4 with
    | error e => rfl
    | ok aligned =>
      have place : ∀ opened, aligned.put [0, 0, 0, 0] = .ok opened →
          opened.pos - 4 = aligned.pos := by
        intro opened stored
        rw [put] at stored
        split at stored
        · cases stored
        · cases stored
          exact Nat.add_sub_cancel _ 4
      change (aligned.put [0, 0, 0, 0] >>= fun opened => Except.ok (some aligned.pos, opened)) >>=
          (fun x => members x.2 >>= fun written => written.endDheader x.1) =
        aligned.put [0, 0, 0, 0] >>= fun opened =>
          members opened >>= fun written => written.endDheader (some (opened.pos - 4))
      cases stored : aligned.put [0, 0, 0, 0] with
      | error e => rfl
      | ok opened =>
        have same := place opened stored
        change (members opened >>= fun written => written.endDheader (some aligned.pos)) =
          members opened >>= fun written => written.endDheader (some (opened.pos - 4))
        rw [same]

theorem measures_program (program : Program) : Measures program.run := by
  induction program with
  | done => exact measures_done
  | op first rest ih => exact (measures_op first).bind ih
  | delimited members rest ihMembers ihRest =>
    exact (measures_delimited ihMembers).bind ihRest

theorem newHeaded_abreast {version : EncodingVersion} {buf scratch : List UInt8}
    (room : 4 ≤ buf.length) : ∃ w, newHeaded version buf = .ok w ∧
      Abreast (measuring scratch version) w ∧ w.buf.length = buf.length := by
  have enough : ¬ buf.length < 4 := Nat.not_lt.mpr room
  have kept (header : List UInt8) (four : header.length = 4) :
      (overwrite buf 0 header).length = buf.length := by
    apply length_overwrite
    rw [four, Nat.zero_add]
    exact room
  cases version with
  | xcdr1 =>
    refine ⟨_, if_neg enough, ?_, kept _ rfl⟩
    exact ⟨rfl, rfl, rfl, rfl, (kept cdrLeHeader rfl).symm ▸ room⟩
  | xcdr2 =>
    refine ⟨_, if_neg enough, ?_, kept _ rfl⟩
    exact ⟨rfl, rfl, rfl, rfl, (kept cdr2DelimitedLeHeader rfl).symm ▸ room⟩

/-- Measuring never runs out of room, and says exactly which buffers a program fits in and where
it ends there. -/
theorem measure_decides_fit (program : Program) (version : EncodingVersion)
    (scratch buf : List UInt8) (room : 4 ≤ buf.length) :
    program.run (measuring scratch version) ≠ .error .bufferTooSmall ∧
    ∃ w, newHeaded version buf = .ok w ∧
      (∀ e, program.run (measuring scratch version) = .error e → ∃ e', program.run w = .error e') ∧
      ∀ m, program.run (measuring scratch version) = .ok m →
        ((∃ last, program.run w = .ok last) ↔ 4 + m.position ≤ buf.length) ∧
        ∀ last, program.run w = .ok last → last.position = 4 + m.position := by
  have measures := measures_program program
  have counting : Counting (measuring scratch version) := ⟨rfl, rfl⟩
  rcases @newHeaded_abreast version buf scratch room with ⟨w, opened, abreast, length⟩
  refine ⟨measures.ample _ counting, w, opened, fun e => measures.fails _ w e counting abreast,
    fun m measured => ?_⟩
  have short := measures.short _ w m counting abreast measured
  have long := measures.long _ w m counting abreast measured
  rw [length] at short long
  constructor
  · constructor
    · rintro ⟨last, reached⟩
      by_contra small
      rcases short (Nat.not_le.mp small) with ⟨e, stopped⟩
      rw [reached] at stopped
      cases stopped
    · intro enough
      rcases long enough with ⟨last, reached, _, _⟩
      exact ⟨last, reached⟩
  · intro last reached
    by_cases enough : 4 + m.pos ≤ buf.length
    · rcases long enough with ⟨last', reached', abreast', _⟩
      rw [reached] at reached'
      cases reached'
      exact abreast'.pos
    · rcases short (Nat.not_le.mp enough) with ⟨e, stopped⟩
      rw [reached] at stopped
      cases stopped

/-- A byte and an eight-byte number, which XCDR2 aligns to four. -/
theorem measure_decides_fit_header :
    ∃ w, newHeaded .xcdr2 (List.replicate 20 0) = .ok w ∧ ∃ last,
      (Program.op (.writeU8 7) (.op (.writeU64 9) .done)).run w = .ok last ∧
        last.position = 16 := by
  rcases (measure_decides_fit (.op (.writeU8 7) (.op (.writeU64 9) .done)) .xcdr2 []
    (List.replicate 20 0) (by decide)).2 with ⟨w, opened, _, decides⟩
  rcases decides _ rfl with ⟨fits, place⟩
  rcases fits.mpr (by decide) with ⟨last, reached⟩
  exact ⟨w, opened, last, reached, place last reached⟩

end CdrWriter

end NanoRos
