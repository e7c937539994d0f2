import NanoRos.Lib.Loops
import NanoRos.Lib.Placement
import NanoRos.Serdes.Cdr

/-! Where a writer stands after each operation, counted from the end of the header (XCDR1). -/

namespace NanoRos

open LittleEndian

namespace CdrWriter

/-- The writer of a message behind its header, `offset` bytes into the body. -/
structure At (w : CdrWriter) (offset : Nat) : Prop where
  version : w.version = .xcdr1
  origin : w.origin = 4
  pos : w.pos = 4 + offset

/-- Started at an offset, the operation stops at the one given. -/
def Stops (write : CdrWriter → Except SerError CdrWriter) (stop : Nat → Nat) : Prop :=
  ∀ (w w' : CdrWriter) (offset : Nat), w.At offset → write w = .ok w' → w'.At (stop offset)

theorem newWithHeader_at {buf : List UInt8} {w : CdrWriter}
    (opened : CdrWriter.newWithHeader buf = .ok w) : w.At 0 := by
  rw [newWithHeader] at opened
  split at opened
  · cases opened
  · cases opened
    exact ⟨rfl, rfl, rfl⟩

theorem Stops.bind {first second : CdrWriter → Except SerError CdrWriter} {stop stop' : Nat → Nat}
    (one : Stops first stop) (two : Stops second stop') :
    Stops (fun w => first w >>= second) (fun offset => stop' (stop offset)) := by
  intro w w' offset start done
  obtain ⟨middle, here, there⟩ := bind_eq_ok.mp done
  exact two _ _ _ (one _ _ _ start here) there

theorem put_stops (bytes : List UInt8) : Stops (fun w => w.put bytes) (· + bytes.length) := by
  intro w w' offset start done
  dsimp only at done
  rw [put] at done
  split at done
  · cases done
  · cases done
    exact ⟨start.version, start.origin, by rw [start.pos, Nat.add_assoc]⟩

theorem align_stops {alignment : Nat} (small : alignCap .xcdr1 alignment = alignment) :
    Stops (fun w => w.align alignment) (alignUp alignment) := by
  intro w w' offset start done
  dsimp only at done
  rw [align] at done
  have stopped := put_stops _ _ _ _ start done
  rw [List.length_replicate, start.version, small, start.pos, start.origin,
    Nat.add_sub_cancel_left] at stopped
  exact stopped

theorem writeU8_stops (value : UInt8) : Stops (fun w => w.writeU8 value) (· + 1) :=
  put_stops [value]

theorem writeBool_stops (value : Bool) : Stops (fun w => w.writeBool value) (· + 1) :=
  writeU8_stops _

theorem writeWord_stops {width : Nat} (small : alignCap .xcdr1 width = width) (value : Nat) :
    Stops (fun w => writeWord width w value) (fun offset => alignUp width offset + width) := by
  have bytes : (leBytes width value).length = width := length_leBytes width value
  have stops := (align_stops small).bind (put_stops (leBytes width value))
  rw [bytes] at stops
  exact stops

theorem writeU32_stops (value : UInt32) :
    Stops (fun w => w.writeU32 value) (fun offset => alignUp 4 offset + 4) :=
  writeWord_stops rfl value.toNat

theorem writeU64_stops (value : UInt64) :
    Stops (fun w => w.writeU64 value) (fun offset => alignUp 8 offset + 8) :=
  writeWord_stops rfl value.toNat

theorem writeI64_stops (value : Int64) :
    Stops (fun w => w.writeI64 value) (fun offset => alignUp 8 offset + 8) :=
  writeU64_stops value.toUInt64

theorem writeF64_stops (value : F64) :
    Stops (fun w => w.writeF64 value) (fun offset => alignUp 8 offset + 8) :=
  writeU64_stops value.bits

theorem writeSequenceLen_stops (len : Nat) :
    Stops (fun w => w.writeSequenceLen len) (fun offset => alignUp 4 offset + 4) := by
  intro w w' offset start done
  dsimp only at done
  rw [writeSequenceLen] at done
  split at done
  · cases done
  · exact writeU32_stops _ _ _ _ start done

theorem writeString_stops (s : String) :
    Stops (fun w => w.writeString s)
      (fun offset => alignUp 4 offset + 4 + (asBytes s).length + 1) := by
  intro w w' offset start done
  dsimp only at done
  rw [writeString] at done
  split at done
  · cases done
  · exact ((writeU32_stops _).bind ((put_stops (asBytes s)).bind (writeU8_stops 0))) _ _ _ start done

theorem foldlM_stops {α : Type} {write : CdrWriter → α → Except SerError CdrWriter}
    {stop : α → Nat → Nat} {items : List α}
    (each : ∀ item ∈ items, Stops (fun w => write w item) (stop item)) :
    Stops (fun w => items.foldlM write w) (placed stop items) := by
  induction items with
  | nil =>
    intro w w' offset start done
    cases done
    exact start
  | cons item items ih =>
    intro w w' offset start done
    dsimp only at done
    rw [List.foldlM_cons] at done
    obtain ⟨middle, here, there⟩ := bind_eq_ok.mp done
    exact ih (fun item member => each item (List.mem_cons_of_mem _ member)) _ _ _
      (each item List.mem_cons_self _ _ _ start here) there

/-! With room enough the operations succeed. -/

/-- The writer of a buffer of so many bytes. -/
structure Open (w : CdrWriter) (room : Nat) : Prop where
  measure : w.measure = false
  length : w.buf.length = room

/-- The operation succeeds wherever the buffer reaches its stop. -/
structure Runs (write : CdrWriter → Except SerError CdrWriter) (stop : Nat → Nat) : Prop where
  stops : Stops write stop
  grows : ∀ offset, offset ≤ stop offset
  succeeds : ∀ (w : CdrWriter) (offset room : Nat), w.At offset → w.Open room →
    4 + stop offset ≤ room → ∃ w', write w = .ok w' ∧ w'.Open room

theorem Runs.bind {first second : CdrWriter → Except SerError CdrWriter} {stop stop' : Nat → Nat}
    (one : Runs first stop) (two : Runs second stop') :
    Runs (fun w => first w >>= second) (fun offset => stop' (stop offset)) where
  stops := one.stops.bind two.stops
  grows offset := (one.grows offset).trans (two.grows (stop offset))
  succeeds w offset room start free fits := by
    have further := two.grows (stop offset)
    obtain ⟨middle, here, still⟩ := one.succeeds w offset room start free (by omega)
    obtain ⟨last, there, done⟩ :=
      two.succeeds middle (stop offset) room (one.stops _ _ _ start here) still fits
    exact ⟨last, bind_eq_ok.mpr ⟨middle, here, there⟩, done⟩

theorem put_runs (bytes : List UInt8) : Runs (fun w => w.put bytes) (· + bytes.length) where
  stops := put_stops bytes
  grows offset := Nat.le_add_right _ _
  succeeds w offset room start free fits := by
    have inside : w.pos + bytes.length ≤ w.buf.length := by
      rw [start.pos, free.length]
      omega
    have enough : ¬ w.remaining < bytes.length := by
      rw [remaining, free.measure, if_neg Bool.false_ne_true]
      omega
    refine ⟨_, if_neg enough, free.measure, ?_⟩
    dsimp only
    rw [free.measure, if_neg Bool.false_ne_true, Memory.length_overwrite _ _ _ inside, free.length]

theorem align_runs {alignment : Nat} (small : alignCap .xcdr1 alignment = alignment) :
    Runs (fun w => w.align alignment) (alignUp alignment) where
  stops := align_stops small
  grows := le_alignUp alignment
  succeeds w offset room start free fits := by
    have filled := put_runs (List.replicate (padding (alignCap w.version alignment)
      (w.pos - w.origin)) 0)
    apply filled.succeeds w offset room start free
    rw [List.length_replicate, start.version, small, start.pos, start.origin,
      Nat.add_sub_cancel_left]
    exact fits

theorem writeU8_runs (value : UInt8) : Runs (fun w => w.writeU8 value) (· + 1) := put_runs [value]

theorem writeBool_runs (value : Bool) : Runs (fun w => w.writeBool value) (· + 1) :=
  writeU8_runs _

theorem writeWord_runs {width : Nat} (small : alignCap .xcdr1 width = width) (value : Nat) :
    Runs (fun w => writeWord width w value) (fun offset => alignUp width offset + width) := by
  have bytes : (leBytes width value).length = width := length_leBytes width value
  have runs := (align_runs small).bind (put_runs (leBytes width value))
  rw [bytes] at runs
  exact runs

theorem writeI64_runs (value : Int64) :
    Runs (fun w => w.writeI64 value) (fun offset => alignUp 8 offset + 8) :=
  writeWord_runs rfl value.toUInt64.toNat

theorem writeF64_runs (value : F64) :
    Runs (fun w => w.writeF64 value) (fun offset => alignUp 8 offset + 8) :=
  writeWord_runs rfl value.bits.toNat

theorem writeSequenceLen_runs {len : Nat} (small : len ≤ u32Max) :
    Runs (fun w => w.writeSequenceLen len) (fun offset => alignUp 4 offset + 4) := by
  have counted : (fun w : CdrWriter => w.writeSequenceLen len) =
      fun w => w.writeU32 (UInt32.ofNat len) := by
    funext w
    rw [writeSequenceLen, if_neg (Nat.not_lt.mpr small)]
  rw [counted]
  exact writeWord_runs rfl (UInt32.ofNat len).toNat

theorem writeString_runs {s : String} (small : (asBytes s).length + 1 ≤ u32Max) :
    Runs (fun w => w.writeString s)
      (fun offset => alignUp 4 offset + 4 + (asBytes s).length + 1) := by
  have text : (fun w : CdrWriter => w.writeString s) = fun w =>
      w.writeU32 (UInt32.ofNat ((asBytes s).length + 1)) >>= fun w =>
        w.put (asBytes s) >>= fun w => w.writeU8 0 := by
    funext w
    rw [writeString, if_neg (Nat.not_lt.mpr small)]
    rfl
  rw [text]
  exact (writeWord_runs rfl _).bind ((put_runs (asBytes s)).bind (writeU8_runs 0))

theorem foldlM_runs {α : Type} {write : CdrWriter → α → Except SerError CdrWriter}
    {stop : α → Nat → Nat} {items : List α}
    (each : ∀ item ∈ items, Runs (fun w => write w item) (stop item)) :
    Runs (fun w => items.foldlM write w) (placed stop items) := by
  induction items with
  | nil => exact ⟨foldlM_stops fun _ => nofun, fun _ => Nat.le_refl _,
      fun w _ _ _ free _ => ⟨w, rfl, free⟩⟩
  | cons item items ih =>
    have runs := (each item List.mem_cons_self).bind
      (ih fun item member => each item (List.mem_cons_of_mem _ member))
    have loop : (fun w => (item :: items).foldlM write w) =
        fun w => write w item >>= fun w => items.foldlM write w :=
      funext fun w => List.foldlM_cons
    rw [loop]
    exact runs

end CdrWriter

end NanoRos
