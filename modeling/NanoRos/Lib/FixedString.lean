import Mathlib.Data.String.Basic
import Mathlib.Tactic

/-! Text in a buffer of at most `N` bytes (`heapless::String`). -/

namespace NanoRos

/-- A `&str`, by its Unicode scalar values. -/
abbrev Text := List Char

open String (utf8Len)

theorem utf8Len_map (f : Char → Char) (same : ∀ c, (f c).utf8Size = c.utf8Size) (text : Text) :
    utf8Len (text.map f) = utf8Len text := by
  induction text with
  | nil => rfl
  | cons c text ih => rw [List.map_cons, String.utf8Len_cons, String.utf8Len_cons, same, ih]

structure FixedString (N : Nat) where
  text : Text
  fits : utf8Len text ≤ N
  deriving DecidableEq, Repr

namespace FixedString

variable {N : Nat}

@[ext] theorem ext_text {s t : FixedString N} (same : s.text = t.text) : s = t := by
  cases s
  cases t
  simpa using same

def empty : FixedString N := ⟨[], Nat.zero_le N⟩

def push (s : FixedString N) (c : Char) : Option (FixedString N) :=
  if room : utf8Len (s.text ++ [c]) ≤ N then some ⟨s.text ++ [c], room⟩ else none

def pushStr (s : FixedString N) (piece : Text) : Option (FixedString N) :=
  if room : utf8Len (s.text ++ piece) ≤ N then some ⟨s.text ++ piece, room⟩ else none

/-- `let _ = s.push(c)`. -/
def pushOrDrop (s : FixedString N) (c : Char) : FixedString N := (s.push c).getD s

def pushAll (s : FixedString N) (text : Text) : FixedString N := text.foldl pushOrDrop s

/-- `core::fmt::write`: what was written, and whether all of it was. -/
def write (s : FixedString N) : List Text → FixedString N × Bool
  | [] => (s, true)
  | piece :: rest =>
    match s.pushStr piece with
    | some longer => longer.write rest
    | none => (s, false)

@[simp] theorem text_empty : (empty : FixedString N).text = [] := rfl

variable (s : FixedString N)

theorem pushOrDrop_of_room {c : Char} (room : utf8Len s.text + c.utf8Size ≤ N)
    : (s.pushOrDrop c).text = s.text ++ [c] := by
  have fits : utf8Len (s.text ++ [c]) ≤ N := by simpa using room
  rw [pushOrDrop, push, dif_pos fits]
  rfl

theorem pushOrDrop_of_full {c : Char} (full : N < utf8Len s.text + c.utf8Size)
    : s.pushOrDrop c = s := by
  have tooLong : ¬ utf8Len (s.text ++ [c]) ≤ N := by simpa using full
  simp only [pushOrDrop, push, dif_neg tooLong, Option.getD_none]

theorem pushAll_of_room {text : Text} (room : utf8Len s.text + utf8Len text ≤ N)
    : (s.pushAll text).text = s.text ++ text := by
  induction text generalizing s with
  | nil => simp [pushAll]
  | cons c rest ih =>
    rw [String.utf8Len_cons] at room
    have first : (s.pushOrDrop c).text = s.text ++ [c] := s.pushOrDrop_of_room (by omega)
    have later := ih (s.pushOrDrop c) (by
      rw [first, String.utf8Len_append, String.utf8Len_cons, String.utf8Len_nil]
      omega)
    calc
      (s.pushAll (c :: rest)).text = ((s.pushOrDrop c).pushAll rest).text := rfl
      _ = (s.text ++ [c]) ++ rest := by rw [later, first]
      _ = s.text ++ c :: rest := by simp

theorem pushAll_sublist (text : Text) : (s.pushAll text).text.Sublist (s.text ++ text) := by
  induction text generalizing s with
  | nil => exact List.sublist_append_left s.text []
  | cons c rest ih =>
    apply (ih (s.pushOrDrop c)).trans
    by_cases room : utf8Len s.text + c.utf8Size ≤ N
    · rw [s.pushOrDrop_of_room room, List.append_assoc, List.singleton_append]
    · rw [s.pushOrDrop_of_full (by omega)]
      exact (List.sublist_cons_self c rest).append_left s.text

theorem pushAll_map (f : Char → Char) (same : ∀ c, (f c).utf8Size = c.utf8Size)
    {s t : FixedString N} (text : Text) (renamed : t.text = s.text.map f) :
    (t.pushAll (text.map f)).text = (s.pushAll text).text.map f := by
  induction text generalizing s t with
  | nil => exact renamed
  | cons c rest ih =>
    apply ih
    have length : utf8Len t.text = utf8Len s.text := by rw [renamed, utf8Len_map f same]
    by_cases room : utf8Len s.text + c.utf8Size ≤ N
    · have roomToo : utf8Len t.text + (f c).utf8Size ≤ N := by rw [length, same]; exact room
      rw [t.pushOrDrop_of_room roomToo, s.pushOrDrop_of_room room, renamed, List.map_append]
      rfl
    · have fullToo : N < utf8Len t.text + (f c).utf8Size := by rw [length, same]; omega
      rw [t.pushOrDrop_of_full fullToo, s.pushOrDrop_of_full (by omega), renamed]

/-- As much of a text as a buffer of `N` bytes keeps. -/
def clip (N : Nat) (text : Text) : Text := ((empty : FixedString N).pushAll text).text

theorem utf8Len_clip (N : Nat) (text : Text) : utf8Len (clip N text) ≤ N :=
  ((empty : FixedString N).pushAll text).fits

theorem clip_eq_iff (N : Nat) (text : Text) : clip N text = text ↔ utf8Len text ≤ N := by
  constructor
  · intro whole
    rw [← whole]
    exact utf8Len_clip N text
  · intro room
    exact (empty : FixedString N).pushAll_of_room (by simpa using room)

theorem clip_sublist (N : Nat) (text : Text) : (clip N text).Sublist text :=
  pushAll_sublist empty text

theorem clip_map (N : Nat) (f : Char → Char) (same : ∀ c, (f c).utf8Size = c.utf8Size)
    (text : Text) : clip N (text.map f) = (clip N text).map f :=
  pushAll_map f same text rfl

theorem pushStr_of_room (piece : Text) (room : utf8Len s.text + utf8Len piece ≤ N) :
    ∃ longer, s.pushStr piece = some longer ∧ longer.text = s.text ++ piece := by
  have fits : utf8Len (s.text ++ piece) ≤ N := by simpa using room
  exact ⟨⟨s.text ++ piece, fits⟩, by rw [pushStr, dif_pos fits], rfl⟩

theorem pushStr_of_full {piece : Text} (full : N < utf8Len s.text + utf8Len piece)
    : s.pushStr piece = none := by
  have tooLong : ¬ utf8Len (s.text ++ piece) ≤ N := by simpa using full
  rw [pushStr, dif_neg tooLong]

theorem text_pushStr {s : FixedString N} {before : Text} (held : s.text = before) (piece : Text)
    (room : utf8Len before + utf8Len piece ≤ N) :
    ((s.pushStr piece).getD s).text = before ++ piece := by
  subst held
  obtain ⟨longer, pushed, text⟩ := s.pushStr_of_room piece room
  rw [pushed]
  exact text

theorem write_append (pieces rest : List Text)
    (room : utf8Len s.text + utf8Len pieces.flatten ≤ N) :
    ∃ longer : FixedString N, longer.text = s.text ++ pieces.flatten ∧
      s.write (pieces ++ rest) = longer.write rest := by
  induction pieces generalizing s with
  | nil => exact ⟨s, by simp, rfl⟩
  | cons piece pieces ih =>
    rw [List.flatten_cons, String.utf8Len_append] at room
    obtain ⟨next, pushed, nextText⟩ := s.pushStr_of_room piece (by omega)
    obtain ⟨longer, text, goesOn⟩ := ih next (by rw [nextText, String.utf8Len_append]; omega)
    refine ⟨longer, ?_, ?_⟩
    · rw [text, nextText, List.flatten_cons, List.append_assoc]
    · rw [List.cons_append, write, pushed]
      exact goesOn

theorem write_of_room (pieces : List Text) (room : utf8Len s.text + utf8Len pieces.flatten ≤ N) :
    (s.write pieces).1.text = s.text ++ pieces.flatten ∧ (s.write pieces).2 = true := by
  obtain ⟨longer, text, goesOn⟩ := s.write_append pieces [] room
  rw [List.append_nil] at goesOn
  rw [goesOn]
  exact ⟨text, rfl⟩

theorem write_singleton (piece : Text) :
    ∃ kept ∈ [piece, []], (s.write [piece]).1.text = s.text ++ kept := by
  by_cases room : utf8Len s.text + utf8Len piece ≤ N
  · have written := s.write_of_room [piece] (by simpa using room)
    exact ⟨piece, by simp, by simpa using written.1⟩
  · refine ⟨[], by simp, ?_⟩
    rw [write, s.pushStr_of_full (by omega), List.append_nil]

theorem write_append_of_full {pieces : List Text} (rest : List Text)
    (full : N < utf8Len s.text + utf8Len pieces.flatten) :
    s.write (pieces ++ rest) = s.write pieces := by
  induction pieces generalizing s with
  | nil =>
    have fits := s.fits
    simp only [List.flatten_nil, String.utf8Len_nil, Nat.add_zero] at full
    omega
  | cons piece pieces ih =>
    rw [List.cons_append, write, write]
    by_cases room : utf8Len s.text + utf8Len piece ≤ N
    · obtain ⟨next, pushed, nextText⟩ := s.pushStr_of_room piece room
      rw [List.flatten_cons, String.utf8Len_append] at full
      rw [pushed]
      exact ih next (by rw [nextText, String.utf8Len_append]; omega)
    · rw [s.pushStr_of_full (by omega)]

theorem write_of_full (pieces : List Text) (full : N < utf8Len s.text + utf8Len pieces.flatten) :
    ∃ k < pieces.length, (s.write pieces).1.text = s.text ++ (pieces.take k).flatten ∧
      (s.write pieces).2 = false := by
  induction pieces generalizing s with
  | nil =>
    have fits := s.fits
    simp only [List.flatten_nil, String.utf8Len_nil, Nat.add_zero] at full
    omega
  | cons piece pieces ih =>
    by_cases room : utf8Len s.text + utf8Len piece ≤ N
    · obtain ⟨next, pushed, nextText⟩ := s.pushStr_of_room piece room
      rw [List.flatten_cons, String.utf8Len_append] at full
      obtain ⟨k, short, text, stopped⟩ := ih next (by rw [nextText, String.utf8Len_append]; omega)
      refine ⟨k + 1, Nat.succ_lt_succ short, ?_, ?_⟩
      · rw [write, pushed, List.take_succ_cons, List.flatten_cons, ← List.append_assoc,
          ← nextText]
        exact text
      · rw [write, pushed]
        exact stopped
    · rw [write, s.pushStr_of_full (by omega)]
      exact ⟨0, Nat.succ_pos _, by simp, rfl⟩

end FixedString

end NanoRos
