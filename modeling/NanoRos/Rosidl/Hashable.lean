import NanoRos.Lib.PrefixCode
import NanoRos.Rosidl.Ast

/-! The text a type hash is taken of: a type's description printed as JSON, and read back. -/

namespace NanoRos.Rosidl

structure FieldTypeDesc where
  typeId : Nat
  capacity : Nat
  stringCapacity : Nat
  nestedTypeName : Text
  deriving DecidableEq, Repr

def FieldTypeDesc.scalar (typeId : Nat) : FieldTypeDesc := ⟨typeId, 0, 0, []⟩

structure FieldDesc where
  name : Text
  ty : FieldTypeDesc
  deriving DecidableEq, Repr

structure IndividualTypeDescription where
  typeName : Text
  fields : List FieldDesc
  deriving DecidableEq, Repr

structure TypeDescription where
  typeDescription : IndividualTypeDescription
  referencedTypeDescriptions : List IndividualTypeDescription
  deriving DecidableEq, Repr

/-- `{:04x}` of a number below 2^16. -/
def hex4 (n : Nat) : Text :=
  [Nat.digitChar (n / 4096), Nat.digitChar (n / 256 % 16), Nat.digitChar (n / 16 % 16),
    Nat.digitChar (n % 16)]

def escapeChar (c : Char) : Text :=
  if c = '"' then ['\\', '"']
  else if c = '\\' then ['\\', '\\']
  else if c = '\n' then ['\\', 'n']
  else if c = '\r' then ['\\', 'r']
  else if c = '\t' then ['\\', 't']
  else if c.toNat < 0x20 ∨ 0x7e < c.toNat then
    if 0xffff < c.toNat then
      let v := c.toNat - 0x10000
      ['\\', 'u'] ++ hex4 (0xd800 + v / 1024) ++ (['\\', 'u'] ++ hex4 (0xdc00 + v % 1024))
    else ['\\', 'u'] ++ hex4 c.toNat
  else [c]

def jsonStr (s : Text) : Text := ['"'] ++ (s.flatMap escapeChar ++ ['"'])

def decimal (n : Nat) : Text := Nat.toDigits 10 n

/-! The texts between the values. -/

def typeIdKey : Text := "\x7b\"type_id\": ".toList
def capacityKey : Text := ", \"capacity\": ".toList
def stringCapacityKey : Text := ", \"string_capacity\": ".toList
def nestedTypeNameKey : Text := ", \"nested_type_name\": ".toList
def nameKey : Text := "\x7b\"name\": ".toList
def typeKey : Text := ", \"type\": ".toList
def typeNameKey : Text := "\x7b\"type_name\": ".toList
def fieldsKey : Text := ", \"fields\": [".toList
def typeDescriptionKey : Text := "\x7b\"type_description\": ".toList
def referencedKey : Text := ", \"referenced_type_descriptions\": [".toList
def comma : Text := ", ".toList

def emitFieldType (ft : FieldTypeDesc) : Text :=
  typeIdKey ++ decimal ft.typeId ++ capacityKey ++
    decimal ft.capacity ++ stringCapacityKey ++ decimal ft.stringCapacity ++
    nestedTypeNameKey ++ jsonStr ft.nestedTypeName ++ ['}']

def emitField (f : FieldDesc) : Text :=
  nameKey ++ jsonStr f.name ++ typeKey ++ emitFieldType f.ty ++ ['}']

def emitIndividual (itd : IndividualTypeDescription) : Text :=
  typeNameKey ++ jsonStr itd.typeName ++ fieldsKey ++
    separated comma emitField itd.fields ++ [']'] ++ ['}']

/-- `sort_by` on the type names. -/
def sortRefs (refs : List IndividualTypeDescription) : List IndividualTypeDescription :=
  refs.mergeSort fun a b => a.typeName ≤ b.typeName

def toHashableJson (desc : TypeDescription) : Text :=
  typeDescriptionKey ++ emitIndividual desc.typeDescription ++ referencedKey ++
    separated comma emitIndividual (sortRefs desc.referencedTypeDescriptions) ++ [']'] ++ ['}']

/-! ### Reading a string -/

def hexDigitValue (c : Char) : Nat := if c.isDigit then c.toNat - 48 else c.toNat - 87

def hexValue (digits : Text) : Nat := digits.foldl (fun value c => 16 * value + hexDigitValue c) 0

theorem hexDigitValue_digitChar {k : Nat} (small : k < 16) : hexDigitValue (Nat.digitChar k) = k := by
  have all : ∀ k : Fin 16, hexDigitValue (Nat.digitChar k) = k := by decide
  exact all ⟨k, small⟩

theorem hexValue_hex4 {n : Nat} (small : n < 65536) : hexValue (hex4 n) = n := by
  simp only [hexValue, hex4, List.foldl_cons, List.foldl_nil]
  rw [hexDigitValue_digitChar (by omega), hexDigitValue_digitChar (by omega),
    hexDigitValue_digitChar (by omega), hexDigitValue_digitChar (by omega)]
  omega

/-- A `\u` escape's four digits, and what follows them. -/
def readUnit : Text → Option (Nat × Text)
  | '\\' :: 'u' :: a :: b :: c :: d :: rest => some (hexValue [a, b, c, d], rest)
  | _ => none

theorem readUnit_hex4 {n : Nat} (small : n < 65536) (rest : Text) :
    readUnit (['\\', 'u'] ++ hex4 n ++ rest) = some (n, rest) := by
  have value := hexValue_hex4 small
  rw [hex4] at value
  simp only [hex4, List.cons_append, List.nil_append, readUnit, value]

def readEscaped : Text → Option (Char × Text)
  | '\\' :: '"' :: rest => some ('"', rest)
  | '\\' :: '\\' :: rest => some ('\\', rest)
  | '\\' :: 'n' :: rest => some ('\n', rest)
  | '\\' :: 'r' :: rest => some ('\r', rest)
  | '\\' :: 't' :: rest => some ('\t', rest)
  | '\\' :: 'u' :: text => do
    let (unit, rest) ← readUnit ('\\' :: 'u' :: text)
    if 0xd800 ≤ unit ∧ unit < 0xdc00 then do
      let (low, rest) ← readUnit rest
      some (Char.ofNat (0x10000 + (unit - 0xd800) * 1024 + (low - 0xdc00)), rest)
    else some (Char.ofNat unit, rest)
  | c :: rest => some (c, rest)
  | [] => none

theorem readEscaped_unit {n : Nat} (small : n < 65536) (single : n < 0xd800 ∨ 0xdc00 ≤ n)
    (rest : Text) :
    readEscaped (['\\', 'u'] ++ hex4 n ++ rest) = some (Char.ofNat n, rest) := by
  have unit := readUnit_hex4 small rest
  have alone : ¬ (0xd800 ≤ n ∧ n < 0xdc00) := by omega
  simp only [List.cons_append, List.nil_append] at unit ⊢
  rw [readEscaped, unit]
  exact if_neg alone

theorem readEscaped_pair {high low : Nat} (small : high < 1024) (smallToo : low < 1024)
    (rest : Text) :
    readEscaped (['\\', 'u'] ++ hex4 (0xd800 + high) ++
        (['\\', 'u'] ++ hex4 (0xdc00 + low)) ++ rest) =
      some (Char.ofNat (0x10000 + high * 1024 + low), rest) := by
  have first := readUnit_hex4 (n := 0xd800 + high) (by omega)
    (['\\', 'u'] ++ hex4 (0xdc00 + low) ++ rest)
  have second := readUnit_hex4 (n := 0xdc00 + low) (by omega) rest
  have leads : 0xd800 ≤ 0xd800 + high ∧ 0xd800 + high < 0xdc00 := by omega
  simp only [List.append_assoc, List.cons_append, List.nil_append] at first second ⊢
  rw [readEscaped, first]
  simp only [Option.bind_eq_bind, Option.bind_some, if_pos leads, second]
  rw [Nat.add_sub_cancel_left, Nat.add_sub_cancel_left]

theorem readEscaped_plain {c : Char} (plain : c ≠ '\\') (rest : Text) :
    readEscaped (c :: rest) = some (c, rest) := by
  rw [readEscaped.eq_def]
  split <;> simp_all

theorem readEscaped_escapeChar (c : Char) (rest : Text) :
    readEscaped (escapeChar c ++ rest) = some (c, rest) := by
  have valid : c.toNat < 0xd800 ∨ 0xdfff < c.toNat ∧ c.toNat < 0x110000 := c.valid
  rw [escapeChar]
  split_ifs with quote slash newline carriage tab wide astral
  · rw [quote]; rfl
  · rw [slash]; rfl
  · rw [newline]; rfl
  · rw [carriage]; rfl
  · rw [tab]; rfl
  · rw [readEscaped_pair (by omega) (by omega)]
    have whole : 0x10000 + (c.toNat - 0x10000) / 1024 * 1024 + (c.toNat - 0x10000) % 1024 =
        c.toNat := by omega
    rw [whole, Char.ofNat_toNat]
  · rw [readEscaped_unit (by omega) (by omega), Char.ofNat_toNat]
  · exact readEscaped_plain slash rest

theorem escapeChar_starts (c : Char) :
    ∃ first tail, escapeChar c = first :: tail ∧ first ≠ '"' := by
  rw [escapeChar]
  split_ifs with quote
  · exact ⟨_, _, rfl, by decide⟩
  · exact ⟨_, _, rfl, by decide⟩
  · exact ⟨_, _, rfl, by decide⟩
  · exact ⟨_, _, rfl, by decide⟩
  · exact ⟨_, _, rfl, by decide⟩
  · exact ⟨_, _, rfl, by decide⟩
  · exact ⟨_, _, rfl, by decide⟩
  · exact ⟨_, _, rfl, quote⟩

theorem readsOff_jsonStr : ReadsOff jsonStr := by
  have chars : ReadsOff escapeChar := readsOff_of_read readEscaped readEscaped_escapeChar
  exact (chars.list escapeChar_starts).after ['"']

/-! ### Reading a description -/

theorem decimal_injective : Function.Injective decimal := by
  intro m n same
  calc
    m = Nat.ofDigitChars 10 (decimal m) 0 := Nat.ofDigitChars_ten_toDigits.symm
    _ = Nat.ofDigitChars 10 (decimal n) 0 := by rw [same]
    _ = n := Nat.ofDigitChars_ten_toDigits

theorem comma_notMem_decimal (n : Nat) : ',' ∉ decimal n := by
  intro member
  exact absurd (Nat.isDigit_of_mem_toDigits (by decide) (by decide) member) (by decide)

theorem readsOff_decimal (after : Text) (comma : after.head? = some ',') :
    ReadsOff fun n => decimal n ++ after :=
  readsOff_stopped decimal_injective comma comma_notMem_decimal

theorem readsOff_emitFieldType : ReadsOff emitFieldType := by
  have typeId := (readsOff_decimal capacityKey rfl).after
    typeIdKey
  have capacity := readsOff_decimal stringCapacityKey rfl
  have stringCapacity := readsOff_decimal nestedTypeNameKey rfl
  have parts := ((typeId.pair capacity).pair stringCapacity).pair (readsOff_jsonStr.before ['}'])
  have injective : Function.Injective fun ft : FieldTypeDesc =>
      (((ft.typeId, ft.capacity), ft.stringCapacity), ft.nestedTypeName) := by
    rintro ⟨⟩ ⟨⟩ same
    simpa [and_assoc] using same
  apply (parts.comp injective).congr
  intro ft
  simp only [emitFieldType, List.append_assoc]

theorem readsOff_emitField : ReadsOff emitField := by
  have name := (readsOff_jsonStr.before typeKey).after nameKey
  have parts := name.pair (readsOff_emitFieldType.before ['}'])
  have injective : Function.Injective fun f : FieldDesc => (f.name, f.ty) := by
    rintro ⟨⟩ ⟨⟩ same
    simpa using same
  apply (parts.comp injective).congr
  intro f
  simp only [emitField, List.append_assoc]

theorem readsOff_emitIndividual : ReadsOff emitIndividual := by
  have name := (readsOff_jsonStr.before fieldsKey).after typeNameKey
  have fields := (readsOff_emitField.separated comma ']'
    (fun f => ⟨'{', _, rfl, by decide⟩) ⟨',', _, rfl, by decide⟩).before ['}']
  have parts := name.pair fields
  have injective : Function.Injective fun itd : IndividualTypeDescription =>
      (itd.typeName, itd.fields) := by
    rintro ⟨⟩ ⟨⟩ same
    simpa using same
  apply (parts.comp injective).congr
  intro itd
  simp only [emitIndividual, List.append_assoc]

theorem toHashableJson_inj {a b : TypeDescription} (same : toHashableJson a = toHashableJson b) :
    a.typeDescription = b.typeDescription ∧
      sortRefs a.referencedTypeDescriptions = sortRefs b.referencedTypeDescriptions := by
  have top := (readsOff_emitIndividual.before
    referencedKey).after typeDescriptionKey
  have refs := (readsOff_emitIndividual.separated comma ']'
    (fun itd => ⟨'{', _, rfl, by decide⟩) ⟨',', _, rfl, by decide⟩).before ['}']
  have parts := (top.pair refs).injective
  have equal : (a.typeDescription, sortRefs a.referencedTypeDescriptions) =
      (b.typeDescription, sortRefs b.referencedTypeDescriptions) := by
    apply parts
    simpa only [toHashableJson, List.append_assoc] using same
  exact Prod.ext_iff.mp equal

end NanoRos.Rosidl
