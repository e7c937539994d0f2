import Mathlib.Data.List.Infix
import Mathlib.Data.List.DropRight
import NanoRos.Lib.Chunks
import NanoRos.Lib.FixedString

/-! The key expressions of topics and services, and the type and QoS texts in them. -/

namespace NanoRos.Zenoh

open String (utf8Len)

/-- An integer under `{}`. -/
def decimal (n : Nat) : Text := Nat.toDigits 10 n

theorem decimal_injective {m n : Nat} (same : decimal m = decimal n) : m = n := by
  calc
    m = Nat.ofDigitChars 10 (decimal m) 0 := Nat.ofDigitChars_ten_toDigits.symm
    _ = Nat.ofDigitChars 10 (decimal n) 0 := by rw [same]
    _ = n := Nat.ofDigitChars_ten_toDigits

theorem isDigit_of_mem_decimal {n : Nat} {c : Char} (member : c ∈ decimal n) : c.isDigit = true :=
  Nat.isDigit_of_mem_toDigits (by decide) (by decide) member

theorem slash_notMem_decimal (n : Nat) : '/' ∉ decimal n :=
  fun member => absurd (isDigit_of_mem_decimal member) (by decide)

theorem utf8Size_of_isDigit {c : Char} (digit : c.isDigit = true) : c.utf8Size = 1 := by
  simp only [Char.isDigit, Bool.and_eq_true, decide_eq_true_eq] at digit
  have small : c.val ≤ 127 := UInt32.le_trans digit.2 (by decide)
  rw [Char.utf8Size]
  exact if_pos small

theorem utf8Len_digits {text : Text} (digits : ∀ c ∈ text, c.isDigit = true) :
    utf8Len text = text.length := by
  induction text with
  | nil => rfl
  | cons c rest ih =>
    obtain ⟨first, later⟩ := List.forall_mem_cons.mp digits
    rw [String.utf8Len_cons, ih later, utf8Size_of_isDigit first, List.length_cons]

theorem utf8Len_decimal_le {n k : Nat} (positive : 0 < k) (below : n < 10 ^ k) :
    utf8Len (decimal n) ≤ k := by
  rw [utf8Len_digits fun _ member => isDigit_of_mem_decimal member]
  exact (Nat.length_toDigits_le_iff (by decide) positive).mpr below

/-- The fields of `TopicInfo` and of `ServiceInfo` that a key is made of. -/
structure EndpointInfo where
  name : Text
  typeName : Text
  typeHash : Text
  domainId : UInt32

abbrev TopicInfo := EndpointInfo
abbrev ServiceInfo := EndpointInfo

/-- `DdsTypeName`, as the pieces its `fmt` writes. -/
def ddsTypePieces (s : Text) : List Text :=
  if [':', ':'] <:+: s then [s]
  else
    match s.splitOn '/' with
    | [pkg, kind, name] =>
      if pkg ≠ [] ∧ kind ≠ [] ∧ name ≠ [] then
        if name.getLast? = some '_' then [pkg, "::".toList, kind, "::dds_::".toList, name]
        else [pkg, "::".toList, kind, "::dds_::".toList, name, ['_']]
      else [s]
    | _ => [s]

def ddsTypeName (s : Text) : Text := (ddsTypePieces s).flatten

/-- The ROS distribution of the build, by its cargo feature. -/
inductive Distro where
  | humble
  | iron
  deriving DecidableEq

/-- `name.trim_matches('/')`. -/
def trimSlashes (name : Text) : Text := (name.dropWhile (· == '/')).rdropWhile (· == '/')

def keyPieces (info : EndpointInfo) (last : List Text) : List Text :=
  [decimal info.domainId.toNat, ['/'], trimSlashes info.name, ['/']] ++
    ddsTypePieces info.typeName ++ last

/-- What `to_key` puts after the type. -/
def hashPieces : Distro → EndpointInfo → List Text
  | .humble, _ => ["/TypeHashNotSupported".toList]
  | .iron, info => [['/'], info.typeHash]

def toKey (distro : Distro) (N : Nat) (info : EndpointInfo) : FixedString N :=
  (FixedString.empty.write (keyPieces info (hashPieces distro info))).1

def toKeyWildcard (N : Nat) (info : EndpointInfo) : FixedString N :=
  (FixedString.empty.write (keyPieces info ["/*".toList])).1

inductive QoSReliabilityPolicy where
  | systemDefault
  | reliable
  | bestEffort
  | unknown
  | bestAvailable
  deriving DecidableEq

inductive QoSDurabilityPolicy where
  | systemDefault
  | transientLocal
  | volatile
  | unknown
  | bestAvailable
  deriving DecidableEq

inductive QoSHistoryPolicy where
  | systemDefault
  | keepLast
  | keepAll
  | unknown
  deriving DecidableEq

structure QoSProfile where
  reliability : QoSReliabilityPolicy
  durability : QoSDurabilityPolicy
  history : QoSHistoryPolicy
  depth : UInt32

def reliabilityDigit : QoSReliabilityPolicy → Nat
  | .systemDefault => 0
  | .reliable => 1
  | .bestEffort => 2
  | .unknown => 0
  | .bestAvailable => 0

def durabilityDigit : QoSDurabilityPolicy → Nat
  | .systemDefault => 0
  | .transientLocal => 1
  | .volatile => 2
  | .unknown => 0
  | .bestAvailable => 0

def historyDigit : QoSHistoryPolicy → Nat
  | .systemDefault => 0
  | .keepLast => 1
  | .keepAll => 2
  | .unknown => 0

def upstreamDefaultReliability : Nat := 1
def upstreamDefaultDurability : Nat := 2
def upstreamDefaultHistory : Nat := 1
def upstreamDefaultDepth : Nat := 42

/-- A value, unless it is upstream's default. -/
def writeUnlessDefault {N : Nat} (s : FixedString N) (v default : Nat) : FixedString N :=
  if v ≠ default then (s.write [decimal v]).1 else s

def qosField {N : Nat} (s : FixedString N) (v default : Nat) (sep : Char) : FixedString N :=
  (writeUnlessDefault s v default).pushOrDrop sep

def toQosString (N : Nat) (qos : QoSProfile) : FixedString N :=
  let s := qosField .empty (reliabilityDigit qos.reliability) upstreamDefaultReliability ':'
  let s := qosField s (durabilityDigit qos.durability) upstreamDefaultDurability ':'
  let s := qosField s (historyDigit qos.history) upstreamDefaultHistory ','
  let s := writeUnlessDefault s qos.depth.toNat upstreamDefaultDepth
  (s.pushStr ":,:,:,,".toList).getD s

/-- What a field of the QoS text holds. -/
def unlessDefault (v default : Nat) : Text := if v ≠ default then decimal v else []

def qosText (qos : QoSProfile) : Text :=
  unlessDefault (reliabilityDigit qos.reliability) upstreamDefaultReliability ++ [':'] ++
    unlessDefault (durabilityDigit qos.durability) upstreamDefaultDurability ++ [':'] ++
    unlessDefault (historyDigit qos.history) upstreamDefaultHistory ++ [','] ++
    unlessDefault qos.depth.toNat upstreamDefaultDepth ++ ":,:,:,,".toList

theorem utf8Len_unlessDefault_le {v k : Nat} (default : Nat) (positive : 0 < k)
    (below : v < 10 ^ k) : utf8Len (unlessDefault v default) ≤ k := by
  rw [unlessDefault]
  split
  · exact utf8Len_decimal_le positive below
  · exact Nat.zero_le k

theorem slash_notMem_unlessDefault (v default : Nat) : '/' ∉ unlessDefault v default := by
  rw [unlessDefault]
  split
  · exact slash_notMem_decimal v
  · exact List.not_mem_nil

theorem writeUnlessDefault_text {N : Nat} {s : FixedString N} {before : Text}
    (held : s.text = before) (v default : Nat)
    (room : utf8Len before + utf8Len (unlessDefault v default) ≤ N) :
    (writeUnlessDefault s v default).text = before ++ unlessDefault v default := by
  subst held
  rw [unlessDefault] at room ⊢
  rw [writeUnlessDefault]
  split
  next stated =>
    rw [if_pos stated] at room
    have written := s.write_of_room [decimal v] (by simpa using room)
    simpa using written.1
  next => simp

theorem qosField_text {N : Nat} {s : FixedString N} {before : Text} (held : s.text = before)
    (v default : Nat) (sep : Char)
    (room : utf8Len before + utf8Len (unlessDefault v default) + sep.utf8Size ≤ N) :
    (qosField s v default sep).text = before ++ unlessDefault v default ++ [sep] := by
  have value := writeUnlessDefault_text held v default (by omega)
  have pushed := (writeUnlessDefault s v default).pushOrDrop_of_room (c := sep) (by
    rw [value, String.utf8Len_append]
    exact room)
  rw [qosField, pushed, value]

theorem reliabilityDigit_lt (policy : QoSReliabilityPolicy) : reliabilityDigit policy < 10 ^ 1 := by
  cases policy <;> decide

theorem durabilityDigit_lt (policy : QoSDurabilityPolicy) : durabilityDigit policy < 10 ^ 1 := by
  cases policy <;> decide

theorem historyDigit_lt (policy : QoSHistoryPolicy) : historyDigit policy < 10 ^ 1 := by
  cases policy <;> decide

section

variable (qos : QoSProfile)

theorem qosFields_le :
    utf8Len (unlessDefault (reliabilityDigit qos.reliability) upstreamDefaultReliability) ≤ 1 ∧
      utf8Len (unlessDefault (durabilityDigit qos.durability) upstreamDefaultDurability) ≤ 1 ∧
      utf8Len (unlessDefault (historyDigit qos.history) upstreamDefaultHistory) ≤ 1 ∧
      utf8Len (unlessDefault qos.depth.toNat upstreamDefaultDepth) ≤ 10 := by
  have depth : qos.depth.toNat < 10 ^ 10 :=
    Nat.lt_of_lt_of_le qos.depth.toNat_lt_size (by decide)
  exact ⟨utf8Len_unlessDefault_le _ (by decide) (reliabilityDigit_lt _),
    utf8Len_unlessDefault_le _ (by decide) (durabilityDigit_lt _),
    utf8Len_unlessDefault_le _ (by decide) (historyDigit_lt _),
    utf8Len_unlessDefault_le _ (by decide) depth⟩

theorem utf8Size_separators : ':'.utf8Size = 1 ∧ ','.utf8Size = 1 := by decide

theorem utf8Len_unstated : utf8Len ":,:,:,,".toList = 7 := by decide

theorem toQosString_text {N : Nat} (room : 23 ≤ N) : (toQosString N qos).text = qosText qos := by
  obtain ⟨first, second, third, fourth⟩ := qosFields_le qos
  obtain ⟨colon, comma⟩ := utf8Size_separators
  have reliability := qosField_text (FixedString.text_empty (N := N))
    (reliabilityDigit qos.reliability) upstreamDefaultReliability ':' (by
      rw [String.utf8Len_nil]
      omega)
  have durability := qosField_text reliability
    (durabilityDigit qos.durability) upstreamDefaultDurability ':' (by
      simp only [String.utf8Len_append, String.utf8Len_cons, String.utf8Len_nil]
      omega)
  have history := qosField_text durability
    (historyDigit qos.history) upstreamDefaultHistory ',' (by
      simp only [String.utf8Len_append, String.utf8Len_cons, String.utf8Len_nil]
      omega)
  have depth := writeUnlessDefault_text history qos.depth.toNat upstreamDefaultDepth (by
      simp only [String.utf8Len_append, String.utf8Len_cons, String.utf8Len_nil]
      omega)
  have whole := FixedString.text_pushStr depth ":,:,:,,".toList (by
      simp only [String.utf8Len_append, String.utf8Len_cons, String.utf8Len_nil, utf8Len_unstated]
      omega)
  rw [List.nil_append] at whole
  exact whole

end

theorem slash_notMem_qosText (qos : QoSProfile) : '/' ∉ qosText qos := by
  simp [qosText, slash_notMem_unlessDefault]

/-! The spellings of a type. -/

/-- A type by its package, its kind and its name without the underscore at the end. -/
structure RosType where
  pkg : Text
  kind : Text
  name : Text
  pkgSegment : pkg ≠ [] ∧ '/' ∉ pkg ∧ ':' ∉ pkg
  kindSegment : kind ≠ [] ∧ '/' ∉ kind ∧ ':' ∉ kind
  nameSegment : '/' ∉ name ∧ ':' ∉ name

namespace RosType

/-- `pkg/kind/last`. -/
def slashed (t : RosType) (last : Text) : Text := t.pkg ++ '/' :: (t.kind ++ '/' :: last)

/-- `pkg::kind::dds_::name_`. -/
def dds (t : RosType) : Text :=
  t.pkg ++ "::".toList ++ t.kind ++ "::dds_::".toList ++ t.name ++ ['_']

inductive Spells (t : RosType) : Text → Prop
  | ros : t.name ≠ [] → t.name.getLast? ≠ some '_' → t.Spells (t.slashed t.name)
  | underscored : t.Spells (t.slashed (t.name ++ ['_']))
  | dds : t.Spells t.dds

end RosType

/-- The same type, up to its spelling. -/
def SameType (a b : Text) : Prop := a = b ∨ ∃ t : RosType, t.Spells a ∧ t.Spells b

/-- The type names of the tree: with `::`, or without colons; no `/` is left in the DDS form. -/
structure TypeSpelling (s : Text) : Prop where
  colons : [':', ':'] <:+: s ∨ ':' ∉ s
  rendered : '/' ∉ ddsTypeName s

theorem ddsTypeName_of_colons {s : Text} (colons : [':', ':'] <:+: s) : ddsTypeName s = s := by
  rw [ddsTypeName, ddsTypePieces, if_pos colons]
  exact List.append_nil s

theorem colon_mem_of_colons {s : Text} (colons : [':', ':'] <:+: s) : ':' ∈ s :=
  colons.subset List.mem_cons_self

namespace RosType

variable (t : RosType)

theorem splitOn_slashed {last : Text} (segment : '/' ∉ last) :
    (t.slashed last).splitOn '/' = [t.pkg, t.kind, last] := by
  rw [slashed, List.splitOn_append_cons_self_of_not_mem t.pkgSegment.2.1,
    List.splitOn_append_cons_self_of_not_mem t.kindSegment.2.1, List.splitOn_eq_singleton segment]

theorem colon_notMem_slashed {last : Text} (segment : ':' ∉ last) : ':' ∉ t.slashed last := by
  simp [slashed, t.pkgSegment.2.2, t.kindSegment.2.2, segment]

theorem ddsTypePieces_slashed {last : Text} (stated : last ≠ []) (slashes : '/' ∉ last)
    (colons : ':' ∉ last) :
    ddsTypePieces (t.slashed last) =
      if last.getLast? = some '_' then [t.pkg, "::".toList, t.kind, "::dds_::".toList, last]
      else [t.pkg, "::".toList, t.kind, "::dds_::".toList, last, ['_']] := by
  have plain : ¬ [':', ':'] <:+: t.slashed last :=
    fun colons' => t.colon_notMem_slashed colons (colon_mem_of_colons colons')
  rw [ddsTypePieces, if_neg plain, t.splitOn_slashed slashes]
  exact if_pos ⟨t.pkgSegment.1, t.kindSegment.1, stated⟩

theorem ddsTypeName_of_spells {s : Text} (spells : t.Spells s) : ddsTypeName s = t.dds := by
  cases spells with
  | ros stated bare =>
    rw [ddsTypeName, t.ddsTypePieces_slashed stated t.nameSegment.1 t.nameSegment.2, if_neg bare]
    simp [RosType.dds]
  | underscored =>
    have ends : (t.name ++ ['_']).getLast? = some '_' := List.getLast?_concat
    rw [ddsTypeName, t.ddsTypePieces_slashed (by simp) (by simp [t.nameSegment.1])
      (by simp [t.nameSegment.2]), if_pos ends]
    simp [RosType.dds]
  | dds =>
    apply ddsTypeName_of_colons
    exact ⟨t.pkg, t.kind ++ "::dds_::".toList ++ t.name ++ ['_'], by simp [RosType.dds]⟩

theorem splitOn_dds :
    t.dds.splitOn ':' = [t.pkg, [], t.kind, [], "dds_".toList, [], t.name ++ ['_']] := by
  have spread : t.dds = t.pkg ++ ':' :: ([] ++ ':' :: (t.kind ++ ':' :: ([] ++ ':' ::
      ("dds_".toList ++ ':' :: ([] ++ ':' :: (t.name ++ ['_'])))))) := by simp [dds]
  have last : ':' ∉ t.name ++ ['_'] := by simp [t.nameSegment.2]
  rw [spread, List.splitOn_append_cons_self_of_not_mem t.pkgSegment.2.2,
    List.splitOn_append_cons_self_of_not_mem List.not_mem_nil,
    List.splitOn_append_cons_self_of_not_mem t.kindSegment.2.2,
    List.splitOn_append_cons_self_of_not_mem List.not_mem_nil,
    List.splitOn_append_cons_self_of_not_mem (by decide),
    List.splitOn_append_cons_self_of_not_mem List.not_mem_nil, List.splitOn_eq_singleton last]

theorem dds_injective {t u : RosType} (same : t.dds = u.dds) : t = u := by
  have chunks := congrArg (List.splitOn ':') same
  rw [splitOn_dds, splitOn_dds] at chunks
  simp only [List.cons.injEq, true_and, and_true] at chunks
  obtain ⟨pkg, kind, name⟩ := chunks
  cases t
  cases u
  simp only [mk.injEq]
  exact ⟨pkg, kind, List.append_cancel_right name⟩

end RosType

theorem ddsTypeName_of_shape {s : Text} (shape : ∀ pkg kind name, s.splitOn '/' = [pkg, kind, name] →
    ¬ (pkg ≠ [] ∧ kind ≠ [] ∧ name ≠ [])) : ddsTypeName s = s := by
  rw [ddsTypeName, ddsTypePieces]
  split
  · exact List.append_nil s
  · split
    next pkg kind name chunks =>
      rw [if_neg (shape pkg kind name chunks)]
      exact List.append_nil s
    next => exact List.append_nil s

theorem spells_of_chunks {s pkg kind name : Text} (plain : ':' ∉ s)
    (chunks : s.splitOn '/' = [pkg, kind, name]) (stated : pkg ≠ [] ∧ kind ≠ [] ∧ name ≠ []) :
    ∃ t : RosType, t.Spells s := by
  have clean : ∀ chunk ∈ [pkg, kind, name], '/' ∉ chunk ∧ ':' ∉ chunk := by
    intro chunk member
    rw [← chunks] at member
    obtain ⟨apart, inside⟩ := mem_chunk member
    exact ⟨apart, fun colon => plain (inside colon)⟩
  have whole : s = pkg ++ '/' :: (kind ++ '/' :: name) := by
    rw [← @List.intercalate_splitOn _ s _ _ '/', chunks]
    simp
  have pkgSegment := clean pkg (by simp)
  have kindSegment := clean kind (by simp)
  have nameSegment := clean name (by simp)
  by_cases ends : name.getLast? = some '_'
  · obtain ⟨base, rfl⟩ := List.getLast?_eq_some_iff.mp ends
    let t : RosType := ⟨pkg, kind, base, ⟨stated.1, pkgSegment⟩, ⟨stated.2.1, kindSegment⟩,
      ⟨fun slash => nameSegment.1 (List.mem_append_left _ slash),
        fun colon => nameSegment.2 (List.mem_append_left _ colon)⟩⟩
    exact ⟨t, whole ▸ RosType.Spells.underscored (t := t)⟩
  · let t : RosType := ⟨pkg, kind, name, ⟨stated.1, pkgSegment⟩, ⟨stated.2.1, kindSegment⟩,
      nameSegment⟩
    exact ⟨t, whole ▸ RosType.Spells.ros (t := t) stated.2.2 ends⟩

theorem spells_or_passes {s : Text} (spelling : TypeSpelling s) :
    (∃ t : RosType, t.Spells s) ∨ ddsTypeName s = s := by
  obtain colons | plain := spelling.colons
  · exact .inr (ddsTypeName_of_colons colons)
  · by_cases shape : ∃ pkg kind name, s.splitOn '/' = [pkg, kind, name] ∧
        (pkg ≠ [] ∧ kind ≠ [] ∧ name ≠ [])
    · obtain ⟨pkg, kind, name, chunks, stated⟩ := shape
      exact .inl (spells_of_chunks plain chunks stated)
    · apply Or.inr
      apply ddsTypeName_of_shape
      intro pkg kind name chunks stated
      exact shape ⟨pkg, kind, name, chunks, stated⟩

theorem ddsTypeName_eq_iff {a b : Text} (first : TypeSpelling a) (second : TypeSpelling b) :
    ddsTypeName a = ddsTypeName b ↔ SameType a b := by
  constructor
  · intro same
    obtain ⟨t, spells⟩ | passes := spells_or_passes first
    · have form := t.ddsTypeName_of_spells spells
      obtain ⟨u, spellsToo⟩ | passesToo := spells_or_passes second
      · have formToo := u.ddsTypeName_of_spells spellsToo
        have one : t = u := RosType.dds_injective (by rw [← form, ← formToo, same])
        subst one
        exact .inr ⟨t, spells, spellsToo⟩
      · have spelled : b = t.dds := by rw [← passesToo, ← same, form]
        subst spelled
        exact .inr ⟨t, spells, .dds⟩
    · obtain ⟨u, spellsToo⟩ | passesToo := spells_or_passes second
      · have spelled : a = u.dds := by rw [← passes, same, u.ddsTypeName_of_spells spellsToo]
        subst spelled
        exact .inr ⟨u, .dds, spellsToo⟩
      · exact .inl (by rw [← passes, same, passesToo])
  · rintro (rfl | ⟨t, spells, spellsToo⟩)
    · rfl
    · rw [t.ddsTypeName_of_spells spells, t.ddsTypeName_of_spells spellsToo]

end NanoRos.Zenoh
