import NanoRos.Lib.FixedString

/-! What a `.msg` file is parsed into. -/

namespace NanoRos.Rosidl

inductive PrimitiveType where
  | bool
  | byte
  | char
  | int8
  | uint8
  | int16
  | uint16
  | int32
  | uint32
  | int64
  | uint64
  | float32
  | float64
  deriving DecidableEq, Repr

inductive FieldType where
  | primitive (p : PrimitiveType)
  | string
  | boundedString (n : Nat)
  | wstring
  | boundedWString (n : Nat)
  | array (element : FieldType) (size : Nat)
  | sequence (element : FieldType)
  | boundedSequence (element : FieldType) (maxSize : Nat)
  | namespacedType (package : Option Text) (name : Text)
  deriving DecidableEq, Repr

/-- A value in a message; a float is its literal, with the sign in front. -/
inductive ConstantValue where
  | integer (v : Int)
  | uinteger (v : Nat)
  | float (negative : Bool) (literal : Text)
  | string (s : Text)
  | bool (b : Bool)
  | array (values : List ConstantValue)
  deriving Repr

structure Field where
  fieldType : FieldType
  name : Text
  defaultValue : Option ConstantValue

structure Constant where
  constantType : FieldType
  name : Text
  value : ConstantValue

structure Message where
  fields : List Field
  constants : List Constant

end NanoRos.Rosidl
