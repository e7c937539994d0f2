import NanoRos.Lib.Mask
import NanoRos.Serdes.Schema

/-! Parameter values, ranges and descriptors (`nros-params/src/types.rs`). -/

namespace NanoRos

/-- The build's capacities, in bytes or elements. -/
structure ParamCaps where
  maxParamNameLen : Nat
  maxStringValueLen : Nat
  maxArrayLen : Nat
  maxByteArrayLen : Nat

/-- The index of a node in the executor's table. -/
abbrev NodeKey := UInt8

abbrev NodeFlags := Mask 256

namespace NodeFlags

def get (flags : NodeFlags) (node : NodeKey) : Bool := flags.has node.toNat

def set (flags : NodeFlags) (node : NodeKey) (on : Bool) : NodeFlags :=
  if on then flags.insert node.toNat else flags.erase node.toNat

end NodeFlags

inductive ParameterType where
  | notSet
  | bool
  | integer
  | double
  | string
  | byteArray
  | boolArray
  | integerArray
  | doubleArray
  | stringArray
  deriving DecidableEq, Repr

inductive ParameterValue where
  | notSet
  | bool (v : Bool)
  | integer (v : Int64)
  | double (v : F64)
  | string (v : String)
  | byteArray (v : List UInt8)
  | boolArray (v : List Bool)
  | integerArray (v : List Int64)
  | doubleArray (v : List F64)
  | stringArray (v : List String)
  deriving DecidableEq, Repr

def ParameterValue.paramType : ParameterValue → ParameterType
  | .notSet => .notSet
  | .bool _ => .bool
  | .integer _ => .integer
  | .double _ => .double
  | .string _ => .string
  | .byteArray _ => .byteArray
  | .boolArray _ => .boolArray
  | .integerArray _ => .integerArray
  | .doubleArray _ => .doubleArray
  | .stringArray _ => .stringArray

/-- The length of a string, as Rust counts it. -/
def byteLen (s : String) : Nat := (asBytes s).length

structure FloatingPointRange where
  min : F64
  max : F64
  step : F64
  deriving DecidableEq, Repr

def F64.toFloat (x : F64) : Float := Float.ofBits x.bits

/-- `f64::EPSILON`. -/
def f64Epsilon : Float := Float.ofBits 0x3cb0000000000000

/-- Equal within 100 ULP of the operands' magnitude. -/
def areClose (a b : Float) : Bool :=
  decide ((a - b).abs ≤ f64Epsilon * (a + b).abs * 100)

/-- Half away from zero; the cast saturates. -/
def roundToNearest (q : Float) : Float :=
  if !q.isFinite then q
  else
    let shifted := if q < 0 then q - 0.5 else q + 0.5
    shifted.toInt64.toFloat

namespace FloatingPointRange

def isValid (range : FloatingPointRange) : Bool :=
  decide (range.min.toFloat ≤ range.max.toFloat) && decide (0 ≤ range.step.toFloat) &&
    !range.step.toFloat.isNaN

def contains (range : FloatingPointRange) (v : F64) : Bool :=
  let value := v.toFloat
  let min := range.min.toFloat
  let max := range.max.toFloat
  let step := range.step.toFloat
  if areClose value min || areClose value max then true
  else if !(decide (min ≤ value) && decide (value ≤ max)) then false
  else if step == 0 then true
  else areClose (roundToNearest ((value - min) / step) * step + min) value

end FloatingPointRange

structure IntegerRange where
  min : Int64
  max : Int64
  step : Int64
  deriving DecidableEq, Repr

/-- `i64::checked_sub`. -/
def checkedSub (a b : Int64) : Option Int64 :=
  let d := a.toInt - b.toInt
  if i64Min ≤ d ∧ d ≤ i64Max then some (Int64.ofInt d) else none

/-- `i64::checked_rem`. -/
def checkedRem (a b : Int64) : Option Int64 :=
  if b = 0 ∨ (a.toInt = i64Min ∧ b = -1) then none
  else some (Int64.ofInt (a.toInt.tmod b.toInt))

namespace IntegerRange

def isValid (range : IntegerRange) : Bool :=
  decide (range.min ≤ range.max) && decide (0 ≤ range.step)

def contains (range : IntegerRange) (value : Int64) : Bool :=
  if !(decide (range.min ≤ value) && decide (value ≤ range.max)) then false
  else if value = range.max ∨ range.step = 0 then true
  else
    match (checkedSub value range.min).bind fun d => checkedRem d range.step with
    | some rem => decide (rem = 0)
    | none => false

end IntegerRange

inductive ParameterRange where
  | none
  | floatingPoint (range : FloatingPointRange)
  | integer (range : IntegerRange)
  deriving DecidableEq, Repr

namespace ParameterRange

def isValid : ParameterRange → Bool
  | .none => true
  | .floatingPoint range => range.isValid
  | .integer range => range.isValid

def contains : ParameterRange → ParameterValue → Bool
  | .none, _ => true
  | .integer range, .integer v => range.contains v
  | .floatingPoint range, .double v => range.contains v
  | _, _ => true

end ParameterRange

structure ParameterDescriptor where
  name : String
  paramType : ParameterType
  description : String
  additionalConstraints : String
  readOnly : Bool
  dynamicTyping : Bool
  range : ParameterRange
  descriptionTruncated : Bool
  deriving DecidableEq, Repr

def ParameterDescriptor.validateRange (desc : ParameterDescriptor) (value : ParameterValue) :
    Bool := desc.range.contains value

structure Parameter where
  name : String
  value : ParameterValue
  deriving DecidableEq, Repr

def Parameter.paramType (param : Parameter) : ParameterType := param.value.paramType

inductive ParameterError where
  | typeMismatch
  | outOfRange
  | readOnly
  | notFound
  | storageFull
  | stringConversion
  | invalidRange
  | rejected
  | undeclared
  deriving DecidableEq, Repr

end NanoRos
