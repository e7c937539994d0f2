import Mathlib.Data.List.Basic
import Mathlib.Tactic

/-! A log record, and the clipping of its texts to the buffers that keep it. -/

namespace NanoRos.Log

inductive Severity where
  | trace
  | debug
  | info
  | warn
  | error
  | fatal
  deriving DecidableEq

structure Record where
  severity : Severity
  loggerName : List UInt8
  message : List UInt8
  file : List UInt8
  line : UInt32
  timestampNs : UInt64
  deriving DecidableEq

/-- A continuation byte starts no character. -/
def isCharBoundary (s : List UInt8) (i : Nat) : Bool :=
  if i = 0 then true
  else
    match s[i]? with
    | some byte => byte < 128 || 192 ≤ byte
    | none => i = s.length

/-- The last boundary at or before `i`. -/
def boundaryUpTo (s : List UInt8) : Nat → Nat
  | 0 => 0
  | i + 1 => if isCharBoundary s (i + 1) then i + 1 else boundaryUpTo s i

def clip (s : List UInt8) (cap : Nat) : List UInt8 :=
  if s.length ≤ cap then s else s.take (boundaryUpTo s cap)

variable (s : List UInt8)

end NanoRos.Log
