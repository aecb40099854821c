import Inlay.Error
import Inlay.Text.Hex
import Inlay.Real.Text

/-!
# `Inlay.Template.Value` — values of the template language

A value carries its type with it. Every value has a text, which is what reaches the output, and a truth, which
is what conditions ask for; only some convert to numbers.
-/

namespace Inlay

/-- A value of the template language. -/
inductive Value where
  /-- The value of a variable that was declared without one. -/
  | unset
  | bool (b : Bool)
  | int (n : Int64)
  | float (x : Float)
  | string (s : String)
deriving Inhabited

namespace Value

/-- The name of a value's type. -/
def typeName : Value → String
  | unset => "unset"
  | bool _ => "bool"
  | int _ => "int"
  | float _ => "float"
  | string _ => "string"

/-- Whether a condition with this value holds. -/
def isTruthy : Value → Bool
  | unset => false
  | bool b => b
  | int n => n != 0
  | float x => x != 0
  | string s => !s.isEmpty

/-- What the output receives for a value. -/
def text : Value → String
  | unset => ""
  | bool b => if b then "true" else "false"
  | int n => toString n.toInt
  | float x => floatText x
  | string s => s

/-- Whether a value is a number. Truth values are not. -/
def isNumeric : Value → Bool
  | int _ | float _ => true
  | _ => false

/-- The error for a value of another type than `expected`. -/
def mismatch (expected : String) (v : Value) : Error :=
  .typeMismatch expected v.typeName

/-- A value as a whole number. A float is cut toward zero and held within range; what is not a number is zero. -/
def asInt : Value → Except Error Int64
  | int n => .ok n
  | float x => .ok x.toInt64
  | bool b => .ok (if b then 1 else 0)
  | v => .error (v.mismatch "int")

/-- A value as a float. -/
def asFloat : Value → Except Error Float
  | float x => .ok x
  | int n => .ok n.toFloat
  | v => .error (v.mismatch "float")

/-- A value as an operand of a bit operation. Unlike `asInt` it takes no float. -/
def asBits : Value → Except Error Int64
  | int n => .ok n
  | bool b => .ok (if b then 1 else 0)
  | v => .error (v.mismatch "int")

/-- A value as a number, whole or not. -/
def asNumber? : Value → Option (Int64 ⊕ Float)
  | int n => some (.inl n)
  | float x => some (.inr x)
  | _ => none

end Value

end Inlay
