import Inlay.Template.Program
import Inlay.Template.Value

/-!
# `Inlay.Template.Operation` — what the operators compute

Whole numbers are words of 64 bits that wrap around, and a shift takes its amount modulo 64. Two whole numbers
stay whole; as soon as one operand is a float, both are. A string on either side turns `+` into concatenation.
-/

namespace Inlay.Value

/-! ## Numbers -/

/-- The quotient rounded toward zero. -/
def wholeQuotient (a b : Int64) : Except Error Int64 :=
  if b = 0 then .error .divisionByZero else .ok (a / b)

/-- The remainder of `wholeQuotient`. It has the sign of `a`. -/
def wholeRemainder (a b : Int64) : Except Error Int64 :=
  if b = 0 then .error .divisionByZero else .ok (a % b)

/-- A number as a float. -/
def widen : Int64 ⊕ Float → Float
  | .inl n => n.toFloat
  | .inr x => x

/-- Applies `whole` to two whole numbers and `real` to any other two numbers. -/
def arithmetic (whole : Int64 → Int64 → Except Error Int64) (real : Float → Float → Float)
    (left right : Value) : Except Error Value :=
  match left.asNumber?, right.asNumber? with
  | some (.inl a), some (.inl b) => int <$> whole a b
  | some a, some b => .ok (float (real (widen a) (widen b)))
  | some _, none => .error (right.mismatch "number")
  | none, _ => .error (left.mismatch "number")

/-- Applies a bit operation. -/
def bitwise (f : Int64 → Int64 → Int64) (left right : Value) : Except Error Value := do
  let a ← left.asBits
  let b ← right.asBits
  .ok (int (f a b))

/-- The negative of a number. -/
def negate : Value → Except Error Value
  | int n => .ok (int (-n))
  | float x => .ok (float (-x))
  | v => .error (v.mismatch "number")

/-- The magnitude of a number. The least whole number has none and stays as it is. -/
def magnitude : Value → Except Error Value
  | int n => .ok (int n.abs)
  | float x => .ok (float x.abs)
  | v => .error (v.mismatch "number")

/-- A number moved by a step. -/
def stepBy (i : Increment) : Value → Except Error Value
  | int n => .ok (int (n + i.delta))
  | float x => .ok (float (x + i.delta.toFloat))
  | v => .error (v.mismatch "number")

/-! ## Comparison -/

/-- Whether two values are equal. Numbers are compared as numbers, and other values only with their own type. -/
def equal (left right : Value) : Bool :=
  match left, right with
  | unset, unset => true
  | bool a, bool b => a == b
  | string a, string b => a == b
  | _, _ =>
    match left.asNumber?, right.asNumber? with
    | some (.inl a), some (.inl b) => a == b
    | some a, some b => widen a == widen b
    | _, _ => false

/-- The order of two floats. What is not a number has none. -/
def orderFloats? (a b : Float) : Option Ordering :=
  if a < b then some .lt else if a == b then some .eq else if b < a then some .gt else none

/-- The order of two values: numbers by size, strings by their characters. -/
def order (left right : Value) : Except Error Ordering :=
  match left, right with
  | string a, string b => .ok (compare a b)
  | _, _ =>
    match left.asNumber?, right.asNumber? with
    | some (.inl a), some (.inl b) => .ok (compare a b)
    | some a, some b =>
      match orderFloats? (widen a) (widen b) with
      | some o => .ok o
      | none => .error (.typeMismatch "comparable number" "NaN")
    | _, _ => .error (.typeMismatch left.typeName right.typeName)

/-- Whether the order of two values passes a test. -/
def ordered (test : Ordering → Bool) (left right : Value) : Except Error Value :=
  (bool ∘ test) <$> order left right

/-! ## Operators -/

/-- The sum of two numbers, or the texts of two values joined if one of them is a string. -/
def plus (left right : Value) : Except Error Value :=
  match left, right with
  | string a, v => .ok (string (a ++ v.text))
  | v, string b => .ok (string (v.text ++ b))
  | _, _ => arithmetic (fun a b => .ok (a + b)) (· + ·) left right

end Inlay.Value

namespace Inlay

/-- Applies an operator to two values. -/
def BinaryOp.apply (op : BinaryOp) (left right : Value) : Except Error Value :=
  match op with
  | add => left.plus right
  | sub => Value.arithmetic (fun a b => .ok (a - b)) (· - ·) left right
  | mul => Value.arithmetic (fun a b => .ok (a * b)) (· * ·) left right
  | div => Value.arithmetic Value.wholeQuotient (· / ·) left right
  | mod => Value.arithmetic Value.wholeRemainder floatRemainder left right
  | shl => Value.bitwise (· <<< ·) left right
  | shr => Value.bitwise (· >>> ·) left right
  | bitAnd => Value.bitwise (· &&& ·) left right
  | bitOr => Value.bitwise (· ||| ·) left right
  | bitXor => Value.bitwise (· ^^^ ·) left right
  | eq => .ok (.bool (left.equal right))
  | notEq => .ok (.bool (!left.equal right))
  | lt => Value.ordered (·.isLT) left right
  | ltEq => Value.ordered (·.isLE) left right
  | gt => Value.ordered (·.isGT) left right
  | gtEq => Value.ordered (·.isGE) left right
  | and => .ok (.bool (left.isTruthy && right.isTruthy))
  | or => .ok (.bool (left.isTruthy || right.isTruthy))

/-- Applies an operator to one value. -/
def UnaryOp.apply (op : UnaryOp) (v : Value) : Except Error Value :=
  match op with
  | neg => v.negate
  | not => .ok (.bool (!v.isTruthy))
  | bitNot => (fun n => .int (~~~n)) <$> v.asBits

end Inlay
