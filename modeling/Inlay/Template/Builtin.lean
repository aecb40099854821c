import Inlay.Template.Operation

/-!
# `Inlay.Template.Builtin` — the functions that a template can call

Two functions append to the output and have no value of their own; expansion calls them for the text around the
tags and for expression tags. The others compute a value from their arguments.
-/

namespace Inlay

/-- A function of the template language. -/
inductive Builtin where
  /-- Appends a run of literal text, given by its number. -/
  | emitText
  /-- Appends the text of a value. -/
  | emitValue
  /-- The lesser of two values. -/
  | min
  /-- The greater of two values. -/
  | max
  /-- The magnitude of a number. -/
  | abs
  /-- A whole number in base sixteen, negative ones as words of 64 bits. -/
  | hex
  /-- The text of a value. -/
  | str
deriving DecidableEq, Repr

namespace Builtin

/-- All functions. -/
def all : List Builtin :=
  [emitText, emitValue, min, max, abs, hex, str]

/-- The name that a function is called by. -/
def name : Builtin → String
  | emitText => "__emit_text"
  | emitValue => "__emit_value"
  | min => "min"
  | max => "max"
  | abs => "abs"
  | hex => "hex"
  | str => "str"

/-- The function with a given name. -/
def ofName? (word : String) : Option Builtin :=
  all.find? fun f => f.name == word

/-- The error for arguments that a function does not take. -/
def invalid (f : Builtin) (reason : String) : Error :=
  .invalidArguments f.name reason

/-- The argument of a function that takes one. -/
def oneArgument (f : Builtin) : List Value → Except Error Value
  | [v] => .ok v
  | vs => .error (f.invalid s!"expected 1 argument, got {vs.length}")

/-- The arguments of a function that takes two. -/
def twoArguments (f : Builtin) : List Value → Except Error (Value × Value)
  | [v, w] => .ok (v, w)
  | vs => .error (f.invalid s!"expected 2 arguments, got {vs.length}")

/-- The literal run with a given number. -/
def literalRun (literals : List String) (index : Int64) : Except Error String :=
  match if index < 0 then none else literals[index.toInt.toNat]? with
  | some text => .ok text
  | none => .error (emitText.invalid s!"no literal text run {index.toInt}")

/-- What a call appends to the output, and its value. -/
def call (f : Builtin) (literals : List String) (args : List Value) : Except Error (String × Value) := do
  match f with
  | emitText =>
    let index ← (← f.oneArgument args).asInt
    return (← literalRun literals index, .unset)
  | emitValue => return ((← f.oneArgument args).text, .unset)
  | min =>
    let (a, b) ← f.twoArguments args
    return ("", if (← a.order b).isLT then a else b)
  | max =>
    let (a, b) ← f.twoArguments args
    return ("", if (← a.order b).isLT then b else a)
  | abs => return ("", ← (← f.oneArgument args).magnitude)
  | hex =>
    let n ← (← f.oneArgument args).asBits
    return ("", .string (String.ofList (hexDigits n.toUInt64.toNat)))
  | str => return ("", .string (← f.oneArgument args).text)

end Builtin

end Inlay
