import Inlay.Json.Basic
import Inlay.Json.Reader

/-!
# `Inlay.Json.Codec` — shapes and codecs

A type that is kept in JSON has a shape, which says how its values are written: as a string, a truth value, a number,
an array or an object, or as a value of another type that they are made of. A codec writes JSON and reads texts that
have a shape. What reads and writes JSON for the program is such a codec and nothing more is said about it here; there
is a standard one, which writes without blanks and reads with the readers of a shape.
-/

namespace Inlay.Json

mutual

/-- How the values of a type are written in JSON. -/
inductive Shape : Type → Type 1
  | string : Shape String
  | boolean : Shape Bool
  /-- A whole number that is at most `limit`. -/
  | natural (limit : UInt64) : Shape Nat
  | array {α : Type} (item : Shape α) : Shape (List α)
  /-- A value that is made of another one, unless there is a reason why none can be made. -/
  | converted {α β : Type} (inner : Shape α) (convert : α → Except String β) : Shape β
  /-- An object with some fields. Those that are not written are as in `start`, unless all must be there. -/
  | record {σ : Type} (fields : Fields σ) (start : σ) (allRequired : Bool) : Shape σ

/-- The fields of a record, each with the shape of its values and how one is put in its place. -/
inductive Fields : Type → Type 1
  | nil {σ : Type} : Fields σ
  | cons {σ α : Type} (name : String) (shape : Shape α) (put : α → σ → σ) (others : Fields σ) : Fields σ

end

/-- What writes JSON, and reads texts that have a shape. -/
structure Codec where
  write : Json → String
  read : {α : Type} → Shape α → String → Reading α

/-! ## The standard codec -/

mutual

/-- The reader of a shape. -/
def Shape.reader : {α : Type} → Shape α → Reader α
  | _, .string => Reader.string
  | _, .boolean => Reader.boolean
  | _, .natural limit => Reader.natural limit.toNat
  | _, .array item => Reader.array item.reader
  | _, .converted inner convert => Reader.converted inner.reader convert
  | _, .record fields start allRequired => Record.read ⟨fields.readers, allRequired⟩ start

/-- The readers of some fields. -/
def Fields.readers : {σ : Type} → Fields σ → List (Field σ)
  | _, .nil => []
  | _, .cons name shape put others => .of name shape.reader put :: others.readers

end

/-- A codec that writes no blanks. -/
def Codec.standard : Codec where
  write v := String.ofList v.compact
  read shape text := Reader.readText shape.reader text

end Inlay.Json
