import Inlay.Text.Hex

/-!
# `Inlay.Json.Basic` — JSON values in writing

The JSON that the program writes: whole numbers, truth values, strings, arrays, and objects whose members keep
their order. A value is written either without any blank (`compact`) or with one item on a line (`pretty`). This is how
the standard codec writes; another one may write in another way.
-/

namespace Inlay

/-- A JSON value. -/
inductive Json where
  | number (n : Nat)
  | bool (b : Bool)
  | string (s : String)
  | array (items : List Json)
  | object (members : List (String × Json))
deriving Repr

namespace Json

/-! ## Strings -/

/-- How a character is written inside a string. Only the quote, the backslash and control characters are
    escaped. -/
def escape (c : Char) : List Char :=
  if c = '"' then ['\\', '"']
  else if c = '\\' then ['\\', '\\']
  else if c = '\x08' then ['\\', 'b']
  else if c = '\x0c' then ['\\', 'f']
  else if c = '\n' then ['\\', 'n']
  else if c = '\r' then ['\\', 'r']
  else if c = '\t' then ['\\', 't']
  else if c.toNat < 32 then '\\' :: 'u' :: (hexPadded 4 c.toNat).toList
  else [c]

/-- A string between its quotes. -/
def quote (s : String) : List Char :=
  '"' :: s.toList.flatMap escape ++ ['"']

/-! ## Without blanks -/

/-- Texts with a comma between any two. -/
def commas : List (List Char) → List Char
  | [] => []
  | [s] => s
  | s :: rest => s ++ ',' :: commas rest

mutual

/-- A value without blanks. -/
def compact : Json → List Char
  | number n => Nat.toDigits 10 n
  | bool b => (if b then "true" else "false").toList
  | string s => quote s
  | array items => '[' :: commas (compactItems items) ++ [']']
  | object members => '{' :: commas (compactMembers members) ++ ['}']

/-- The items of an array. -/
def compactItems : List Json → List (List Char)
  | [] => []
  | v :: vs => v.compact :: compactItems vs

/-- The members of an object. -/
def compactMembers : List (String × Json) → List (List Char)
  | [] => []
  | (name, v) :: rest => (quote name ++ ':' :: v.compact) :: compactMembers rest

end

/-! ## On lines -/

/-- The start of a line that is `depth` levels deep. -/
def newLine (depth : Nat) : List Char :=
  '\n' :: List.replicate (2 * depth) ' '

/-- Lines between brackets, each one level deeper than the brackets. -/
def bracketed (left right : Char) (depth : Nat) : List (List Char) → List Char
  | [] => [left, right]
  | lines =>
    left :: commas (lines.map fun line => newLine (depth + 1) ++ line) ++ newLine depth ++ [right]

mutual

/-- A value on lines, of which the first one is `depth` levels deep. -/
def prettyAt (depth : Nat) : Json → List Char
  | number n => Nat.toDigits 10 n
  | bool b => (if b then "true" else "false").toList
  | string s => quote s
  | array items => bracketed '[' ']' depth (prettyItems (depth + 1) items)
  | object members => bracketed '{' '}' depth (prettyMembers (depth + 1) members)

/-- The items of an array. -/
def prettyItems (depth : Nat) : List Json → List (List Char)
  | [] => []
  | v :: vs => v.prettyAt depth :: prettyItems depth vs

/-- The members of an object. -/
def prettyMembers (depth : Nat) : List (String × Json) → List (List Char)
  | [] => []
  | (name, v) :: rest => (quote name ++ ':' :: ' ' :: v.prettyAt depth) :: prettyMembers depth rest

end

/-- A value on lines. -/
def pretty (v : Json) : String :=
  String.ofList (v.prettyAt 0)

end Json

end Inlay
