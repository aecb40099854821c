import Inlay.Error
import Inlay.Kernel.Block

/-!
# `Inlay.Kernel.Parameter` — reading the parameter list of a block

A list is cut at its commas. Each piece is a type with or without a name behind it: the word behind the last
blank or star is the name, unless it can only be part of the type.
-/

namespace Inlay

namespace Param

/-- The text with single spaces between its words. -/
def joinWords (s : List Char) : String :=
  String.intercalate " " ((words s).map String.ofList)

/-- Whether a character may stand in front of the name of a parameter. -/
def isSeparator (c : Char) : Bool :=
  isBlank c || c == '*'

/-- Cuts a text behind its last separator: what ends with it, and what follows. -/
def cutLast? (s : List Char) : Option (List Char × List Char) :=
  match s.reverse.dropWhile fun c => !isSeparator c with
  | [] => none
  | c :: before =>
    some ((c :: before).reverse, (s.reverse.takeWhile fun c => !isSeparator c).reverse)

/-- The type and the name of a parameter. The name has to follow a character of one byte. -/
def split (piece : List Char) : Except Error (String × Option String) :=
  match cutLast? piece with
  | none => .ok (joinWords piece, none)
  | some (before, candidate) =>
    if before.getLast?.any fun c => c.utf8Size ≠ 1 then .error .indivisibleParameter
    else
      let word := String.ofList candidate
      if !(trim before).isEmpty && isIdentifier candidate && !RegisterType.isTypeWord word then
        .ok (joinWords before, some word)
      else .ok (joinWords piece, none)

/-- Reads parameter `index` of `function` from a piece of the list that starts at `p`. Faults are reported at the
    first character that is not blank, or at the end of a blank piece. -/
def read (width : PointerWidth) (function : String) (p : Position) (index : Nat) (piece : List Char) :
    Except Error Param := do
  let line := (p.advance (piece.takeWhile isBlank)).line
  if (trim piece).isEmpty then
    .error (.malformedBlock line s!"empty parameter {index} in function {function}")
  else
    let (declaredType, given) ← split (trim piece)
    match RegisterType.ofDeclared? width declaredType with
    | some registerType => .ok ⟨index, declaredType, registerType, given⟩
    | none => .error (.unknownParameterType function declaredType line)

/-- Reads the parameters from number `index` on, from pieces of which the first starts at `p`. -/
def readAll (width : PointerWidth) (function : String) (p : Position) (index : Nat) :
    List (List Char) → Except Error (List Param)
  | [] => .ok []
  | piece :: others => do
    let param ← read width function p index piece
    let params ← readAll width function (p.advance (piece ++ [','])) (index + 1) others
    .ok (param :: params)

/-- Reads a parameter list that starts at `p`. A list that is blank or says `void` has no parameters. -/
def readList (width : PointerWidth) (function : String) (p : Position) (list : List Char) :
    Except Error (List Param) :=
  let bare := String.ofList (trim list)
  if bare == "" || bare == "void" then .ok []
  else readAll width function p 0 (pieces (· == ',') list)

end Param

end Inlay
