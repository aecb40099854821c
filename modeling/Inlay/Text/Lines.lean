import Inlay.Text.Blank

/-!
# `Inlay.Text.Lines` — lines of a text

A line ends with a newline or with a carriage return and a newline; what follows the last newline is a line
only if it is not empty. The numbered listing of a text puts each line behind its number.
-/

namespace Inlay

/-- The line without the carriage return at its end, if there is one. -/
def dropReturn (line : List Char) : List Char :=
  if line.getLast? = some '\r' then line.dropLast else line

/-- The lines of the text `line.reverse ++ s`; `line` is what is read of the first one, last character first. -/
def linesFrom (line : List Char) : List Char → List (List Char)
  | [] => if line.isEmpty then [] else [line.reverse]
  | c :: s => if c = '\n' then dropReturn line.reverse :: linesFrom [] s else linesFrom (c :: line) s

/-- The lines of a text, without their endings. -/
def textLines (s : List Char) : List (List Char) :=
  linesFrom [] s

/-- The text with blanks in front, so that it takes at least `width` characters. -/
def padLeft (width : Nat) (s : String) : String :=
  String.ofList (List.replicate (width - s.length) ' ') ++ s

/-- The text with each line behind its number. -/
def numberedListing (text : String) : String :=
  String.join ((textLines text.toList).zipIdx.map fun (line, i) =>
    padLeft 4 (toString (i + 1)) ++ " | " ++ String.ofList line ++ "\n")

end Inlay
