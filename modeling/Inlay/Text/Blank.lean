/-!
# `Inlay.Text.Blank` — white space

Three sets of blank characters are in use and kept apart: the property White_Space of Unicode
(`isBlank`), by which texts are trimmed and cut into words; the five ASCII blanks (`isAsciiBlank`) that may
stand between the parts of a block header; and the two blanks that stay on a line (`isLineBlank`).
-/

namespace Inlay

/-- The property White_Space of Unicode: 25 characters. -/
def isBlank (c : Char) : Bool :=
  let n := c.toNat
  (0x09 ≤ n && n ≤ 0x0D) || n == 0x20 || n == 0x85 || n == 0xA0 || n == 0x1680 ||
    (0x2000 ≤ n && n ≤ 0x200A) || n == 0x2028 || n == 0x2029 || n == 0x202F || n == 0x205F ||
    n == 0x3000

/-- Space, tab, newline, form feed and carriage return. -/
def isAsciiBlank (c : Char) : Bool :=
  c == ' ' || c == '\t' || c == '\n' || c == '\x0c' || c == '\r'

/-- Space and tab. -/
def isLineBlank (c : Char) : Bool :=
  c == ' ' || c == '\t'

/-- The text without the blanks at its start. -/
def trimStart (s : List Char) : List Char :=
  s.dropWhile isBlank

/-- The text without the blanks at its end. -/
def trimEnd (s : List Char) : List Char :=
  (s.reverse.dropWhile isBlank).reverse

/-- The text without the blanks at either end. -/
def trim (s : List Char) : List Char :=
  trimEnd (trimStart s)

/-- The pieces of `s` between the characters that satisfy `p`; always at least one piece. -/
def pieces (p : Char → Bool) : List Char → List (List Char)
  | [] => [[]]
  | c :: s =>
    if p c then [] :: pieces p s
    else match pieces p s with
      | [] => [[c]]
      | w :: ws => (c :: w) :: ws

/-- The words of a text: its longest runs without a blank. -/
def words (s : List Char) : List (List Char) :=
  (pieces isBlank s).filter fun w => !w.isEmpty

namespace Text

/-- `Inlay.trim` on strings. -/
def trim (s : String) : String :=
  String.ofList (Inlay.trim s.toList)

/-- `Inlay.trimEnd` on strings. -/
def trimEnd (s : String) : String :=
  String.ofList (Inlay.trimEnd s.toList)

/-- Whether a text has no character other than blanks. -/
def isAllBlank (s : String) : Bool :=
  s.toList.all isBlank

end Text

end Inlay
