/-!
# `Inlay.Text.Position` — where a character stands

A position counts three things at once: the bytes before it, its line and its column. Lines and columns
start at one, a column counts characters, an offset counts UTF-8 bytes. Every part of the program that
reports a place starts from `{}` and moves it over the characters it passes, so that two reports about
one text agree.
-/

namespace Inlay

/-- A place in a text. -/
structure Position where
  /-- UTF-8 bytes before the place. -/
  offset : Nat := 0
  /-- One more than the newlines before the place. -/
  line : Nat := 1
  /-- One more than the characters since the last newline. -/
  column : Nat := 1
deriving DecidableEq, Repr, Inhabited

namespace Position

/-- The place right after the character `c` that stands at `p`. -/
def next (p : Position) (c : Char) : Position :=
  if c = '\n' then ⟨p.offset + c.utf8Size, p.line + 1, 1⟩
  else ⟨p.offset + c.utf8Size, p.line, p.column + 1⟩

/-- The place right after the text `s` that starts at `p`. -/
def advance (p : Position) (s : List Char) : Position :=
  s.foldl next p

@[simp] theorem advance_nil (p : Position) : p.advance [] = p := rfl

@[simp] theorem advance_cons (p : Position) (c : Char) (s : List Char) :
    p.advance (c :: s) = (p.next c).advance s := rfl

theorem advance_append (p : Position) (s t : List Char) :
    p.advance (s ++ t) = (p.advance s).advance t := by
  simp [advance]

end Position

/-- The number of newlines in a text. -/
def newlines (s : List Char) : Nat :=
  s.count '\n'

/-- The number of UTF-8 bytes that a text takes. -/
def byteLength (s : List Char) : Nat :=
  s.foldr (fun c n => c.utf8Size + n) 0

end Inlay
