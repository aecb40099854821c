import Inlay.Text.Position
import Inlay.Text.Literal

/-!
# `Inlay.Text.Comments` — taking comments out of kernel source

The source is cut from left to right into **pieces**: literals, comments and single characters. What stays
is every literal and character unchanged, and of every comment exactly the newlines it holds, so that a line
keeps its number.
-/

namespace Inlay

/-- A piece of kernel source, with all its characters. -/
inductive Piece where
  /-- A quoted or verbatim literal. -/
  | literal (text : List Char)
  /-- A line comment with its newline, or a block comment. -/
  | comment (text : List Char)
  /-- Any other character. -/
  | other (c : Char)
deriving DecidableEq, Repr

/-- The characters of a piece. -/
def Piece.text : Piece → List Char
  | literal s => s
  | comment s => s
  | other c => [c]

/-- What is left of a piece when comments go. -/
def Piece.kept : Piece → List Char
  | literal s => s
  | comment s => s.filter (· == '\n')
  | other c => [c]

/-- Cuts the text behind the two slashes of a line comment, newline included. -/
def spanLineComment : List Char → List Char × List Char
  | [] => ([], [])
  | c :: s =>
    if c = '\n' then ([c], s)
    else
      let (inside, rest) := spanLineComment s
      (c :: inside, rest)

/-- Cuts the text behind the opening of a block comment, closing included. A comment that is not closed reaches
    to the end. -/
def spanBlockComment : List Char → List Char × List Char
  | [] => ([], [])
  | '*' :: '/' :: s => (['*', '/'], s)
  | c :: s =>
    let (inside, rest) := spanBlockComment s
    (c :: inside, rest)

theorem spanLineComment_append (s : List Char) :
    (spanLineComment s).1 ++ (spanLineComment s).2 = s := by
  fun_induction spanLineComment s <;> simp_all

theorem spanBlockComment_append (s : List Char) :
    (spanBlockComment s).1 ++ (spanBlockComment s).2 = s := by
  fun_induction spanBlockComment s <;> simp_all

theorem length_spanLineComment_le (s : List Char) :
    (spanLineComment s).2.length ≤ s.length := by
  have h := congrArg List.length (spanLineComment_append s)
  rw [List.length_append] at h
  omega

theorem length_spanBlockComment_le (s : List Char) :
    (spanBlockComment s).2.length ≤ s.length := by
  have h := congrArg List.length (spanBlockComment_append s)
  rw [List.length_append] at h
  omega

/-- The first piece of a text that starts with `c`, and the rest. -/
def firstPiece (c : Char) (s : List Char) : Piece × List Char :=
  match c, s with
  | '@', '"' :: s =>
    let (inside, rest) := spanVerbatim s
    (.literal ('@' :: '"' :: inside), rest)
  | '/', '/' :: s =>
    let (inside, rest) := spanLineComment s
    (.comment ('/' :: '/' :: inside), rest)
  | '/', '*' :: s =>
    let (inside, rest) := spanBlockComment s
    (.comment ('/' :: '*' :: inside), rest)
  | c, s =>
    if c = '"' ∨ c = '\'' then
      let (inside, rest) := spanQuoted c s
      (.literal (c :: inside), rest)
    else (.other c, s)

theorem length_firstPiece_le (c : Char) (s : List Char) :
    (firstPiece c s).2.length ≤ s.length := by
  unfold firstPiece
  split
  · exact Nat.le_succ_of_le (length_spanVerbatim_le _)
  · exact Nat.le_succ_of_le (length_spanLineComment_le _)
  · exact Nat.le_succ_of_le (length_spanBlockComment_le _)
  · split
    · exact length_spanQuoted_le _ _
    · exact Nat.le_refl _

/-- The pieces of a text, from left to right. -/
def sourcePieces : List Char → List Piece
  | [] => []
  | c :: s => (firstPiece c s).1 :: sourcePieces (firstPiece c s).2
termination_by s => s.length
decreasing_by
  have := length_firstPiece_le c s
  simp only [List.length_cons]
  omega

/-- The source without its comments. -/
def stripComments (s : List Char) : List Char :=
  (sourcePieces s).flatMap Piece.kept

end Inlay
