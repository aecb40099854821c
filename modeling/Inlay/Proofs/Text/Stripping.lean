import Inlay.Proofs.Text.Lines
import Inlay.Text.Comments

/-!
# `Proofs.Text.Stripping` — taking comments out keeps the lines

The pieces of a source put together are the source (`flatMap_text_sourcePieces`), and of each piece what stays is a
part of it with all its newlines. So the source without comments is the source with characters other than newlines
deleted, and its lines are the lines of the source with characters deleted (`stripped_lines_sublist`).
-/

namespace Inlay

variable {c : Char} {s : List Char}

/-- **Nothing is lost between pieces.** -/
theorem firstPiece_append (c : Char) (s : List Char) : (firstPiece c s).1.text ++ (firstPiece c s).2 = c :: s := by
  unfold firstPiece
  split
  · simp [Piece.text, spanVerbatim_append]
  · simp [Piece.text, spanLineComment_append]
  · simp [Piece.text, spanBlockComment_append]
  · split
    · simp [Piece.text, spanQuoted_append]
    · rfl

theorem firstPiece_quote (hc : c = '"' ∨ c = '\'') (s : List Char) :
    firstPiece c s = (.literal (c :: (spanQuoted c s).1), (spanQuoted c s).2) := by
  rcases hc with rfl | rfl <;> rfl

theorem firstPiece_other (hquote : ¬(c = '"' ∨ c = '\'')) (hverbatim : c = '@' → s.head? ≠ some '"')
    (hcomment : c = '/' → s.head? ≠ some '/' ∧ s.head? ≠ some '*') : firstPiece c s = (.other c, s) := by
  unfold firstPiece
  split
  · exact absurd rfl (hverbatim rfl)
  · exact absurd rfl (hcomment rfl).1
  · exact absurd rfl (hcomment rfl).2
  · rw [if_neg hquote]

/-- **The pieces of a source are the source.** -/
theorem flatMap_text_sourcePieces (s : List Char) : (sourcePieces s).flatMap Piece.text = s := by
  fun_induction sourcePieces s with
  | case1 => rfl
  | case2 c s ih => rw [List.flatMap_cons, ih, firstPiece_append]

/-- What is left of a piece is a part of it. -/
theorem Piece.kept_sublist (p : Piece) : p.kept.Sublist p.text := by
  cases p with
  | literal s => exact List.Sublist.refl s
  | comment s => exact List.filter_sublist
  | other c => exact List.Sublist.refl [c]

/-- What is left of a piece has all its newlines. -/
theorem Piece.newlines_kept (p : Piece) : newlines p.kept = newlines p.text := by
  cases p with
  | literal s => rfl
  | comment s => exact List.count_filter (by decide)
  | other c => rfl

/-- **Stripping only deletes characters.** -/
theorem stripComments_sublist (s : List Char) : (stripComments s).Sublist s := by
  -- piece by piece: the source is the texts of its pieces
  have key : ∀ ps : List Piece, (ps.flatMap Piece.kept).Sublist (ps.flatMap Piece.text) := by
    intro ps
    induction ps with
    | nil => exact List.Sublist.refl []
    | cons p ps ih => exact p.kept_sublist.append ih
  have h := key (sourcePieces s)
  rwa [flatMap_text_sourcePieces] at h

/-- **Stripping deletes no newline.** -/
theorem newlines_stripComments (s : List Char) : newlines (stripComments s) = newlines s := by
  have key : ∀ ps : List Piece, newlines (ps.flatMap Piece.kept) = newlines (ps.flatMap Piece.text) := by
    intro ps
    induction ps with
    | nil => rfl
    | cons p ps ih => rw [List.flatMap_cons, List.flatMap_cons, newlines_append, newlines_append, ih, p.newlines_kept]
  have h := key (sourcePieces s)
  rwa [flatMap_text_sourcePieces] at h

/-- **The lines of a source without comments** are the lines of the source, as many of them, with characters
    deleted from each. -/
theorem stripped_lines_sublist (s : List Char) :
    List.Forall₂ List.Sublist (sourceLines (stripComments s)) (sourceLines s) :=
  forall₂_sublist_sourceLines (stripComments_sublist s) (newlines_stripComments s)

end Inlay
