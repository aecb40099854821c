import Mathlib
import Inlay.Proofs.Text.Literals
import Inlay.Proofs.Text.Stripping

/-!
# `Proofs.Text.Seams` — reading a source again without its comments

A comment without newlines leaves nothing behind, so what stood around it meets. The source without its comments
should then be read as the pieces that were kept (`Piece.settled`), each where it was. A piece sees little of what
stands behind it (`IsPiece`), and only one meeting is read differently: a double quote behind an at sign opens a
verbatim literal, and behind a verbatim literal it keeps this one open. Both are a double quote behind a piece that
starts with an at sign (`HasSeam`). No other two pieces join: a slash is never in front of a comment, since it would
be part of it.

Without such a seam the pieces stay what they are, and taking comments out again changes nothing. With one they do
not (`stripped_is_settled_iff`), and then more may be lost (`second_strip_may_take_more`).
-/

namespace Inlay

variable {c : Char} {s t u : List Char} {p : Piece} {ps : List Piece}

/-! ## Pieces and what stands behind them -/

/-- **A piece** in front of `t`. What a comment holds does not matter here. -/
inductive IsPiece : Piece → List Char → Prop where
  | verbatim {s t : List Char} (literal : Verbatim s t) : IsPiece (.literal ('@' :: '"' :: s)) t
  | quoted {c : Char} {s t : List Char} (quote : c = '"' ∨ c = '\'') (literal : Quoted c s t) :
      IsPiece (.literal (c :: s)) t
  | comment {s t : List Char} : IsPiece (.comment ('/' :: s)) t
  | other {c : Char} {t : List Char} (quote : ¬(c = '"' ∨ c = '\'')) (verbatim : c = '@' → t.head? ≠ some '"')
      (comment : c = '/' → t.head? ≠ some '/' ∧ t.head? ≠ some '*') : IsPiece (.other c) t

theorem isPiece_firstPiece (c : Char) (s : List Char) : IsPiece (firstPiece c s).1 (firstPiece c s).2 := by
  unfold firstPiece
  split
  · next s => exact .verbatim (verbatim_spanVerbatim s)
  · exact .comment
  · exact .comment
  · next hverbatim hline hblock =>
    split
    · next hquote => exact .quoted hquote (quoted_spanQuoted c s)
    · next hquote =>
      refine .other hquote (fun hc hhead => ?_) fun hc => ⟨fun hhead => ?_, fun hhead => ?_⟩
      all_goals obtain ⟨t, rfl⟩ := List.head?_eq_some_iff.mp hhead
      · exact hverbatim t hc rfl
      · exact hline t hc rfl
      · exact hblock t hc rfl

/-- **A piece that is kept is read first** in front of what it is a piece in front of. -/
theorem IsPiece.sourcePieces (h : IsPiece p t) (hcomment : ∀ u, p ≠ .comment u) :
    Inlay.sourcePieces (p.kept ++ t) = p :: Inlay.sourcePieces t := by
  cases h with
  | @verbatim s _ literal =>
      have hfirst : firstPiece '@' ('"' :: s ++ t) = (.literal ('@' :: '"' :: s), t) := by
        show (Piece.literal ('@' :: '"' :: (spanVerbatim (s ++ t)).1), (spanVerbatim (s ++ t)).2) = _
        rw [literal.spanVerbatim]
      show Inlay.sourcePieces ('@' :: ('"' :: s ++ t)) = _
      rw [Inlay.sourcePieces, hfirst]
  | @quoted c s _ quote literal =>
      show Inlay.sourcePieces (c :: (s ++ t)) = _
      rw [Inlay.sourcePieces, firstPiece_quote quote, literal.spanQuoted]
  | @comment s => exact absurd rfl (hcomment ('/' :: s))
  | @other c _ quote verbatim comment =>
      show Inlay.sourcePieces (c :: t) = _
      rw [Inlay.sourcePieces, firstPiece_other quote verbatim comment]

/-! ## What the next piece sees -/

theorem stripComments_cons (c : Char) (s : List Char) :
    stripComments (c :: s) = (firstPiece c s).1.kept ++ stripComments (firstPiece c s).2 := by
  rw [stripComments, sourcePieces, List.flatMap_cons, stripComments]

theorem stripComments_nil : stripComments [] = [] := by
  rw [stripComments, sourcePieces]
  rfl

/-- **The first character stays** unless it may start a comment. -/
theorem head?_stripComments (h : s.head? ≠ some '/') : (stripComments s).head? = s.head? := by
  cases s with
  | nil => rw [stripComments_nil]
  | cons c s =>
      have hkept : (firstPiece c s).1.kept.head? = some c := by
        have happend := firstPiece_append c s
        have hpiece := isPiece_firstPiece c s
        cases hp : (firstPiece c s).1 with
        | literal u =>
            rw [hp] at happend hpiece
            show u.head? = some c
            cases hpiece with
            | verbatim _ => exact congrArg List.head? happend
            | quoted _ _ => exact congrArg List.head? happend
        | comment u =>
            rw [hp] at happend hpiece
            cases hpiece with
            | comment => exact absurd (congrArg List.head? happend).symm h
        | other d =>
            rw [hp] at happend
            exact congrArg List.head? happend
      rw [stripComments_cons, List.head?_append, hkept]
      rfl

/-- **A quoted literal** sees whether a newline or nothing is behind it. -/
theorem Quoted.exchange {q : Char} (h : Quoted q s t) (hnil : t = [] → u = [])
    (hnewline : t.head? = some '\n' → u.head? = some '\n') : Quoted q s u := by
  induction h with
  | closed escape newline => exact .closed escape newline
  | newline =>
      obtain ⟨v, rfl⟩ := List.head?_eq_some_iff.mp (hnewline rfl)
      exact .newline
  | stop =>
      obtain rfl := hnil rfl
      exact .stop
  | stopEscape =>
      obtain rfl := hnil rfl
      exact .stopEscape
  | escape c _ ih => exact .escape c (ih hnil hnewline)
  | char escape newline quote _ ih => exact .char escape newline quote (ih hnil hnewline)

/-- **A verbatim literal** sees whether a double quote or nothing is behind it. -/
theorem Verbatim.exchange (h : Verbatim s t) (hnil : t = [] → u = []) (hquote : u.head? ≠ some '"') :
    Verbatim s u := by
  induction h with
  | closed _ => exact .closed hquote
  | stop =>
      obtain rfl := hnil rfl
      exact .stop
  | double _ ih => exact .double (ih hnil)
  | char quote _ ih => exact .char quote (ih hnil)

theorem Verbatim.head?_ne (h : Verbatim s t) : t.head? ≠ some '"' := by
  induction h with
  | closed single => exact single
  | stop => nofun
  | double _ ih => exact ih
  | char _ _ ih => exact ih

/-- **A piece is one without the comments behind it**, unless it starts with an at sign and then meets a double
    quote. -/
theorem IsPiece.stripComments (h : IsPiece p t)
    (hseam : ¬(p.kept.head? = some '@' ∧ (Inlay.stripComments t).head? = some '"')) :
    IsPiece p (Inlay.stripComments t) := by
  have hnil : t = [] → Inlay.stripComments t = [] := by
    intro ht
    rw [ht, stripComments_nil]
  cases h with
  | verbatim literal =>
      apply IsPiece.verbatim
      apply literal.exchange hnil
      intro hhead
      exact hseam ⟨rfl, hhead⟩
  | quoted quote literal =>
      apply IsPiece.quoted quote
      apply literal.exchange hnil
      intro hhead
      rw [head?_stripComments (by rw [hhead]; decide), hhead]
  | comment => exact .comment
  | other quote verbatim comment =>
      apply IsPiece.other quote
      · rintro rfl hhead
        exact hseam ⟨rfl, hhead⟩
      · intro hc
        rw [head?_stripComments (comment hc).1]
        exact comment hc

/-! ## Seams -/

/-- **The pieces that are left of a piece** when comments go: itself, and of a comment its newlines. -/
def Piece.settled : Piece → List Piece
  | comment s => (s.filter (· == '\n')).map other
  | p => [p]

/-- **A seam**: behind a piece that starts with an at sign, alone or as a verbatim literal, the first character that
    is kept is a double quote. In the source comments without newlines stand between the two. -/
def HasSeam : List Piece → Prop
  | [] => False
  | p :: ps => (p.kept.head? = some '@' ∧ (ps.flatMap Piece.kept).head? = some '"') ∨ HasSeam ps

/-- Whether there is a seam can be told from the pieces. -/
instance decidableHasSeam : (ps : List Piece) → Decidable (HasSeam ps)
  | [] => inferInstanceAs (Decidable False)
  | p :: ps =>
    let _ := decidableHasSeam ps
    inferInstanceAs (Decidable ((p.kept.head? = some '@' ∧ (ps.flatMap Piece.kept).head? = some '"') ∨ HasSeam ps))

/-- Newlines are all that is kept of a comment. -/
theorem Piece.head?_kept_comment (s : List Char) : (Piece.comment s).kept.head? ≠ some '@' := by
  intro h
  have hmem : '@' ∈ s.filter (· == '\n') := List.mem_of_mem_head? h
  exact absurd (List.mem_filter.mp hmem).2 (by decide)

/-- What is left of a piece is no comment. -/
theorem Piece.kept_of_mem_settled {q : Piece} (h : q ∈ p.settled) : q.kept = q.text ∧ ∀ u, q ≠ .comment u := by
  cases p with
  | literal s =>
      rw [List.mem_singleton.mp h]
      exact ⟨rfl, nofun⟩
  | comment s =>
      obtain ⟨c, -, rfl⟩ := List.mem_map.mp h
      exact ⟨rfl, nofun⟩
  | other c =>
      rw [List.mem_singleton.mp h]
      exact ⟨rfl, nofun⟩

/-- What is left of the pieces is what is left of the source. -/
theorem flatMap_kept_settled (ps : List Piece) :
    (ps.flatMap Piece.settled).flatMap Piece.kept = ps.flatMap Piece.kept := by
  rw [List.flatMap_assoc]
  have hkept : ∀ p : Piece, p.settled.flatMap Piece.kept = p.kept := by
    intro p
    cases p with
    | literal s => exact List.append_nil s
    | comment s =>
        show ((s.filter (· == '\n')).map Piece.other).flatMap Piece.kept = s.filter (· == '\n')
        rw [List.flatMap_map]
        exact List.flatMap_singleton' _
    | other c => rfl
  simp only [hkept]

/-- A seam stays one between what is left of the pieces. -/
theorem HasSeam.settled (h : HasSeam ps) : HasSeam (ps.flatMap Piece.settled) := by
  have hbehind : ∀ qs rs : List Piece, HasSeam rs → HasSeam (qs ++ rs) := by
    intro qs rs hrs
    induction qs with
    | nil => exact hrs
    | cons q qs ih => exact Or.inr ih
  induction ps with
  | nil => cases h
  | cons p ps ih =>
      rw [List.flatMap_cons]
      rcases h with ⟨hat, hquote⟩ | h
      · rw [← flatMap_kept_settled] at hquote
        cases p with
        | literal s => exact Or.inl ⟨hat, hquote⟩
        | comment s => exact absurd hat (Piece.head?_kept_comment s)
        | other c => exact Or.inl ⟨hat, hquote⟩
      · exact hbehind _ _ (ih h)

/-- **There is no seam between the pieces of a text without comments**: a piece that starts with an at sign is not in
    front of a double quote. -/
theorem not_hasSeam_of_kept (h : ∀ p ∈ sourcePieces s, p.kept = p.text) : ¬ HasSeam (sourcePieces s) := by
  fun_induction sourcePieces s with
  | case1 => exact id
  | case2 c s ih =>
      rw [List.forall_mem_cons] at h
      rintro (⟨hat, hquote⟩ | hseam)
      · have hbehind : (sourcePieces (firstPiece c s).2).flatMap Piece.kept = (firstPiece c s).2 :=
          (List.flatMap_congr h.2).trans (flatMap_text_sourcePieces _)
        rw [hbehind] at hquote
        have hpiece := isPiece_firstPiece c s
        generalize (firstPiece c s).1 = p at hpiece hat
        cases hpiece with
        | verbatim literal => exact literal.head?_ne hquote
        | quoted quote _ =>
            obtain rfl := Option.some.inj hat
            exact absurd quote (by decide)
        | comment => exact absurd hat (Piece.head?_kept_comment _)
        | other _ verbatim _ => exact verbatim (Option.some.inj hat) hquote
      · exact ih h.2 hseam

/-! ## Reading what is left -/

theorem sourcePieces_newlines (hu : ∀ c ∈ u, c = '\n') (s : List Char) :
    sourcePieces (u ++ s) = u.map Piece.other ++ sourcePieces s := by
  induction u with
  | nil => rfl
  | cons c u ih =>
      rw [List.forall_mem_cons] at hu
      obtain ⟨rfl, hu⟩ := hu
      rw [List.cons_append, sourcePieces, List.map_cons, List.cons_append, ← ih hu]
      rfl

/-- **Without a seam the pieces stay**: what is left of a source is read as what is left of its pieces. -/
theorem sourcePieces_stripComments (h : ¬ HasSeam (sourcePieces s)) :
    sourcePieces (stripComments s) = (sourcePieces s).flatMap Piece.settled := by
  fun_induction sourcePieces s with
  | case1 =>
      rw [stripComments_nil, sourcePieces]
      rfl
  | case2 c s ih =>
      rw [HasSeam, not_or] at h
      have hpiece := (isPiece_firstPiece c s).stripComments h.1
      rw [stripComments_cons, List.flatMap_cons, ← ih h.2]
      cases hp : (firstPiece c s).1 with
      | literal u =>
          rw [hp] at hpiece
          exact hpiece.sourcePieces nofun
      | comment u =>
          refine sourcePieces_newlines (fun d hd => ?_) _
          exact beq_iff_eq.mp (List.mem_filter.mp hd).2
      | other d =>
          rw [hp] at hpiece
          exact hpiece.sourcePieces nofun

/-- **A text stays what it is exactly if it has no comments.** A comment would lose its opening. -/
theorem stripComments_eq_self_iff : stripComments s = s ↔ ∀ u, Piece.comment u ∉ sourcePieces s := by
  fun_induction sourcePieces s with
  | case1 =>
      rw [stripComments_nil]
      exact ⟨fun _ _ => List.not_mem_nil, fun _ => rfl⟩
  | case2 c s ih =>
      have happend := firstPiece_append c s
      have hpiece := isPiece_firstPiece c s
      have hrest := (stripComments_sublist (firstPiece c s).2).length_le
      rw [stripComments_cons]
      simp only [List.mem_cons, not_or]
      cases hp : (firstPiece c s).1 with
      | comment u =>
          rw [hp] at happend hpiece
          refine ⟨fun heq => ?_, fun h => absurd rfl (h u).1⟩
          cases hpiece with
          | @comment v =>
              have hlength := congrArg List.length (heq.trans happend.symm)
              have hv : (v.filter (· == '\n')).length ≤ v.length := List.length_filter_le _ v
              have hkept : (Piece.comment ('/' :: v)).kept = v.filter (· == '\n') := rfl
              have htext : (Piece.comment ('/' :: v)).text = '/' :: v := rfl
              rw [hkept, htext, List.length_append, List.length_append, List.length_cons] at hlength
              omega
      | literal u =>
          rw [hp] at happend
          rw [← happend]
          simpa [Piece.kept, Piece.text] using ih
      | other d =>
          rw [hp] at happend
          rw [← happend]
          simpa [Piece.kept, Piece.text] using ih

/-- **The source without comments is settled exactly if it has no seam**: it is read as the pieces that were kept.
    Taking comments out again changes nothing exactly if none is read there, and so if there is no seam. -/
theorem stripped_is_settled_iff (s : List Char) :
    (sourcePieces (stripComments s) = (sourcePieces s).flatMap Piece.settled ↔ ¬ HasSeam (sourcePieces s)) ∧
      (stripComments (stripComments s) = stripComments s ↔ ∀ u, Piece.comment u ∉ sourcePieces (stripComments s)) ∧
      (¬ HasSeam (sourcePieces s) → stripComments (stripComments s) = stripComments s) := by
  have hleft : ∀ q ∈ (sourcePieces s).flatMap Piece.settled, q.kept = q.text ∧ ∀ u, q ≠ .comment u := by
    intro q hq
    obtain ⟨p, -, hp⟩ := List.mem_flatMap.mp hq
    exact Piece.kept_of_mem_settled hp
  refine ⟨⟨fun hsettled hseam => ?_, sourcePieces_stripComments⟩, stripComments_eq_self_iff, fun hseam => ?_⟩
  · -- a seam would still be one in a text without comments
    rw [← hsettled] at hleft
    have hnone := not_hasSeam_of_kept fun p hp => (hleft p hp).1
    rw [hsettled] at hnone
    exact hnone hseam.settled
  · apply stripComments_eq_self_iff.mpr
    intro u hu
    rw [sourcePieces_stripComments hseam] at hu
    exact (hleft _ hu).2 u rfl

/-- Comments that leave nothing next to a literal of either kind, an at sign in front of newlines and a quote. -/
def commentsAround : List Char :=
  "a/*\"*/'/*'/**/@\"//\"\"\"/*@*/@// @\n\"b\"".toList

/-- **Comments around literals leave no seam**, and their marks in literals stay. -/
theorem comments_around_are_settled : ¬ HasSeam (sourcePieces commentsAround) ∧
    stripComments commentsAround = "a'/*'@\"//\"\"\"@\n\"b\"".toList ∧
    stripComments (stripComments commentsAround) = stripComments commentsAround := by
  have hpieces : sourcePieces commentsAround = [.other 'a', .comment "/*\"*/".toList, .literal "'/*'".toList,
      .comment "/**/".toList, .literal "@\"//\"\"\"".toList, .comment "/*@*/".toList, .other '@',
      .comment "// @\n".toList, .literal "\"b\"".toList] := by
    cbv
  have hseam : ¬ HasSeam (sourcePieces commentsAround) := by
    rw [hpieces]
    decide
  refine ⟨hseam, ?_, (stripped_is_settled_iff commentsAround).2.2 hseam⟩
  rw [stripComments, hpieces]
  decide

/-- **Stripping twice may take more than once**: without the comment the at sign and the quote open a verbatim literal,
    in which the backslash protects nothing. It ends earlier, and what stood in the literal behind it becomes a
    comment. -/
theorem second_strip_may_take_more :
    stripComments "@/**/\"a\\\" // b\"".toList = "@\"a\\\" // b\"".toList ∧
      stripComments "@\"a\\\" // b\"".toList = "@\"a\\\" ".toList ∧
      ¬ ∀ s, stripComments (stripComments s) = stripComments s := by
  have hfirst : stripComments "@/**/\"a\\\" // b\"".toList = "@\"a\\\" // b\"".toList := by
    cbv
  have hsecond : stripComments "@\"a\\\" // b\"".toList = "@\"a\\\" ".toList := by
    cbv
  refine ⟨hfirst, hsecond, fun h => ?_⟩
  have heq := h "@/**/\"a\\\" // b\"".toList
  rw [hfirst, hsecond] at heq
  revert heq
  decide

end Inlay
