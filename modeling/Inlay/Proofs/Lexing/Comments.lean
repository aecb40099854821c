import Inlay.Text.Blank
import Inlay.Proofs.Lexing.Lexeme
import Inlay.Proofs.Text.Words

/-!
# `Proofs.Lexing.Comments` — texts put together, and the comments between them

Where one text ends and another begins, the lexer need not cut: a comment may reach over the border. The comments of a
text are found without its tokens, by reading characters and skipping strings (`comments`); the lexer finds the same
ones (`comments_cons`).

A text without comments can be put in front of a newline or a closing parenthesis, and its lexemes stay what they are
(`Cut.append_stop`). Whole lines can be taken off the front of a text, and so can their lexemes, unless a block comment
is still open behind them (`Cut.of_lines`). An open one takes what follows up to its end (`Cut.of_open`).
-/

namespace Inlay

open Lexeme (texts)

variable {s t u : List Char} {c d : Char} {n : Nat} {kind? : Option TokenKind} {ls ls' : List Lexeme}

/-! ## Comments -/

/-- A comment of template code. A block comment that is not closed takes all that follows. -/
inductive Comment where
  | line
  | block (closed : Bool)
deriving DecidableEq, Repr

/-- Whether a block comment that starts in front of `s` ends in it. -/
def hasClose : List Char → Bool
  | [] => false
  | '*' :: '/' :: _ => true
  | _ :: s => hasClose s

/-- The comment that starts with `c` in front of `s`, if there is one. -/
def commentAt (c : Char) (s : List Char) : List Comment :=
  if startsComment c s then [if s.head? == some '/' then .line else .block (hasClose (s.drop 1))] else []

/-- **The comments of a text** outside its strings. A string that does not end has nothing behind it. -/
def comments : List Char → List Comment
  | [] => []
  | c :: s =>
    if isQuote c then
      match stringBody c s with
      | .ok (_, n) => comments (s.drop n)
      | .error _ => []
    else if startsComment c s then
      commentAt c s ++ comments (s.drop (if s.head? == some '/' then (s.takeWhile (· != '\n')).length
        else 1 + (spanBlockComment (s.drop 1)).1.length))
    else comments s
termination_by s => s.length
decreasing_by
  all_goals simp only [List.length_drop, List.length_cons]; omega

/-! ### Block comments -/

theorem hasClose_cons (hclose : ∀ t, c = '*' → s = '/' :: t → False) : hasClose (c :: s) = hasClose s := by
  rw [hasClose]
  exact hclose

/-- A closing is in a text with its first character or behind it, so text added behind others makes none there. -/
theorem not_close_append {x : Char} (hclose : ∀ t, c = '*' → x :: s = '/' :: t → False) (u : List Char) :
    ∀ t, c = '*' → x :: s ++ u = '/' :: t → False :=
  fun _ hc heq => hclose s hc (congrArg (· :: s) (List.cons.inj heq).1)

/-- **A block comment that is closed** ends there whatever follows. -/
theorem spanBlockComment_of_hasClose (h : hasClose s = true) (t : List Char) :
    (spanBlockComment (s ++ t)).1 = (spanBlockComment s).1 := by
  fun_induction hasClose s with
  | case1 => cases h
  | case2 => rfl
  | case3 c s hclose ih =>
      cases s with
      | nil => cases h
      | cons x s =>
          rw [List.cons_append, spanBlockComment_cons (not_close_append hclose t), spanBlockComment_cons hclose, ih h]

theorem hasClose_append (h : hasClose s = true) (t : List Char) : hasClose (s ++ t) = true := by
  fun_induction hasClose s with
  | case1 => cases h
  | case2 => rfl
  | case3 c s hclose ih =>
      cases s with
      | nil => cases h
      | cons x s => rw [List.cons_append, hasClose_cons (not_close_append hclose t), ih h]

/-- **A block comment that is still open** in front of a newline goes on there. -/
theorem spanBlockComment_newline (h : hasClose s = false) (t : List Char) :
    (spanBlockComment (s ++ '\n' :: t)).1 = s ++ '\n' :: (spanBlockComment t).1 := by
  fun_induction hasClose s with
  | case1 => exact spanBlockComment_cons nofun
  | case2 => cases h
  | case3 c s hclose ih =>
      rw [List.cons_append, spanBlockComment_cons, ih h]
      · rfl
      · cases s with
        | nil => exact fun _ _ heq => absurd (List.cons.inj heq).1 (by decide)
        | cons x s => exact not_close_append hclose _

theorem hasClose_newline (h : hasClose s = false) : hasClose (s ++ ['\n']) = false := by
  fun_induction hasClose s with
  | case1 => rfl
  | case2 => cases h
  | case3 c s hclose ih =>
      rw [List.cons_append, hasClose_cons, ih h]
      cases s with
      | nil => exact fun _ _ heq => absurd (List.cons.inj heq).1 (by decide)
      | cons x s => exact not_close_append hclose _

/-! ### Comments and lexemes -/

/-- Plain characters are part of no comment. -/
theorem comments_drop (h : Spans n s) : comments (s.drop n) = comments s := by
  induction n generalizing s with
  | zero => rfl
  | succ n ih =>
      cases s with
      | nil => rfl
      | cons c s =>
          have hplain := h.2 c (by simp)
          simp only [isPlain, Bool.and_eq_true, Bool.not_eq_true', bne_iff_ne] at hplain
          have hcomment : startsComment c s = false := by simp [startsComment, hplain.2]
          rw [List.drop_succ_cons, ih ⟨Nat.le_of_succ_le_succ h.1, fun x hx => h.2 x (List.mem_cons_of_mem c hx)⟩,
            comments, hplain.1, hcomment]
          rfl

/-- **The comments of a text** are the one that the lexer may find first and those of the rest. -/
theorem comments_cons (h : lexStep c s = .ok (kind?, n)) : comments (c :: s) = commentAt c s ++ comments (s.drop n) := by
  rw [comments]
  cases hquote : isQuote c with
  | true =>
      rw [lexStep_quote hquote] at h
      obtain ⟨⟨value, m⟩, hbody, heq⟩ := map_eq_ok.mp h
      cases heq
      have hcomment : commentAt c s = [] := by
        simp only [isQuote, Bool.or_eq_true, beq_iff_eq] at hquote
        rcases hquote with rfl | rfl <;> rfl
      rw [hbody, hcomment]
      rfl
  | false =>
      cases hcomment : startsComment c s with
      | true =>
          obtain ⟨rfl, t, rfl | rfl⟩ := eq_of_startsComment hcomment
          · cases h
            rfl
          · cases h
            rfl
      | false =>
          rw [commentAt, hcomment, comments_drop (lexStep_spans hquote hcomment h).1]
          rfl

/-- The comment that a text starts with is one of its comments. -/
theorem mem_comments_cons {x : Comment} (h : x ∈ commentAt c s) : x ∈ comments (c :: s) := by
  have hcomment : startsComment c s = true := by
    refine Decidable.byContradiction fun hno => ?_
    simp [commentAt, hno] at h
  have hquote : isQuote c = false := by
    rw [(eq_of_startsComment hcomment).1]
    rfl
  rw [comments, hquote, hcomment]
  exact List.mem_append_left _ h

/-! ### Comments and parts of texts -/

theorem startsComment_append (h : startsComment c s = true) (t : List Char) : startsComment c (s ++ t) = true := by
  obtain ⟨rfl, v, rfl | rfl⟩ := eq_of_startsComment h <;> rfl

theorem comments_ne_nil (h : startsComment c s = true) : comments (c :: s) ≠ [] :=
  List.ne_nil_of_mem (mem_comments_cons (by rw [commentAt, if_pos h]; exact List.mem_singleton_self _))

/-- **The start of a text without comments** has none. -/
theorem comments_of_append (h : comments (s ++ t) = []) : comments s = [] := by
  fun_induction comments s with
  | case1 => rfl
  | case2 c s hquote value n hbody ih =>
      -- a string that ends in the start ends at the same place in the whole text
      obtain ⟨happend, hn⟩ := stringBody_append hbody t
      rw [List.cons_append, comments, if_pos hquote, happend] at h
      exact ih (List.drop_append_of_le_length hn ▸ h)
  | case3 => rfl
  | case4 c s hquote hcomment ih => exact absurd h (comments_ne_nil (startsComment_append hcomment t))
  | case5 c s hquote hcomment ih =>
      rw [List.cons_append, comments, if_neg hquote] at h
      split at h
      · next hstart =>
        rw [commentAt, if_pos hstart] at h
        cases h
      · exact ih h

theorem isPlain_of_isBlank (h : isBlank c = true) : isPlain c = true :=
  isPlain_of (by decide) (by decide) (by decide) h

theorem trimStart_eq_drop (s : List Char) : trimStart s = s.drop (s.takeWhile isBlank).length := by
  conv => rhs; arg 2; rw [← List.takeWhile_append_dropWhile (p := isBlank) (l := s)]
  rw [List.drop_left, trimStart]

/-- Trimming makes no comments. -/
theorem comments_trim (h : comments s = []) : comments (trim s) = [] := by
  have hstart : comments (trimStart s) = [] := by
    rw [trimStart_eq_drop, comments_drop (Spans.takeWhile isPlain_of_isBlank), h]
  obtain ⟨t, -, ht⟩ := exists_eq_trimEnd_append_blanks (trimStart s)
  rw [ht] at hstart
  exact comments_of_append hstart

/-! ## Text behind a step -/

/-- A step in front of a character that stops it, unless a comment starts there. -/
theorem lexStep_append_stop (hd : Stops d) (hcomment : startsComment c s = false) (h : lexStep c s = .ok (kind?, n)) :
    lexStep c (s ++ d :: t) = .ok (kind?, n) ∧ n ≤ s.length := by
  cases hquote : isQuote c with
  | true =>
      rw [lexStep_quote hquote] at h ⊢
      obtain ⟨⟨value, m⟩, hbody, heq⟩ := map_eq_ok.mp h
      cases heq
      obtain ⟨hbody, hm⟩ := stringBody_append hbody (d :: t)
      rw [hbody]
      exact ⟨rfl, hm⟩
  | false => exact ⟨(lexStep_stop hd hquote hcomment).trans h, (lexStep_spans hquote hcomment h).1.1⟩

/-- **A text without comments** in front of a newline or a closing parenthesis is cut as it is alone. -/
theorem Cut.append_stop (h : Cut s ls) (hcomments : comments s = []) (hd : Stops d) (ht : Cut (d :: t) ls') :
    Cut (s ++ d :: t) (ls ++ ls') := by
  induction h with
  | nil => exact ht
  | @cons c s kind? n ls step _ ih =>
      rw [comments_cons step, List.append_eq_nil_iff] at hcomments
      have hcomment : startsComment c s = false := by
        refine Bool.eq_false_iff.mpr fun hstart => ?_
        simp [commentAt, hstart] at hcomments
      obtain ⟨hstep, hn⟩ := lexStep_append_stop hd hcomment step
      exact .cons_append hstep hn (ih hcomments.2)

/-! ## Whole lines -/

/-- A text that is empty or ends with a newline. -/
def WholeLines (u : List Char) : Prop :=
  u = [] ∨ ∃ s, u = s ++ ['\n']

/-- A step in front of a newline, unless it starts a block comment that is open there. -/
theorem lexStep_of_newline (h : lexStep c (s ++ '\n' :: t) = .ok (kind?, n)) (hopen : .block false ∉ commentAt c s) :
    lexStep c s = .ok (kind?, n) ∧ n ≤ s.length := by
  have hd : Stops '\n' := .inl rfl
  cases hquote : isQuote c with
  | true =>
      rw [lexStep_quote hquote] at h ⊢
      obtain ⟨⟨value, m⟩, hbody, heq⟩ := map_eq_ok.mp h
      cases heq
      have hbody := stringBody_of_newline hquote hbody
      rw [hbody]
      exact ⟨rfl, (stringBody_append hbody []).2⟩
  | false =>
      cases hcomment : startsComment c s with
      | false =>
          rw [lexStep_stop hd hquote hcomment] at h
          exact ⟨h, (lexStep_spans hquote hcomment h).1.1⟩
      | true =>
          obtain ⟨rfl, v, rfl | rfl⟩ := eq_of_startsComment hcomment
          -- a line comment ends at the newline, a block comment has its end in front of it
          · rw [List.cons_append, lexStep_lineComment, ← List.cons_append, takeWhile_stop (by decide)] at h
            rw [lexStep_lineComment, h]
            cases h
            exact ⟨rfl, ( List.takeWhile_prefix _).length_le⟩
          · have hclose : hasClose v = true := by simpa [commentAt, startsComment] using hopen
            rw [List.cons_append, lexStep_blockComment, spanBlockComment_of_hasClose hclose] at h
            cases h
            have hlength := congrArg List.length (spanBlockComment_append v)
            rw [List.length_append] at hlength
            exact ⟨rfl, by rw [List.length_cons]; omega⟩

theorem lexStep_newline (h : lexStep c s = .ok (kind?, n)) (hopen : .block false ∉ commentAt c s) (t : List Char) :
    lexStep c (s ++ '\n' :: t) = .ok (kind?, n) := by
  have hd : Stops '\n' := .inl rfl
  cases hcomment : startsComment c s with
  | false => exact (lexStep_append_stop hd hcomment h).1
  | true =>
      obtain ⟨rfl, v, rfl | rfl⟩ := eq_of_startsComment hcomment
      · rw [List.cons_append, lexStep_lineComment, ← List.cons_append, takeWhile_stop (by decide)]
        exact h
      · have hclose : hasClose v = true := by simpa [commentAt, startsComment] using hopen
        rw [List.cons_append, lexStep_blockComment, spanBlockComment_of_hasClose hclose]
        exact h

theorem commentAt_newline (c : Char) (s : List Char) : commentAt c (s ++ ['\n']) = commentAt c s := by
  unfold commentAt
  rw [startsComment_stop (.inl rfl)]
  split
  · next hcomment =>
    obtain ⟨rfl, v, rfl | rfl⟩ := eq_of_startsComment hcomment
    · rfl
    · have hclose : hasClose (v ++ ['\n']) = hasClose v := by
        cases h : hasClose v with
        | true => exact hasClose_append h _
        | false => exact hasClose_newline h
      simp [hclose]
  · rfl

/-- **The first step over whole lines** stays in them, unless it starts a block comment that is open behind them. -/
theorem Cut.first_of_lines (hu : WholeLines (c :: u)) (h : Cut (c :: u ++ t) ls) (hopen : .block false ∉ commentAt c u) :
    ∃ kind? n ls', ls = ⟨kind?, c :: u.take n⟩ :: ls' ∧ lexStep c u = .ok (kind?, n) ∧ WholeLines (u.drop n) ∧
      Cut (u.drop n ++ t) ls' := by
  rcases hu with hu | ⟨s, hs⟩
  · cases hu
  · rw [List.cons_append] at h
    cases h with
    | @cons _ _ kind? n ls' step others =>
        cases s with
        | nil =>
            obtain ⟨rfl, rfl⟩ := List.cons.inj hs
            cases step
            exact ⟨none, 0, ls', rfl, rfl, .inl rfl, others⟩
        | cons x s =>
            rw [List.cons_append] at hs
            obtain ⟨rfl, rfl⟩ := List.cons.inj hs
            rw [commentAt_newline] at hopen
            rw [List.append_assoc] at step others ⊢
            obtain ⟨hstep, hn⟩ := lexStep_of_newline step hopen
            rw [List.drop_append_of_le_length hn] at others
            refine ⟨kind?, n, ls', ?_, lexStep_newline hstep hopen [], .inr ⟨s.drop n, ?_⟩, ?_⟩
            · rw [List.take_append_of_le_length hn, List.take_append_of_le_length hn]
            · exact List.drop_append_of_le_length hn
            · rwa [List.drop_append_of_le_length hn, List.append_assoc]

/-- **Whole lines in front of a text** are cut as they are alone, unless a block comment is open behind them. -/
theorem Cut.of_lines {u : List Char} {ls : List Lexeme} (hu : WholeLines u) (h : Cut (u ++ t) ls)
    (hopen : .block false ∉ comments u) : ∃ ls₁ ls₂, ls = ls₁ ++ ls₂ ∧ Cut u ls₁ ∧ Cut t ls₂ := by
  match u with
  | [] => exact ⟨[], ls, rfl, .nil, h⟩
  | c :: u =>
      -- the first step stays in the lines, and what it leaves of them are whole lines again
      have hfirst : .block false ∉ commentAt c u := fun hmem => hopen (mem_comments_cons hmem)
      obtain ⟨kind?, n, ls', rfl, hstep, hlines, hrest⟩ := h.first_of_lines hu hfirst
      rw [comments_cons hstep, List.mem_append, not_or] at hopen
      obtain ⟨ls₁, ls₂, rfl, hcut, htail⟩ := Cut.of_lines hlines hrest hopen.2
      exact ⟨_, ls₂, rfl, .cons hstep hcut, htail⟩
termination_by u.length
decreasing_by
  simp only [List.length_drop, List.length_cons]
  omega

theorem WholeLines.tail (h : WholeLines (c :: u)) : WholeLines u := by
  rcases h with h | ⟨s, hs⟩
  · cases h
  · cases s with
    | nil => exact .inl (List.cons.inj hs).2
    | cons x s => exact .inr ⟨s, (List.cons.inj hs).2⟩

theorem spanBlockComment_lines (hu : WholeLines u) (h : hasClose u = false) :
    (spanBlockComment (u ++ t)).1 = u ++ (spanBlockComment t).1 := by
  rcases hu with rfl | ⟨s, rfl⟩
  · rfl
  · have hs : hasClose s = false := by
      refine Bool.eq_false_iff.mpr fun hs => ?_
      rw [hasClose_append hs] at h
      cases h
    rw [List.append_assoc, List.append_assoc]
    exact spanBlockComment_newline hs t

theorem take_spanBlockComment (h : (spanBlockComment s).1 = u) : s.take u.length = u := by
  rw [← h]
  exact List.prefix_iff_eq_take.mp ⟨_, spanBlockComment_append s⟩ |>.symm

/-- What starts with a block comment that is open behind a text. -/
theorem eq_of_open (h : .block false ∈ commentAt c s) : c = '/' ∧ ∃ v, s = '*' :: v ∧ hasClose v = false := by
  unfold commentAt at h
  split at h
  · next hcomment =>
    obtain ⟨rfl, v, rfl | rfl⟩ := eq_of_startsComment hcomment
    · simp at h
    · exact ⟨rfl, v, rfl, by simpa using h⟩
  · cases h

/-- **A block comment that is open behind whole lines** takes what follows up to its end. -/
theorem Cut.of_open {u : List Char} {ls : List Lexeme} (hu : WholeLines u) (h : Cut (u ++ t) ls)
    (hopen : .block false ∈ comments u) :
    ∃ ls₁ ls₂ x, ls = ls₁ ++ ⟨none, x ++ (spanBlockComment t).1⟩ :: ls₂ ∧ u = texts ls₁ ++ x ∧ x ≠ [] := by
  match u with
  | [] =>
      rw [comments] at hopen
      cases hopen
  | c :: u =>
      -- either the open comment starts here, or the first step stays in the lines
      by_cases hfirst : .block false ∈ commentAt c u
      · obtain ⟨rfl, v, rfl, hclose⟩ := eq_of_open hfirst
        rw [List.cons_append, List.cons_append] at h
        cases h with
        | @cons _ _ kind? n ls' step others =>
            rw [lexStep_blockComment, spanBlockComment_lines hu.tail.tail hclose] at step
            cases step
            refine ⟨[], ls', '/' :: '*' :: v, ?_, rfl, nofun⟩
            rw [List.nil_append, Nat.add_comm, List.take_succ_cons,
              take_spanBlockComment (spanBlockComment_lines hu.tail.tail hclose)]
            rfl
      · obtain ⟨kind?, n, ls', rfl, hstep, hlines, hrest⟩ := h.first_of_lines hu hfirst
        rw [comments_cons hstep, List.mem_append] at hopen
        obtain ⟨ls₁, ls₂, x, rfl, hx, hne⟩ := Cut.of_open hlines hrest (hopen.resolve_left hfirst)
        refine ⟨_ :: ls₁, ls₂, x, rfl, ?_, hne⟩
        rw [Lexeme.texts_cons, List.append_assoc, ← hx, List.cons_append, List.take_append_drop]
termination_by u.length
decreasing_by
  simp only [List.length_drop, List.length_cons]
  omega

end Inlay
