import Inlay.Proofs.Lexing.Lexeme
import Inlay.Proofs.Lexing.Offending
import Inlay.Proofs.Text.FirstStop
import Inlay.Proofs.Text.Lines

/-!
# `Proofs.Lexing.TokenRow` — tokens in the text that they were read from

Between the tokens of a text there are gaps of blanks and comments (`Gap`), and nothing else: the text is a row of
lexemes and gaps, and each token has the place where its lexeme starts (`TokenRow`). The lexer moves a position over
the text as it goes along; here a place is read off the text in front of it (`Position.Behind`).

Scanning ends with the text, or at the first token that cannot be read. In both cases all that was passed is such a row,
of the tokens that were read (`CutTo`). A text has one such end (`Scan`), and the scanner gives it; one that counts
lines and columns instead gives the same (`scanTokens_eq_iff`).
-/

namespace Inlay

open Lexeme (texts tokensAt)

/-! ## Places -/

/-- **The place behind a text**: its line is one more than the newlines of the text, and its column one more than the
    characters behind the last of them. -/
structure Position.Behind (p : Position) (before : List Char) : Prop where
  offset : p.offset = byteLength before
  line : p.line = newlines before + 1
  column : p.column = (before.reverse.takeWhile (· ≠ '\n')).length + 1

/-- **An advanced position** is the place behind the text that it was moved over. -/
theorem Position.behind_advance (s : List Char) : (({} : Position).advance s).Behind s := by
  obtain ⟨hoffset, hline⟩ := advance_offset_line {} s
  refine ⟨hoffset.trans (Nat.zero_add _), hline.trans (Nat.add_comm _ _), ?_⟩
  -- the column starts again behind a newline, so the induction adds characters at the end
  induction s using List.reverseRecOn with
  | nil => rfl
  | append_singleton s c ih =>
      rw [advance_append, advance_cons, advance_nil, List.reverse_concat]
      by_cases hc : c = '\n'
      · subst hc
        rfl
      · obtain ⟨hoffset, hline⟩ := advance_offset_line {} s
        rw [Position.next, if_neg hc, List.takeWhile_cons_of_pos (by simpa using hc), List.length_cons]
        exact congrArg (· + 1) (ih hoffset hline)

/-! ## Gaps and rows -/

/-- **A comment** in front of a text. A line comment ends in front of a newline or with the text, a block comment with
    its first closing or with the text. -/
inductive CommentText : List Char → List Char → Prop
  | line {s t : List Char} (inside : '\n' ∉ s) (ends : ∀ c ∈ t.head?, c = '\n') : CommentText ('/' :: '/' :: s) t
  | block {s t : List Char} (inside : Through ['*', '/'] s t) : CommentText ('/' :: '*' :: s) t

/-- **A gap** in front of a text: spaces, tabs, carriage returns, newlines and comments. -/
inductive Gap : List Char → List Char → Prop
  | nil {t : List Char} : Gap [] t
  | blank {c : Char} {s t : List Char} (blank : c ∈ [' ', '\t', '\r', '\n']) (others : Gap s t) : Gap (c :: s) t
  | comment {s s' t : List Char} (comment : CommentText s (s' ++ t)) (others : Gap s' t) : Gap (s ++ s') t

/-- **A row of tokens.** Behind `before` and in front of `behind` stands a text that is made of the lexemes of the
    tokens, in their order, and of gaps; each token has the place where its lexeme starts. -/
inductive TokenRow : List Char → List Char → List Char → List Token → Prop
  | nil {before gap behind : List Char} (between : Gap gap behind) : TokenRow before gap behind []
  | cons {before gap lexeme text behind : List Char} {kind : TokenKind} {p : Position} {ts : List Token}
      (between : Gap gap (lexeme ++ (text ++ behind))) (place : p.Behind (before ++ gap)) (nonempty : lexeme ≠ [])
      (inside : kind ≠ .eof) (others : TokenRow (before ++ gap ++ lexeme) text behind ts) :
      TokenRow before (gap ++ (lexeme ++ text)) behind (⟨kind, String.ofList lexeme, p⟩ :: ts)

/-- **The lexemes that are read of a text**, up to a rest. -/
inductive CutTo : List Char → List Lexeme → List Char → Prop
  | nil {rest : List Char} : CutTo rest [] rest
  | cons {c : Char} {s rest : List Char} {kind? : Option TokenKind} {n : Nat} {ls : List Lexeme}
      (step : lexStep c s = .ok (kind?, n)) (others : CutTo (s.drop n) ls rest) :
      CutTo (c :: s) (⟨kind?, c :: s.take n⟩ :: ls) rest

/-- **What a scan gives** for a source. If all of it can be read, it is a row of the tokens that are read, and they are
    the result with the end behind them. Otherwise there is an offending token behind the first tokens that are read,
    which are the row in front of it, and the result is a fault where it starts. -/
inductive Scan (source : List Char) : Except SyntaxFault (List Token) → Prop
  | tokens {ls : List Lexeme} {p : Position} (read : CutTo source ls []) (row : TokenRow [] source [] (tokensAt {} ls))
      (place : p.Behind source) : Scan source (.ok (tokensAt {} ls ++ [⟨.eof, "", p⟩]))
  | fault {ls : List Lexeme} {rest : List Char} {p : Position} {cause : SyntaxCause} (read : CutTo source ls rest)
      (row : TokenRow [] (texts ls) rest (tokensAt {} ls)) (place : p.Behind (texts ls))
      (offending : Offending rest cause) : Scan source (.error ⟨p, cause⟩)

variable {s t u before behind rest : List Char} {c : Char} {n : Nat} {kind? : Option TokenKind} {ls : List Lexeme}
  {ts : List Token} {p : Position} {cause : SyntaxCause}

/-- A gap in front of a gap. -/
theorem Gap.append (h : Gap s (t ++ u)) (h' : Gap t u) : Gap (s ++ t) u := by
  generalize hx : t ++ u = x at h
  induction h with
  | nil => exact h'
  | blank hblank _ ih => exact .blank hblank (ih hx)
  | comment hcomment _ ih =>
      subst hx
      rw [List.append_assoc]
      exact .comment (by rwa [List.append_assoc]) (ih rfl)

/-- A gap in front of a row of tokens. -/
theorem TokenRow.skip (hgap : Gap u (s ++ behind)) (h : TokenRow (before ++ u) s behind ts) :
    TokenRow before (u ++ s) behind ts := by
  cases h with
  | nil between => exact .nil (hgap.append between)
  | @cons _ gap lexeme text _ _ _ _ between place nonempty inside others =>
      rw [List.append_assoc gap, List.append_assoc lexeme] at hgap
      rw [List.append_assoc before] at place others
      rw [← List.append_assoc u]
      exact .cons (hgap.append between) place nonempty inside others

/-! ## Steps that find no token -/

theorem hexNumeral_ne_none (h : hexNumeral s = .ok (kind?, n)) : kind? ≠ none := by
  unfold hexNumeral at h
  dsimp only at h
  split at h <;> cases h
  nofun

theorem decimalNumeral_ne_none (h : decimalNumeral c s = .ok (kind?, n)) : kind? ≠ none := by
  unfold decimalNumeral at h
  dsimp only at h
  split at h <;> split at h <;> cases h <;> nofun

/-- What a step passes over is a blank or a comment. -/
theorem blank_or_comment (h : lexStep c s = .ok (none, n)) :
    (c ∈ [' ', '\t', '\r', '\n'] ∧ n = 0) ∨ startsComment c s = true := by
  cases hquote : isQuote c with
  | true =>
      rw [lexStep_quote hquote] at h
      obtain ⟨_, -, heq⟩ := map_eq_ok.mp h
      cases heq
  | false =>
      cases hcomment : startsComment c s with
      | true => exact .inr rfl
      | false =>
          rw [lexStep_eq hquote hcomment] at h
          split at h
          · next hblank =>
            cases h
            simp only [Bool.or_eq_true, beq_iff_eq] at hblank
            refine .inl ⟨?_, rfl⟩
            rcases hblank with ((rfl | rfl) | rfl) | rfl <;> decide
          · split at h
            · cases h
            · split at h
              · exact absurd rfl (hexNumeral_ne_none h)
              · split at h
                · exact absurd rfl (decimalNumeral_ne_none h)
                · split at h <;> cases h

/-- What is cut off the front of a text, by its length. -/
theorem take_drop_of_append (h : u ++ t = s) : s.take u.length = u ∧ s.drop u.length = t := by
  subst h
  exact ⟨List.take_left, List.drop_left⟩

theorem commentText_of_step (hcomment : startsComment c s = true) (h : lexStep c s = .ok (kind?, n)) :
    CommentText (c :: s.take n) (s.drop n) := by
  obtain ⟨rfl, v, rfl | rfl⟩ := eq_of_startsComment hcomment
  · rw [lexStep_lineComment, List.takeWhile_cons_of_pos rfl, List.length_cons] at h
    cases h
    obtain ⟨htake, hdrop⟩ := take_drop_of_append (List.takeWhile_append_dropWhile (p := (· != '\n')) (l := v))
    rw [List.take_succ_cons, List.drop_succ_cons, htake, hdrop]
    refine .line (fun hmem => ?_) (fun c hc => ?_)
    · exact absurd (of_mem_takeWhile hmem) (by decide)
    · obtain ⟨t, ht⟩ := List.head?_eq_some_iff.mp hc
      simpa using not_of_dropWhile ht
  · rw [lexStep_blockComment] at h
    cases h
    obtain ⟨htake, hdrop⟩ := take_drop_of_append (spanBlockComment_append v)
    rw [Nat.add_comm, List.take_succ_cons, List.drop_succ_cons, htake, hdrop]
    exact .block (through_spanBlockComment v)

/-- **A step that finds no token** passes over a gap. -/
theorem gap_of_step (h : lexStep c s = .ok (none, n)) : Gap (c :: s.take n) (s.drop n) := by
  rcases blank_or_comment h with ⟨hblank, rfl⟩ | hcomment
  · exact .blank hblank .nil
  · have hgap : Gap (c :: s.take n ++ []) (s.drop n) := .comment (commentText_of_step hcomment h) .nil
    rwa [List.append_nil] at hgap

/-! ## The lexemes in front of a rest -/

namespace CutTo

/-- The lexemes of a whole text are those up to its end. -/
theorem nil_iff : CutTo s ls [] ↔ Cut s ls := by
  constructor
  · intro h
    generalize hrest : [] = rest at h
    induction h with
    | nil => exact hrest ▸ .nil
    | cons step _ ih => exact .cons step (ih hrest)
  · intro h
    induction h with
    | nil => exact .nil
    | cons step _ ih => exact .cons step ih

theorem texts_append (h : CutTo s ls rest) : texts ls ++ rest = s := by
  induction h with
  | nil => rfl
  | cons _ _ ih => rw [Lexeme.texts_cons, List.append_assoc, ih, List.cons_append, List.take_append_drop]

/-- **Lexemes are a row**: those that are tokens, and the others as the gaps between them. -/
theorem tokenRow (h : CutTo s ls rest) (before : List Char) :
    TokenRow before (texts ls) rest (tokensAt (({} : Position).advance before) ls) := by
  induction h generalizing before with
  | nil => exact .nil .nil
  | @cons c s rest kind? n ls step others ih =>
      have hrest := others.texts_append
      rw [Lexeme.texts_cons]
      cases kind? with
      | none =>
          rw [tokensAt, ← Position.advance_append]
          exact (ih _).skip (hrest.symm ▸ gap_of_step step)
      | some k =>
          have hinside : k ≠ .eof := fun heof => lexStep_ne_eof step (congrArg some heof)
          rw [tokensAt, ← Position.advance_append]
          -- a lexeme with an empty gap in front of it
          show TokenRow before ([] ++ (c :: s.take n ++ texts ls)) rest _
          refine .cons .nil ?_ (List.cons_ne_nil _ _) hinside ?_
          · rw [List.append_nil]
            exact Position.behind_advance before
          · rw [List.append_nil]
            exact ih _

end CutTo

/-- **A fault** is at the first text that the lexer cannot read, behind lexemes that it could. -/
theorem exists_of_tokensFrom_error {fault : SyntaxFault} (h : tokensFrom p s = .error fault) :
    ∃ ls c t, CutTo s ls (c :: t) ∧ lexStep c t = .error fault.cause ∧ fault.position = p.advance (texts ls) := by
  fun_induction tokensFrom p s with
  | case1 => cases h
  | case2 p c s cause hstep =>
      cases h
      exact ⟨[], c, s, .nil, hstep, rfl⟩
  | case3 p c s kind? n hstep inner hothers ih =>
      cases h
      obtain ⟨ls, d, t, hcut, hfault, hplace⟩ := ih hothers
      refine ⟨_, d, t, .cons hstep hcut, hfault, ?_⟩
      rw [hplace, Lexeme.texts_cons, Position.advance_append]
  | case4 => cases h
  | case5 => cases h

/-- **Where the lexemes end that can be read**, there is the fault. -/
theorem CutTo.tokensFrom_error (h : CutTo s ls (c :: t)) (hstep : lexStep c t = .error cause) (p : Position) :
    tokensFrom p s = .error ⟨p.advance (texts ls), cause⟩ := by
  generalize hrest : c :: t = rest at h
  induction h generalizing p with
  | nil =>
      subst hrest
      rw [tokensFrom, hstep]
      rfl
  | cons step _ ih =>
      rw [tokensFrom, step]
      dsimp only
      rw [ih _ hrest, Lexeme.texts_cons, Position.advance_append]

/-- A text is behind one place only. -/
theorem Position.Behind.unique {p' : Position} (h : p.Behind before) (h' : p'.Behind before) : p = p' := by
  obtain ⟨_, _, _⟩ := p
  obtain ⟨_, _, _⟩ := p'
  obtain ⟨rfl, rfl, rfl⟩ := h
  obtain ⟨rfl, rfl, rfl⟩ := h'
  rfl

/-- An offending token has a first character. -/
theorem Offending.ne_nil (h : Offending s cause) : s ≠ [] := by
  cases h with
  | integer all ends plain large =>
      intro hnil
      obtain ⟨rfl, -⟩ := List.append_eq_nil_iff.mp hnil
      exact absurd large (by decide)
  | string | hex | float | character => simp

/-- **Scanned tokens tile their source.** What the scanner gives for a source is what a scan of it gives, which is one
    result only, and a scanner that counts lines and columns finds the same tokens or the same fault at the same
    ones. -/
theorem scanTokens_eq_iff (source : String) : Counting.scan source = Counting.marked (scanTokens source) ∧
    ∀ result, scanTokens source = result ↔ Scan source.toList result := by
  refine ⟨Counting.scan_eq source, fun result => ⟨?_, ?_⟩⟩
  · rintro rfl
    cases h : scanTokens source with
    | ok ts =>
        obtain ⟨ls, hcut, rfl⟩ := tokensFrom_eq_ok.mp h
        have hread := CutTo.nil_iff.mpr hcut
        have hrow := hread.tokenRow []
        rw [hcut.texts_eq] at hrow
        exact .tokens hread hrow (Position.behind_advance source.toList)
    | error fault =>
        obtain ⟨ls, c, t, hcut, hstep, hplace⟩ := exists_of_tokensFrom_error h
        have hbehind := Position.behind_advance (texts ls)
        rw [← hplace] at hbehind
        exact .fault hcut (hcut.tokenRow []) hbehind (offending_of_lexStep hstep)
  · intro hscan
    cases hscan with
    | @tokens ls p read row place =>
        rw [place.unique (Position.behind_advance _)]
        exact tokensFrom_eq_ok.mpr ⟨ls, CutTo.nil_iff.mp read, rfl⟩
    | @fault ls rest p cause read row place offending =>
        obtain ⟨c, t, rfl⟩ := List.exists_cons_of_ne_nil offending.ne_nil
        rw [place.unique (Position.behind_advance _)]
        exact read.tokensFrom_error offending.lexStep {}

/-- A string that is not closed, behind one that is: the fault is where it starts, and not in the string before. -/
theorem scan_open_string :
    Scan "\"@\" \"".toList (.error ⟨⟨4, 1, 5⟩, .unterminatedString⟩) ∧
      ¬ Scan "\"@\" \"".toList (.error ⟨⟨2, 1, 3⟩, .unterminatedString⟩) := by
  have hread : CutTo "\"@\" \"".toList _ ['"'] :=
    .cons (show lexStep '"' _ = .ok (some (.string "@"), 2) from rfl) (.cons rfl .nil)
  have hfault : scanTokens "\"@\" \"" = .error ⟨⟨4, 1, 5⟩, .unterminatedString⟩ := hread.tokensFrom_error rfl {}
  rw [← (scanTokens_eq_iff "\"@\" \"").2, ← (scanTokens_eq_iff "\"@\" \"").2, hfault]
  exact ⟨rfl, nofun⟩

end Inlay
