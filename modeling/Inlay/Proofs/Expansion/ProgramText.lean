import Inlay.Proofs.Grammar.Completeness
import Inlay.Proofs.Expansion.Action

/-!
# `Proofs.Expansion.ProgramText` — the text that a source's program is read from

The program of a source is put together as text: calls on lines of their own, which name a literal run by its number
or have an expression for their argument, and code with a newline behind it. What the lexer cuts a call into is known
whatever follows (`cut_callLine`), and a call can be taken off the front of a text with what it was cut into
(`Cut.of_callLine`).

The program of some segments and further ones is that of the first with that of the others behind it
(`programFrom_append`), and the border is between lines (`wholeLines_programFrom`).
-/

namespace Inlay

open Lexeme (kinds texts tokensAt)

variable {s t u : List Char} {c : Char} {n : Nat} {ls ls' : List Lexeme}

/-! ## Numbers in a program's text -/

theorem symbolAt?_of_isDigit (h : c.isDigit = true) (next : Option Char) : symbolAt? c next = none := by
  refine symbolAt?_eq_none ?_
  unfold symbolAt?
  split <;> first | rfl | cases h

/-- Digits alone are a whole number, if it is in range. -/
theorem decimalNumeral_digits (hc : c.isDigit = true) (hs : ∀ x ∈ s, x.isDigit = true) : decimalNumeral c s =
    if UInt64.size / 2 ≤ decimalNumber (c :: s) then .error (.invalidInteger (String.ofList (c :: s)))
    else .ok (some (.integer (Int64.ofNat (decimalNumber (c :: s)))), s.length) := by
  have hrun : s.takeWhile Char.isDigit = s := by
    rw [← List.append_nil s, List.takeWhile_append_of_pos hs]
    rfl
  have hfraction : fractionPart c [] = [] := by
    unfold fractionPart
    split <;> first | rfl | contradiction
  have hpoint : (c == '.') = false := beq_eq_false_iff_ne.mpr (ne_of_class hc rfl)
  unfold decimalNumeral
  simp only [hrun, List.drop_length, hfraction, hpoint, exponentPart, List.length_nil, Nat.add_zero, List.drop_nil,
    List.isEmpty_nil, Bool.not_true, Bool.or_self, Bool.false_eq_true, if_false, List.take_length, List.takeWhile_nil]

theorem decimalNumber_toDigits (n : Nat) : decimalNumber (Nat.toDigits 10 n) = n :=
  Nat.ofDigitChars_toDigits (by decide) (by decide)

/-- A number starts with neither a quote nor a comment. -/
theorem plain_of_toDigits (h : Nat.toDigits 10 n = c :: s) : isQuote c = false ∧ startsComment c s = false := by
  have hc : c.isDigit = true := Nat.isDigit_of_mem_toDigits (by decide) (by decide) (h ▸ List.mem_cons_self)
  have hplain := isPlain_of_isDigit hc
  simp only [isPlain, Bool.and_eq_true, Bool.not_eq_true', bne_iff_ne] at hplain
  exact ⟨hplain.1, by simp [startsComment, hplain.2]⟩

/-- **The digits of a number are read as that number**, if a word can hold it. -/
theorem lexStep_toDigits (h : Nat.toDigits 10 n = c :: s) : lexStep c s =
    if UInt64.size / 2 ≤ n then .error (.invalidInteger (String.ofList (c :: s)))
    else .ok (some (.integer (Int64.ofNat n)), s.length) := by
  have hdigits : ∀ x ∈ c :: s, x.isDigit = true := fun x hx =>
    Nat.isDigit_of_mem_toDigits (by decide) (by decide) (h ▸ hx)
  have hc := hdigits c List.mem_cons_self
  have hs : ∀ x ∈ s, x.isDigit = true := fun x hx => hdigits x (List.mem_cons_of_mem c hx)
  have hhex : (s.head? == some 'x' || s.head? == some 'X') = false := by
    cases s with
    | nil => rfl
    | cons x s =>
        have hx := hs x List.mem_cons_self
        simp [ne_of_class hx (show 'x'.isDigit = false from rfl), ne_of_class hx (show 'X'.isDigit = false from rfl)]
  obtain ⟨hquote, hcomment, hblank⟩ := starts_of_class rfl hc s
  rw [lexStep_eq hquote hcomment, hblank, symbolAt?_of_isDigit hc, hhex, hc, decimalNumeral_digits hc hs, ← h,
    decimalNumber_toDigits]
  simp

/-- The lexeme of a number in a program's text. -/
def numberLexeme (n : Nat) : Lexeme :=
  ⟨some (.integer (Int64.ofNat n)), Nat.toDigits 10 n⟩

theorem exists_toDigits (n : Nat) : ∃ c s, Nat.toDigits 10 n = c :: s :=
  List.exists_cons_of_ne_nil Nat.toDigits_ne_nil

theorem cut_number (hn : n < UInt64.size / 2) : Cut (Nat.toDigits 10 n) [numberLexeme n] := by
  obtain ⟨c, s, hdigits⟩ := exists_toDigits n
  have hstep := lexStep_toDigits hdigits
  rw [if_neg (Nat.not_le.mpr hn)] at hstep
  have hcut := Cut.cons hstep (by rw [List.drop_length]; exact .nil)
  rw [numberLexeme, hdigits]
  rwa [List.take_length] at hcut

theorem comments_number (n : Nat) : comments (Nat.toDigits 10 n) = [] := by
  have hplain : Spans (Nat.toDigits 10 n).length (Nat.toDigits 10 n) :=
    .of_start ( List.prefix_refl _) fun x hx => isPlain_of_isDigit (Nat.isDigit_of_mem_toDigits (by decide) (by decide) hx)
  rw [← comments_drop hplain, List.drop_length, comments]

/-! ## Calls in a program's text -/

/-- The lexemes of a call's line, with those of its argument. -/
def callLexemes (f : Builtin) (ls : List Lexeme) : List Lexeme :=
  ⟨some (.identifier f.name), f.name.toList⟩ :: ⟨some (.symbol .leftParen), ['(']⟩ ::
    (ls ++ [⟨some (.symbol .rightParen), [')']⟩, ⟨some (.symbol .semicolon), [';']⟩, ⟨none, ['\n']⟩])

/-- The name of a builtin is a name. -/
theorem lexStep_name (f : Builtin) (t : List Char) : ∃ c s, f.name.toList = c :: s ∧
    lexStep c (s ++ '(' :: t) = .ok (some (.identifier f.name), s.length) := by
  cases f <;> exact ⟨_, _, rfl, rfl⟩

theorem cut_callStart (f : Builtin) (h : Cut s ls) : Cut (f.name.toList ++ '(' :: s)
    (⟨some (.identifier f.name), f.name.toList⟩ :: ⟨some (.symbol .leftParen), ['(']⟩ :: ls) := by
  obtain ⟨c, u, hname, hword⟩ := lexStep_name f s
  rw [hname]
  exact .lexeme hword (.lexeme (s := []) rfl h)

theorem cut_callEnd (h : Cut t ls) : Cut (')' :: ';' :: '\n' :: t)
    (⟨some (.symbol .rightParen), [')']⟩ :: ⟨some (.symbol .semicolon), [';']⟩ :: ⟨none, ['\n']⟩ :: ls) :=
  .lexeme (s := []) rfl (.lexeme (s := []) rfl (.lexeme (s := []) rfl h))

/-- **A call in front of a text**: the lexemes of its line and those of the text. -/
theorem cut_callLine (f : Builtin) (harg : Cut s ls) (hplain : comments s = []) (ht : Cut t ls') :
    Cut (callLine f s ++ t) (callLexemes f ls ++ ls') := by
  have hcut := cut_callStart f (harg.append_stop hplain (.inr (.inl rfl)) (cut_callEnd ht))
  simpa [callLine, callLexemes] using hcut

/-- **The call for a literal run in front of a text** is cut off by itself. Its number is in range. -/
theorem Cut.of_callLine (h : Cut (callLine .emitText (toString n).toList ++ t) ls) :
    ∃ ls', ls = callLexemes .emitText [numberLexeme n] ++ ls' ∧ Cut t ls' := by
  obtain ⟨c, s, hname, hword⟩ := lexStep_name .emitText (Nat.toDigits 10 n ++ ')' :: ';' :: '\n' :: t)
  obtain ⟨d, u, hdigits⟩ := exists_toDigits n
  have htext : callLine .emitText (toString n).toList ++ t =
      c :: s ++ '(' :: (d :: u ++ ')' :: ';' :: '\n' :: t) := by
    simp [callLine, hname, hdigits]
  rw [htext] at h
  obtain ⟨ls₁, rfl, h₁⟩ := h.of_lexeme (hdigits ▸ hword)
  obtain ⟨ls₂, rfl, h₂⟩ := h₁.of_lexeme (s := []) rfl
  obtain ⟨hquote, hcomment⟩ := plain_of_toDigits hdigits
  have hnumber := lexStep_stop (t := ';' :: '\n' :: t) (.inr (.inl rfl)) hquote hcomment
  rw [lexStep_toDigits hdigits] at hnumber
  split at hnumber
  · exact absurd h₂ (Cut.not_of_error hnumber)
  · obtain ⟨ls₃, rfl, h₃⟩ := h₂.of_lexeme hnumber
    obtain ⟨ls₄, rfl, h₄⟩ := h₃.of_lexeme (s := []) rfl
    obtain ⟨ls₅, rfl, h₅⟩ := h₄.of_lexeme (s := []) rfl
    obtain ⟨ls₆, rfl, h₆⟩ := h₅.of_lexeme (s := []) rfl
    refine ⟨ls₆, ?_, h₆⟩
    rw [callLexemes, numberLexeme, hname, hdigits]
    rfl

/-! ## Whole programs -/

theorem literalRuns_append (parts parts' : List Segment) :
    literalRuns (parts ++ parts') = literalRuns parts ++ literalRuns parts' :=
  List.filterMap_append

/-- The program of a segment and further ones, whose literal runs are numbered behind its own. -/
theorem programFrom_cons (n : Nat) (part : Segment) (parts : List Segment) : programFrom n (part :: parts) =
    programFrom n [part] ++ programFrom (n + (literalRuns [part]).length) parts := by
  cases part <;> simp [programFrom, literalRuns, Segment.literal?]

/-- **The program of segments and further ones**, whose literal runs are numbered behind those of the first. -/
theorem programFrom_append (n : Nat) (parts parts' : List Segment) : programFrom n (parts ++ parts') =
    programFrom n parts ++ programFrom (n + (literalRuns parts).length) parts' := by
  induction parts generalizing n with
  | nil => rfl
  | cons part parts ih =>
      rw [List.cons_append, programFrom_cons, programFrom_cons n part parts, ih, ← List.singleton_append (l := parts),
        literalRuns_append, List.length_append, Nat.add_assoc, List.append_assoc]

theorem WholeLines.append (hs : WholeLines s) (ht : WholeLines t) : WholeLines (s ++ t) := by
  rcases ht with rfl | ⟨u, rfl⟩
  · rwa [List.append_nil]
  · exact .inr ⟨s ++ u, (List.append_assoc ..).symm⟩

theorem wholeLines_callLine (f : Builtin) (s : List Char) : WholeLines (callLine f s) :=
  .inr ⟨f.name.toList ++ '(' :: s ++ [')', ';'], by simp [callLine]⟩

/-- **A program is made of whole lines.** -/
theorem wholeLines_programFrom (n : Nat) (parts : List Segment) : WholeLines (programFrom n parts) := by
  induction parts generalizing n with
  | nil => exact .inl rfl
  | cons part parts ih =>
      have hpart : WholeLines (programFrom n [part]) := by
        cases part with
        | literal text | expression text =>
            rw [programFrom, programFrom, List.append_nil]
            exact wholeLines_callLine _ _
        | code text | lineCode text => exact .inr ⟨text, rfl⟩
        | comment text => exact .inl rfl
      rw [programFrom_cons]
      exact hpart.append (ih _)

end Inlay
