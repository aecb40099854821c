import Inlay.Proofs.Grammar.Phrase
import Inlay.Proofs.Lexing.Step

/-!
# `Proofs.Lexing.Lexeme` — a text as the pieces that the lexer cuts it into

A lexeme is what one step of the lexer takes: the characters, and the token that they are, if they are one. The
lexemes of a text (`Cut`) say nothing about positions, and so nothing about what stands in front of the text. They are
the text again when put together, they are the only ones, and the tokens of a text are its lexemes with the places
where they stand (`tokensFrom_eq_ok`).
-/

namespace Inlay

variable {s t : List Char} {c : Char} {n : Nat} {kind? : Option TokenKind} {p : Position}

/-- What a step of the lexer takes: a token, or blanks or a comment. -/
structure Lexeme where
  kind? : Option TokenKind
  text : List Char

/-- **The lexemes of a text.** -/
inductive Cut : List Char → List Lexeme → Prop where
  | nil : Cut [] []
  | cons {c s kind? n ls} (step : lexStep c s = .ok (kind?, n)) (others : Cut (s.drop n) ls) :
      Cut (c :: s) (⟨kind?, c :: s.take n⟩ :: ls)

namespace Lexeme

/-- The kinds of the tokens among lexemes. -/
def kinds (ls : List Lexeme) : List TokenKind :=
  ls.filterMap (·.kind?)

/-- The characters of lexemes. -/
def texts (ls : List Lexeme) : List Char :=
  ls.flatMap (·.text)

/-- The tokens among lexemes that start at `p`. -/
def tokensAt (p : Position) : List Lexeme → List Token
  | [] => []
  | ⟨none, u⟩ :: ls => tokensAt (p.advance u) ls
  | ⟨some k, u⟩ :: ls => ⟨k, String.ofList u, p⟩ :: tokensAt (p.advance u) ls

variable {ls ls' : List Lexeme}

@[simp] theorem kinds_nil : kinds [] = [] := rfl

@[simp] theorem kinds_none (u : List Char) : kinds (⟨none, u⟩ :: ls) = kinds ls := rfl

@[simp] theorem kinds_some (k : TokenKind) (u : List Char) : kinds (⟨some k, u⟩ :: ls) = k :: kinds ls := rfl

@[simp] theorem kinds_append : kinds (ls ++ ls') = kinds ls ++ kinds ls' :=
  List.filterMap_append

@[simp] theorem texts_nil : texts [] = [] := rfl

@[simp] theorem texts_cons (l : Lexeme) : texts (l :: ls) = l.text ++ texts ls := rfl

@[simp] theorem texts_append : texts (ls ++ ls') = texts ls ++ texts ls' :=
  List.flatMap_append

theorem kinds_tokensAt (ls : List Lexeme) (p : Position) : Grammar.kinds (tokensAt p ls) = kinds ls := by
  induction ls generalizing p with
  | nil => rfl
  | cons l ls ih =>
      obtain ⟨_ | k, u⟩ := l
      · exact ih _
      · exact congrArg (k :: ·) (ih _)

/-- **Lexemes behind others** stand where the others end. -/
theorem tokensAt_append (p : Position) (ls ls' : List Lexeme) :
    tokensAt p (ls ++ ls') = tokensAt p ls ++ tokensAt (p.advance (texts ls)) ls' := by
  induction ls generalizing p with
  | nil => rfl
  | cons l ls ih =>
      rw [texts_cons, Position.advance_append]
      obtain ⟨_ | k, u⟩ := l
      · exact ih _
      · exact congrArg (_ :: ·) (ih _)

end Lexeme

open Lexeme (kinds texts tokensAt)

namespace Cut

variable {ls ls' : List Lexeme}

/-- **No character is lost.** -/
theorem texts_eq (h : Cut s ls) : texts ls = s := by
  induction h with
  | nil => rfl
  | cons _ _ ih => rw [Lexeme.texts_cons, ih, List.cons_append, List.take_append_drop]

/-- **A text has one list of lexemes.** -/
theorem unique (h : Cut s ls) (h' : Cut s ls') : ls = ls' := by
  induction h generalizing ls' with
  | nil =>
      cases h'
      rfl
  | cons step _ ih =>
      cases h' with
      | cons step' others' =>
          cases step.symm.trans step'
          rw [ih others']

/-- **What the first step takes of a text** is its first lexeme. -/
theorem of_lexeme (step : lexStep c (s ++ t) = .ok (kind?, s.length)) (h : Cut (c :: s ++ t) ls) :
    ∃ ls', ls = ⟨kind?, c :: s⟩ :: ls' ∧ Cut t ls' := by
  rw [List.cons_append] at h
  cases h with
  | cons step' others =>
      cases step.symm.trans step'
      rw [List.drop_left] at others
      rw [List.take_left]
      exact ⟨_, rfl, others⟩

/-- A lexeme in front of a text, if the first step takes just that. -/
theorem lexeme (step : lexStep c (s ++ t) = .ok (kind?, s.length)) (others : Cut t ls) :
    Cut (c :: s ++ t) (⟨kind?, c :: s⟩ :: ls) := by
  have h := Cut.cons step (by rwa [List.drop_left])
  rwa [List.take_left] at h

/-- A text that the lexer fails on at its start has no lexemes. -/
theorem not_of_error {cause : SyntaxCause} (step : lexStep c s = .error cause) : ¬Cut (c :: s) ls := by
  rintro (_ | ⟨step', -⟩)
  cases step.symm.trans step'

/-- A text that is all but cut: its first step and the lexemes of the rest. -/
theorem cons_append (step : lexStep c (s ++ t) = .ok (kind?, n)) (hn : n ≤ s.length) (others : Cut (s.drop n ++ t) ls) :
    Cut (c :: s ++ t) (⟨kind?, c :: s.take n⟩ :: ls) := by
  have h := Cut.cons step (by rwa [List.drop_append_of_le_length hn])
  rwa [List.take_append_of_le_length hn] at h

end Cut

/-! ## Tokens -/

theorem Position.advance_take_drop (p : Position) (c : Char) (s : List Char) (n : Nat) :
    (p.advance (c :: s.take n)).advance (s.drop n) = p.advance (c :: s) := by
  rw [← advance_append, List.cons_append, List.take_append_drop]

/-- **The tokens of a text** are those among its lexemes, and the end behind them. -/
theorem tokensFrom_eq_ok {ts : List Token} : tokensFrom p s = .ok ts ↔
    ∃ ls, Cut s ls ∧ ts = tokensAt p ls ++ [⟨.eof, "", p.advance s⟩] := by
  constructor
  · intro h
    fun_induction tokensFrom p s generalizing ts with
    | case1 p =>
        cases h
        exact ⟨[], .nil, rfl⟩
    | case2 => cases h
    | case3 => cases h
    | case4 p c s n tokens hothers hstep ih =>
        cases h
        obtain ⟨ls, hcut, rfl⟩ := ih hothers
        refine ⟨_, .cons hstep hcut, ?_⟩
        rw [p.advance_take_drop]
        rfl
    | case5 p c s n tokens hothers k hstep ih =>
        cases h
        obtain ⟨ls, hcut, rfl⟩ := ih hothers
        refine ⟨_, .cons hstep hcut, ?_⟩
        rw [p.advance_take_drop]
        rfl
  · rintro ⟨ls, hcut, rfl⟩
    induction hcut generalizing p with
    | nil =>
        rw [tokensFrom]
        rfl
    | @cons c s kind? n ls hstep _ ih =>
        rw [tokensFrom, hstep, ← p.advance_take_drop c s n]
        cases kind? <;> simp only [ih] <;> rfl

/-- The end of a source is no token of a text. -/
theorem lexStep_ne_eof (h : lexStep c s = .ok (kind?, n)) : kind? ≠ some .eof := by
  cases hquote : isQuote c with
  | true =>
      rw [lexStep_quote hquote] at h
      obtain ⟨_, -, heq⟩ := map_eq_ok.mp h
      cases heq
      nofun
  | false =>
      cases hcomment : startsComment c s with
      | true =>
          obtain ⟨rfl, t, rfl | rfl⟩ := eq_of_startsComment hcomment
          · cases h
            nofun
          · cases h
            nofun
      | false => exact (lexStep_spans hquote hcomment h).2

theorem Cut.eof_not_mem {ls : List Lexeme} (h : Cut s ls) : .eof ∉ kinds ls := by
  induction h with
  | nil => exact List.not_mem_nil
  | @cons c s kind? n ls step _ ih =>
      cases kind? with
      | none => exact ih
      | some k =>
          rw [Lexeme.kinds_some, List.mem_cons, not_or]
          exact ⟨fun heq => lexStep_ne_eof step (congrArg some heq.symm), ih⟩

end Inlay
