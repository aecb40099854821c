import Inlay.Proofs.Text.Lines
import Inlay.Proofs.Expansion.Meaning

/-!
# `Proofs.Expansion.LiteralCalls` — which literal runs the code of tags can take away

A literal run is written by a call in the program, and the call has a line of its own: what stands in front of it ends
with a newline, which ends strings and line comments. A block comment does not end there. So the call is among the
tokens of the program exactly if no block comment is open in front of it (`literal_call_read_iff`), and a run behind an
open one is lost without an error (`open_comment_takes_literal`).
-/

namespace Inlay

open Lexeme (kinds texts tokensAt)

variable {s t text : List Char} {ls : List Lexeme} {n : Nat} {p : Position} {parts front back : List Segment}

/-! ## Places of tokens -/

/-- **The tokens of lexemes** stand between where the lexemes start and where they end. -/
theorem offset_of_mem_tokensAt {token : Token} (h : token ∈ tokensAt p ls) :
    p.offset ≤ token.position.offset ∧ token.position.offset ≤ p.offset + byteLength (texts ls) := by
  induction ls generalizing p with
  | nil => cases h
  | cons l ls ih =>
      obtain ⟨kind?, u⟩ := l
      rw [Lexeme.texts_cons, byteLength_append]
      have hothers : token ∈ tokensAt (p.advance u) ls → p.offset ≤ token.position.offset ∧
          token.position.offset ≤ p.offset + (byteLength u + byteLength (texts ls)) := by
        intro hmem
        have hbounds := ih hmem
        rw [(advance_offset_line p u).1] at hbounds
        omega
      cases kind? with
      | none => exact hothers h
      | some k =>
          rcases List.mem_cons.mp h with rfl | hmem
          · exact ⟨Nat.le_refl _, Nat.le_add_right _ _⟩
          · exact hothers hmem

theorem byteLength_pos (h : s ≠ []) : 0 < byteLength s :=
  Nat.pos_of_ne_zero fun hzero => h (byteLength_eq_zero hzero)

theorem spanBlockComment_ne_nil (h : s ≠ []) : (spanBlockComment s).1 ≠ [] := by
  fun_cases spanBlockComment s with
  | case1 => exact absurd rfl h
  | case2 => nofun
  | case3 => exact List.cons_ne_nil _ _

/-! ## The call of a literal run -/

/-- The tokens `__emit_text ( n ) ;` of the call that writes literal run `n`, on a line that starts at `p`. -/
def callTokens (p : Position) (n : Nat) : List Token :=
  tokensAt p (callLexemes .emitText [numberLexeme n])

/-- The first of them stands at the start of the line. -/
theorem exists_mem_callTokens (p : Position) (n : Nat) : ∃ token ∈ callTokens p n, token.position = p :=
  ⟨_, List.mem_cons_self, rfl⟩

/-- The tokens of a whole text, with its end. -/
theorem tokens_append (p q : Position) (ls ls' : List Lexeme) : tokensAt p (ls ++ ls') ++ [⟨.eof, "", q⟩] =
    tokensAt p ls ++ (tokensAt (p.advance (texts ls)) ls' ++ [⟨.eof, "", q⟩]) := by
  rw [Lexeme.tokensAt_append, List.append_assoc]

/-- **Behind whole lines without an open comment** a call is read. -/
theorem callTokens_infix (hs : WholeLines s) (h : Cut (s ++ (callLine .emitText (toString n).toList ++ t)) ls)
    (hopen : .block false ∉ comments s) (q : Position) :
    callTokens (p.advance s) n <:+: tokensAt p ls ++ [⟨.eof, "", q⟩] := by
  obtain ⟨ls₁, ls₂, rfl, hcut, hrest⟩ := h.of_lines hs hopen
  obtain ⟨ls₃, rfl, -⟩ := hrest.of_callLine
  rw [tokens_append, hcut.texts_eq, tokens_append]
  exact ⟨_, _, List.append_assoc ..⟩

/-- **Behind an open block comment** no token stands at the start of what follows. -/
theorem position_ne_of_open (hs : WholeLines s) (ht : t ≠ []) (h : Cut (s ++ t) ls) (hopen : .block false ∈ comments s)
    {token : Token} (hmem : token ∈ tokensAt p ls ++ [⟨.eof, "", p.advance (s ++ t)⟩]) :
    token.position ≠ p.advance s := by
  obtain ⟨ls₁, ls₂, x, rfl, rfl, hx⟩ := h.of_open hs hopen
  -- The comment starts in front of that place and takes at least one character behind it.
  have hx := byteLength_pos hx
  have hinside := byteLength_pos (spanBlockComment_ne_nil ht)
  intro heq
  have hoffset := congrArg Position.offset heq
  rw [(advance_offset_line p _).1, byteLength_append] at hoffset
  rw [tokens_append, List.mem_append, List.mem_append, List.mem_singleton] at hmem
  rcases hmem with hmem | hmem | rfl
  · have hbounds := offset_of_mem_tokensAt hmem
    omega
  · have hbehind : token ∈ tokensAt ((p.advance (texts ls₁)).advance (x ++ (spanBlockComment t).1)) ls₂ := hmem
    have hbounds := offset_of_mem_tokensAt hbehind
    rw [(advance_offset_line _ _).1, (advance_offset_line _ _).1, byteLength_append] at hbounds
    omega
  · have hend := byteLength_pos ht
    simp only [(advance_offset_line _ _).1, byteLength_append] at hoffset
    omega

/-! ## Expanded sources -/

/-- The program of a literal run has lexemes. -/
theorem exists_cut_run (text : List Char) : ∃ ls, Cut (programFrom 0 (Segment.run text)) ls := by
  unfold Segment.run
  split
  · exact ⟨[], .nil⟩
  · obtain ⟨ls, hcut, -⟩ := (Segment.Means.literal text).cut (n := 0) (show 0 + 1 ≤ UInt64.size / 2 by decide) .nil
    rw [List.append_nil, List.append_nil] at hcut
    exact ⟨ls, hcut⟩

/-- **An expanded source has segments**, and their program has lexemes. -/
theorem exists_cut_of_expand {source out : String} {limit : Nat} (h : expand limit source = .ok out) :
    ∃ parts ls, segments source = .ok parts ∧ Cut (programFrom 0 parts) ls := by
  unfold expand at h
  split at h
  · next htag =>
    obtain ⟨ls, hcut⟩ := exists_cut_run source.toList
    exact ⟨_, ls, segmentsFrom_of_no_tag (Option.isNone_iff_eq_none.mp htag), hcut⟩
  · obtain ⟨parts, hparts, h⟩ := bind_eq_ok.mp h
    obtain ⟨program, hprogram, -⟩ := bind_eq_ok.mp h
    obtain ⟨ls, hcut, -⟩ := parseText_eq_ok.mp (mapError_eq_ok.mp hprogram)
    exact ⟨parts, ls, mapError_eq_ok.mp hparts, hcut⟩

/-- **A literal run is taken away exactly behind an open block comment.** When a source has been expanded, its program
    has tokens, and the call that writes a literal run is among them, on its own line, if and only if the program in
    front of that line leaves no block comment open. Strings and line comments of a tag never reach the line. -/
theorem literal_call_read_iff {source out : String} {limit : Nat} (h : expand limit source = .ok out) :
    ∃ parts ts, segments source = .ok parts ∧ scanTokens (programText parts) = .ok ts ∧
      ∀ front text back, parts = front ++ .literal text :: back →
        (callTokens (Position.advance {} (programFrom 0 front)) (literalRuns front).length <:+: ts ↔
          .block false ∉ comments (programFrom 0 front)) := by
  obtain ⟨parts, ls, hparts, hcut⟩ := exists_cut_of_expand h
  refine ⟨parts, _, hparts, scanTokens_eq_ok.mpr ⟨ls, hcut, rfl⟩, ?_⟩
  rintro front text back rfl
  have hlines := wholeLines_programFrom 0 front
  rw [programFrom_append, Nat.zero_add, programFrom] at hcut ⊢
  constructor
  · intro hread hopen
    obtain ⟨token, hmem, hposition⟩ := exists_mem_callTokens (Position.advance {} (programFrom 0 front))
      (literalRuns front).length
    exact position_ne_of_open hlines (by simp [callLine]) hcut hopen (hread.subset hmem) hposition
  · intro hopen
    exact callTokens_infix hlines hcut hopen _

/-- A line comment in a tag ends with the line of the tag: in `a[[//]]b`, the second run is still written. -/
theorem line_comment_spares_literal : ∃ ts,
    scanTokens (programText [.literal ['a'], .code ['/', '/'], .literal ['b']]) = .ok ts ∧
      callTokens (Position.advance {} (programFrom 0 [.literal ['a'], .code ['/', '/']])) 1 <:+: ts := by
  have hexpand : expand 100 "a[[//]]b" = .ok "ab" := by decide +kernel
  have hsegments : segments "a[[//]]b" = .ok [.literal ['a'], .code ['/', '/'], .literal ['b']] := by cbv
  have hopen : .block false ∉ comments (programFrom 0 [.literal ['a'], .code ['/', '/']]) := by decide +kernel
  obtain ⟨parts, ts, hparts, hscan, hcalls⟩ := literal_call_read_iff hexpand
  cases hsegments.symm.trans hparts
  exact ⟨ts, hscan, (hcalls [.literal ['a'], .code ['/', '/']] ['b'] [] rfl).mpr hopen⟩

/-- **An open block comment takes literal runs with it.** The tag in `a[[/*]]b` starts a comment that it does not end.
    The source is expanded to `a` without an error, and its program has the call of the first run only. -/
theorem open_comment_takes_literal :
    segments "a[[/*]]b" = .ok [.literal ['a'], .code ['/', '*'], .literal ['b']] ∧ expand 100 "a[[/*]]b" = .ok "a" ∧
      ∃ ts, scanTokens (programText [.literal ['a'], .code ['/', '*'], .literal ['b']]) = .ok ts ∧
        Grammar.kinds ts = [.identifier "__emit_text", .symbol .leftParen, .integer 0, .symbol .rightParen,
          .symbol .semicolon, .eof] := by
  have htext : programFrom 0 [.literal ['a'], .code ['/', '*'], .literal ['b']] =
      ['_', '_', 'e', 'm', 'i', 't', '_', 't', 'e', 'x', 't', '(', '0', ')', ';', '\n', '/', '*', '\n',
        '_', '_', 'e', 'm', 'i', 't', '_', 't', 'e', 'x', 't', '(', '1', ')', ';', '\n'] := by decide
  have hcut : Cut ['_', '_', 'e', 'm', 'i', 't', '_', 't', 'e', 'x', 't', '(', '0', ')', ';', '\n', '/', '*', '\n',
        '_', '_', 'e', 'm', 'i', 't', '_', 't', 'e', 'x', 't', '(', '1', ')', ';', '\n'] _ :=
    .cons rfl (.cons rfl (.cons rfl (.cons rfl (.cons rfl (.cons rfl (.cons rfl .nil))))))
  have hscan := scanTokens_eq_ok.mpr ⟨_, hcut, rfl⟩
  rw [← htext] at hscan
  exact ⟨by cbv, by decide +kernel, _, hscan, rfl⟩

end Inlay
