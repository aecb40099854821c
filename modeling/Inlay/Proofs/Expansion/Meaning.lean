import Mathlib
import Inlay.Proofs.Expansion.ProgramText
import Inlay.Proofs.Expansion.RawForms

/-!
# `Proofs.Expansion.Meaning` — a source is expanded to what its segments do

The program of a source is read back from one text, in which the code of the tags stands between generated calls.
Where each tag can be read by itself and has no comments, that text is cut and read piece by piece: behind the newline
or parenthesis that follows it, nothing of a tag goes on (`Segment.Means.cut`). So the program of the source is the one
of its segments' actions (`cut_programFrom`), and expanding the source performs the actions (`expand_eq_performAll`).
-/

namespace Inlay

open Lexeme (kinds tokensAt)
open Grammar (Phrase Sentence)

variable {s t text : List Char} {ls ls' : List Lexeme} {p : Program} {e : Expr} {n : Nat} {part : Segment}
  {parts : List Segment} {a : Action} {actions : List Action}

/-! ## Texts and what they stand for -/

theorem kinds_tokens (ls : List Lexeme) (p q : Position) :
    Grammar.kinds (tokensAt p ls ++ [⟨.eof, "", q⟩]) = kinds ls ++ [.eof] := by
  rw [Grammar.kinds, List.map_append]
  exact congrArg (· ++ [TokenKind.eof]) (Lexeme.kinds_tokensAt ls p)

theorem scanTokens_eq_ok {ts : List Token} : scanTokens (String.ofList s) = .ok ts ↔
    ∃ ls, Cut s ls ∧ ts = tokensAt {} ls ++ [⟨.eof, "", ({} : Position).advance s⟩] := by
  rw [scanTokens, String.toList_ofList, tokensFrom_eq_ok]

/-- **A text is read as a program** exactly if the tokens among its lexemes are a sentence for it. -/
theorem parseText_eq_ok : parseText (String.ofList s) = .ok p ↔
    ∃ ls, Cut s ls ∧ Sentence (.statements p) (kinds ls) := by
  rw [parseText, bind_eq_ok]
  constructor
  · rintro ⟨ts, hscan, hparse⟩
    obtain ⟨ls, hcut, rfl⟩ := scanTokens_eq_ok.mp hscan
    exact ⟨ls, hcut, (Grammar.parseTokens_eq_ok (kinds_tokens ls _ _) hcut.eof_not_mem).mp hparse⟩
  · rintro ⟨ls, hcut, hsentence⟩
    exact ⟨_, scanTokens_eq_ok.mpr ⟨ls, hcut, rfl⟩,
      (Grammar.parseTokens_eq_ok (kinds_tokens ls _ _) hcut.eof_not_mem).mpr hsentence⟩

/-- A text that stands for an expression is a phrase for it from end to end. -/
theorem ReadsExpr.exists_phrase (h : ReadsExpr s e) :
    ∃ ls, Cut s ls ∧ Phrase (.expr .expression e) (kinds ls) := by
  obtain ⟨ts, rest, hscan, hread, hend⟩ := h
  obtain ⟨ls, hcut, rfl⟩ := scanTokens_eq_ok.mp hscan
  obtain ⟨us, hus, hphrase⟩ := (Grammar.reads _).expression hread
  rw [kinds_tokens] at hus
  rw [Grammar.nextKind_eq_headD] at hend
  -- The phrase has no end in it, so the only one, at the end of the text, is the one behind the phrase.
  obtain ⟨xs, hxs, hnil⟩ := Grammar.eq_of_append_end hus hphrase.eof_not_mem hend
  rw [hnil hcut.eof_not_mem, List.append_nil] at hxs
  exact ⟨ls, hcut, hxs ▸ hphrase⟩

/-- The sentence for a call of a builtin as the only statement. -/
theorem sentence_call (f : Builtin) (h : Phrase (.expr .expression e) (kinds ls)) :
    Sentence (.statements [Action.call f e]) (kinds (callLexemes f ls)) := by
  have hcall : Phrase (.expr .expression (.call f.name [e])) _ := (Phrase.call f.name (.lastArgument h)).toExpression
  have hsentence := Sentence.cons (.simple (.expression hcall)) .nil
  simpa [callLexemes, Action.call] using hsentence

/-! ## Segments in a program's text -/

/-- Code in front of a line break is read as it is alone. -/
theorem cut_code (hplain : comments text = []) (hread : parseText (String.ofList text) = .ok p) (ht : Cut t ls') :
    ∃ ls, Cut (text ++ '\n' :: t) (ls ++ ls') ∧ Sentence (.statements p) (kinds ls) := by
  obtain ⟨ls, hcut, hsentence⟩ := parseText_eq_ok.mp hread
  have hnewline : Cut ('\n' :: t) (⟨none, ['\n']⟩ :: ls') := .lexeme (s := []) rfl ht
  refine ⟨ls ++ [⟨none, ['\n']⟩], ?_, ?_⟩
  · simpa using hcut.append_stop hplain (.inl rfl) hnewline
  · simpa using hsentence

/-- **The text of a segment in front of a text**: it is cut by itself, and read as the statements for what the segment
    stands for. The number of a literal run must be one that a word can hold. -/
theorem Segment.Means.cut (h : Means part a) (hn : n + (Action.literals [a]).length ≤ UInt64.size / 2) (ht : Cut t ls') :
    ∃ ls, Cut (programFrom n [part] ++ t) (ls ++ ls') ∧ Sentence (.statements (a.statements n)) (kinds ls) := by
  cases h with
  | literal text =>
      have hn : n < UInt64.size / 2 := hn
      have hnumber : Cut (toString n).toList [numberLexeme n] := by simpa using cut_number hn
      have hplain : comments (toString n).toList = [] := by simpa using comments_number n
      refine ⟨callLexemes .emitText [numberLexeme n], ?_, sentence_call _ (Phrase.integer _).toExpression⟩
      simpa [programFrom] using cut_callLine .emitText hnumber hplain ht
  | code plain read | lineCode plain read => simpa [programFrom, Action.statements] using cut_code plain read ht
  | expression plain read =>
      obtain ⟨ls, hcut, hphrase⟩ := read.exists_phrase
      refine ⟨callLexemes .emitValue ls, ?_, sentence_call _ hphrase⟩
      simpa [programFrom] using cut_callLine .emitValue hcut (comments_trim plain) ht
  | comment text => exact ⟨[], ht, .nil⟩

theorem Segment.Means.literals_eq (h : Means part a) : literalRuns [part] = Action.literals [a] := by
  cases h <;> rfl

/-- The literal runs of segments are those that their actions write. -/
theorem literalRuns_eq_literals (h : List.Forall₂ Segment.Means parts actions) :
    literalRuns parts = Action.literals actions := by
  induction h with
  | nil => rfl
  | @cons part a parts actions hpart _ ih =>
      rw [← List.singleton_append (l := parts), literalRuns_append, hpart.literals_eq, ih, ← Action.literals_cons]

/-- **The program of segments is the one of their actions.** -/
theorem cut_programFrom (h : List.Forall₂ Segment.Means parts actions)
    (hn : n + (Action.literals actions).length ≤ UInt64.size / 2) :
    ∃ ls, Cut (programFrom n parts) ls ∧ Sentence (.statements (Action.statementsOf n actions)) (kinds ls) := by
  -- from the last segment to the first, since a segment is cut in front of the text that follows it
  induction h generalizing n with
  | nil => exact ⟨[], .nil, .nil⟩
  | @cons part a parts actions hpart _ ih =>
      rw [Action.literals_cons, List.length_append] at hn
      obtain ⟨ls', hcut', hsentence'⟩ := ih (n := n + (Action.literals [a]).length) (by omega)
      obtain ⟨ls, hcut, hsentence⟩ := hpart.cut (n := n) (by omega) hcut'
      refine ⟨ls ++ ls', ?_, ?_⟩
      · rwa [programFrom_cons, hpart.literals_eq]
      · rw [Lexeme.kinds_append]
        exact hsentence.append hsentence'

/-! ## The number of literal runs -/

theorem length_literalRuns_run (text : List Char) : (literalRuns (Segment.run text)).length ≤ text.length := by
  cases text with
  | nil => exact Nat.le_refl 0
  | cons c text => exact Nat.succ_le_succ (Nat.zero_le _)

/-- A tag is no literal run. -/
theorem literalRuns_ofBody (body : List Char) (parts : List Segment) :
    literalRuns (Segment.ofBody body :: parts) = literalRuns parts := by
  unfold Segment.ofBody
  split <;> rfl

theorem literalRuns_ofLine (line : List Char) (parts : List Segment) :
    literalRuns (Segment.ofLine line :: parts) = literalRuns parts := by
  unfold Segment.ofLine
  split <;> rfl

/-- **A text has no more literal runs than characters.** -/
theorem length_literalRuns_le {p : Position} (h : segmentsFrom p s = .ok parts) :
    (literalRuns parts).length ≤ s.length := by
  fun_induction segmentsFrom p s generalizing parts with
  | case1 p s hcut =>
      cases h
      exact length_literalRuns_run s
  | case2 p s before behind hcut line =>
      rename_i ih
      obtain ⟨others, hothers, heq⟩ := bind_eq_ok.mp h
      cases heq
      have hbefore := length_literalRuns_run before
      have hrest := ih hothers
      rw [append_of_cutAtDouble? hcut, literalRuns_append, literalRuns_ofLine]
      simp only [List.length_append, List.length_cons, List.length_drop] at hrest ⊢
      omega
  | case3 => cases h
  | case4 p s before behind _ hcut body rest hclose ih =>
      obtain ⟨others, hothers, heq⟩ := bind_eq_ok.mp h
      cases heq
      have hbefore := length_literalRuns_run before
      have hrest := ih hothers
      rw [append_of_cutAtDouble? hcut, append_of_cutAtDouble? hclose, literalRuns_append, literalRuns_ofBody]
      simp only [List.length_append, List.length_cons] at hrest ⊢
      omega

/-! ## Expansion -/

/-- A literal run is written as it is. -/
theorem performAll_run {b : Budget} {source : String} (h : List.Forall₂ Segment.Means (Segment.run source.toList) actions) :
    Action.performAll b actions = .ok source := by
  unfold Segment.run at h
  split at h
  · next hempty =>
    cases h
    rw [List.isEmpty_iff, String.toList_eq_nil_iff] at hempty
    rw [hempty]
    rfl
  · cases h with
    | cons hpart hothers =>
        cases hpart
        cases hothers
        show Except.ok ("" ++ String.ofList source.toList) = _
        rw [String.empty_append, String.ofList_toList]

/-- **Expansion is what the segments do.** If each segment of a source stands for an action, the program of the source
    can be read, and to expand the source is to perform the actions in order on one machine: the output is theirs, and
    so is the error. The bound holds for every source in memory, where a word counts the bytes of a text. -/
theorem expand_eq_performAll {source : String} (hlength : source.length ≤ UInt64.size / 2) (limit : Nat)
    (hparts : segments source = .ok parts) (h : List.Forall₂ Segment.Means parts actions) :
    (∃ p, parseText (programText parts) = .ok p) ∧
      expand limit source = (Action.performAll ⟨literalRuns parts, limit⟩ actions).mapError .templateFailed := by
  have hruns := literalRuns_eq_literals h
  have hn : (Action.literals actions).length ≤ UInt64.size / 2 :=
    hruns ▸ Nat.le_trans (length_literalRuns_le hparts) (String.length_toList ▸ hlength)
  have hread : parseText (programText parts) = .ok (Action.statementsOf 0 actions) :=
    parseText_eq_ok.mpr (cut_programFrom h (by omega))
  refine ⟨⟨_, hread⟩, ?_⟩
  unfold expand
  split
  · next htag =>
    have hrun := segmentsFrom_of_no_tag (p := {}) (Option.isNone_iff_eq_none.mp htag)
    cases hrun.symm.trans hparts
    rw [performAll_run h]
    rfl
  · rw [← Action.run_statementsOf hn hruns, hparts]
    show (listed _ (parseText (programText parts)) >>= _) = _
    rw [hread]
    rfl

/-- A variable that one tag sets is known in the next: `x[[i=2;]]y[[=i*3]]` is `xy6`. -/
theorem variable_known_in_next_tag : expand 100 "x[[i=2;]]y[[=i*3]]" = .ok "xy6" := by
  have hparts : segments "x[[i=2;]]y[[=i*3]]" =
      .ok [.literal ['x'], .code ['i', '=', '2', ';'], .literal ['y'], .expression ['i', '*', '3']] := by cbv
  have hcode : Segment.Means (.code ['i', '=', '2', ';'])
      (.run [.simple (.expression (.assign "i" none (.intLiteral 2)))]) := by
    have hcut : Cut ['i', '=', '2', ';'] _ := .cons rfl (.cons rfl (.cons rfl (.cons rfl .nil)))
    exact .code (by cbv) (bind_eq_ok.mpr ⟨_, scanTokens_eq_ok.mpr ⟨_, hcut, rfl⟩, rfl⟩)
  have hvalue : Segment.Means (.expression ['i', '*', '3'])
      (.writeValue (.binary .mul (.variable "i") (.intLiteral 3))) := by
    have hcut : Cut ['i', '*', '3'] _ := .cons rfl (.cons rfl (.cons rfl .nil))
    exact .expression (by cbv) ⟨_, _, scanTokens_eq_ok.mpr ⟨_, hcut, rfl⟩, rfl, rfl⟩
  have hmeans := List.Forall₂.cons (.literal ['x']) (.cons hcode (.cons (.literal ['y']) (.cons hvalue .nil)))
  rw [(expand_eq_performAll (by decide) 100 hparts hmeans).2]
  cbv

end Inlay
