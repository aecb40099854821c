import Inlay.Proofs.Expansion.Meaning
import Inlay.Proofs.Text.Digits
import Inlay.Proofs.Lexing.Offending

/-!
# `Proofs.Lexing.RoundTrip` — tokens written down and read again

A token can be written in one or in several ways (`Written`): a whole number in base sixteen or in base ten, a string
in either quote and with more or fewer escapes. Each of them is one lexeme by itself (`Written.lexStep`). With a space
between them the tokens of a list stay apart, so that reading gives the list back (`scanTokens_written`).
-/

namespace Inlay

open Lexeme (kinds texts tokensAt)

/-! ## How tokens are written -/

/-- A name that is no reserved word: a letter or an underscore, then letters, numerals and underscores. -/
structure FreeName (name : String) : Prop where
  shape : ∃ c s, name.toList = c :: s ∧ (isLetter c = true ∨ c = '_') ∧
    ∀ x ∈ s, isLetter x = true ∨ isNumeral x = true ∨ x = '_'
  free : name ∉ Keyword.all.map Keyword.text

/-- Whether tokens of a kind can be written: all but numbers with a point and the end, and identifiers only if they
    are free names. -/
def TokenKind.Writable : TokenKind → Prop
  | .identifier name => FreeName name
  | .float _ => False
  | .eof => False
  | _ => True

/-- **The ways to write a token.** -/
inductive Written : TokenKind → List Char → Prop
  | symbol (s : Symbol) : Written (.symbol s) s.text.toList
  | keyword (w : Keyword) : Written (.keyword w) w.text.toList
  | identifier {name : String} (free : FreeName name) : Written (.identifier name) name.toList
  | hex (literals : List String) {n : Int64} {digits : String}
      (call : Builtin.hex.call literals [.int n] = .ok ("", .string digits)) :
      Written (.integer n) ('0' :: 'x' :: digits.toList)
  | decimal {n : Int64} (nonneg : 0 ≤ n) : Written (.integer n) (toString n.toInt).toList
  | string {q : Char} {value text : List Char} (quote : q = '"' ∨ q = '\'') (inside : Inside q value text) :
      Written (.string (String.ofList value)) (q :: (text ++ [q]))

variable {q c : Char} {s t value text : List Char} {n : Nat} {kind : TokenKind} {name : String}

theorem exists_inside (hq : q = '"' ∨ q = '\'') (value : List Char) : ∃ text, Inside q value text := by
  induction value with
  | nil => exact ⟨[], .nil⟩
  | cons c value ih =>
      obtain ⟨text, hothers⟩ := ih
      by_cases hescape : c = '\n' ∨ c = '\\' ∨ c = q
      · have hmem : ∃ e, (e, c) ∈ escapes := by
          rcases hescape with rfl | rfl | rfl
          · exact ⟨'n', by decide⟩
          · exact ⟨'\\', by decide⟩
          · refine ⟨c, ?_⟩
            rcases hq with rfl | rfl <;> decide
        obtain ⟨e, he⟩ := hmem
        exact ⟨_, .escaped he hothers⟩
      · rw [not_or, not_or] at hescape
        exact ⟨_, .raw hescape.1 hescape.2.1 hescape.2.2 hothers⟩

/-- **Every such token** can be written. -/
theorem TokenKind.Writable.exists_written (h : kind.Writable) : ∃ text, Written kind text := by
  cases kind with
  | integer n => exact ⟨_, .hex [] rfl⟩
  | float x => exact h.elim
  | string s =>
      obtain ⟨text, hinside⟩ := exists_inside (.inl rfl) s.toList
      have hwritten := Written.string (.inl rfl) hinside
      rw [String.ofList_toList] at hwritten
      exact ⟨_, hwritten⟩
  | identifier name => exact ⟨_, .identifier h⟩
  | keyword w => exact ⟨_, .keyword w⟩
  | symbol s => exact ⟨_, .symbol s⟩
  | eof => exact h.elim

/-! ## Strings -/

/-- **The inside of a string is read as its value**, up to the closing quote. -/
theorem Inside.stringBody (hq : q ≠ '\\') (h : Inside q value text) (t : List Char) :
    stringBody q (text ++ q :: t) = .ok (value, text.length + 1) := by
  rw [h.stringBody_append, stringBody_cons hq, if_pos rfl, Nat.add_comm]
  show Except.ok (value ++ [], _) = _
  rw [List.append_nil]

/-! ## Names -/

theorem symbolAt?_of_isNameStart (h : isNameStart c = true) (next : Option Char) : symbolAt? c next = none := by
  refine symbolAt?_eq_none ?_
  unfold symbolAt?
  split <;> first | rfl | cases h

theorem not_isDigit_of_isNameStart (h : isNameStart c = true) : c.isDigit = false := by
  rw [← Bool.not_eq_true]
  intro hdigit
  have hstart := not_start_of_isDigit hdigit
  have hle : c.toNat ≤ 57 := (Char.isDigit_iff_toNat.mp hdigit).2
  have hwide : decide (128 ≤ c.toNat) = false := decide_eq_false (by omega)
  rw [isNameStart, isLetter, hwide, Bool.false_and, Bool.or_false, hstart] at h
  cases h

/-- **A name is read as a whole.** -/
theorem lexStep_word (hc : isNameStart c = true) (hs : ∀ x ∈ s, isNamePart x = true) :
    lexStep c s = .ok (some (wordKind (String.ofList (c :: s))), s.length) := by
  obtain ⟨hquote, hcomment, hblank⟩ := starts_of_class rfl hc s
  have hzero : (c == '0') = false := beq_eq_false_iff_ne.mpr (ne_of_class hc rfl)
  have hpoint : (c == '.') = false := beq_eq_false_iff_ne.mpr (ne_of_class hc rfl)
  rw [lexStep_eq hquote hcomment, hblank, symbolAt?_of_isNameStart hc, hzero, hpoint, not_isDigit_of_isNameStart hc, hc,
    List.takeWhile_eq_self_iff.mpr hs]
  rfl

theorem FreeName.lexStep (h : FreeName name) :
    ∃ c s, name.toList = c :: s ∧ lexStep c s = .ok (some (.identifier name), s.length) := by
  obtain ⟨c, s, hname, hc, hs⟩ := h.shape
  refine ⟨c, s, hname, ?_⟩
  have hkind : wordKind name = .identifier name := by
    have hfind : Keyword.ofText? name = none := by
      rw [Keyword.ofText?, List.find?_eq_none]
      intro w hw heq
      exact h.free (List.mem_map.mpr ⟨w, hw, beq_iff_eq.mp heq⟩)
    rw [wordKind, hfind]
  rw [lexStep_word (by simpa [isNameStart] using hc), ← hname, String.ofList_toList, hkind]
  intro x hx
  simpa [isNamePart, or_assoc] using hs x hx

/-! ## Numbers -/

/-- **The digits in base sixteen of a word** are read as the word. -/
theorem hexNumeral_hexDigits (hn : n < UInt64.size) :
    hexNumeral (hexDigits n) = .ok (some (.integer n.toUInt64.toInt64), 1 + (hexDigits n).length) := by
  have hall : (hexDigits n).takeWhile isHexDigit = hexDigits n :=
    List.takeWhile_eq_self_iff.mpr fun c hc => isHexDigit_of_mem_hexDigits hc
  have hempty : (hexDigits n).isEmpty = false := by
    rw [List.isEmpty_eq_false_iff]
    exact Nat.toDigits_ne_nil
  unfold hexNumeral
  simp only [hall, List.drop_length, List.takeWhile_nil, hexNumber_hexDigits, hempty, Bool.false_or,
    decide_eq_true_eq, Nat.not_le.mpr hn, if_false, List.length_nil, Nat.add_zero]

theorem lexStep_hex (s : List Char) : lexStep '0' ('x' :: s) = hexNumeral s := rfl

/-- A word that is not negative is a natural number of 63 bits. -/
theorem exists_natCast_of_nonneg {n : Int64} (h : 0 ≤ n) : ∃ m : Nat, n.toInt = m ∧ m < UInt64.size / 2 := by
  have hlt := n.toInt_lt
  rw [Int64.le_iff_toInt_le] at h
  obtain ⟨m, hm⟩ := Int.eq_ofNat_of_zero_le h
  refine ⟨m, hm, ?_⟩
  rw [hm] at hlt
  show m < 2 ^ 63
  exact_mod_cast hlt

/-! ## All tokens -/

/-- **A written token** is what a step of the lexer takes of it. -/
theorem Written.lexStep (h : Written kind text) :
    ∃ c s, text = c :: s ∧ Inlay.lexStep c s = .ok (some kind, s.length) := by
  cases h with
  | symbol s => cases s <;> exact ⟨_, _, rfl, rfl⟩
  | keyword w => cases w <;> exact ⟨_, _, rfl, rfl⟩
  | identifier free => exact free.lexStep
  | @hex literals n digits call =>
      obtain rfl : digits = String.ofList (hexDigits n.toUInt64.toNat) := by
        cases call
        rfl
      refine ⟨_, _, rfl, ?_⟩
      rw [lexStep_hex, String.toList_ofList, hexNumeral_hexDigits (UInt64.toNat_lt_size _), List.length_cons,
        Nat.add_comm]
      simp
  | @decimal n nonneg =>
      obtain ⟨m, hm, hlt⟩ := exists_natCast_of_nonneg nonneg
      obtain ⟨c, s, hdigits⟩ := exists_toDigits m
      have htext : (toString n.toInt).toList = Nat.toDigits 10 m := by
        rw [hm]
        exact (congrArg String.toList Nat.toString_eq_ofList_toDigits).trans String.toList_ofList
      have hvalue : Int64.ofNat m = n := by
        rw [← Int64.ofInt_toInt n, hm]
        rfl
      refine ⟨c, s, htext.trans hdigits, ?_⟩
      rw [lexStep_toDigits hdigits, if_neg (Nat.not_le.mpr hlt), hvalue]
  | @string q value text quote inside =>
      refine ⟨_, _, rfl, ?_⟩
      have hq : isQuote q = true := by simpa [isQuote] using quote
      have hbackslash : q ≠ '\\' := by rcases quote with rfl | rfl <;> decide
      rw [lexStep_quote hq, inside.stringBody hbackslash, List.length_append]
      rfl

/-- **A written token is one lexeme.** -/
theorem Written.cut (h : Written kind text) : Cut text [⟨some kind, text⟩] ∧ comments text = [] := by
  obtain ⟨c, s, rfl, hstep⟩ := h.lexStep
  have hcut := Cut.cons hstep (by rw [List.drop_length]; exact .nil)
  rw [List.take_length] at hcut
  refine ⟨hcut, ?_⟩
  have hcomment : startsComment c s = false := by
    rw [← Bool.not_eq_true]
    intro hcomment
    obtain ⟨rfl, v, rfl | rfl⟩ := eq_of_startsComment hcomment
    · cases hstep
    · cases hstep
  rw [comments_cons hstep, List.drop_length, comments, List.append_nil, commentAt, hcomment]
  rfl

/-- **Tokens with a space between them** stay apart. -/
theorem cut_written {ks : List TokenKind} {us : List (List Char)} (h : List.Forall₂ Written ks us) :
    ∃ ls, Cut ([' '].intercalate us) ls ∧ kinds ls = ks := by
  induction h with
  | nil => exact ⟨[], .nil, rfl⟩
  | @cons k u ks us hk hothers ih =>
      obtain ⟨ls, hcut, hkinds⟩ := ih
      obtain ⟨hone, hcomments⟩ := hk.cut
      cases us with
      | nil =>
          cases hothers
          rw [List.intercalate_singleton]
          exact ⟨_, hone, rfl⟩
      | cons v us =>
          rw [List.intercalate_cons_cons, List.append_assoc, List.singleton_append]
          refine ⟨_, hone.append_stop hcomments (.inr (.inr rfl)) (Cut.cons rfl hcut), ?_⟩
          rw [Lexeme.kinds_append, Lexeme.kinds_none, hkinds]
          rfl

/-- **Scanning undoes writing.** Tokens can be written, and however that is done, with single spaces between them they
    are read as the same tokens with the end behind them. -/
theorem scanTokens_written (ks : List TokenKind) (h : ∀ k ∈ ks, k.Writable) :
    (∃ us, List.Forall₂ Written ks us) ∧
      ∀ us, List.Forall₂ Written ks us →
        ∃ ts, scanTokens (String.ofList ([' '].intercalate us)) = .ok ts ∧ Grammar.kinds ts = ks ++ [.eof] := by
  constructor
  · induction ks with
    | nil => exact ⟨[], .nil⟩
    | cons k ks ih =>
        rw [List.forall_mem_cons] at h
        obtain ⟨text, hwritten⟩ := h.1.exists_written
        obtain ⟨us, hothers⟩ := ih h.2
        exact ⟨text :: us, .cons hwritten hothers⟩
  · intro us hwritten
    obtain ⟨ls, hcut, rfl⟩ := cut_written hwritten
    exact ⟨_, scanTokens_eq_ok.mpr ⟨ls, hcut, rfl⟩, kinds_tokens ls _ _⟩

/-- An assignment, with a negative number in base sixteen and a string that needs escapes. -/
theorem scan_assignment_text : (∀ k ∈ [TokenKind.identifier "x", .symbol .assign, .integer (-1), .string "it's\n"],
      k.Writable) ∧
    ∃ ts, scanTokens "x = 0xffffffffffffffff 'it\\'s\\n'" = .ok ts ∧
      Grammar.kinds ts = [.identifier "x", .symbol .assign, .integer (-1), .string "it's\n"] ++ [.eof] := by
  have hx : FreeName "x" := ⟨⟨'x', [], rfl, .inl rfl, nofun⟩, by decide⟩
  have hwritable : ∀ k ∈ [TokenKind.identifier "x", .symbol .assign, .integer (-1), .string "it's\n"], k.Writable := by
    simp [TokenKind.Writable, hx]
  have hinside : Inside '\'' "it's\n".toList "it\\'s\\n".toList :=
    .raw (by decide) (by decide) (by decide) <| .raw (by decide) (by decide) (by decide) <|
      .escaped (by decide) <| .raw (by decide) (by decide) (by decide) <| .escaped (by decide) .nil
  have hnumber : Written (.integer (-1)) "0xffffffffffffffff".toList := .hex [] rfl
  have hwritten := List.Forall₂.cons (Written.identifier hx) (.cons (.symbol .assign)
    (.cons hnumber (.cons (.string (.inr rfl) hinside) .nil)))
  have htext : [' '].intercalate ["x".toList, Symbol.assign.text.toList, "0xffffffffffffffff".toList,
      '\'' :: ("it\\'s\\n".toList ++ ['\''])] = "x = 0xffffffffffffffff 'it\\'s\\n'".toList := by decide +kernel
  have hscan := (scanTokens_written _ hwritable).2 _ hwritten
  rw [htext, String.ofList_toList] at hscan
  exact ⟨hwritable, hscan⟩

end Inlay
