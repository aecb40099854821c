import Inlay.Template.Lexer
import Inlay.Proofs.Fallible
import Inlay.Proofs.Text.Classes
import Inlay.Proofs.Text.Literals

/-!
# `Proofs.Lexing.Step` — how far a step of the lexer sees

The lexer looks at the first character and at what follows it. Of some characters it can be said that no step passes
over them: a newline, a closing parenthesis and a space (`Stops`). What a step finds in front of one does not depend on
what stands behind (`lexStep_stop`).

Strings and comments are the exceptions, since they may hold any character. All other tokens are made of plain
characters (`isPlain`): behind the first one there is neither a quote nor a slash, so that no string and no comment
can start inside a token (`lexStep_spans`).
-/

namespace Inlay

variable {c d q : Char} {s t u : List Char} {n m : Nat} {kind? : Option TokenKind}

/-! ## Characters -/

/-- The characters that end every token in front of them. -/
def Stops (d : Char) : Prop :=
  d = '\n' ∨ d = ')' ∨ d = ' '

/-- Whether a character starts a string. -/
def isQuote (c : Char) : Bool :=
  c == '"' || c == '\''

/-- Whether a character is part of no string's or comment's beginning. -/
def isPlain (c : Char) : Bool :=
  !isQuote c && c != '/'

/-- Whether a comment starts with `c` in front of `s`. -/
def startsComment (c : Char) (s : List Char) : Bool :=
  c == '/' && (s.head? == some '/' || s.head? == some '*')

/-- A class of characters that is made of plain ones. -/
theorem isPlain_of {p : Char → Bool} (hquote : p '"' = false) (hsingle : p '\'' = false) (hslash : p '/' = false)
    (hc : p c = true) : isPlain c = true := by
  simp [isPlain, isQuote, ne_of_class hc hquote, ne_of_class hc hsingle, ne_of_class hc hslash]

theorem isPlain_of_isDigit (h : c.isDigit = true) : isPlain c = true :=
  isPlain_of rfl rfl rfl h

theorem isPlain_of_isHexDigit (h : isHexDigit c = true) : isPlain c = true :=
  isPlain_of rfl rfl rfl h

theorem isPlain_of_isIntegerSuffix (h : isIntegerSuffix c = true) : isPlain c = true :=
  isPlain_of rfl rfl rfl h

theorem isPlain_of_isNamePart (h : isNamePart c = true) : isPlain c = true :=
  isPlain_of rfl rfl rfl h

namespace Stops

variable (hd : Stops d)
include hd

theorem not_isDigit : d.isDigit = false := by
  rcases hd with rfl | rfl | rfl <;> rfl

theorem not_isHexDigit : isHexDigit d = false := by
  rcases hd with rfl | rfl | rfl <;> rfl

theorem not_isIntegerSuffix : isIntegerSuffix d = false := by
  rcases hd with rfl | rfl | rfl <;> rfl

theorem not_isNamePart : isNamePart d = false := by
  rcases hd with rfl | rfl | rfl <;> rfl

end Stops

/-! ## Runs of characters -/

/-- A run of characters goes no further than a character that is not one of them. -/
theorem takeWhile_stop {p : Char → Bool} (h : p d = false) : (s ++ d :: t).takeWhile p = s.takeWhile p := by
  induction s with
  | nil => simp [h]
  | cons c s ih => simp only [List.cons_append, List.takeWhile_cons, ih]

/-- **The first `n` characters of `s`** are there and are plain. -/
def Spans (n : Nat) (s : List Char) : Prop :=
  n ≤ s.length ∧ ∀ c ∈ s.take n, isPlain c = true

namespace Spans

theorem zero : Spans 0 s :=
  ⟨Nat.zero_le _, by simp⟩

theorem of_start (h : u <+: s) (hu : ∀ c ∈ u, isPlain c = true) : Spans u.length s := by
  obtain ⟨v, rfl⟩ := h
  refine ⟨by simp, ?_⟩
  rw [List.take_left']
  · exact hu
  · rfl

theorem takeWhile {p : Char → Bool} (hp : ∀ {c}, p c = true → isPlain c = true) : Spans (s.takeWhile p).length s :=
  of_start ( List.takeWhile_prefix p) fun _ hc => hp (List.all_eq_true.mp List.all_takeWhile _ hc)

theorem add (h : Spans n s) (h' : Spans m (s.drop n)) : Spans (n + m) s := by
  refine ⟨by have := h.1; have := h'.1; rw [List.length_drop] at this; omega, ?_⟩
  rw [List.take_add]
  intro c hc
  rcases List.mem_append.mp hc with hc | hc
  · exact h.2 c hc
  · exact h'.2 c hc

end Spans

/-! ## Symbols -/

theorem symbolAt?_eq_none {next : Option Char} (h : symbolAt? c none = none) : symbolAt? c next = none := by
  unfold symbolAt? at h ⊢
  split at h <;> cases h
  split <;> first | rfl | (exfalso; simp_all)

theorem symbolAt?_stop (hd : Stops d) : symbolAt? c (some d) = symbolAt? c none := by
  cases h : symbolAt? c none with
  | none => exact symbolAt?_eq_none h
  | some found =>
      -- a symbol of one character may be the start of one of two, of which none ends with `d`
      rw [← h]
      unfold symbolAt? at h ⊢
      split at h
      all_goals first | rfl | contradiction | skip
      all_goals rcases hd with rfl | rfl | rfl <;> rfl

theorem symbolAt?_spans {symbol : Symbol} (h : symbolAt? c s.head? = some (symbol, n)) : Spans n s := by
  have hn : n = 0 ∨ n = 1 ∧ ∃ x, s.head? = some x ∧ isPlain x = true := by
    unfold symbolAt? at h
    split at h <;> cases h <;> first | exact .inl rfl | exact .inr ⟨rfl, _, ‹_›, rfl⟩
  rcases hn with rfl | ⟨rfl, x, hx, hplain⟩
  · exact .zero
  · obtain ⟨t, rfl⟩ := List.head?_eq_some_iff.mp hx
    exact .of_start (u := [x]) ⟨t, rfl⟩ (by simpa using hplain)

/-! ## Strings -/

/-- A character of a string that is no backslash. -/
theorem stringBody_cons (hc : c ≠ '\\') : stringBody q (c :: s) =
    if c = q then .ok ([], 1)
    else if c = '\n' then .error .unterminatedString
    else (stringBody q s).map fun (value, n) => (c :: value, n + 1) := by
  rw [stringBody]
  · exact fun heq => absurd heq hc
  · exact fun _ _ heq => absurd heq hc

/-- **A string that ends** does so whatever follows it. -/
theorem stringBody_append {value : List Char} (h : stringBody q s = .ok (value, n)) (t : List Char) :
    stringBody q (s ++ t) = .ok (value, n) ∧ n ≤ s.length := by
  fun_induction stringBody q s generalizing value n with
  | case1 => cases h
  | case2 => cases h
  | case3 => cases h
  | case4 e s c hsome ih =>
      obtain ⟨⟨v, k⟩, hv, heq⟩ := map_eq_ok.mp h
      cases heq
      obtain ⟨happend, hle⟩ := ih hv
      rw [List.cons_append, List.cons_append, stringBody]
      simp only [hsome, happend]
      exact ⟨rfl, Nat.add_le_add_right hle 2⟩
  | case5 s hnil hcons =>
      cases h
      rw [List.cons_append, stringBody_cons (ne_backslash hnil hcons), if_pos rfl]
      exact ⟨rfl, Nat.succ_le_succ (Nat.zero_le _)⟩
  | case6 => cases h
  | case7 c s hnil hcons hq hnewline ih =>
      obtain ⟨⟨v, k⟩, hv, heq⟩ := map_eq_ok.mp h
      cases heq
      obtain ⟨happend, hle⟩ := ih hv
      rw [List.cons_append, stringBody_cons (ne_backslash hnil hcons), if_neg hq, if_neg hnewline, happend]
      exact ⟨rfl, Nat.succ_le_succ hle⟩

/-- **A string ends in front of every newline** that it does not hold as an escape. -/
theorem stringBody_of_newline {value : List Char} (hq : isQuote q = true)
    (h : stringBody q (s ++ '\n' :: t) = .ok (value, n)) : stringBody q s = .ok (value, n) := by
  have hq : '\n' ≠ q := by
    rintro rfl
    cases hq
  fun_induction stringBody q s generalizing value n with
  | case1 =>
      rw [List.nil_append, stringBody_cons (by decide), if_neg hq, if_pos rfl] at h
      cases h
  | case2 =>
      -- the backslash takes the newline, which it does not escape
      rw [List.cons_append, List.nil_append, stringBody] at h
      cases h
  | case3 e s hnone =>
      rw [List.cons_append, List.cons_append, stringBody, hnone] at h
      cases h
  | case4 e s c hsome ih =>
      rw [List.cons_append, List.cons_append, stringBody, hsome] at h
      obtain ⟨⟨v, k⟩, hv, heq⟩ := map_eq_ok.mp h
      cases heq
      rw [ih hv]
      rfl
  | case5 s hnil hcons =>
      rw [List.cons_append, stringBody_cons (ne_backslash hnil hcons), if_pos rfl] at h
      exact h
  | case6 s hnil hcons hne =>
      rw [List.cons_append, stringBody_cons (by decide), if_neg hne, if_pos rfl] at h
      cases h
  | case7 c s hnil hcons hne hnewline ih =>
      rw [List.cons_append, stringBody_cons (ne_backslash hnil hcons), if_neg hne, if_neg hnewline] at h
      obtain ⟨⟨v, k⟩, hv, heq⟩ := map_eq_ok.mp h
      cases heq
      rw [ih hv]
      rfl

/-! ## Numbers -/

theorem hexNumeral_stop (hd : Stops d) : hexNumeral (s ++ d :: t) = hexNumeral s := by
  unfold hexNumeral
  dsimp only
  rw [takeWhile_stop hd.not_isHexDigit, List.drop_append_of_le_length ( List.takeWhile_prefix _).length_le,
    takeWhile_stop hd.not_isIntegerSuffix]

theorem hexNumeral_spans (h : hexNumeral s = .ok (kind?, n)) : ∃ m, n = 1 + m ∧ Spans m s ∧ kind? ≠ some .eof := by
  unfold hexNumeral at h
  dsimp only at h
  split at h
  · cases h
  · cases h
    exact ⟨_, by rw [Nat.add_assoc], (Spans.takeWhile isPlain_of_isHexDigit).add
      (.takeWhile isPlain_of_isIntegerSuffix), nofun⟩

theorem exponentPart_stop (hd : Stops d) : exponentPart (s ++ d :: t) = exponentPart s := by
  match s with
  | [] =>
      have hmark : (d == 'e' || d == 'E') = false := by rcases hd with rfl | rfl | rfl <;> rfl
      cases t with
      | nil => rfl
      | cons c t => simp [exponentPart, hmark]
  | [e] =>
      have hsign : (d.isDigit || d == '+' || d == '-') = false := by rcases hd with rfl | rfl | rfl <;> rfl
      simp [exponentPart, hsign]
  | e :: c :: s =>
      simp only [exponentPart, List.cons_append, takeWhile_stop hd.not_isDigit]

theorem exponentPart_spans (s : List Char) : Spans (exponentPart s).length s := by
  unfold exponentPart
  split
  · next e c t =>
    split
    · next h =>
      refine .of_start ?_ ?_
      · obtain ⟨u, hu⟩ := List.takeWhile_prefix Char.isDigit (l := t)
        exact ⟨u, by rw [List.cons_append, List.cons_append, hu]⟩
      · simp only [Bool.and_eq_true, Bool.or_eq_true, beq_iff_eq] at h
        intro x hx
        simp only [List.mem_cons] at hx
        rcases hx with rfl | rfl | hx
        · rcases h.1 with rfl | rfl <;> rfl
        · rcases h.2 with (hdigit | rfl) | rfl
          · exact isPlain_of_isDigit hdigit
          · rfl
          · rfl
        · exact isPlain_of_isDigit (List.all_eq_true.mp List.all_takeWhile _ hx)
    · exact .zero
  · exact .zero

theorem fractionPart_stop (hd : Stops d) : fractionPart c (s ++ d :: t) = fractionPart c s := by
  have hpoint : d ≠ '.' := by rcases hd with rfl | rfl | rfl <;> decide
  by_cases hc : c = '.'
  · rw [hc]
    rfl
  · cases s with
    | nil => simp [fractionPart, hpoint]
    | cons x s =>
        by_cases hx : x = '.'
        · rw [hx]
          simp [fractionPart, takeWhile_stop hd.not_isDigit]
        · simp [fractionPart, hx]

theorem fractionPart_spans (c : Char) (s : List Char) : Spans (fractionPart c s).length s := by
  unfold fractionPart
  split
  · exact .zero
  · next t _ =>
    obtain ⟨u, hu⟩ := List.takeWhile_prefix Char.isDigit (l := t)
    refine .of_start ⟨u, by rw [List.cons_append, hu]⟩ fun x hx => ?_
    rcases List.mem_cons.mp hx with rfl | hx
    · rfl
    · exact isPlain_of_isDigit (List.all_eq_true.mp List.all_takeWhile _ hx)
  · exact .zero

theorem floatSuffix_stop (hd : Stops d) : floatSuffix (s ++ d :: t) = floatSuffix s := by
  cases s with
  | nil => rcases hd with rfl | rfl | rfl <;> rfl
  | cons x s =>
      by_cases hlower : x = 'f'
      · rw [hlower]
        rfl
      · by_cases hupper : x = 'F'
        · rw [hupper]
          rfl
        · simp [floatSuffix, hlower, hupper]

theorem floatSuffix_spans (s : List Char) : Spans (floatSuffix s) s := by
  unfold floatSuffix
  split
  · next t => exact .of_start (u := ['f']) ⟨t, rfl⟩ (List.forall_mem_singleton.mpr rfl)
  · next t => exact .of_start (u := ['F']) ⟨t, rfl⟩ (List.forall_mem_singleton.mpr rfl)
  · exact .zero

/-- The whole digits, the part behind the point and the exponent of a number. -/
theorem decimalParts_spans (c : Char) (s : List Char) :
    let run := s.takeWhile Char.isDigit
    let fraction := fractionPart c (s.drop run.length)
    Spans (run.length + fraction.length + (exponentPart ((s.drop run.length).drop fraction.length)).length) s := by
  refine ((Spans.takeWhile isPlain_of_isDigit).add (fractionPart_spans c _)).add ?_
  rw [← List.drop_drop]
  exact exponentPart_spans _

theorem decimalNumeral_stop (hd : Stops d) : decimalNumeral c (s ++ d :: t) = decimalNumeral c s := by
  have hparts := (decimalParts_spans c s).1
  have hrun := ( List.takeWhile_prefix Char.isDigit (l := s)).length_le
  have hfraction := (fractionPart_spans c (s.drop (s.takeWhile Char.isDigit).length)).1
  unfold decimalNumeral
  dsimp only at hparts ⊢
  rw [takeWhile_stop hd.not_isDigit, List.drop_append_of_le_length hrun, fractionPart_stop hd,
    List.drop_append_of_le_length hfraction, exponentPart_stop hd, List.take_append_of_le_length hparts,
    List.drop_append_of_le_length hparts, floatSuffix_stop hd, takeWhile_stop hd.not_isIntegerSuffix]

theorem decimalNumeral_spans (h : decimalNumeral c s = .ok (kind?, n)) : Spans n s ∧ kind? ≠ some .eof := by
  have hparts := decimalParts_spans c s
  unfold decimalNumeral at h
  dsimp only at hparts h
  split at h
  · split at h
    · cases h
    · cases h
      exact ⟨hparts.add (floatSuffix_spans _), nofun⟩
  · next hwhole =>
    split at h
    · cases h
    · cases h
      refine ⟨hparts.add ?_, nofun⟩
      -- a number without a point and an exponent is its digits
      simp only [Bool.or_eq_true, not_or, Bool.not_eq_true, Bool.not_eq_false', List.isEmpty_iff] at hwhole
      rw [hwhole.2, hwhole.1.2]
      exact .takeWhile isPlain_of_isIntegerSuffix

/-! ## All tokens -/

/-- What a step finds that starts neither a string nor a comment. -/
theorem lexStep_eq (hquote : isQuote c = false) (hcomment : startsComment c s = false) : lexStep c s =
    if c == ' ' || c == '\r' || c == '\t' || c == '\n' then .ok (none, 0)
    else match symbolAt? c s.head? with
      | some (symbol, n) => .ok (some (.symbol symbol), n)
      | none =>
        if c == '0' && (s.head? == some 'x' || s.head? == some 'X') then hexNumeral (s.drop 1)
        else if c.isDigit || (c == '.' && s.head?.any Char.isDigit) then decimalNumeral c s
        else if isNameStart c then
          .ok (some (wordKind (String.ofList (c :: s.takeWhile isNamePart))), (s.takeWhile isNamePart).length)
        else .error (.unexpectedCharacter c) := by
  unfold isQuote at hquote
  rw [startsComment, Bool.and_or_distrib_left, Bool.or_eq_false_iff] at hcomment
  unfold lexStep
  rw [hcomment.1, hcomment.2, hquote]
  rfl

/-- What starts with a character of a class without quotes, slashes and blanks is no string, comment or blank. -/
theorem starts_of_class {p : Char → Bool}
    (hp : ['"', '\'', '/', ' ', '\r', '\t', '\n'].all (fun d => !p d) = true) (hc : p c = true) (s : List Char) :
    isQuote c = false ∧ startsComment c s = false ∧ (c == ' ' || c == '\r' || c == '\t' || c == '\n') = false := by
  have hne : ∀ d ∈ ['"', '\'', '/', ' ', '\r', '\t', '\n'], c ≠ d := by
    intro d hd
    exact ne_of_class hc (by simpa using List.all_eq_true.mp hp d hd)
  simp only [List.forall_mem_cons] at hne
  obtain ⟨hdouble, hsingle, hslash, hspace, hreturn, htab, hnewline, -⟩ := hne
  simp [isQuote, startsComment, *]

theorem startsComment_stop (hd : Stops d) : startsComment c (s ++ d :: t) = startsComment c s := by
  cases s with
  | nil => rcases hd with rfl | rfl | rfl <;> rfl
  | cons => rfl

/-- **A step sees nothing behind a character that stops it**, unless it is in a string or a comment. -/
theorem lexStep_stop (hd : Stops d) (hquote : isQuote c = false) (hcomment : startsComment c s = false) :
    lexStep c (s ++ d :: t) = lexStep c s := by
  rw [lexStep_eq hquote hcomment, lexStep_eq hquote ((startsComment_stop hd).trans hcomment),
    takeWhile_stop hd.not_isNamePart, decimalNumeral_stop hd]
  -- only the first character behind `c` is looked at by itself: it is `d` if nothing else is there
  cases s with
  | nil =>
      have hx : (some d == some 'x' || some d == some 'X') = false := by rcases hd with rfl | rfl | rfl <;> rfl
      have hnone : ((none : Option Char) == some 'x' || (none : Option Char) == some 'X') = false := rfl
      simp only [List.nil_append, List.head?_cons, List.head?_nil, symbolAt?_stop hd, hx, hnone, Option.any_some,
        Option.any_none, hd.not_isDigit, Bool.and_false, Bool.false_eq_true, if_false]
  | cons x s =>
      simp only [List.cons_append, List.head?_cons, List.drop_succ_cons, List.drop_zero, hexNumeral_stop hd]
      rfl

theorem wordKind_ne_eof (word : String) : some (wordKind word) ≠ some .eof := by
  unfold wordKind
  split <;> nofun

/-- **A token other than a string** is made of plain characters behind the first one, and it is not the end. -/
theorem lexStep_spans (hquote : isQuote c = false) (hcomment : startsComment c s = false)
    (h : lexStep c s = .ok (kind?, n)) : Spans n s ∧ kind? ≠ some .eof := by
  rw [lexStep_eq hquote hcomment] at h
  split at h
  · cases h
    exact ⟨.zero, nofun⟩
  · split at h
    · next symbol m hsymbol =>
      cases h
      exact ⟨symbolAt?_spans hsymbol, nofun⟩
    · split at h
      · next hx =>
        obtain ⟨m, rfl, hm, heof⟩ := hexNumeral_spans h
        simp only [Bool.and_eq_true, Bool.or_eq_true, beq_iff_eq] at hx
        refine ⟨Spans.add ?_ hm, heof⟩
        rcases hx.2 with hx | hx
        · obtain ⟨t, rfl⟩ := List.head?_eq_some_iff.mp hx
          exact .of_start (u := ['x']) ⟨t, rfl⟩ (List.forall_mem_singleton.mpr rfl)
        · obtain ⟨t, rfl⟩ := List.head?_eq_some_iff.mp hx
          exact .of_start (u := ['X']) ⟨t, rfl⟩ (List.forall_mem_singleton.mpr rfl)
      · split at h
        · exact decimalNumeral_spans h
        · split at h
          · cases h
            exact ⟨.takeWhile isPlain_of_isNamePart, wordKind_ne_eof _⟩
          · cases h

/-! ## Strings and comments -/

theorem spanBlockComment_cons (hclose : ∀ t, c = '*' → s = '/' :: t → False) :
    (spanBlockComment (c :: s)).1 = c :: (spanBlockComment s).1 := by
  rw [spanBlockComment]
  exact hclose

theorem lexStep_quote (hquote : isQuote c = true) :
    lexStep c s = (stringBody c s).map fun (value, n) => (some (.string (String.ofList value)), n) := by
  simp only [isQuote, Bool.or_eq_true, beq_iff_eq] at hquote
  rcases hquote with rfl | rfl <;> rfl

theorem lexStep_lineComment : lexStep '/' ('/' :: s) = .ok (none, (('/' :: s).takeWhile (· != '\n')).length) :=
  rfl

theorem lexStep_blockComment : lexStep '/' ('*' :: s) = .ok (none, 1 + (spanBlockComment s).1.length) :=
  rfl

theorem eq_of_startsComment (h : startsComment c s = true) : c = '/' ∧ ∃ t, s = '/' :: t ∨ s = '*' :: t := by
  simp only [startsComment, Bool.and_eq_true, Bool.or_eq_true, beq_iff_eq] at h
  rcases h.2 with h' | h' <;> obtain ⟨t, rfl⟩ := List.head?_eq_some_iff.mp h'
  · exact ⟨h.1, t, .inl rfl⟩
  · exact ⟨h.1, t, .inr rfl⟩

end Inlay
