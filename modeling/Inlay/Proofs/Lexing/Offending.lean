import Inlay.Proofs.Lexing.Counters

/-!
# `Proofs.Lexing.Offending` — the tokens that cannot be read

A token that cannot be read is a string that does not end or has an escape that is none, a number out of range or with
an exponent without digits, or a character that starts nothing at all (`Offending`). That is said by the text alone. A
step of the lexer fails exactly on such a token, with its cause (`lexStep_eq_error_iff`).
-/

namespace Inlay

/-! ## The inside of a string -/

/-- The characters that can be escaped, behind the ones that stand for them. -/
def escapes : List (Char × Char) :=
  [('n', '\n'), ('t', '\t'), ('r', '\r'), ('0', '\x00'), ('\\', '\\'), ('"', '"'), ('\'', '\'')]

/-- **The inside of a string** in quotes `q`, with its value: each character is raw or escaped, and escaped if it is a
    newline, a backslash or the quote. -/
inductive Inside (q : Char) : List Char → List Char → Prop
  | nil : Inside q [] []
  | raw {c : Char} {value text : List Char} (newline : c ≠ '\n') (backslash : c ≠ '\\') (quote : c ≠ q)
      (others : Inside q value text) : Inside q (c :: value) (c :: text)
  | escaped {e c : Char} {value text : List Char} (escape : (e, c) ∈ escapes) (others : Inside q value text) :
      Inside q (c :: value) ('\\' :: e :: text)

/-! ## Offending tokens -/

/-- **Where a string breaks off**: at the end of the source or of a line, or at a backslash in front of a character that
    it does not escape. -/
inductive Break : List Char → SyntaxCause → Prop
  | source : Break [] .unterminatedString
  | backslash : Break ['\\'] .unterminatedString
  | newline {behind : List Char} : Break ('\n' :: behind) .unterminatedString
  | escape {e : Char} {behind : List Char} (unknown : e ∉ escapes.map Prod.fst) :
      Break ('\\' :: e :: behind) (.invalidEscape e)

/-- Digits with a point among them, in front or behind, or without one. -/
inductive Mantissa : List Char → Prop
  | whole {digits : List Char} (nonempty : digits ≠ []) (all : ∀ c ∈ digits, c.isDigit = true) : Mantissa digits
  | point {digits places : List Char} (nonempty : digits ≠ [] ∨ places ≠ []) (all : ∀ c ∈ digits, c.isDigit = true)
      (others : ∀ c ∈ places, c.isDigit = true) : Mantissa (digits ++ '.' :: places)

/-- Whether a text starts with an exponent: its mark, and a digit or a sign. -/
def StartsExponent (s : List Char) : Prop :=
  ∃ e c t, s = e :: c :: t ∧ (e = 'e' ∨ e = 'E') ∧ (c.isDigit = true ∨ c = '+' ∨ c = '-')

/-- **The tokens that cannot be read**, in front of what stands behind them, with the cause. -/
inductive Offending : List Char → SyntaxCause → Prop
  | string {q : Char} {value text behind : List Char} {cause : SyntaxCause} (quote : q = '"' ∨ q = '\'')
      (inside : Inside q value text) (breaks : Break behind cause) : Offending (q :: (text ++ behind)) cause
  | hex {x : Char} {digits behind : List Char} (mark : x = 'x' ∨ x = 'X') (all : ∀ c ∈ digits, isHexDigit c = true)
      (ends : ∀ c ∈ behind.head?, isHexDigit c = false) (wrong : digits = [] ∨ UInt64.size ≤ hexNumber digits) :
      Offending ('0' :: x :: (digits ++ behind)) (.invalidHex (String.ofList digits))
  | integer {digits behind : List Char} (all : ∀ c ∈ digits, c.isDigit = true)
      (ends : ∀ c ∈ behind.head?, c.isDigit = false ∧ c ≠ '.') (plain : ¬ StartsExponent behind)
      (large : UInt64.size / 2 ≤ decimalNumber digits) :
      Offending (digits ++ behind) (.invalidInteger (String.ofList digits))
  | float {mantissa behind : List Char} {e c : Char} (digits : Mantissa mantissa) (mark : e = 'e' ∨ e = 'E')
      (sign : c = '+' ∨ c = '-') (ends : ∀ d ∈ behind.head?, d.isDigit = false) :
      Offending (mantissa ++ e :: c :: behind) (.invalidFloat (String.ofList (mantissa ++ [e, c])))
  | character {c : Char} {behind : List Char} (blank : c ∉ [' ', '\t', '\r', '\n']) (quote : c ≠ '"' ∧ c ≠ '\'')
      (symbol : ∀ s : Symbol, s.text.toList.head? ≠ some c) (digit : c.isDigit = false)
      (point : c = '.' → ∀ d ∈ behind.head?, d.isDigit = false) (letter : isLetter c = false ∧ c ≠ '_') :
      Offending (c :: behind) (.unexpectedCharacter c)

open Counting

variable {c q : Char} {s t value text : List Char} {cause : SyntaxCause}

/-! ## Strings -/

/-- **What can be escaped** is what a backslash has a meaning in front of. -/
theorem mem_escapes_iff {e : Char} : (e, c) ∈ escapes ↔ unescape? e = some c := by
  constructor
  · have hall : ∀ p ∈ escapes, unescape? p.1 = some p.2 := by decide
    exact fun h => hall _ h
  · intro h
    unfold unescape? at h
    split at h <;> cases h <;> decide

theorem unescape?_eq_none_iff {e : Char} : unescape? e = none ↔ e ∉ escapes.map Prod.fst := by
  rw [Option.eq_none_iff_forall_ne_some, List.mem_map]
  constructor
  · rintro h ⟨⟨e, x⟩, hmem, rfl⟩
    exact h x (mem_escapes_iff.mp hmem)
  · intro h x hx
    exact h ⟨(e, x), mem_escapes_iff.mpr hx, rfl⟩

/-- **The inside of a string is read as its value**, in front of what follows. -/
theorem Inside.stringBody_append (h : Inside q value text) (t : List Char) :
    stringBody q (text ++ t) = (stringBody q t).map fun (v, n) => (value ++ v, n + text.length) := by
  induction h with
  | nil => cases hbody : stringBody q t <;> simp [hbody, Except.map]
  | raw newline backslash quote _ ih =>
      rw [List.cons_append, stringBody_cons backslash, if_neg quote, if_neg newline, ih]
      cases stringBody q t <;> rfl
  | escaped escape _ ih =>
      rw [List.cons_append, List.cons_append, stringBody, mem_escapes_iff.mp escape]
      dsimp only
      rw [ih]
      cases stringBody q t <;> rfl

theorem Break.stringBody (hq : q = '"' ∨ q = '\'') (h : Break s cause) : stringBody q s = .error cause := by
  cases h with
  | source => rfl
  | backslash => rfl
  | newline => rcases hq with rfl | rfl <;> rfl
  | escape unknown => rw [Inlay.stringBody, unescape?_eq_none_iff.mpr unknown]

/-- **A string that cannot be read** breaks off behind its inside. -/
theorem exists_break (h : stringBody q s = .error cause) :
    ∃ value text behind, s = text ++ behind ∧ Inside q value text ∧ Break behind cause := by
  fun_induction stringBody q s with
  | case1 =>
      cases h
      exact ⟨[], [], [], rfl, .nil, .source⟩
  | case2 =>
      cases h
      exact ⟨[], [], _, rfl, .nil, .backslash⟩
  | case3 e s hnone =>
      cases h
      exact ⟨[], [], _, rfl, .nil, .escape (unescape?_eq_none_iff.mp hnone)⟩
  | case4 e s c hsome ih =>
      obtain ⟨value, text, behind, rfl, hinside, hbreak⟩ := ih (map_eq_error.mp h)
      exact ⟨_, _, behind, rfl, .escaped (mem_escapes_iff.mpr hsome) hinside, hbreak⟩
  | case5 => cases h
  | case6 =>
      cases h
      exact ⟨[], [], _, rfl, .nil, .newline⟩
  | case7 c s hnil hcons hq hnewline ih =>
      obtain ⟨value, text, behind, rfl, hinside, hbreak⟩ := ih (map_eq_error.mp h)
      exact ⟨_, _, behind, rfl, .raw hnewline (ne_backslash hnil hcons) hq hinside, hbreak⟩

/-! ## Numbers -/

theorem hexNumeral_eq_error_iff : hexNumeral s = .error cause ↔ ∃ digits behind, s = digits ++ behind ∧
    (∀ c ∈ digits, isHexDigit c = true) ∧ (∀ c ∈ behind.head?, isHexDigit c = false) ∧
    (digits = [] ∨ UInt64.size ≤ hexNumber digits) ∧ cause = .invalidHex (String.ofList digits) := by
  constructor
  · intro h
    obtain ⟨digits, behind, rfl, hdigits, hbehind⟩ := exists_run isHexDigit s
    unfold hexNumeral at h
    dsimp only at h
    rw [takeWhile_run hdigits hbehind] at h
    split at h
    · next hwrong =>
      cases h
      rw [Bool.or_eq_true, List.isEmpty_iff, decide_eq_true_eq] at hwrong
      exact ⟨digits, behind, rfl, hdigits, hbehind, hwrong, rfl⟩
    · cases h
  · rintro ⟨digits, behind, rfl, hdigits, hbehind, hwrong, rfl⟩
    unfold hexNumeral
    dsimp only
    rw [takeWhile_run hdigits hbehind, if_pos]
    rwa [Bool.or_eq_true, List.isEmpty_iff, decide_eq_true_eq]

theorem takeWhile_eq_nil_iff {p : Char → Bool} : s.takeWhile p = [] ↔ ∀ c ∈ s.head?, p c = false := by
  cases s with
  | nil => simp
  | cons c s => cases hc : p c <;> simp [hc]

theorem exponentPart_of_sign {e : Char} (hmark : e = 'e' ∨ e = 'E') (hsign : c = '+' ∨ c = '-')
    (hends : ∀ d ∈ t.head?, d.isDigit = false) : exponentPart (e :: c :: t) = [e, c] := by
  have hbegins : (c.isDigit || isSign c) = true := by rcases hsign with rfl | rfl <;> rfl
  rw [exponentPart_cons, if_pos ⟨hmark, hbegins⟩, takeWhile_eq_nil_iff.mpr hends]
  rfl

theorem exponentValue?_eq_none_iff {e : Char} : exponentValue? (e :: c :: t) = none ↔ (c = '+' ∨ c = '-') ∧ t = [] := by
  by_cases hsign : c = '+' ∨ c = '-'
  · cases t with
    | nil => rcases hsign with rfl | rfl <;> simp [exponentValue?]
    | cons d t => rcases hsign with rfl | rfl <;> simp [exponentValue?]
  · obtain ⟨hplus, hminus⟩ := not_or.mp hsign
    simp [exponentValue?, hplus, hminus]

/-- **Only an exponent without digits** has no value. -/
theorem exists_of_exponentValue?_eq_none (h : exponentValue? (exponentPart s) = none) :
    ∃ e c t, s = e :: c :: t ∧ (e = 'e' ∨ e = 'E') ∧ (c = '+' ∨ c = '-') ∧ ∀ d ∈ t.head?, d.isDigit = false := by
  match s with
  | [] | [_] => cases h
  | e :: c :: t =>
      rw [exponentPart_cons] at h
      split at h
      · next hstarts =>
        obtain ⟨hsign, hdigits⟩ := exponentValue?_eq_none_iff.mp h
        exact ⟨e, c, t, rfl, hstarts.1, hsign, takeWhile_eq_nil_iff.mp hdigits⟩
      · cases h

theorem startsExponent_iff : StartsExponent s ↔ exponentPart s ≠ [] := by
  match s with
  | [] | [_] => simp [StartsExponent, exponentPart]
  | e :: c :: t =>
      have hbegins : (c.isDigit || isSign c) = true ↔ c.isDigit = true ∨ c = '+' ∨ c = '-' := by simp [isSign]
      rw [exponentPart_cons]
      simp only [hbegins]
      split
      · next hstarts => exact iff_of_true ⟨e, c, t, rfl, hstarts⟩ (by simp)
      · next hstarts =>
        refine iff_of_false ?_ (by simp)
        rintro ⟨_, _, _, ⟨⟩, hother⟩
        exact hstarts hother

theorem fractionPart_prefix (c : Char) (s : List Char) : fractionPart c s <+: s := by
  rcases fractionPart_cases c s with ⟨h, -⟩ | ⟨-, t, rfl, h⟩
  · rw [h]
    exact List.nil_prefix
  · rw [h, List.cons_prefix_cons]
    exact ⟨rfl, List.takeWhile_prefix _⟩

theorem exponentPart_prefix (s : List Char) : exponentPart s <+: s := by
  match s with
  | [] | [_] => exact List.nil_prefix
  | e :: c :: t =>
      rw [exponentPart_cons]
      split
      · rw [List.singleton_append, List.singleton_append, List.cons_prefix_cons, List.cons_prefix_cons]
        exact ⟨rfl, rfl, List.takeWhile_prefix _⟩
      · exact List.nil_prefix

/-- **A number in base ten by its parts**: it cannot be read if it has an exponent without digits, or if it is whole and
    too large. -/
theorem decimalNumeral_eq_error_iff {run fraction exponent : List Char} (hrun : ∀ d ∈ run, d.isDigit = true)
    (hends : ∀ d ∈ (fraction ++ (exponent ++ t)).head?, d.isDigit = false)
    (hfraction : fractionPart c (fraction ++ (exponent ++ t)) = fraction)
    (hexponent : exponentPart (exponent ++ t) = exponent) :
    decimalNumeral c (run ++ (fraction ++ (exponent ++ t))) = .error cause ↔
      if c == '.' || !fraction.isEmpty || !exponent.isEmpty then exponentValue? exponent = none ∧
        cause = .invalidFloat (String.ofList (c :: (run ++ (fraction ++ exponent))))
      else UInt64.size / 2 ≤ decimalNumber (c :: run) ∧ cause = .invalidInteger (String.ofList (c :: run)) := by
  have hlength : run.length + fraction.length + exponent.length = (run ++ (fraction ++ exponent)).length := by
    simp [Nat.add_assoc]
  have htext : run ++ (fraction ++ (exponent ++ t)) = run ++ (fraction ++ exponent) ++ t := by simp
  unfold decimalNumeral
  dsimp only
  rw [takeWhile_run hrun hends, List.drop_left, hfraction, List.drop_left, hexponent, hlength]
  rw [htext, List.take_left]
  split
  · cases exponentValue? exponent with
    | none => simp [eq_comm]
    | some e => simp
  · next hwhole =>
    simp only [Bool.or_eq_true, not_or, Bool.not_eq_true, Bool.not_eq_false', List.isEmpty_iff] at hwhole
    rw [hwhole.1.2, hwhole.2, List.append_nil, List.append_nil]
    split
    · next hlarge =>
      rw [Except.error.injEq]
      exact ⟨fun h => ⟨hlarge, h.symm⟩, fun h => h.2.symm⟩
    · next hsmall => exact iff_of_false nofun fun h => hsmall h.1

/-- The parts of a number in base ten behind its first character. -/
theorem exists_parts (c : Char) (s : List Char) : ∃ run fraction exponent behind,
    s = run ++ (fraction ++ (exponent ++ behind)) ∧ (∀ d ∈ run, d.isDigit = true) ∧
    (∀ d ∈ (fraction ++ (exponent ++ behind)).head?, d.isDigit = false) ∧
    fractionPart c (fraction ++ (exponent ++ behind)) = fraction ∧ exponentPart (exponent ++ behind) = exponent := by
  obtain ⟨run, u, rfl, hrun, hends⟩ := exists_run Char.isDigit s
  obtain ⟨v, hfraction⟩ := fractionPart_prefix c u
  obtain ⟨w, hexponent⟩ := exponentPart_prefix v
  have hu : fractionPart c u ++ (exponentPart v ++ w) = u := by rw [hexponent, hfraction]
  refine ⟨run, fractionPart c u, exponentPart v, w, ?_, hrun, ?_, ?_, ?_⟩
  · rw [hu]
  · rwa [hu]
  · rw [hu]
  · rw [hexponent]

/-- The digits and the point of a number in base ten. -/
theorem mantissa_of {run : List Char} (hc : c.isDigit = true ∨ c = '.' ∧ run ≠ [])
    (hrun : ∀ d ∈ run, d.isDigit = true) (u : List Char) : Mantissa (c :: (run ++ fractionPart c u)) := by
  rcases fractionPart_cases c u with ⟨hnone, -⟩ | ⟨hpoint, t, -, hsome⟩
  · rw [hnone, List.append_nil]
    rcases hc with hdigit | ⟨rfl, hne⟩
    · exact .whole (List.cons_ne_nil _ _) (List.forall_mem_cons.mpr ⟨hdigit, hrun⟩)
    · exact .point (.inr hne) (List.forall_mem_nil _) hrun
  · rw [hsome]
    have hdigit := hc.resolve_right fun h => hpoint h.1
    have hdigits : ∀ d ∈ c :: run, d.isDigit = true := List.forall_mem_cons.mpr ⟨hdigit, hrun⟩
    exact .point (.inl (List.cons_ne_nil _ _)) hdigits (forall_mem_takeWhile_isDigit t)

/-- **A number in base ten that cannot be read** is an offending token. -/
theorem offending_of_decimalNumeral (hc : c.isDigit = true ∨ c = '.' ∧ s.head?.any Char.isDigit = true)
    (h : decimalNumeral c s = .error cause) : Offending (c :: s) cause := by
  obtain ⟨run, fraction, exponent, behind, rfl, hrun, hends, hfraction, hexponent⟩ := exists_parts c s
  have herror := (decimalNumeral_eq_error_iff hrun hends hfraction hexponent).mp h
  split at herror
  · obtain ⟨hnone, rfl⟩ := herror
    rw [← hexponent] at hnone
    obtain ⟨e, sign, t, hbehind, hmark, hsign, hdigit⟩ := exists_of_exponentValue?_eq_none hnone
    have hc : c.isDigit = true ∨ c = '.' ∧ run ≠ [] := by
      refine hc.imp_right fun ⟨hpoint, hnext⟩ => ⟨hpoint, ?_⟩
      -- behind a point the next digit belongs to the run
      rintro rfl
      obtain ⟨d, hd, hdigit⟩ := Option.any_eq_true _ _ |>.mp hnext
      exact absurd hdigit (by simp [hends d hd])
    have hmantissa := mantissa_of hc hrun (fraction ++ (exponent ++ behind))
    rw [hfraction] at hmantissa
    have htext := Offending.float hmantissa hmark hsign hdigit
    rw [hbehind, exponentPart_of_sign hmark hsign hdigit] at hexponent
    rw [hbehind, ← hexponent]
    simpa using htext
  · next hwhole =>
    obtain ⟨hlarge, rfl⟩ := herror
    simp only [Bool.or_eq_true, not_or, Bool.not_eq_true, Bool.not_eq_false', List.isEmpty_iff, beq_eq_false_iff_ne]
      at hwhole
    obtain ⟨⟨hpoint, rfl⟩, rfl⟩ := hwhole
    have hdigits : ∀ d ∈ c :: run, d.isDigit = true :=
      List.forall_mem_cons.mpr ⟨hc.resolve_right fun h => hpoint h.1, hrun⟩
    refine .integer hdigits (fun d hd => ⟨hends d hd, ?_⟩) ?_ hlarge
    · rcases fractionPart_cases c behind with ⟨-, hfirst | hnext⟩ | ⟨-, t, -, hsome⟩
      · exact absurd hfirst hpoint
      · rintro rfl
        exact hnext hd
      · rw [List.nil_append, List.nil_append] at hfraction
        rw [hfraction] at hsome
        cases hsome
    · rw [startsExponent_iff, not_ne_iff]
      exact hexponent

theorem fractionPart_of_ne (hs : s.head? ≠ some '.') : fractionPart c s = [] := by
  rcases fractionPart_cases c s with ⟨h, -⟩ | ⟨-, t, rfl, -⟩
  · exact h
  · exact absurd rfl hs

/-- **The parts of a mantissa** in front of a text that goes on with neither a digit nor a point. -/
theorem Mantissa.exists_parts {m u : List Char} (h : Mantissa (c :: m))
    (hu : ∀ d ∈ u.head?, d.isDigit = false ∧ d ≠ '.') : ∃ run fraction, m = run ++ fraction ∧
      (∀ d ∈ run, d.isDigit = true) ∧ (∀ d ∈ (fraction ++ u).head?, d.isDigit = false) ∧
      fractionPart c (fraction ++ u) = fraction := by
  have hends : ∀ d ∈ u.head?, d.isDigit = false := fun d hd => (hu d hd).1
  have hpoint : u.head? ≠ some '.' := fun h => (hu _ h).2 rfl
  generalize htext : c :: m = text at h
  cases h with
  | whole nonempty all =>
      subst htext
      exact ⟨m, [], (List.append_nil m).symm, (List.forall_mem_cons.mp all).2, hends, fractionPart_of_ne hpoint⟩
  | @point digits places nonempty all others =>
      cases digits with
      | nil =>
          obtain ⟨rfl, rfl⟩ := List.cons.inj htext
          exact ⟨m, [], (List.append_nil m).symm, others, hends, rfl⟩
      | cons d digits =>
          obtain ⟨rfl, rfl⟩ := List.cons.inj htext
          obtain ⟨hc, hdigits⟩ := List.forall_mem_cons.mp all
          refine ⟨digits, '.' :: places, rfl, hdigits, ?_, ?_⟩
          · rintro _ ⟨⟩
            rfl
          · have hne : c ≠ '.' := by
              rintro rfl
              cases hc
            simp [fractionPart, takeWhile_run others hends]

/-- An exponent without digits behind a mantissa. -/
theorem decimalNumeral_of_mantissa {m behind : List Char} {e sign : Char} (hmantissa : Mantissa (c :: m))
    (hmark : e = 'e' ∨ e = 'E') (hsign : sign = '+' ∨ sign = '-') (hends : ∀ d ∈ behind.head?, d.isDigit = false) :
    decimalNumeral c (m ++ e :: sign :: behind) = .error (.invalidFloat (String.ofList (c :: m ++ [e, sign]))) := by
  have hmarked : ∀ d ∈ ([e, sign] ++ behind).head?, d.isDigit = false ∧ d ≠ '.' := by
    rintro _ ⟨⟩
    rcases hmark with rfl | rfl <;> decide
  obtain ⟨run, fraction, rfl, hrun, hfirst, hfraction⟩ := hmantissa.exists_parts hmarked
  have hexponent : exponentPart ([e, sign] ++ behind) = [e, sign] := exponentPart_of_sign hmark hsign hends
  have hnone : exponentValue? [e, sign] = none := exponentValue?_eq_none_iff.mpr ⟨hsign, rfl⟩
  have hcause : c :: (run ++ fraction) ++ [e, sign] = c :: (run ++ (fraction ++ [e, sign])) := by simp
  rw [List.append_assoc run, hcause]
  refine (decimalNumeral_eq_error_iff hrun hfirst hfraction hexponent).mpr ?_
  rw [List.isEmpty_cons, Bool.not_false, Bool.or_true, if_pos rfl]
  exact ⟨hnone, rfl⟩

/-- A whole number that is too large. -/
theorem decimalNumeral_of_digits {run behind : List Char} (hdigits : ∀ d ∈ c :: run, d.isDigit = true)
    (hends : ∀ d ∈ behind.head?, d.isDigit = false ∧ d ≠ '.') (hplain : ¬ StartsExponent behind)
    (hlarge : UInt64.size / 2 ≤ decimalNumber (c :: run)) :
    decimalNumeral c (run ++ behind) = .error (.invalidInteger (String.ofList (c :: run))) := by
  obtain ⟨hc, hrun⟩ := List.forall_mem_cons.mp hdigits
  have hpoint : (c == '.') = false := by
    rw [beq_eq_false_iff_ne]
    rintro rfl
    cases hc
  rw [startsExponent_iff, not_ne_iff] at hplain
  have hfirst : ∀ d ∈ ([] ++ ([] ++ behind)).head?, d.isDigit = false := fun d hd => (hends d hd).1
  refine (decimalNumeral_eq_error_iff hrun hfirst (fractionPart_of_ne fun h => (hends _ h).2 rfl) hplain).mpr ?_
  rw [hpoint]
  exact ⟨hlarge, rfl⟩

/-! ## All tokens -/

/-- The symbol of one character alone in the table of symbols is written as that character. -/
theorem text_of_symbolsFrom? {table : List (Char × Symbol) × Symbol} (h : symbolsFrom? c = some table) :
    table.2.text.toList.head? = some c := by
  unfold symbolsFrom? at h
  split at h <;> cases h <;> rfl

theorem exists_symbolsFrom? (s : Symbol) :
    ∃ d, s.text.toList.head? = some d ∧ (d = '/' ∨ (symbolsFrom? d).isSome = true) := by
  cases s <;> first | exact ⟨_, rfl, .inr rfl⟩ | exact ⟨_, rfl, .inl rfl⟩

/-- **The lexer makes no symbol** of a character that no symbol starts with. -/
theorem symbolAt?_eq_none_iff {next : Option Char} :
    symbolAt? c next = none ↔ ∀ s : Symbol, s.text.toList.head? ≠ some c := by
  by_cases hslash : c = '/'
  · subst hslash
    rw [symbolAt?_slash]
    exact iff_of_false nofun fun h => h .slash rfl
  · rw [symbolAt?_eq hslash, Option.map_eq_none_iff]
    constructor
    · intro hnone s hs
      obtain ⟨d, hd, hstarts⟩ := exists_symbolsFrom? s
      cases hs.symm.trans hd
      rcases hstarts with rfl | hsome
      · exact hslash rfl
      · rw [hnone] at hsome
        cases hsome
    · intro hnone
      cases h : symbolsFrom? c with
      | none => rfl
      | some table => exact absurd (text_of_symbolsFrom? h) (hnone table.2)

/-- What starts with a digit, or with a point in front of one, is a number in base ten, unless behind a zero there is
    the mark of another base. -/
theorem lexStep_number (hc : c.isDigit = true ∨ c = '.' ∧ s.head?.any Char.isDigit = true)
    (hnext : c = '0' → ∀ x ∈ s.head?, x.isDigit = true ∨ x ∈ ['.', 'e', 'E']) : lexStep c s = decimalNumeral c s := by
  have hclass : (c.isDigit || c == '.') = true := by
    rw [Bool.or_eq_true, beq_iff_eq]
    exact hc.imp_right And.left
  obtain ⟨hquote, hcomment, hblank⟩ := starts_of_class (p := fun c => c.isDigit || c == '.') rfl hclass s
  have hsymbol : symbolAt? c s.head? = none := by
    refine symbolAt?_eq_none ?_
    unfold symbolAt?
    split <;> first | rfl | cases hclass
  have hten : (c == '0' && (s.head? == some 'x' || s.head? == some 'X')) ≠ true := by
    intro h
    simp only [Bool.and_eq_true, Bool.or_eq_true, beq_iff_eq] at h
    rcases h.2 with hmark | hmark <;> exact absurd (hnext h.1 _ hmark) (by decide)
  have hstarts : (c.isDigit || (c == '.' && s.head?.any Char.isDigit)) = true := by
    rwa [Bool.or_eq_true, Bool.and_eq_true, beq_iff_eq]
  rw [lexStep_eq hquote hcomment, hblank, hsymbol]
  dsimp only
  rw [if_neg hten, if_pos hstarts]
  rfl

/-- What a mantissa starts and goes on with. -/
theorem Mantissa.starts {m : List Char} (h : Mantissa m) : ∃ c t, m = c :: t ∧
    (c.isDigit = true ∨ c = '.' ∧ t.head?.any Char.isDigit = true) ∧ ∀ x ∈ t.head?, x.isDigit = true ∨ x = '.' := by
  cases h with
  | whole nonempty all =>
      obtain ⟨c, t, rfl⟩ := List.exists_cons_of_ne_nil nonempty
      obtain ⟨hc, ht⟩ := List.forall_mem_cons.mp all
      exact ⟨c, t, rfl, .inl hc, fun x hx => .inl (ht x (List.mem_of_mem_head? hx))⟩
  | @point digits places nonempty all others =>
      cases digits with
      | nil =>
          obtain ⟨d, t, rfl⟩ := List.exists_cons_of_ne_nil (nonempty.resolve_left fun h => h rfl)
          have hd := (List.forall_mem_cons.mp others).1
          refine ⟨'.', d :: t, rfl, .inr ⟨rfl, hd⟩, ?_⟩
          rintro _ ⟨⟩
          exact .inl hd
      | cons c digits =>
          obtain ⟨hc, hdigits⟩ := List.forall_mem_cons.mp all
          refine ⟨c, digits ++ '.' :: places, rfl, .inl hc, ?_⟩
          cases digits with
          | nil =>
              rintro _ ⟨⟩
              exact .inr rfl
          | cons d digits =>
              rintro _ ⟨⟩
              exact .inl (List.forall_mem_cons.mp hdigits).1

/-- A number that is too large. -/
theorem lexStep_of_digits {digits behind : List Char} (htext : c :: s = digits ++ behind)
    (all : ∀ d ∈ digits, d.isDigit = true) (ends : ∀ d ∈ behind.head?, d.isDigit = false ∧ d ≠ '.')
    (plain : ¬ StartsExponent behind) (large : UInt64.size / 2 ≤ decimalNumber digits) :
    lexStep c s = .error (.invalidInteger (String.ofList digits)) := by
  cases digits with
  | nil => exact absurd large (by decide)
  | cons d run =>
      rw [List.cons_append] at htext
      obtain ⟨rfl, rfl⟩ := List.cons.inj htext
      rw [lexStep_number (.inl (all c List.mem_cons_self)), decimalNumeral_of_digits all ends plain large]
      rintro rfl
      -- a zero alone is not too large
      cases run with
      | nil => exact absurd large (by decide)
      | cons d run =>
          rintro _ ⟨⟩
          exact .inl (all d (List.mem_cons_of_mem _ List.mem_cons_self))

/-- A number with an exponent that has no digits. -/
theorem lexStep_of_mantissa {m behind : List Char} {e sign : Char} (htext : c :: s = m ++ e :: sign :: behind)
    (digits : Mantissa m) (mark : e = 'e' ∨ e = 'E') (hsign : sign = '+' ∨ sign = '-')
    (ends : ∀ d ∈ behind.head?, d.isDigit = false) :
    lexStep c s = .error (.invalidFloat (String.ofList (m ++ [e, sign]))) := by
  obtain ⟨d, m, rfl, hstarts, hnext⟩ := digits.starts
  rw [List.cons_append] at htext
  obtain ⟨rfl, rfl⟩ := List.cons.inj htext
  rw [lexStep_number, decimalNumeral_of_mantissa digits mark hsign ends]
  · exact hstarts.imp_right fun ⟨hpoint, hdigit⟩ => ⟨hpoint, by cases m <;> [cases hdigit; exact hdigit]⟩
  · rintro -
    cases m with
    | nil =>
        rintro _ ⟨⟩
        rcases mark with rfl | rfl <;> exact .inr (by decide)
    | cons x m =>
        rintro _ ⟨⟩
        exact (hnext x rfl).imp_right fun hpoint => by rw [hpoint]; decide

/-- A character that starts no token. -/
theorem lexStep_of_character (blank : c ∉ [' ', '\t', '\r', '\n']) (quote : c ≠ '"' ∧ c ≠ '\'')
    (symbol : ∀ s : Symbol, s.text.toList.head? ≠ some c) (digit : c.isDigit = false)
    (point : c = '.' → ∀ d ∈ s.head?, d.isDigit = false) (letter : isLetter c = false ∧ c ≠ '_') :
    lexStep c s = .error (.unexpectedCharacter c) := by
  have hquote : isQuote c = false := by simp [isQuote, quote]
  have hslash : c ≠ '/' := fun h => symbol .slash (h ▸ rfl)
  have hcomment : startsComment c s = false := by simp [startsComment, hslash]
  have hblank : (c == ' ' || c == '\r' || c == '\t' || c == '\n') = false := by
    simp only [List.mem_cons, List.not_mem_nil, or_false, not_or] at blank
    simp [blank]
  have hzero : (c == '0') = false := by
    rw [beq_eq_false_iff_ne]
    rintro rfl
    cases digit
  have hpoint : (c == '.' && s.head?.any Char.isDigit) = false := by
    rw [Bool.and_eq_false_imp, beq_iff_eq]
    intro hc
    rw [Option.any_eq_false]
    exact fun d hd => Bool.not_eq_true _ ▸ point hc d hd
  have hname : isNameStart c = false := by simp [isNameStart, letter]
  rw [lexStep_eq hquote hcomment, hblank, symbolAt?_eq_none_iff.mpr symbol, hzero, digit, hpoint, hname]
  rfl

/-- **An offending token stops the lexer.** -/
theorem Offending.lexStep (h : Offending (c :: s) cause) : lexStep c s = .error cause := by
  generalize htext : c :: s = text at h
  cases h with
  | string quote inside breaks =>
      obtain ⟨rfl, rfl⟩ := List.cons.inj htext
      rw [lexStep_quote (by simpa [isQuote] using quote), inside.stringBody_append, breaks.stringBody quote]
      rfl
  | hex mark all ends wrong =>
      obtain ⟨rfl, rfl⟩ := List.cons.inj htext
      have herror := hexNumeral_eq_error_iff.mpr ⟨_, _, rfl, all, ends, wrong, rfl⟩
      rcases mark with rfl | rfl <;> exact herror
  | integer all ends plain large => exact lexStep_of_digits htext all ends plain large
  | float digits mark sign ends => exact lexStep_of_mantissa htext digits mark sign ends
  | character blank quote symbol digit point letter =>
      obtain ⟨rfl, rfl⟩ := List.cons.inj htext
      exact lexStep_of_character blank quote symbol digit point letter

/-- The mark of a number in base sixteen. -/
theorem eq_of_hexMark (h : (c == '0' && (s.head? == some 'x' || s.head? == some 'X')) = true) :
    c = '0' ∧ ∃ x t, s = x :: t ∧ (x = 'x' ∨ x = 'X') := by
  simp only [Bool.and_eq_true, Bool.or_eq_true, beq_iff_eq] at h
  rcases h.2 with hmark | hmark <;> obtain ⟨t, rfl⟩ := List.head?_eq_some_iff.mp hmark
  · exact ⟨h.1, _, t, rfl, .inl rfl⟩
  · exact ⟨h.1, _, t, rfl, .inr rfl⟩

/-- **What stops the lexer** is an offending token. -/
theorem offending_of_lexStep (h : lexStep c s = .error cause) : Offending (c :: s) cause := by
  -- as the lexer tries them: strings, comments, blanks, symbols, numbers, and names last
  cases hquote : isQuote c with
  | true =>
      rw [lexStep_quote hquote] at h
      obtain ⟨value, text, behind, rfl, hinside, hbreak⟩ := exists_break (map_eq_error.mp h)
      exact .string (by simpa [isQuote] using hquote) hinside hbreak
  | false =>
      cases hcomment : startsComment c s with
      | true => obtain ⟨rfl, v, rfl | rfl⟩ := eq_of_startsComment hcomment <;> cases h
      | false =>
          rw [lexStep_eq hquote hcomment] at h
          by_cases hblank : (c == ' ' || c == '\r' || c == '\t' || c == '\n') = true
          · rw [if_pos hblank] at h
            cases h
          rw [if_neg hblank] at h
          cases hsymbol : symbolAt? c s.head? with
          | some found =>
              rw [hsymbol] at h
              cases h
          | none =>
              rw [hsymbol] at h
              dsimp only at h
              split at h
              · next hhex =>
                obtain ⟨rfl, x, t, rfl, hmark⟩ := eq_of_hexMark hhex
                obtain ⟨digits, behind, rfl, hdigits, hends, hwrong, rfl⟩ := hexNumeral_eq_error_iff.mp h
                exact .hex hmark hdigits hends hwrong
              · split at h
                · next hnumber =>
                  rw [Bool.or_eq_true, Bool.and_eq_true, beq_iff_eq] at hnumber
                  exact offending_of_decimalNumeral hnumber h
                · next hnumber =>
                  split at h
                  · cases h
                  · next hname =>
                    cases h
                    simp only [Bool.or_eq_true, Bool.and_eq_true, beq_iff_eq, not_or, not_and, Bool.not_eq_true]
                      at hnumber
                    refine .character ?_ ?_ (symbolAt?_eq_none_iff.mp hsymbol) hnumber.1 ?_ ?_
                    · simpa [and_assoc, and_left_comm] using hblank
                    · simpa [isQuote] using hquote
                    · intro hpoint d hd
                      simpa using Option.any_eq_false _ _ |>.mp (hnumber.2 hpoint) d hd
                    · simpa [isNameStart] using hname

/-- **A step of the lexer fails exactly on an offending token**, and with its cause. -/
theorem lexStep_eq_error_iff : lexStep c s = .error cause ↔ Offending (c :: s) cause :=
  ⟨offending_of_lexStep, Offending.lexStep⟩

end Inlay
