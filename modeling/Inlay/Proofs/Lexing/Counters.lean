import Inlay.Proofs.Lexing.CountingScanner

/-!
# `Proofs.Lexing.Counters` — counting finds the places of the lexer

Each part of the counting scanner agrees with the lexer: strings, numbers, symbols, comments and names, and so what is
read from the first character of a token on (`lexStep_of_ok`, `lexStep_of_error`). Each step leaves less of the source
(`length_rest_lt`), so the scanner comes to its end. It finds the tokens of the lexer at the lines and columns that the
lexer gives them, or stops with the same fault at the same one (`scan_eq`).
-/

namespace Inlay.Counting

open Scanner (Passes rest_advance)

variable {c q : Char} {s : List Char} {p : Char → Bool} {kind? : Option TokenKind} {k k' : Scanner}

/-! ## Strings -/

/-- A character behind a value and in front of what is read behind it, `n` characters further on. -/
theorem map_value (value : List Char) (x : Char) (n : Nat) (r : Except SyntaxCause (List Char × Nat)) :
    (r.map fun (v, m) => (value ++ [x] ++ v, m)).map (fun (v, m) => (v, m + n)) =
      (r.map fun (v, m) => (x :: v, m + n)).map fun (v, m) => (value ++ v, m) := by
  cases r with
  | error cause => rfl
  | ok found => exact congrArg (fun v => Except.ok (v, found.2 + n)) (List.append_cons value x found.1).symm

/-- **A string** is read up to its closing quote. There is no newline in it. -/
theorem readString_agrees (hq : isQuote q = true) (value : List Char) (k : Scanner) :
    Agrees k (readString q value k) ((stringBody q k.rest).map fun (v, n) => (value ++ v, n)) := by
  have hslash : q ≠ '\\' := by
    rintro rfl
    cases hq
  have hnewline : q ≠ '\n' := by
    rintro rfl
    cases hq
  fun_induction readString q value k with
  | case1 value k hrest =>
      rw [hrest]
      exact .fault _
  | case2 value k s hrest =>
      rw [hrest, stringBody_cons hslash, if_pos rfl]
      show Agrees k _ (.ok (value ++ [], [q].length))
      rw [List.append_nil]
      exact .found (.advance hrest hnewline)
  | case3 value k _ hrest =>
      rw [hrest]
      exact .fault _
  | case4 value k e s hescape _ hrest =>
      rw [hrest, stringBody, hescape]
      exact .fault _
  | case5 value k e s x hescape _ hrest _ ih =>
      have hnext := rest_advance hrest
      have he : e ≠ '\n' := by
        rintro rfl
        cases hescape
      have hpasses := (Passes.advance hrest (by decide)).trans (.advance hnext he)
      rw [rest_advance hnext] at ih
      rw [hrest, stringBody, hescape, ← map_value value x 2]
      exact ih.after hpasses
  | case6 value k s hrest hne _ =>
      rw [hrest, stringBody_cons (by decide), if_neg hne, if_pos rfl]
      exact .fault _
  | case7 value k c s hrest hne hbackslash hc ih =>
      rw [rest_advance hrest] at ih
      rw [hrest, stringBody_cons hbackslash, if_neg hne, if_neg hc, ← map_value value c 1]
      exact ih.after (.advance hrest hc)

/-! ## Numbers -/

theorem peek_of_rest (hrest : k.rest = c :: s) : k.peek = c := by
  rw [Scanner.peek, hrest]
  rfl

/-- Only the end of the source looks like a zero. -/
theorem peek_eq_iff (hc : c ≠ '\x00') : k.peek = c ↔ k.rest.head? = some c := by
  unfold Scanner.peek
  cases k.rest with
  | nil => simp [hc.symm]
  | cons d s => simp

theorem rest_advanceWhile (hp : p '\n' = false) (k : Scanner) : (k.advanceWhile p).rest = k.rest.dropWhile p := by
  have hrest := (Passes.advanceWhile hp k).rest
  have hsplit : k.rest.takeWhile p ++ k.rest.dropWhile p = k.rest := List.takeWhile_append_dropWhile
  exact List.append_cancel_left (hrest.symm.trans hsplit.symm)

/-- **A number in base sixteen**, from its mark on. -/
theorem readHex_agrees (hrest : k.rest = c :: s) (hmark : c ≠ '\n') (htaken : k.taken = ['0']) :
    Agrees k ((readHex k).map fun (kind, k) => (some kind, k)) (hexNumeral s) := by
  have hnext := rest_advance hrest
  have hdigits := Passes.advanceWhile (p := isHexDigit) rfl k.advance
  have hall := (Passes.advance hrest hmark).trans hdigits
  have hbehind := hdigits.drop
  rw [hnext] at hdigits hall hbehind
  have htext : (k.advance.advanceWhile isHexDigit).taken.drop 2 = s.takeWhile isHexDigit := by
    rw [hall.taken, htaken]
    rfl
  unfold readHex hexNumeral
  dsimp only
  rw [htext, hbehind]
  split
  · exact .fault _
  · refine .of_length (hall.trans (.advanceWhile rfl _)) ?_
    simp only [List.length_append, List.length_singleton]

/-- **The point of a number** and the digits behind it. -/
theorem readFraction_passes (first : Char) (hdigits : ∀ d ∈ k.rest.head?, d.isDigit = false) :
    (readFraction first k).1 = (first == '.' || !(fractionPart first k.rest).isEmpty) ∧
      k.Passes (fractionPart first k.rest) (readFraction first k).2 := by
  by_cases hfirst : first = '.'
  · subst hfirst
    -- the digits behind the point have been read already
    have hnone : k.rest.takeWhile Char.isDigit = [] := by
      cases hrest : k.rest with
      | nil => rfl
      | cons d s => exact List.takeWhile_cons_of_neg (by simpa using hdigits d (by rw [hrest]; rfl))
    have hpasses := Passes.advanceWhile (p := Char.isDigit) rfl k
    rw [hnone] at hpasses
    simpa [readFraction, fractionPart] using hpasses
  · by_cases hpoint : k.rest.head? = some '.'
    · obtain ⟨t, hrest⟩ := List.head?_eq_some_iff.mp hpoint
      have hpart : fractionPart first k.rest = ['.'] ++ t.takeWhile Char.isDigit := by
        rw [hrest]
        simp [fractionPart]
      have hpasses := (Passes.advance hrest (by decide)).trans (.advanceWhile (p := Char.isDigit) rfl _)
      rw [rest_advance hrest, ← hpart] at hpasses
      have hread : readFraction first k = (true, k.advance.advanceWhile Char.isDigit) := by
        simp [readFraction, (peek_eq_iff (by decide)).mpr hpoint, hfirst]
      rw [hread, hpart]
      exact ⟨by simp, hpart ▸ hpasses⟩
    · have hpart : fractionPart first k.rest = [] := by
        cases hrest : k.rest with
        | nil => simp [fractionPart]
        | cons d s =>
            have hd : d ≠ '.' := by simpa [hrest] using hpoint
            simp [fractionPart, hd]
      have hread : readFraction first k = (false, k) := by
        simp [readFraction, (peek_eq_iff (c := '.') (by decide)).not.mpr hpoint, hfirst]
      rw [hread, hpart]
      exact ⟨by simpa using hfirst, .refl k⟩

theorem exponentPart_cons (e c : Char) (t : List Char) : exponentPart (e :: c :: t) =
    if (e = 'e' ∨ e = 'E') ∧ (c.isDigit || isSign c) = true then [e] ++ ([c] ++ t.takeWhile Char.isDigit) else [] := by
  simp [exponentPart, isSign, or_assoc]

/-- **The exponent of a number.** -/
theorem readExponent_passes (k : Scanner) :
    (readExponent k).1 = !(exponentPart k.rest).isEmpty ∧ k.Passes (exponentPart k.rest) (readExponent k).2 := by
  match hrest : k.rest with
  | [] | [e] =>
      have hread : readExponent k = (false, k) := by
        simp [readExponent, Scanner.peek, Scanner.peekNext, hrest, isSign]
      rw [hread]
      exact ⟨rfl, .refl k⟩
  | e :: c :: t =>
      have hpeek := peek_of_rest hrest
      have hbehind := rest_advance hrest
      have hnext : k.peekNext = c := by
        rw [Scanner.peekNext, hrest]
        rfl
      rw [exponentPart_cons]
      by_cases hmark : (e = 'e' ∨ e = 'E') ∧ (c.isDigit || isSign c) = true
      · have ⟨hletter, hbegins⟩ := hmark
        have hread : readExponent k =
            (true, (if isSign c then k.advance.advance else k.advance).advanceWhile Char.isDigit) := by
          simp only [readExponent, hpeek, hnext, peek_of_rest hbehind, hletter, hbegins, and_self, if_true]
        have hfirst : k.Passes [e] k.advance := .advance hrest (by rcases hletter with rfl | rfl <;> decide)
        rw [hread, if_pos hmark]
        refine ⟨rfl, hfirst.trans ?_⟩
        by_cases hsign : isSign c = true
        · have hc : c ≠ '\n' := by
            rintro rfl
            cases hsign
          have hdigits := Passes.advanceWhile (p := Char.isDigit) rfl k.advance.advance
          rw [rest_advance hbehind] at hdigits
          rw [if_pos hsign]
          exact (Passes.advance hbehind hc).trans hdigits
        · -- without a sign the first of the digits is `c`
          have hdigit : c.isDigit = true := by simpa [hsign] using hbegins
          have hdigits := Passes.advanceWhile (p := Char.isDigit) rfl k.advance
          rw [hbehind, List.takeWhile_cons_of_pos hdigit] at hdigits
          rw [if_neg hsign]
          exact hdigits
      · have hread : readExponent k = (false, k) := by
          rw [readExponent, hpeek, hnext, if_neg hmark]
        rw [hread, if_neg hmark]
        exact ⟨rfl, .refl k⟩

/-- **The number of a text** by its parts: the whole digits, the point and the digits behind it, and the exponent. -/
theorem floatOf?_parts {whole point places exponent : List Char} (hwhole : ∀ c ∈ whole, c.isDigit = true)
    (hpoint : point = '.' :: places ∨ point = [] ∧ places = []) (hplaces : ∀ c ∈ places, c.isDigit = true)
    (hexponent : ∀ c ∈ exponent.head?, c.isDigit = false ∧ c ≠ '.') : floatOf? (whole ++ (point ++ exponent)) =
      (exponentValue? exponent).map fun e => Decimal.toFloat ⟨decimalNumber (whole ++ places), e - places.length⟩ := by
  have hends : ∀ c ∈ exponent.head?, c.isDigit = false := fun c hc => (hexponent c hc).1
  rcases hpoint with rfl | ⟨rfl, rfl⟩
  · have hdot : ∀ c ∈ ('.' :: places ++ exponent).head?, c.isDigit = false := by
      rintro c ⟨⟩
      rfl
    rw [floatOf?, takeWhile_run hwhole hdot, dropWhile_run hwhole hdot]
    simp only [List.cons_append, takeWhile_run hplaces hends, dropWhile_run hplaces hends]
  · rw [List.nil_append, floatOf?, takeWhile_run hwhole hends, dropWhile_run hwhole hends]
    cases exponent with
    | nil => rfl
    | cons c t =>
        have hc : c ≠ '.' := (hexponent c rfl).2
        simp [hc]

/-- An exponent starts with its mark. -/
theorem head?_exponentPart {s : List Char} (hc : c ∈ (exponentPart s).head?) : c.isDigit = false ∧ c ≠ '.' := by
  match s with
  | [] | [_] => cases hc
  | e :: d :: t =>
      rw [exponentPart_cons] at hc
      split at hc
      · next h =>
        cases hc
        rcases h.1 with rfl | rfl <;> decide
      · cases hc

/-- The part of a number behind its whole digits is a point with digits, or there is none. -/
theorem fractionPart_cases (first : Char) (s : List Char) :
    fractionPart first s = [] ∧ (first = '.' ∨ s.head? ≠ some '.') ∨
      first ≠ '.' ∧ ∃ t, s = '.' :: t ∧ fractionPart first s = '.' :: t.takeWhile Char.isDigit := by
  by_cases hfirst : first = '.'
  · subst hfirst
    exact .inl ⟨rfl, .inl rfl⟩
  · match s with
    | [] => exact .inl (by simp [fractionPart])
    | d :: t =>
        by_cases hd : d = '.'
        · subst hd
          exact .inr ⟨hfirst, t, by simp [fractionPart]⟩
        · exact .inl (by simp [fractionPart, hd])

theorem forall_mem_takeWhile_isDigit (s : List Char) : ∀ c ∈ s.takeWhile Char.isDigit, c.isDigit = true :=
  fun _ => of_mem_takeWhile

/-- **The number of a text** that the lexer has taken apart. -/
theorem floatOf?_numeral {first : Char} (hfirst : first.isDigit = true ∨ first = '.') (s t u : List Char) :
    let run := s.takeWhile Char.isDigit
    let fraction := fractionPart first t
    let exponent := exponentPart u
    let whole := if first == '.' then [] else first :: run
    let places := if first == '.' then run else fraction.drop 1
    floatOf? (first :: (run ++ (fraction ++ exponent))) =
      (exponentValue? exponent).map fun e => Decimal.toFloat ⟨decimalNumber (whole ++ places), e - places.length⟩ := by
  have hrun := forall_mem_takeWhile_isDigit s
  have hexponent : ∀ c ∈ (exponentPart u).head?, c.isDigit = false ∧ c ≠ '.' := fun c => head?_exponentPart
  dsimp only
  by_cases hpoint : first = '.'
  · subst hpoint
    exact floatOf?_parts (List.forall_mem_nil _) (.inl rfl) hrun hexponent
  · have hwhole : ∀ c ∈ first :: s.takeWhile Char.isDigit, c.isDigit = true :=
      List.forall_mem_cons.mpr ⟨hfirst.resolve_right hpoint, hrun⟩
    rw [if_neg (by simpa using hpoint), if_neg (by simpa using hpoint)]
    rcases fractionPart_cases first t with ⟨hnone, -⟩ | ⟨-, v, -, hsome⟩
    · rw [hnone]
      exact floatOf?_parts hwhole (.inr ⟨rfl, rfl⟩) (by simp) hexponent
    · rw [hsome]
      exact floatOf?_parts hwhole (.inl rfl) (forall_mem_takeWhile_isDigit v) hexponent

/-- The mark behind a number with a point. -/
theorem floatSuffix_passes (k : Scanner) : ∃ u, u.length = floatSuffix k.rest ∧
    k.Passes u (if k.peek = 'f' ∨ k.peek = 'F' then k.advance else k) := by
  cases hrest : k.rest with
  | nil =>
      refine ⟨[], rfl, ?_⟩
      rw [if_neg]
      · exact .refl k
      · simp [Scanner.peek, hrest]
  | cons c s =>
      rw [peek_of_rest hrest]
      by_cases hmark : c = 'f' ∨ c = 'F'
      · rw [if_pos hmark]
        refine ⟨[c], ?_, .advance hrest ?_⟩
        · rcases hmark with rfl | rfl <;> rfl
        · rcases hmark with rfl | rfl <;> decide
      · rw [if_neg hmark]
        obtain ⟨hlower, hupper⟩ := not_or.mp hmark
        exact ⟨[], by simp [floatSuffix, hlower, hupper], .refl k⟩

/-- **A number in base ten.** -/
theorem readDecimal_agrees {first : Char} (hfirst : first.isDigit = true ∨ first = '.') (htaken : k.taken = [first]) :
    Agrees k ((readDecimal first k).map fun (kind, k) => (some kind, k)) (decimalNumeral first k.rest) := by
  have hrun := Passes.advanceWhile (p := Char.isDigit) rfl k
  obtain ⟨hpoint, hfraction⟩ := readFraction_passes (k := k.advanceWhile Char.isDigit) first (by
    rw [rest_advanceWhile rfl]
    intro d hd
    obtain ⟨t, ht⟩ := List.head?_eq_some_iff.mp hd
    exact not_of_dropWhile ht)
  obtain ⟨hmark, hexponent⟩ := readExponent_passes (readFraction first (k.advanceWhile Char.isDigit)).2
  have hall := hrun.trans (hfraction.trans hexponent)
  have htext := hall.take
  have hbehind := hall.drop
  have hread := hall.taken
  rw [List.length_append, List.length_append, ← Nat.add_assoc] at htext hbehind
  rw [htaken, List.singleton_append] at hread
  unfold readDecimal decimalNumeral
  dsimp only
  rw [hrun.drop, hfraction.drop, hpoint, hmark, htext, hbehind, hread, floatOf?_numeral hfirst]
  split
  · cases exponentValue? (exponentPart (readFraction first (k.advanceWhile Char.isDigit)).2.rest) with
    | none => exact .fault _
    | some e =>
        obtain ⟨u, hu, hsuffix⟩ := floatSuffix_passes
          (readExponent (readFraction first (k.advanceWhile Char.isDigit)).2).2
        refine .of_length (hall.trans hsuffix) ?_
        simp only [List.length_append, hu, Nat.add_assoc]
  · next hwhole =>
    split
    · exact .fault _
    · -- a number without a point and an exponent is its digits
      simp only [Bool.or_eq_true, not_or, Bool.not_eq_true, Bool.not_eq_false', List.isEmpty_iff] at hwhole
      refine .of_length (hall.trans (.advanceWhile rfl _)) ?_
      have hrest : (k.advanceWhile Char.isDigit).rest =
          (readExponent (readFraction first (k.advanceWhile Char.isDigit)).2).2.rest := by
        have h := (hfraction.trans hexponent).rest
        rwa [hwhole.1.2, hwhole.2] at h
      simp only [List.length_append, hrest, Nat.add_assoc]

/-! ## Symbols and comments -/

/-- The symbol that comes first among some with a second character and one without, and how many further characters
    it takes. -/
def firstSymbol (alone : Symbol) (next : Option Char) : List (Char × Symbol) → Symbol × Nat
  | [] => (alone, 0)
  | (d, symbol) :: others => if next = some d then (symbol, 1) else firstSymbol alone next others

/-- **The symbols of the lexer** are those of the table, and the slash. -/
theorem symbolAt?_eq (hc : c ≠ '/') (next : Option Char) :
    symbolAt? c next = (symbolsFrom? c).map fun table => firstSymbol table.2 next table.1 := by
  unfold symbolAt?
  split <;> first | rfl | simp_all [symbolsFrom?, firstSymbol]

/-- A slash is a symbol by itself, or in front of an equals sign. -/
theorem symbolAt?_slash (next : Option Char) :
    symbolAt? '/' next = some (firstSymbol .slash next [('=', .slashAssign)]) := by
  unfold symbolAt?
  split <;> simp_all [firstSymbol]

/-- No second character of a symbol is a newline. -/
theorem ne_newline_of_mem {longer : List (Char × Symbol)} {alone : Symbol}
    (h : symbolsFrom? c = some (longer, alone)) : ∀ e ∈ longer, e.1 ≠ '\n' := by
  unfold symbolsFrom? at h
  split at h <;> cases h <;> decide

theorem advanceOver?_eq_some {d : Char} (h : k.advanceOver? d = some k') : k' = k.advance ∧ ∃ s, k.rest = d :: s := by
  unfold Scanner.advanceOver? at h
  split at h
  · cases h
  · next c s hrest =>
    split at h
    · next heq =>
      cases h
      rw [Scanner.advance, hrest]
      exact ⟨rfl, s, heq ▸ rfl⟩
    · cases h

theorem advanceOver?_eq_none {d : Char} (h : k.advanceOver? d = none) : k.rest.head? ≠ some d := by
  unfold Scanner.advanceOver? at h
  cases hrest : k.rest with
  | nil => nofun
  | cons c s =>
      rw [hrest] at h
      dsimp only at h
      split at h
      · cases h
      · next hne => simpa using hne

/-- **A symbol** and its second character. -/
theorem readSymbol_passes (alone : Symbol) {longer : List (Char × Symbol)} (hlonger : ∀ e ∈ longer, e.1 ≠ '\n') :
    (readSymbol alone k longer).1 = (firstSymbol alone k.rest.head? longer).1 ∧
      ∃ u, u.length = (firstSymbol alone k.rest.head? longer).2 ∧ k.Passes u (readSymbol alone k longer).2 := by
  induction longer with
  | nil => exact ⟨rfl, [], rfl, .refl k⟩
  | cons e others ih =>
      obtain ⟨d, symbol⟩ := e
      rw [List.forall_mem_cons] at hlonger
      cases hnext : k.advanceOver? d with
      | none =>
          rw [readSymbol, firstSymbol, hnext, if_neg (advanceOver?_eq_none hnext)]
          exact ih hlonger.2
      | some k' =>
          obtain ⟨rfl, s, hrest⟩ := advanceOver?_eq_some hnext
          rw [readSymbol, firstSymbol, hnext, if_pos (by rw [hrest]; rfl)]
          exact ⟨rfl, [d], rfl, .advance hrest hlonger.1⟩

/-- **Behind a slash**: a comment up to its end, or a symbol. -/
theorem readSlash_agrees (k : Scanner) : Agrees k (.ok (readSlash k)) (lexStep '/' k.rest) := by
  cases hline : k.advanceOver? '/' with
  | some k' =>
      obtain ⟨rfl, s, hrest⟩ := advanceOver?_eq_some hline
      have hpasses := (Passes.advance hrest (by decide)).trans (.advanceWhile (p := (· != '\n')) rfl _)
      rw [rest_advance hrest] at hpasses
      rw [readSlash, hline, hrest, lexStep_lineComment, List.takeWhile_cons_of_pos rfl]
      exact .found hpasses
  | none =>
      cases hblock : k.advanceOver? '*' with
      | some k' =>
          obtain ⟨rfl, s, hrest⟩ := advanceOver?_eq_some hblock
          have hpasses := (Passes.advance hrest (by decide)).trans (.skipBlockComment _)
          rw [rest_advance hrest] at hpasses
          rw [readSlash, hline, hrest, lexStep_blockComment]
          dsimp only
          rw [hblock]
          exact .of_length hpasses (by rw [List.length_append, List.length_singleton])
      | none =>
          obtain ⟨hsymbol, u, hu, hpasses⟩ := readSymbol_passes (k := k) .slash
            (show ∀ e ∈ [('=', Symbol.slashAssign)], e.1 ≠ '\n' by decide)
          have hcomment : startsComment '/' k.rest = false := by
            simp [startsComment, advanceOver?_eq_none hline, advanceOver?_eq_none hblock]
          rw [readSlash, hline, lexStep_eq rfl hcomment, symbolAt?_slash]
          dsimp only
          rw [hblock]
          dsimp only
          rw [hsymbol]
          exact .of_length hpasses hu

/-! ## Tokens -/

/-- What starts a symbol starts nothing else. -/
theorem starts_of_symbol (h : (symbolsFrom? c).isSome = true) (s : List Char) :
    isQuote c = false ∧ startsComment c s = false ∧ (c == ' ' || c == '\r' || c == '\t' || c == '\n') = false :=
  starts_of_class (p := fun c => (symbolsFrom? c).isSome) rfl h s

/-- The end of the source is no digit either. -/
theorem isDigit_peek (k : Scanner) : k.peek.isDigit = k.rest.head?.any Char.isDigit := by
  unfold Scanner.peek
  cases k.rest <;> rfl

/-- **A number** in either base. -/
theorem readNumber_agrees (hdigit : c.isDigit = true ∨ c = '.') (htaken : k.taken = [c]) :
    Agrees k ((if c = '0' ∧ (k.peek = 'x' ∨ k.peek = 'X') then readHex k else readDecimal c k).map
        fun (kind, k) => (some kind, k))
      (if c == '0' && (k.rest.head? == some 'x' || k.rest.head? == some 'X') then hexNumeral (k.rest.drop 1)
        else decimalNumeral c k.rest) := by
  have hmark : (c == '0' && (k.rest.head? == some 'x' || k.rest.head? == some 'X')) = true ↔
      c = '0' ∧ (k.peek = 'x' ∨ k.peek = 'X') := by
    simp [peek_eq_iff (k := k) (c := 'x') (by decide), peek_eq_iff (k := k) (c := 'X') (by decide)]
  by_cases hhex : c = '0' ∧ (k.peek = 'x' ∨ k.peek = 'X')
  · obtain ⟨x, s, hrest, hx⟩ : ∃ x s, k.rest = x :: s ∧ x ≠ '\n' := by
      rcases hhex.2 with hx | hx
      · obtain ⟨s, hs⟩ := List.head?_eq_some_iff.mp ((peek_eq_iff (by decide)).mp hx)
        exact ⟨'x', s, hs, by decide⟩
      · obtain ⟨s, hs⟩ := List.head?_eq_some_iff.mp ((peek_eq_iff (by decide)).mp hx)
        exact ⟨'X', s, hs, by decide⟩
    rw [if_pos hhex, if_pos (hmark.mpr hhex), hrest]
    exact readHex_agrees hrest hx (hhex.1 ▸ htaken)
  · rw [if_neg hhex, if_neg (hmark.not.mpr hhex)]
    exact readDecimal_agrees hdigit htaken

/-- A number starts with a digit, or with a point in front of one. -/
theorem starts_number_iff : (c.isDigit || (c == '.' && k.rest.head?.any Char.isDigit)) = true ↔
    c.isDigit = true ∨ c = '.' ∧ k.peek.isDigit = true := by
  rw [isDigit_peek, Bool.or_eq_true, Bool.and_eq_true, beq_iff_eq]

/-- **Strings, numbers and names.** -/
theorem readLiteral_agrees (hslash : c ≠ '/') (hblank : (c == ' ' || c == '\r' || c == '\t' || c == '\n') = false)
    (hsymbol : symbolsFrom? c = none) (htaken : k.taken = [c]) : Agrees k (readLiteral c k) (lexStep c k.rest) := by
  unfold readLiteral
  split
  · next hquote =>
    have hquote : isQuote c = true := by simpa [isQuote] using hquote
    have hstring := (readString_agrees hquote [] k).map fun value => some (TokenKind.string (String.ofList value))
    rw [lexStep_quote hquote]
    cases hbody : stringBody c k.rest <;> rwa [hbody] at hstring
  · next hquote =>
    have hquote : isQuote c = false := by simpa [isQuote] using hquote
    have hcomment : startsComment c k.rest = false := by simp [startsComment, hslash]
    have hnone : symbolAt? c k.rest.head? = none := by
      rw [symbolAt?_eq hslash, hsymbol]
      rfl
    rw [lexStep_eq hquote hcomment, hblank, hnone]
    dsimp only
    split
    · next hdigit =>
      have hnumber := readNumber_agrees (hdigit.imp_right And.left) htaken
      have hstarts := starts_number_iff.mpr hdigit
      rw [hstarts]
      exact hnumber
    · next hdigit =>
      have hzero : (c == '0' && (k.rest.head? == some 'x' || k.rest.head? == some 'X')) ≠ true := by
        rintro hzero
        rw [Bool.and_eq_true, beq_iff_eq] at hzero
        exact hdigit (.inl (hzero.1 ▸ rfl))
      rw [if_neg hzero, if_neg (starts_number_iff.not.mpr hdigit)]
      split
      · have hname := Passes.advanceWhile (p := isNamePart) rfl k
        rw [hname.taken, htaken, List.singleton_append]
        exact .found hname
      · exact .fault _

/-- **What the scanner reads behind a character** is what a step of the lexer finds. -/
theorem readToken_agrees (hc : c ≠ '\n') (htaken : k.taken = [c]) : Agrees k (readToken c k) (lexStep c k.rest) := by
  unfold readToken
  by_cases hblank : c = ' ' ∨ c = '\r' ∨ c = '\t'
  · rw [if_pos hblank]
    rcases hblank with rfl | rfl | rfl <;> exact .found (.refl k)
  · rw [if_neg hblank, if_neg hc]
    split
    · next hslash =>
      subst hslash
      exact readSlash_agrees k
    · next hslash =>
      cases htable : symbolsFrom? c with
      | some table =>
          obtain ⟨longer, alone⟩ := table
          obtain ⟨hquote, hcomment, hblank⟩ := starts_of_symbol (by rw [htable]; rfl) k.rest
          obtain ⟨hsymbol, u, hu, hpasses⟩ := readSymbol_passes (k := k) alone (ne_newline_of_mem htable)
          rw [lexStep_eq hquote hcomment, hblank, symbolAt?_eq hslash, htable]
          dsimp only [Option.map_some]
          rw [hsymbol]
          exact .of_length hpasses hu
      | none =>
          refine readLiteral_agrees hslash ?_ htable htaken
          simpa [hc, not_or, and_assoc] using hblank

/-! ## The whole scanner -/

/-- **A token, blank or comment**, from its first character on. -/
theorem readToken_first (hrest : k.rest = c :: s) :
    Agrees k.atToken (readToken c k.atToken.advance) ((lexStep c s).map fun (kind?, n) => (kind?, n + 1)) := by
  have hnext : k.atToken.advance.rest = s := rest_advance hrest
  by_cases hc : c = '\n'
  · -- a newline is counted where it is read, and nothing is read with it
    subst hc
    exact .found (u := ['\n']) (Passes.newLine (k := k.atToken) hrest)
  · have hfirst : k.atToken.Passes [c] k.atToken.advance := .advance hrest hc
    have hread := readToken_agrees hc hfirst.taken
    rw [hnext] at hread
    exact hread.after hfirst

/-- **Where the scanner fails**, the lexer does so for the same cause. -/
theorem lexStep_of_error {cause : SyntaxCause} (hrest : k.rest = c :: s)
    (h : readToken c k.atToken.advance = .error cause) : lexStep c s = .error cause := by
  have hread := readToken_first hrest
  rw [h] at hread
  exact map_eq_error.mp hread.of_error

/-- **Where the scanner finds something**, the lexer finds it and takes what the scanner has passed. -/
theorem lexStep_of_ok (hrest : k.rest = c :: s) (h : readToken c k.atToken.advance = .ok (kind?, k')) :
    ∃ n, lexStep c s = .ok (kind?, n) ∧ k.atToken.Passes (c :: s.take n) k' ∧ k'.rest = s.drop n := by
  have hread := readToken_first hrest
  rw [h] at hread
  obtain ⟨u, hpasses, heq⟩ := hread.of_ok
  obtain ⟨⟨found?, n⟩, hstep, hfound⟩ := map_eq_ok.mp heq
  obtain ⟨rfl, hlength⟩ := Prod.mk.inj hfound
  have htake := hpasses.take
  have hdrop := hpasses.drop
  rw [← hlength, show k.atToken.rest = c :: s from hrest] at htake hdrop
  rw [List.take_succ_cons] at htake
  exact ⟨n, hstep, htake ▸ hpasses, hdrop.symm⟩

/-- Something has been read, the first character at least. -/
theorem length_rest_lt (hrest : k.rest = c :: s) (h : readToken c k.atToken.advance = .ok (kind?, k')) :
    k'.rest.length < k.rest.length := by
  obtain ⟨n, -, -, hdrop⟩ := lexStep_of_ok hrest h
  rw [hdrop, hrest, List.length_drop, List.length_cons]
  omega

/-- A token where the scanner has counted it. -/
structure Mark where
  kind : TokenKind
  lexeme : String
  line : Nat
  column : Nat

/-- A fault where the scanner has counted it. -/
structure MarkedFault where
  line : Nat
  column : Nat
  cause : SyntaxCause

/-- Reads tokens up to the end of the source, behind those that have been found. -/
def scanFrom (marks : List Mark) (k : Scanner) : Except MarkedFault (List Mark) :=
  match _rest : k.rest with
  | [] => .ok (marks ++ [⟨.eof, "", k.line, k.column⟩])
  | c :: _ =>
    match _read : readToken c k.atToken.advance with
    | .error cause => .error ⟨k.line, k.column, cause⟩
    | .ok (none, k') => scanFrom marks k'
    | .ok (some kind, k') => scanFrom (marks ++ [⟨kind, String.ofList k'.taken, k.line, k.column⟩]) k'
termination_by k.rest.length
decreasing_by all_goals exact length_rest_lt _rest _read

/-- The tokens of a source, with the lines and columns that the scanner has counted. -/
def scan (source : String) : Except MarkedFault (List Mark) :=
  scanFrom [] (.start source.toList)

/-- The place of a token by its line and column. -/
def mark (t : Token) : Mark :=
  ⟨t.kind, t.lexeme, t.position.line, t.position.column⟩

/-- What a scan gives, by lines and columns. -/
def marked (result : Except SyntaxFault (List Token)) : Except MarkedFault (List Mark) :=
  match result with
  | .ok ts => .ok (ts.map mark)
  | .error fault => .error ⟨fault.position.line, fault.position.column, fault.cause⟩

theorem scanFrom_eq (marks : List Mark) (k : Scanner) {p : Position} (hline : p.line = k.line)
    (hcolumn : p.column = k.column) :
    scanFrom marks k = (marked (tokensFrom p k.rest)).map (marks ++ ·) := by
  fun_induction scanFrom marks k generalizing p with
  | case1 marks k hrest =>
      rw [hrest, tokensFrom, ← hline, ← hcolumn]
      rfl
  | case2 marks k c s hrest cause hread =>
      rw [hrest, tokensFrom, lexStep_of_error hrest hread, ← hline, ← hcolumn]
      rfl
  | case3 marks k c s hrest k' hread ih =>
      obtain ⟨n, hstep, hpasses, hdrop⟩ := lexStep_of_ok hrest hread
      obtain ⟨hline', hcolumn'⟩ := hpasses.place p hline hcolumn
      rw [ih hline' hcolumn', hrest, tokensFrom, hstep, hdrop]
      dsimp only
      cases tokensFrom (p.advance (c :: s.take n)) (s.drop n) <;> rfl
  | case4 marks k c s hrest kind k' hread ih =>
      obtain ⟨n, hstep, hpasses, hdrop⟩ := lexStep_of_ok hrest hread
      obtain ⟨hline', hcolumn'⟩ := hpasses.place p hline hcolumn
      rw [ih hline' hcolumn', hrest, tokensFrom, hstep, hdrop, hpasses.taken, ← hline, ← hcolumn]
      dsimp only
      cases tokensFrom (p.advance (c :: s.take n)) (s.drop n) with
      | error fault => rfl
      | ok ts => exact congrArg Except.ok (List.append_cons ..).symm

/-- **Counting gives the places of the lexer**: the same tokens at the same lines and columns, or the same fault at the
    same one. -/
theorem scan_eq (source : String) : scan source = marked (scanTokens source) := by
  have h := scanFrom_eq [] (.start source.toList) (p := {}) rfl rfl
  rw [scan, h, scanTokens]
  show (marked (tokensFrom {} source.toList)).map ([] ++ ·) = _
  cases tokensFrom {} source.toList <;> rfl

end Inlay.Counting
