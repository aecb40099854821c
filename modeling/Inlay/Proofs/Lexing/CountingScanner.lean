import Inlay.Proofs.Lexing.Step
import Inlay.Proofs.Text.Words

/-!
# `Proofs.Lexing.CountingScanner` — a scanner that counts as it goes along

The lexer knows the place of a token by the text in front of it. A scanner that reads one character after the other
knows it by two counters, which it has to move wherever it reads: for each character of a name or a number, for the
second one of a symbol, inside of strings, and past the newlines between tokens and inside of comments.

Here that scanner is written down (`Scanner`), with its loops, up to what it reads behind the first character of a
token (`readToken`). Reading over some characters moves the counters as a position moves over them
(`Scanner.Passes`), and a part of the scanner agrees with a step of the lexer if it passes what the step takes
(`Agrees`).
-/

namespace Inlay.Counting

variable {c q : Char} {s u v : List Char} {p : Char → Bool} {n : Nat}

/-! ## The scanner -/

/-- Where a scanner stands. -/
structure Scanner where
  /-- What is left of the source. -/
  rest : List Char
  /-- What it has read since the start of the token. -/
  taken : List Char
  line : Nat
  column : Nat

namespace Scanner

/-- In front of a source. -/
def start (source : List Char) : Scanner :=
  ⟨source, [], 1, 1⟩

/-- The next character, or a zero at the end. -/
def peek (k : Scanner) : Char :=
  k.rest.head?.getD '\x00'

/-- The character behind the next one, or a zero at the end. -/
def peekNext (k : Scanner) : Char :=
  k.rest[1]?.getD '\x00'

/-- Reads a character. -/
def advance (k : Scanner) : Scanner :=
  match k.rest with
  | [] => k
  | c :: s => ⟨s, k.taken ++ [c], k.line, k.column + 1⟩

theorem rest_advance {k : Scanner} (hrest : k.rest = c :: s) : k.advance.rest = s := by
  rw [advance, hrest]

/-- In front of a token. -/
def atToken (k : Scanner) : Scanner :=
  { k with taken := [] }

/-- Counts a newline that has been read. -/
def newLine (k : Scanner) : Scanner :=
  { k with line := k.line + 1, column := 1 }

/-- Reads the character `c` if it comes next. -/
def advanceOver? (c : Char) (k : Scanner) : Option Scanner :=
  match k.rest with
  | [] => none
  | d :: s => if d = c then some ⟨s, k.taken ++ [d], k.line, k.column + 1⟩ else none

/-- Reads the characters of a class that come next. -/
def advanceWhile (p : Char → Bool) (k : Scanner) : Scanner :=
  match _rest : k.rest with
  | [] => k
  | c :: _ => if p c then k.advance.advanceWhile p else k
termination_by k.rest.length
decreasing_by
  rw [rest_advance _rest, _rest]
  exact Nat.lt_succ_self _

/-- Reads a block comment behind its opening. -/
def skipBlockComment (k : Scanner) : Scanner :=
  match _rest : k.rest with
  | [] => k
  | '*' :: '/' :: _ => k.advance.advance
  | c :: _ => if c = '\n' then k.advance.newLine.skipBlockComment else k.advance.skipBlockComment
termination_by k.rest.length
decreasing_by
  · show k.advance.rest.length < _
    rw [rest_advance _rest, _rest]
    exact Nat.lt_succ_self _
  · rw [rest_advance _rest, _rest]
    exact Nat.lt_succ_self _

end Scanner

/-- Reads a string up to its closing quote `q`, behind the characters `value`. -/
def readString (q : Char) (value : List Char) (k : Scanner) : Except SyntaxCause (List Char × Scanner) :=
  match _rest : k.rest with
  | [] => .error .unterminatedString
  | c :: s =>
    if c = q then .ok (value, k.advance)
    else if c = '\\' then
      match s with
      | [] => .error .unterminatedString
      | e :: _ =>
        match unescape? e with
        | none => .error (.invalidEscape e)
        | some x => readString q (value ++ [x]) k.advance.advance
    else if c = '\n' then .error .unterminatedString
    else readString q (value ++ [c]) k.advance
termination_by k.rest.length
decreasing_by
  · rw [Scanner.rest_advance (Scanner.rest_advance _rest), _rest]
    exact Nat.lt_succ_of_lt (Nat.lt_succ_self _)
  · rw [Scanner.rest_advance _rest, _rest]
    exact Nat.lt_succ_self _

/-- Reads a number in base sixteen whose mark comes next. -/
def readHex (k : Scanner) : Except SyntaxCause (TokenKind × Scanner) :=
  let k := k.advance.advanceWhile isHexDigit
  let digits := k.taken.drop 2
  if digits.isEmpty || UInt64.size ≤ hexNumber digits then .error (.invalidHex (String.ofList digits))
  else .ok (.integer (hexNumber digits).toUInt64.toInt64, k.advanceWhile isIntegerSuffix)

/-- Reads the point of a number that started with `first`, and the digits behind it. Says whether there is a point. -/
def readFraction (first : Char) (k : Scanner) : Bool × Scanner :=
  let (hasPoint, k) :=
    if k.peek = '.' ∧ first ≠ '.' then (true, k.advance)
    else (first = '.', k)
  (hasPoint, if hasPoint then k.advanceWhile Char.isDigit else k)

/-- Whether a character is the sign of an exponent. -/
def isSign (c : Char) : Bool :=
  c == '+' || c == '-'

/-- Reads an exponent. Says whether there is one. -/
def readExponent (k : Scanner) : Bool × Scanner :=
  if (k.peek = 'e' ∨ k.peek = 'E') ∧ (k.peekNext.isDigit || isSign k.peekNext) then
    let k := k.advance
    (true, (if isSign k.peek then k.advance else k).advanceWhile Char.isDigit)
  else (false, k)

/-- The number that a text with digits, a point and an exponent stands for, unless the exponent lacks its digits. -/
def floatOf? (text : List Char) : Option Float :=
  let whole := text.takeWhile Char.isDigit
  let behind := text.dropWhile Char.isDigit
  let (places, exponent) :=
    match behind with
    | '.' :: t => (t.takeWhile Char.isDigit, t.dropWhile Char.isDigit)
    | t => ([], t)
  (exponentValue? exponent).map fun e => Decimal.toFloat ⟨decimalNumber (whole ++ places), e - places.length⟩

/-- Reads a number in base ten that started with `first`. -/
def readDecimal (first : Char) (k : Scanner) : Except SyntaxCause (TokenKind × Scanner) :=
  let (hasPoint, k) := readFraction first (k.advanceWhile Char.isDigit)
  let (hasExponent, k) := readExponent k
  if hasPoint || hasExponent then
    match floatOf? k.taken with
    | none => .error (.invalidFloat (String.ofList k.taken))
    | some x => .ok (.float x, if k.peek = 'f' ∨ k.peek = 'F' then k.advance else k)
  else if UInt64.size / 2 ≤ decimalNumber k.taken then .error (.invalidInteger (String.ofList k.taken))
  else .ok (.integer (Int64.ofNat (decimalNumber k.taken)), k.advanceWhile isIntegerSuffix)

/-- The symbols that start with a character: those of two characters, by the second one, and the one of that character
    alone. -/
def symbolsFrom? (c : Char) : Option (List (Char × Symbol) × Symbol) :=
  match c with
  | '(' => some ([], .leftParen)
  | ')' => some ([], .rightParen)
  | '{' => some ([], .leftBrace)
  | '}' => some ([], .rightBrace)
  | ',' => some ([], .comma)
  | ';' => some ([], .semicolon)
  | '?' => some ([], .question)
  | ':' => some ([], .colon)
  | '~' => some ([], .tilde)
  | '^' => some ([], .caret)
  | '+' => some ([('+', .plusPlus), ('=', .plusAssign)], .plus)
  | '-' => some ([('-', .minusMinus), ('=', .minusAssign)], .minus)
  | '*' => some ([('=', .starAssign)], .star)
  | '%' => some ([('=', .percentAssign)], .percent)
  | '=' => some ([('=', .eq)], .assign)
  | '!' => some ([('=', .notEq)], .not)
  | '<' => some ([('=', .ltEq), ('<', .shl)], .lt)
  | '>' => some ([('=', .gtEq), ('>', .shr)], .gt)
  | '&' => some ([('&', .and)], .amp)
  | '|' => some ([('|', .or)], .pipe)
  | _ => none

/-- Reads the second character of one of some symbols, or takes the one without. -/
def readSymbol (alone : Symbol) (k : Scanner) : List (Char × Symbol) → Symbol × Scanner
  | [] => (alone, k)
  | (d, symbol) :: others =>
    match k.advanceOver? d with
    | some k => (symbol, k)
    | none => readSymbol alone k others

/-- Reads a comment or a symbol that started with a slash. -/
def readSlash (k : Scanner) : Option TokenKind × Scanner :=
  match k.advanceOver? '/' with
  | some k => (none, k.advanceWhile (· != '\n'))
  | none =>
    match k.advanceOver? '*' with
    | some k => (none, k.skipBlockComment)
    | none =>
      let (symbol, k) := readSymbol .slash k [('=', .slashAssign)]
      (some (.symbol symbol), k)

/-- Reads a string, a number or a name that started with the character `c`. -/
def readLiteral (c : Char) (k : Scanner) : Except SyntaxCause (Option TokenKind × Scanner) :=
  if c = '"' ∨ c = '\'' then
    (readString c [] k).map fun (value, k) => (some (.string (String.ofList value)), k)
  else if c.isDigit ∨ c = '.' ∧ k.peek.isDigit then
    (if c = '0' ∧ (k.peek = 'x' ∨ k.peek = 'X') then readHex k else readDecimal c k).map
      fun (kind, k) => (some kind, k)
  else if isNameStart c then
    let k := k.advanceWhile isNamePart
    .ok (some (wordKind (String.ofList k.taken)), k)
  else .error (.unexpectedCharacter c)

/-- Reads what started with the character `c`, which has been read: a token, or nothing for blanks and comments. -/
def readToken (c : Char) (k : Scanner) : Except SyntaxCause (Option TokenKind × Scanner) :=
  if c = ' ' ∨ c = '\r' ∨ c = '\t' then .ok (none, k)
  else if c = '\n' then .ok (none, k.newLine)
  else if c = '/' then .ok (readSlash k)
  else match symbolsFrom? c with
    | some (longer, alone) =>
      let (symbol, k) := readSymbol alone k longer
      .ok (some (.symbol symbol), k)
    | none => readLiteral c k

/-! ## What a scanner passes -/

namespace Scanner

/-- **A scanner passes a text**: the text stood next, it has been taken, and the counters have moved as a position moves
    over it. -/
structure Passes (k : Scanner) (u : List Char) (k' : Scanner) : Prop where
  rest : k.rest = u ++ k'.rest
  taken : k'.taken = k.taken ++ u
  place : ∀ p : Position, p.line = k.line → p.column = k.column →
    (p.advance u).line = k'.line ∧ (p.advance u).column = k'.column

namespace Passes

variable {k k' k'' : Scanner}

theorem refl (k : Scanner) : k.Passes [] k :=
  ⟨rfl, (List.append_nil _).symm, fun _ hline hcolumn => ⟨hline, hcolumn⟩⟩

/-- One text behind the other. -/
theorem trans (h : k.Passes u k') (h' : k'.Passes v k'') : k.Passes (u ++ v) k'' where
  rest := by rw [h.rest, h'.rest, List.append_assoc]
  taken := by rw [h'.taken, h.taken, List.append_assoc]
  place p hline hcolumn := by
    rw [Position.advance_append]
    obtain ⟨hline', hcolumn'⟩ := h.place p hline hcolumn
    exact h'.place _ hline' hcolumn'

/-- What has been passed stood in front. -/
theorem take (h : k.Passes u k') : k.rest.take u.length = u := by
  rw [h.rest, List.take_left]

theorem drop (h : k.Passes u k') : k.rest.drop u.length = k'.rest := by
  rw [h.rest, List.drop_left]

/-- A character that is no newline. -/
theorem advance (hrest : k.rest = c :: s) (hc : c ≠ '\n') : k.Passes [c] k.advance where
  rest := by rw [Scanner.advance, hrest]; rfl
  taken := by rw [Scanner.advance, hrest]
  place p hline hcolumn := by
    rw [Scanner.advance, hrest, Position.advance_cons, Position.advance_nil, Position.next, if_neg hc]
    exact ⟨hline, congrArg (· + 1) hcolumn⟩

/-- A newline that is counted. -/
theorem newLine (hrest : k.rest = '\n' :: s) : k.Passes ['\n'] k.advance.newLine where
  rest := by rw [Scanner.newLine, Scanner.advance, hrest]; rfl
  taken := by rw [Scanner.newLine, Scanner.advance, hrest]
  place p hline hcolumn := by
    rw [Scanner.newLine, Scanner.advance, hrest, Position.advance_cons, Position.advance_nil, Position.next, if_pos rfl]
    exact ⟨congrArg (· + 1) hline, rfl⟩

/-- **A run of characters** among which there is no newline. -/
theorem advanceWhile (hp : p '\n' = false) (k : Scanner) : k.Passes (k.rest.takeWhile p) (k.advanceWhile p) := by
  fun_induction Scanner.advanceWhile p k with
  | case1 k hrest =>
      rw [hrest]
      exact refl k
  | case2 k c s hrest hc ih =>
      have hne : c ≠ '\n' := by
        rintro rfl
        rw [hp] at hc
        cases hc
      have hfirst := advance hrest hne
      have hothers : k.advance.rest = s := by rw [Scanner.advance, hrest]
      rw [hothers] at ih
      rw [hrest, List.takeWhile_cons_of_pos hc]
      exact hfirst.trans ih
  | case3 k c s hrest hc =>
      rw [hrest, List.takeWhile_cons_of_neg hc]
      exact refl k

/-- **A block comment**, with the newlines in it. -/
theorem skipBlockComment (k : Scanner) : k.Passes (spanBlockComment k.rest).1 k.skipBlockComment := by
  fun_induction Scanner.skipBlockComment k with
  | case1 k hrest =>
      rw [hrest]
      exact refl k
  | case2 k s hrest =>
      have hnext : k.advance.rest = '/' :: s := by rw [Scanner.advance, hrest]
      rw [hrest]
      exact (advance hrest (by decide)).trans (advance hnext (by decide))
  | case3 k s hclose hrest ih =>
      have hnext : k.advance.newLine.rest = s := by rw [Scanner.newLine, Scanner.advance, hrest]
      rw [hnext] at ih
      rw [hrest, spanBlockComment_cons (by simp)]
      exact (newLine hrest).trans ih
  | case4 k c s hclose hrest hc ih =>
      have hnext : k.advance.rest = s := by rw [Scanner.advance, hrest]
      rw [hnext] at ih
      rw [hrest, spanBlockComment_cons hclose]
      exact (advance hrest hc).trans ih

end Passes

end Scanner

/-! ## Next to the steps of the lexer -/

/-- **A part of the scanner agrees with a step of the lexer**: both find the same, and the scanner passes as many
    characters as the step takes, or both report the same cause. -/
inductive Agrees {α : Type} (k : Scanner) : Except SyntaxCause (α × Scanner) → Except SyntaxCause (α × Nat) → Prop
  | found {x : α} {u : List Char} {k' : Scanner} (passes : k.Passes u k') : Agrees k (.ok (x, k')) (.ok (x, u.length))
  | fault (cause : SyntaxCause) : Agrees k (.error cause) (.error cause)

namespace Agrees

variable {α β : Type} {k : Scanner}

theorem of_length {x : α} {k' : Scanner} (passes : k.Passes u k') (hn : u.length = n) :
    Agrees k (.ok (x, k')) (.ok (x, n)) :=
  hn ▸ .found passes

/-- What is found is turned into something else by both. -/
theorem map {x : Except SyntaxCause (α × Scanner)} {y : Except SyntaxCause (α × Nat)} (h : Agrees k x y) (f : α → β) :
    Agrees k (x.map fun (a, k) => (f a, k)) (y.map fun (a, n) => (f a, n)) := by
  cases h with
  | found passes => exact .found passes
  | fault cause => exact .fault cause

/-- What is found is what the step finds. -/
theorem of_ok {x : α} {k' : Scanner} {y : Except SyntaxCause (α × Nat)} (h : Agrees k (.ok (x, k')) y) :
    ∃ u, k.Passes u k' ∧ y = .ok (x, u.length) := by
  cases h with
  | found passes => exact ⟨_, passes, rfl⟩

theorem of_error {cause : SyntaxCause} {y : Except SyntaxCause (α × Nat)} (h : Agrees k (.error cause) y) :
    y = .error cause := by
  cases h
  rfl

/-- What agrees behind a text agrees in front of it, with that many more characters. -/
theorem after {k' : Scanner} {x : Except SyntaxCause (α × Scanner)} {y : Except SyntaxCause (α × Nat)}
    (h : Agrees k' x y) (hu : k.Passes u k') : Agrees k x (y.map fun (a, n) => (a, n + u.length)) := by
  cases h with
  | @found x v k'' passes =>
      have hlength : v.length + u.length = (u ++ v).length := by rw [List.length_append, Nat.add_comm]
      show Agrees k _ (.ok (x, v.length + u.length))
      rw [hlength]
      exact .found (hu.trans passes)
  | fault cause => exact .fault cause

end Agrees

end Inlay.Counting
