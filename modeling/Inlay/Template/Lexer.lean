import Inlay.Text.Letter
import Inlay.Text.Comments
import Inlay.Text.Hex
import Inlay.Template.Token

/-!
# `Inlay.Template.Lexer` — from characters to tokens

A step looks at the first character and what follows it, and says what stands there (a token, or nothing for
blanks and comments) and how many further characters belong to it. The lexer takes steps until the text is
used up and ends with a token for the end of the source.
-/

namespace Inlay

/-- What a step finds: a token or nothing, and how many characters after the first belong to it. -/
abbrev LexStep := Option TokenKind × Nat

/-! ## Symbols -/

/-- The longest symbol that starts with `c`, given the next character, and how many further characters it
    takes. -/
def symbolAt? (c : Char) (next : Option Char) : Option (Symbol × Nat) :=
  match c, next with
  | '(', _ => some (.leftParen, 0)
  | ')', _ => some (.rightParen, 0)
  | '{', _ => some (.leftBrace, 0)
  | '}', _ => some (.rightBrace, 0)
  | ',', _ => some (.comma, 0)
  | ';', _ => some (.semicolon, 0)
  | '?', _ => some (.question, 0)
  | ':', _ => some (.colon, 0)
  | '~', _ => some (.tilde, 0)
  | '^', _ => some (.caret, 0)
  | '+', some '+' => some (.plusPlus, 1)
  | '+', some '=' => some (.plusAssign, 1)
  | '+', _ => some (.plus, 0)
  | '-', some '-' => some (.minusMinus, 1)
  | '-', some '=' => some (.minusAssign, 1)
  | '-', _ => some (.minus, 0)
  | '*', some '=' => some (.starAssign, 1)
  | '*', _ => some (.star, 0)
  | '/', some '=' => some (.slashAssign, 1)
  | '/', _ => some (.slash, 0)
  | '%', some '=' => some (.percentAssign, 1)
  | '%', _ => some (.percent, 0)
  | '=', some '=' => some (.eq, 1)
  | '=', _ => some (.assign, 0)
  | '!', some '=' => some (.notEq, 1)
  | '!', _ => some (.not, 0)
  | '<', some '=' => some (.ltEq, 1)
  | '<', some '<' => some (.shl, 1)
  | '<', _ => some (.lt, 0)
  | '>', some '=' => some (.gtEq, 1)
  | '>', some '>' => some (.shr, 1)
  | '>', _ => some (.gt, 0)
  | '&', some '&' => some (.and, 1)
  | '&', _ => some (.amp, 0)
  | '|', some '|' => some (.or, 1)
  | '|', _ => some (.pipe, 0)
  | _, _ => none

/-! ## Strings -/

/-- The character that a backslash and `c` stand for. -/
def unescape? (c : Char) : Option Char :=
  match c with
  | 'n' => some '\n'
  | 't' => some '\t'
  | 'r' => some '\r'
  | '0' => some '\x00'
  | '\\' => some '\\'
  | '"' => some '"'
  | '\'' => some '\''
  | _ => none

/-- Reads a string behind its opening quote `q`: its value and the number of characters read, closing quote
    included. -/
def stringBody (q : Char) : List Char → Except SyntaxCause (List Char × Nat)
  | [] => .error .unterminatedString
  | '\\' :: [] => .error .unterminatedString
  | '\\' :: e :: s =>
    match unescape? e with
    | none => .error (.invalidEscape e)
    | some c => (stringBody q s).map fun (value, n) => (c :: value, n + 2)
  | c :: s =>
    if c = q then .ok ([], 1)
    else if c = '\n' then .error .unterminatedString
    else (stringBody q s).map fun (value, n) => (c :: value, n + 1)

/-! ## Numbers -/

/-- The number that decimal digits stand for. -/
def decimalNumber (digits : List Char) : Nat :=
  digits.foldl (fun n c => 10 * n + (c.toNat - 48)) 0

/-- Whether `c` may stand behind a whole number without a meaning of its own. -/
def isIntegerSuffix (c : Char) : Bool :=
  c == 'u' || c == 'U' || c == 'l' || c == 'L'

/-- A number in base sixteen whose digits start at `s`. It may fill 64 bits and is then read as signed. -/
def hexNumeral (s : List Char) : Except SyntaxCause LexStep :=
  let digits := s.takeWhile isHexDigit
  let suffix := (s.drop digits.length).takeWhile isIntegerSuffix
  let value := hexNumber digits
  if digits.isEmpty || UInt64.size ≤ value then .error (.invalidHex (String.ofList digits))
  else .ok (some (.integer value.toUInt64.toInt64), 1 + digits.length + suffix.length)

/-- The characters of an exponent at the start of `s`: its mark, sign and digits. The mark counts only in front
    of a sign or digit. -/
def exponentPart (s : List Char) : List Char :=
  match s with
  | e :: c :: t =>
    if (e == 'e' || e == 'E') && (c.isDigit || c == '+' || c == '-') then
      e :: c :: t.takeWhile Char.isDigit
    else []
  | _ => []

/-- The power of ten that an exponent part stands for, unless it lacks digits. -/
def exponentValue? (part : List Char) : Option Int :=
  match part with
  | [] => some 0
  | _ :: '+' :: [] => none
  | _ :: '-' :: [] => none
  | _ :: '+' :: digits => some (decimalNumber digits)
  | _ :: '-' :: digits => some (-(decimalNumber digits : Int))
  | _ :: digits => some (decimalNumber digits)

/-- The characters behind the first digits `s` of a number that started with `c`: a point and its digits. A number
    that started with its point has no other. -/
def fractionPart (c : Char) (s : List Char) : List Char :=
  match c, s with
  | '.', _ => []
  | _, '.' :: t => '.' :: t.takeWhile Char.isDigit
  | _, _ => []

/-- The number of characters at the start of `s` that mark a number as one with a point. -/
def floatSuffix (s : List Char) : Nat :=
  match s with
  | 'f' :: _ | 'F' :: _ => 1
  | _ => 0

/-- A number in base ten that starts with `c`, a digit or a point in front of a digit. -/
def decimalNumeral (c : Char) (s : List Char) : Except SyntaxCause LexStep :=
  let run := s.takeWhile Char.isDigit
  let afterRun := s.drop run.length
  let fraction := fractionPart c afterRun
  let exponent := exponentPart (afterRun.drop fraction.length)
  let length := run.length + fraction.length + exponent.length
  let text := c :: s.take length
  if c == '.' || !fraction.isEmpty || !exponent.isEmpty then
    let whole := if c == '.' then [] else c :: run
    let places := if c == '.' then run else fraction.drop 1
    match exponentValue? exponent with
    | none => .error (.invalidFloat (String.ofList text))
    | some e =>
      let value : Decimal := ⟨decimalNumber (whole ++ places), e - places.length⟩
      .ok (some (.float value.toFloat), length + floatSuffix (s.drop length))
  else
    let value := decimalNumber text
    let suffix := afterRun.takeWhile isIntegerSuffix
    if UInt64.size / 2 ≤ value then .error (.invalidInteger (String.ofList text))
    else .ok (some (.integer (Int64.ofNat value)), length + suffix.length)

/-! ## Names -/

/-- Whether a name may start with `c`. -/
def isNameStart (c : Char) : Bool :=
  isLetter c || c == '_'

/-- Whether a name may go on with `c`. -/
def isNamePart (c : Char) : Bool :=
  isLetter c || isNumeral c || c == '_'

/-- The kind of a name: a reserved word or an identifier. -/
def wordKind (word : String) : TokenKind :=
  match Keyword.ofText? word with
  | some k => .keyword k
  | none => .identifier word

/-! ## The lexer -/

/-- What stands at the start of the text `c :: s`. -/
def lexStep (c : Char) (s : List Char) : Except SyntaxCause LexStep :=
  if c == ' ' || c == '\r' || c == '\t' || c == '\n' then .ok (none, 0)
  else if c == '/' && s.head? == some '/' then
    .ok (none, (s.takeWhile (· != '\n')).length)
  else if c == '/' && s.head? == some '*' then
    .ok (none, 1 + (spanBlockComment (s.drop 1)).1.length)
  else match symbolAt? c s.head? with
    | some (symbol, n) => .ok (some (.symbol symbol), n)
    | none =>
      if c == '"' || c == '\'' then
        (stringBody c s).map fun (value, n) => (some (.string (String.ofList value)), n)
      else if c == '0' && (s.head? == some 'x' || s.head? == some 'X') then hexNumeral (s.drop 1)
      else if c.isDigit || (c == '.' && s.head?.any Char.isDigit) then decimalNumeral c s
      else if isNameStart c then
        let part := s.takeWhile isNamePart
        .ok (some (wordKind (String.ofList (c :: part))), part.length)
      else .error (.unexpectedCharacter c)

/-- The tokens of a text that starts at `p`. -/
def tokensFrom (p : Position) : List Char → Except SyntaxFault (List Token)
  | [] => .ok [⟨.eof, "", p⟩]
  | c :: s =>
    match lexStep c s with
    | .error cause => .error ⟨p, cause⟩
    | .ok (kind?, n) =>
      match tokensFrom (p.advance (c :: s.take n)) (s.drop n) with
      | .error fault => .error fault
      | .ok tokens =>
        match kind? with
        | none => .ok tokens
        | some kind => .ok (⟨kind, String.ofList (c :: s.take n), p⟩ :: tokens)
termination_by s => s.length
decreasing_by
  simp only [List.length_drop, List.length_cons]
  omega

/-- The tokens of template code, the last of them for its end. -/
def scanTokens (source : String) : Except SyntaxFault (List Token) :=
  tokensFrom {} source.toList

end Inlay
