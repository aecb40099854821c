import Inlay.Text.Hex

/-!
# `Inlay.Json.Reader` — reading JSON of a known shape

A reader takes a value of one type from the start of a text and gives the text behind it. What is read is decided
while it is read, so of several faults the first one in the text is reported, whether it is in the form of the
text or in what it says. A record may be written as an object, whose unknown members are passed over, or as an
array of its fields in order. The standard codec reads with these readers; other codecs may read in another way.
-/

namespace Inlay.Json

/-- Why a text cannot be read. -/
inductive Fault where
  /-- It is not JSON, or JSON of another shape. -/
  | malformed
  /-- It has the right shape but says something that cannot be. -/
  | refused (reason : String)
deriving DecidableEq, Repr

/-- A result, or the first fault. -/
abbrev Reading := Except Fault

/-- Takes a value from the start of a text and gives the text behind it. -/
abbrev Reader (α : Type) := List Char → Reading (α × List Char)

namespace Reader

/-! ## Blanks and marks -/

/-- The characters that may stand between any two tokens. -/
def isSpace (c : Char) : Bool :=
  c == ' ' || c == '\n' || c == '\t' || c == '\r'

/-- The text behind the blanks at its start. -/
def skipSpaces (s : List Char) : List Char :=
  s.dropWhile isSpace

/-- Passes over blanks and the character `c`. -/
def mark (c : Char) (s : List Char) : Reading (List Char) :=
  match skipSpaces s with
  | a :: rest => if a = c then .ok rest else .error .malformed
  | [] => .error .malformed

/-- Passes over a word if the text starts with it. -/
def word? : List Char → List Char → Option (List Char)
  | [], s => some s
  | _ :: _, [] => none
  | a :: w, b :: s => if a = b then word? w s else none

/-! ## Numbers and truth values -/

/-- A whole number that is at most `limit`, without a sign, a point or an exponent. -/
def natural (limit : Nat) : Reader Nat := fun s =>
  let s := skipSpaces s
  let digits := s.takeWhile Char.isDigit
  let rest := s.dropWhile Char.isDigit
  let n := digits.foldl (fun n c => 10 * n + (c.toNat - 48)) 0
  if digits.isEmpty || (digits.head? == some '0' && digits.length != 1) ||
      rest.head?.any (fun c => c == '.' || c == 'e' || c == 'E') || limit < n then .error .malformed
  else .ok (n, rest)

/-- A truth value. -/
def boolean : Reader Bool := fun s =>
  match word? "true".toList (skipSpaces s), word? "false".toList (skipSpaces s) with
  | some rest, _ => .ok (true, rest)
  | none, some rest => .ok (false, rest)
  | none, none => .error .malformed

/-! ## Strings -/

/-- The character that a backslash and `c` stand for. -/
def unescape? (c : Char) : Option Char :=
  match c with
  | '"' => some '"'
  | '\\' => some '\\'
  | '/' => some '/'
  | 'b' => some '\x08'
  | 'f' => some '\x0c'
  | 'n' => some '\n'
  | 'r' => some '\r'
  | 't' => some '\t'
  | _ => none

/-- The number that four digits in base sixteen stand for. -/
def fourDigits? (a b c d : Char) : Option Nat :=
  if [a, b, c, d].all isHexDigit then some (hexNumber [a, b, c, d]) else none

/-- Whether a number is the first half of a character beyond 16 bits. -/
def isHighHalf (n : Nat) : Bool :=
  0xD800 ≤ n && n < 0xDC00

/-- Whether a number is the second half of a character beyond 16 bits. -/
def isLowHalf (n : Nat) : Bool :=
  0xDC00 ≤ n && n < 0xE000

/-- The character of two halves. -/
def joinHalves (high low : Nat) : Char :=
  Char.ofNat (0x10000 + (high - 0xD800) * 0x400 + (low - 0xDC00))

/-- A character written with the digits `a b c d`, in front of the text `s`. -/
def codedChar (a b c d : Char) (s : List Char) : Reading (Char × List Char) :=
  match fourDigits? a b c d with
  | none => .error .malformed
  | some n =>
    if isLowHalf n then .error .malformed
    else if !isHighHalf n then .ok (Char.ofNat n, s)
    else match s with
      | '\\' :: 'u' :: a :: b :: c :: d :: s =>
        match fourDigits? a b c d with
        | some low => if isLowHalf low then .ok (joinHalves n low, s) else .error .malformed
        | none => .error .malformed
      | _ => .error .malformed

theorem length_codedChar_le {a b c d x : Char} {s rest : List Char}
    (h : codedChar a b c d s = .ok (x, rest)) : rest.length ≤ s.length := by
  unfold codedChar at h
  split at h
  · simp at h
  · split at h
    · simp at h
    · split at h
      · simp_all
      · split at h
        · split at h
          · split at h
            · simp only [Except.ok.injEq, Prod.mk.injEq] at h
              rw [← h.2]
              simp only [List.length_cons]
              omega
            · simp at h
          · simp at h
        · simp at h

/-- The characters of a string up to its closing quote, which is passed over. -/
def stringBody (s : List Char) : Reading (List Char × List Char) :=
  match s with
  | [] => .error .malformed
  | '"' :: s => .ok ([], s)
  | '\\' :: 'u' :: a :: b :: c :: d :: s =>
    match _coded : codedChar a b c d s with
    | .error fault => .error fault
    | .ok (x, s) => do
      let (text, rest) ← stringBody s
      .ok (x :: text, rest)
  | '\\' :: c :: s =>
    match unescape? c with
    | none => .error .malformed
    | some x => do
      let (text, rest) ← stringBody s
      .ok (x :: text, rest)
  | c :: s =>
    if c = '\\' ∨ c.toNat < 32 then .error .malformed
    else do
      let (text, rest) ← stringBody s
      .ok (c :: text, rest)
termination_by s.length
decreasing_by
  · have := length_codedChar_le _coded
    simp only [List.length_cons]
    omega
  · simp only [List.length_cons]
    omega
  · simp only [List.length_cons]
    omega

/-- A string. -/
def string : Reader String := fun s => do
  let s ← mark '"' s
  let (text, rest) ← stringBody s
  .ok (String.ofList text, rest)

/-! ## Values that are passed over -/

/-- Passes over a string behind its opening quote. The halves of a character may stand alone here. -/
def skipString : List Char → Reading (List Char)
  | [] => .error .malformed
  | '"' :: s => .ok s
  | '\\' :: 'u' :: a :: b :: c :: d :: s =>
    if (fourDigits? a b c d).isSome then skipString s else .error .malformed
  | '\\' :: c :: s => if (unescape? c).isSome then skipString s else .error .malformed
  | c :: s => if c = '\\' ∨ c.toNat < 32 then .error .malformed else skipString s

/-- Passes over digits, of which there must be one. -/
def skipDigits (s : List Char) : Reading (List Char) :=
  if s.head?.any Char.isDigit then .ok (s.dropWhile Char.isDigit) else .error .malformed

/-- Passes over the exponent of a number, if there is one. -/
def skipExponent (s : List Char) : Reading (List Char) :=
  match s with
  | c :: s' =>
    if c = 'e' ∨ c = 'E' then
      match s' with
      | a :: s'' => if a = '+' ∨ a = '-' then skipDigits s'' else skipDigits s'
      | [] => .error .malformed
    else .ok s
  | [] => .ok s

/-- Passes over a number of any form behind its sign. -/
def skipNumber (s : List Char) : Reading (List Char) := do
  let rest ← skipDigits s
  if s.head? == some '0' && s.length != rest.length + 1 then .error .malformed
  else match rest with
    | '.' :: rest => skipExponent (← skipDigits rest)
    | _ => skipExponent rest

mutual

/-- Passes over a value of any shape. -/
def skipValue : Nat → List Char → Reading (List Char)
  | 0, _ => .error .malformed
  | n + 1, s =>
    match skipSpaces s with
    | '"' :: s => skipString s
    | '-' :: s => skipNumber s
    | '[' :: s =>
      match skipSpaces s with
      | ']' :: s => .ok s
      | s => skipItems n s
    | '{' :: s =>
      match skipSpaces s with
      | '}' :: s => .ok s
      | s => skipMembers n s
    | s =>
      if s.head?.any Char.isDigit then skipNumber s
      else
        match ["null", "true", "false"].findSome? fun w => word? w.toList s with
        | some rest => .ok rest
        | none => .error .malformed

/-- Passes over the items of an array and its end. -/
def skipItems : Nat → List Char → Reading (List Char)
  | 0, _ => .error .malformed
  | n + 1, s => do
    let s ← skipValue n s
    match skipSpaces s with
    | ']' :: s => .ok s
    | ',' :: s => skipItems n s
    | _ => .error .malformed

/-- Passes over the members of an object and its end. -/
def skipMembers : Nat → List Char → Reading (List Char)
  | 0, _ => .error .malformed
  | n + 1, s => do
    let s ← mark '"' s
    let s ← skipString s
    let s ← mark ':' s
    let s ← skipValue n s
    match skipSpaces s with
    | '}' :: s => .ok s
    | ',' :: s => skipMembers n s
    | _ => .error .malformed

end

/-- Passes over a value of any shape. Two calls are made for a character at most. -/
def skip (s : List Char) : Reading (List Char) :=
  skipValue (2 * s.length + 2) s

/-! ## Arrays -/

/-- The items of an array behind its opening bracket or a comma, and its end. -/
def items {α : Type} (item : Reader α) : Nat → Reader (List α)
  | 0, _ => .error .malformed
  | n + 1, s => do
    let (x, s) ← item s
    match skipSpaces s with
    | ']' :: s => .ok ([x], s)
    | ',' :: s =>
      let (xs, s) ← items item n s
      .ok (x :: xs, s)
    | _ => .error .malformed

/-- An array. There are fewer items than characters. -/
def array {α : Type} (item : Reader α) : Reader (List α) := fun s => do
  let s ← mark '[' s
  match skipSpaces s with
  | ']' :: s => .ok ([], s)
  | s => items item (s.length + 1) s

/-! ## Conversions -/

/-- A value that is made of another one, which `value` reads. If none can be made, there is a reason. -/
def converted {α β : Type} (value : Reader α) (convert : α → Except String β) : Reader β := fun s => do
  let (a, rest) ← value s
  match convert a with
  | .ok b => .ok (b, rest)
  | .error reason => .error (.refused reason)

/-- Reads a whole text, with nothing but blanks behind the value. -/
def readText {α : Type} (value : Reader α) (text : String) : Reading α := do
  let (x, rest) ← value text.toList
  if (skipSpaces rest).isEmpty then .ok x else .error .malformed

end Reader

open Reader

/-! ## Records -/

/-- A field of a record that is built up in a value of type `σ`. -/
structure Field (σ : Type) where
  /-- The name of the field. -/
  name : String
  /-- Reads the field and puts it in its place. -/
  read : σ → Reader σ

/-- A field that is read by `value` and put in its place by `put`. -/
def Field.of {σ α : Type} (name : String) (value : Reader α) (put : α → σ → σ) : Field σ :=
  ⟨name, fun x s => (fun (a, rest) => (put a x, rest)) <$> value s⟩

/-- A record with the fields that it has and whether all of them must be there. -/
structure Record (σ : Type) where
  fields : List (Field σ)
  allRequired : Bool

namespace Record

variable {σ : Type}

/-- The members of an object behind its opening brace or a comma, and its end. The fields `seen` are in `x`
    already and must not come again. -/
def members (r : Record σ) : Nat → List String → σ → Reader (List String × σ)
  | 0, _, _, _ => .error .malformed
  | n + 1, seen, x, s => do
    let (name, s) ← Reader.string s
    match r.fields.find? (·.name == name) with
    | some field =>
      if seen.contains name then .error .malformed
      else
        let s ← mark ':' s
        let (x, s) ← field.read x s
        match skipSpaces s with
        | '}' :: s => .ok ((name :: seen, x), s)
        | ',' :: s => members r n (name :: seen) x s
        | _ => .error .malformed
    | none =>
      let s ← mark ':' s
      let s ← skip s
      match skipSpaces s with
      | '}' :: s => .ok ((seen, x), s)
      | ',' :: s => members r n seen x s
      | _ => .error .malformed

/-- The fields of a record in an array behind its opening bracket or a comma, and its end. -/
def inOrder (r : Record σ) : List (Field σ) → σ → Reader σ
  | [], _, _ => .error .malformed
  | field :: fields, x, s => do
    let (x, s) ← field.read x s
    match skipSpaces s with
    | ']' :: s => if r.allRequired && !fields.isEmpty then .error .malformed else .ok (x, s)
    | ',' :: s => inOrder r fields x s
    | _ => .error .malformed

/-- A record, in which fields that are not written are as in `x`. -/
def read (r : Record σ) (x : σ) : Reader σ := fun s =>
  match skipSpaces s with
  | '{' :: s => do
    let ((seen, x), s) ←
      match skipSpaces s with
      | '}' :: s => .ok (([], x), s)
      | s => r.members (s.length + 1) [] x s
    if r.allRequired && !r.fields.all (fun f => seen.contains f.name) then .error .malformed
    else .ok (x, s)
  | '[' :: s =>
    match skipSpaces s with
    | ']' :: s => if r.allRequired && !r.fields.isEmpty then .error .malformed else .ok (x, s)
    | s => r.inOrder r.fields x s
  | _ => .error .malformed

end Record

end Inlay.Json
