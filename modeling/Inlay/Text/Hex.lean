/-!
# `Inlay.Text.Hex` — hexadecimal digits

Numbers and bytes in base sixteen. Both cases of the letters are written by the program: the lower case in
dumps, offsets and fingerprints, the upper case in the constants of generated kernels.
-/

namespace Inlay

/-- A byte sequence. -/
abbrev Bytes := List UInt8

/-- The digits of a number in base sixteen, lower case. -/
def hexDigits (n : Nat) : List Char :=
  Nat.toDigits 16 n

/-- The digits of a number in base sixteen, in lower case and at least `width` of them. -/
def hexPadded (width n : Nat) : String :=
  let digits := hexDigits n
  String.ofList (List.replicate (width - digits.length) '0' ++ digits)

/-- Two digits for each byte. -/
def hexBytes (bytes : Bytes) : String :=
  String.join (bytes.map fun b => hexPadded 2 b.toNat)

/-- Eight upper-case digits for a word of 32 bits. -/
def hexWord (w : UInt32) : String :=
  (hexPadded 8 w.toNat).map Char.toUpper

/-- The value of a digit in base sixteen, in either case. -/
def hexValue? (c : Char) : Option Nat :=
  if c.isDigit then some (c.toNat - 48)
  else if 'a' ≤ c ∧ c ≤ 'f' then some (c.toNat - 87)
  else if 'A' ≤ c ∧ c ≤ 'F' then some (c.toNat - 55)
  else none

/-- Whether a character is a digit in base sixteen. -/
def isHexDigit (c : Char) : Bool :=
  (hexValue? c).isSome

/-- The number that digits in base sixteen stand for; other characters count as zero. -/
def hexNumber (digits : List Char) : Nat :=
  digits.foldl (fun n c => 16 * n + (hexValue? c).getD 0) 0

/-- Lists of `n + 1` items each, of which the last may be shorter. -/
def chunks {α : Type} (n : Nat) : List α → List (List α)
  | [] => []
  | x :: xs => (x :: xs.take n) :: chunks n (xs.drop n)
termination_by xs => xs.length
decreasing_by
  simp only [List.length_drop, List.length_cons]
  omega

/-- Bytes in rows of sixteen and words of four, each row behind the offset of its first byte. -/
def hexDump (bytes : Bytes) : String :=
  String.intercalate "\n" ((chunks 15 bytes).zipIdx.map fun (row, i) =>
    s!"  {hexPadded 4 (16 * i)}: " ++ String.intercalate " " ((chunks 3 row).map hexBytes))

end Inlay
