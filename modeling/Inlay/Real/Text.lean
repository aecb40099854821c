import Inlay.Real.Shortest

/-!
# `Inlay.Real.Text` — floats in writing

A float is written with the fewest digits that read back, always positionally and never with an exponent: a
whole number has no point, a fraction below one starts with a zero, and the sign of zero shows. A decimal in
the source of a template is read as the nearest float.
-/

namespace Inlay

/-- Writes digits with the point `places` digits from the right. -/
def placePoint (digits : List Char) (places : Nat) : List Char :=
  if places < digits.length then
    digits.take (digits.length - places) ++ '.' :: digits.drop (digits.length - places)
  else '0' :: '.' :: List.replicate (places - digits.length) '0' ++ digits

/-- The digits without the zeros at their end, and how many zeros there were. -/
def dropZeros (digits : List Char) : List Char × Nat :=
  let kept := (digits.reverse.dropWhile (· == '0')).reverse
  (kept, digits.length - kept.length)

/-- Writes a decimal positionally. -/
def Decimal.positional (d : Decimal) : List Char :=
  let (digits, zeros) := dropZeros (Nat.toDigits 10 d.digits)
  let e := d.exponent + zeros
  if 0 ≤ e then digits ++ List.replicate e.toNat '0' else placePoint digits (-e).toNat

/-- The text of a float. -/
def floatText (x : Float) : String :=
  if x.isNaN then "NaN"
  else
    let sign := if signBit x then "-" else ""
    if x.isInf then sign ++ "inf"
    else if x == 0 then sign ++ "0"
    else sign ++ String.ofList (Dyadic.ofBits x.toBits).shortest.positional

/-- The float nearest to `digits · 10 ^ exponent`. Decimals beyond the range of floats are recognised by their
    length, so that no great power of ten is computed. -/
def Decimal.toFloat (d : Decimal) : Float :=
  let leading := decimalLength d.digits + d.exponent
  if d.digits = 0 || leading ≤ -324 then 0
  else if 310 ≤ leading then 1.0 / 0.0
  else Float.ofScientific d.digits (d.exponent < 0) d.exponent.natAbs

end Inlay
