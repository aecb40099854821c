import Inlay.Real.Binary64

/-!
# `Inlay.Real.Shortest` — the fewest digits that read back

Every finite float is the nearest one to a whole interval of real numbers. Of the decimals in that interval
the ones with the fewest digits are chosen, of those the nearest to the float, and of two that are equally near
the upper one. All comparisons are between whole numbers.
-/

namespace Inlay

/-- The decimal `digits · 10 ^ exponent`. -/
structure Decimal where
  /-- The whole number in front. -/
  digits : Nat
  /-- The power of ten. -/
  exponent : Int
deriving DecidableEq, Repr

/-- Compares `a · 10 ^ i` with `n · 2 ^ j`. -/
def compareScaled (a : Nat) (i : Int) (n : Nat) (j : Int) : Ordering :=
  compare ((a * Nat.pow 10 i.toNat) <<< (-j).toNat) ((n * Nat.pow 10 (-i).toNat) <<< j.toNat)

/-- How many digits a number has in base ten. -/
def decimalLength (n : Nat) : Nat :=
  (Nat.toDigits 10 n).length

namespace Dyadic

/-- Whether the float below is half as far away as the float above: so it is at a power of two that is not the
    least normal one. -/
def narrowBelow (x : Dyadic) : Bool :=
  x.mantissa == hiddenBit && x.exponent > -1074

/-- Whether a decimal lies among the real numbers that round to `x`, where a tie goes to the even mantissa. -/
def readsBack (x : Dyadic) (d : Decimal) : Bool :=
  let below := if x.narrowBelow then 4 * x.mantissa - 1 else 4 * x.mantissa - 2
  let above := 4 * x.mantissa + 2
  let closed := x.mantissa % 2 == 0
  let low := compareScaled d.digits d.exponent below (x.exponent - 2)
  let high := compareScaled d.digits d.exponent above (x.exponent - 2)
  (low == .gt || (closed && low == .eq)) && (high == .lt || (closed && high == .eq))

/-- The least power of ten above `x`, which is not zero. -/
def scale (x : Dyadic) : Int :=
  let num := x.mantissa <<< x.exponent.toNat
  let den := 1 <<< (-x.exponent).toNat
  if den ≤ num then decimalLength (num / den)
  else 1 - (decimalLength ((den - 1) / num) : Int)

/-- The greatest whole number of steps of `10 ^ g` that is not above `x`. -/
def stepsBelow (x : Dyadic) (g : Int) : Nat :=
  ((x.mantissa * Nat.pow 10 (-g).toNat) <<< x.exponent.toNat) / (Nat.pow 10 g.toNat <<< (-x.exponent).toNat)

/-- The best decimal with `n` digits that reads back, if there is one. -/
def candidate? (x : Dyadic) (n : Nat) : Option Decimal :=
  let g := x.scale - n
  let d := x.stepsBelow g
  let lower : Decimal := ⟨d, g⟩
  let upper : Decimal := ⟨d + 1, g⟩
  match x.readsBack lower, x.readsBack upper with
  | true, false => some lower
  | false, true => some upper
  | false, false => none
  | true, true =>
    -- both read back: twice the float against the sum of the two
    if compareScaled (2 * d + 1) g (2 * x.mantissa) x.exponent == .gt then some lower else some upper

/-- The decimal that is written for `x`, which is not zero. Seventeen digits always read back; the exact value
    stands in for a search that finds nothing. -/
def shortest (x : Dyadic) : Decimal :=
  match (List.range' 1 17).findSome? x.candidate? with
  | some d => d
  | none => ⟨(x.mantissa * Nat.pow 5 (-x.exponent).toNat) <<< x.exponent.toNat, min x.exponent 0⟩

end Dyadic

end Inlay
