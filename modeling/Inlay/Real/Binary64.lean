/-!
# `Inlay.Real.Binary64` — floats as exact numbers

A finite float is a sign and a number `mantissa · 2 ^ exponent`. Everything that must be exact to the last
bit is computed on that pair with whole numbers: the remainder of two floats here, and the shortest digits in
`Inlay.Real.Shortest`.
-/

namespace Inlay

/-- The magnitude of a finite float: `mantissa · 2 ^ exponent`. -/
structure Dyadic where
  /-- The whole number in front. -/
  mantissa : Nat
  /-- The power of two. -/
  exponent : Int
deriving DecidableEq, Repr

/-- The bit of a full mantissa that the bits of a float leave out, at place 52. -/
def hiddenBit : Nat := 0x10000000000000

namespace Dyadic

/-- The magnitude that the bits of a finite float stand for. -/
def ofBits (bits : UInt64) : Dyadic :=
  let e := ((bits >>> 52) &&& 0x7FF).toNat
  let f := (bits &&& 0xFFFFFFFFFFFFF).toNat
  if e = 0 then ⟨f, -1074⟩ else ⟨hiddenBit + f, (e : Int) - 1075⟩

/-- The bits of a magnitude with a mantissa below `2 ^ 53` and an exponent from -1074 to 971. The mantissa is
    first brought as close to `2 ^ 53` as the least exponent permits. -/
def toBits (d : Dyadic) : UInt64 :=
  if d.mantissa = 0 then 0
  else
    let shift := min (52 - d.mantissa.log2) (d.exponent + 1074).toNat
    let m := d.mantissa <<< shift
    let e := d.exponent - shift
    if m < hiddenBit then m.toUInt64
    else ((e + 1075).toNat * hiddenBit + (m - hiddenBit)).toUInt64

/-- What is left of `a` after taking away `b`, which is not zero, as often as it goes. -/
def remainder (a b : Dyadic) : Dyadic :=
  let e := min a.exponent b.exponent
  let m := a.mantissa <<< (a.exponent - e).toNat
  let n := b.mantissa <<< (b.exponent - e).toNat
  ⟨m % n, e⟩

end Dyadic

/-- Whether the sign bit of a float is set. -/
def signBit (x : Float) : Bool :=
  x.toBits >>> 63 == 1

/-- The remainder of a division that rounds toward zero. It has the sign of `x`, is exact, and is not a number
    if `x` is infinite or `y` is zero. -/
def floatRemainder (x y : Float) : Float :=
  if x.isNaN || y.isNaN || x.isInf || y == 0 then 0.0 / 0.0
  else if y.isInf then x
  else
    let r := (Dyadic.ofBits x.toBits).remainder (Dyadic.ofBits y.toBits)
    Float.ofBits (r.toBits ||| (if signBit x then 0x8000000000000000 else 0))

end Inlay
