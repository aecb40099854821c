import Inlay.Error
import Inlay.Text.Hex

/-!
# `Inlay.Patch.Anchor` — finding the code of a dummy

The code of every dummy starts with the same two instructions, up to the register that they write. An anchor is
their bytes with a mask of the bits that count, and dummies are found where the bytes of a binary agree with the
anchor in all of these bits.
-/

namespace Inlay

/-- Bytes to look for, and the bits of them that count. -/
structure Anchor where
  signature : Bytes
  mask : Bytes
deriving DecidableEq, Repr

namespace Anchor

/-- The literal that dummies load if nothing else is said. -/
def standardLiteral : UInt32 := 0x4C3A2B19

/-- Two moves of a literal, the first of `standardLiteral`, to any register. -/
def standard : Anchor where
  signature := [0xFF, 0x02, 0x00, 0x7E, 0x19, 0x2B, 0x3A, 0x4C, 0xFF, 0x02]
  mask := [0xFF, 0xFF, 0x00, 0xFE, 0xFF, 0xFF, 0xFF, 0xFF, 0xFF, 0xFF]

/-- Refuses an anchor that is empty or whose mask has another length. -/
def validate (a : Anchor) : Except Error Unit :=
  if a.signature.isEmpty then .error (.invalidOptions "anchor signature must not be empty")
  else if a.signature.length ≠ a.mask.length then
    .error (.invalidOptions
      s!"anchor signature has {a.signature.length} bytes but mask has {a.mask.length}")
  else .ok ()

/-- The number whose bytes, the least one first, are `b₀` to `b₃`. -/
def littleEndian (b₀ b₁ b₂ b₃ : UInt8) : UInt32 :=
  b₀.toUInt32 ||| (b₁.toUInt32 <<< 8) ||| (b₂.toUInt32 <<< 16) ||| (b₃.toUInt32 <<< 24)

/-- The literal of the first move, which stands behind four bytes. -/
def literal? (a : Anchor) : Option UInt32 :=
  match a.signature.drop 4 with
  | b₀ :: b₁ :: b₂ :: b₃ :: _ => some (littleEndian b₀ b₁ b₂ b₃)
  | _ => none

/-- Whether bytes start with a signature, as far as a mask of the same length lets through. -/
def agrees : Bytes → Bytes → Bytes → Bool
  | [], [], _ => true
  | s :: signature, m :: mask, b :: bytes => (b &&& m == s &&& m) && agrees signature mask bytes
  | _, _, _ => false

/-- Whether bytes start with the anchor. An empty anchor is nowhere. -/
def startsHere (a : Anchor) (bytes : Bytes) : Bool :=
  !a.signature.isEmpty && agrees a.signature a.mask bytes

/-- All offsets of the anchor in bytes of which the first has the offset `i`, in increasing order. -/
def occurrencesFrom (a : Anchor) (i : Nat) : Bytes → List Nat
  | [] => []
  | b :: bytes =>
    if a.startsHere (b :: bytes) then i :: occurrencesFrom a (i + 1) bytes
    else occurrencesFrom a (i + 1) bytes

/-- All offsets of the anchor, in increasing order. They may overlap. -/
def occurrences (a : Anchor) (bytes : Bytes) : List Nat :=
  a.occurrencesFrom 0 bytes

/-- The first offset of the anchor. -/
def find? (a : Anchor) (bytes : Bytes) : Option Nat :=
  (a.occurrences bytes).head?

end Anchor

end Inlay
