import Inlay.Error
import Inlay.Text.Hex

/-!
# `Inlay.Compiler.Device` — the compiler of the device

The device is given by whoever runs the program. It compiles source to programs, gives the binary of a program,
and makes a program of a binary. It may keep a state, which outlives its failures.
-/

namespace Inlay

/-- What a device makes of source. -/
structure DeviceBuild (P : Type) where
  /-- The program, if there is one. -/
  program : Option P
  success : Bool
  /-- What the device reports about the build. -/
  log : String
deriving DecidableEq, Repr

/-- The program of a build that succeeded and has one. -/
def DeviceBuild.program? {P : Type} (b : DeviceBuild P) : Option P :=
  if b.success then b.program else none

/-- A device with a state of type `δ` and programs of type `P`. -/
structure Device (δ P : Type) where
  /-- Compiles source. -/
  compileSource : String → δ → DeviceBuild P × δ
  /-- The binary of a program. -/
  binary : P → δ → Except Error Bytes
  /-- Makes a program of binaries. -/
  loadBinaries : List Bytes → δ → Except Error P × δ
  /-- Finishes a program that was made of binaries. -/
  finish : P → δ → Except Error Unit × δ

end Inlay
