import Inlay.Compiler.Device

/-!
# `Inlay.Compiler.BuildCache` — the last build

A compiler remembers the last source that it gave to the device and what came back. The same source again is
answered from memory; any other takes its place, whether it can be built or not. Beside it stand the binaries of
the last compilation that went through.
-/

namespace Inlay

/-- A source and what the device made of it. -/
structure CachedBuild (P : Type) where
  source : String
  build : DeviceBuild P
deriving DecidableEq, Repr

/-- What a compiler remembers. -/
structure BuildCache (P : Type) where
  /-- The last build, unless it was forgotten. -/
  slot : Option (CachedBuild P)
  /-- The binary of the last compilation before patching. -/
  raw : Option Bytes
  /-- The binary of the last compilation after patching. -/
  patched : Option Bytes
deriving DecidableEq, Repr

/-- The answer to a request for a build. -/
structure BuildAnswer (P : Type) where
  build : DeviceBuild P
  /-- Whether the device was not asked. -/
  cached : Bool
deriving DecidableEq, Repr

namespace DeviceBuild

variable {P : Type}

/-- Whether a build succeeded and has a program. -/
def isComplete (b : DeviceBuild P) : Bool :=
  b.success && b.program.isSome

/-- A build as it is reported and remembered: without a program it is no success. -/
def settled (b : DeviceBuild P) : DeviceBuild P :=
  { b with success := b.isComplete }

end DeviceBuild

namespace BuildCache

variable {δ P : Type}

/-- Nothing to remember. -/
def empty : BuildCache P :=
  ⟨none, none, none⟩

/-- What is remembered of a source. -/
def lookup? (c : BuildCache P) (source : String) : Option (DeviceBuild P) :=
  match c.slot with
  | some s => if s.source = source then some s.build else none
  | none => none

/-- Builds a source, on the device if it is not the last one that was built. -/
def build (device : Device δ P) (source : String) (d : δ) (c : BuildCache P) :
    BuildAnswer P × δ × BuildCache P :=
  match c.lookup? source with
  | some b => (⟨b, true⟩, d, c)
  | none =>
    let (b, d) := device.compileSource source d
    (⟨b.settled, false⟩, d, { c with slot := some ⟨source, b.settled⟩ })

/-- Whether the last build succeeded, if it is remembered. -/
def lastSucceeded? (c : BuildCache P) : Option Bool :=
  c.slot.map fun s => s.build.success

/-- Remembers the binaries of a compilation. -/
def record (raw patched : Bytes) (c : BuildCache P) : BuildCache P :=
  { c with raw := some raw, patched := some patched }

/-- Forgets the last build, so that the next one asks the device. -/
def invalidate (c : BuildCache P) : BuildCache P :=
  { c with slot := none }

end BuildCache

end Inlay
