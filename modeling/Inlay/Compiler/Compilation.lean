import Inlay.Compiler.Assembly
import Inlay.Compiler.BuildCache
import Inlay.Compiler.Options
import Inlay.Digest.Sha256
import Inlay.Kernel.Dummy
import Inlay.Patch.Report
import Inlay.Template.Expansion
import Inlay.Text.Comments

/-!
# `Inlay.Compiler.Compilation` — from a source to a patched program

A source is expanded, freed of comments and taken apart at its blocks. The blocks are assembled, and dummies of
the right size take their places. The device builds the result, the machine code of the blocks is written over
the dummies in the binary, and the device makes the program of the patched binary. Each part says what it logged
and what came of it (`Logged`); the first error ends the compilation and becomes the last entry of its log.
-/

namespace Inlay

/-- What came of a part of a compilation, and what it logged. -/
structure Logged (α : Type) where
  log : Log
  result : Except Error α

/-! ## In front of the device -/

/-- Expands a source, takes its comments out and finds its blocks. -/
def frontEnd (o : Options) (source : String) : Except Error Extraction := do
  let expanded ← expand o.iterationLimit source
  o.finder.extract (String.ofList (stripComments expanded.toList))

/-- The entries about the blocks of a source. -/
def extractionEntries (e : Extraction) : Log :=
  e.warnings.map (.warning .extract) ++
  [.info .extract <|
    if e.blocks.isEmpty then "no embedded assembly blocks found"
    else s!"found {e.blocks.length} embedded assembly block(s)"]

namespace Assembled

/-- The dummy that keeps the place of a block. -/
def dummy (style : Dummy.Style) (a : Assembled) : Dummy :=
  .sized style a.block.name a.block.params.length a.output.vectors a.output.scalars
    ((a.output.code.length + 3) / 4)

/-- The warning about a dummy that has nowhere to write. -/
def dummyEntries (a : Assembled) : Log :=
  if a.block.params.isEmpty then
    [.warning .synthesize (s!"{a.block.name} has no parameters; its dummy writes no output " ++
      "and may be shrunk by the device compiler")]
  else []

/-- The code of a block, to be written over its dummy. -/
def patch (a : Assembled) : Patch :=
  ⟨a.block.name, a.output.code⟩

end Assembled

/-- How dummies are made under some options. An anchor too short to hold a literal leaves the standard one. -/
def Options.dummyStyle (o : Options) : Dummy.Style :=
  ⟨o.minVectors, o.anchor.literal?.getD Anchor.standardLiteral⟩

/-- A source that is ready for the device. -/
structure Prepared where
  /-- The blocks with their code. -/
  assembled : List Assembled
  /-- The source with dummies in place of the blocks. -/
  deviceSource : String

/-- Makes a source ready for the device. -/
def prepare {σ : Type} (pool : Pool σ) (o : Options) (assemble : Assembler σ) (source : String) (s : σ) :
    Logged Prepared × σ :=
  match frontEnd o source with
  | .error e => (⟨[], .error e⟩, s)
  | .ok extraction =>
    let (assembled, s) := assembleBlocks pool o.parallel assemble extraction.blocks s
    let log := extractionEntries extraction ++ assembled.flatMap Assembled.entries
    match failedFunctions assembled with
    | [] =>
      let dummies := assembled.map fun a => (a.dummy o.dummyStyle).text
      (⟨log ++ assembled.flatMap Assembled.dummyEntries, .ok ⟨assembled, extraction.splice dummies⟩⟩, s)
    | failed => (⟨log, .error (.assemblyFailed failed)⟩, s)

/-! ## On the device -/

/-- What a compilation makes. -/
structure Output (P : Type) where
  /-- The program of the patched binary. -/
  program : P
  /-- The patched binary. -/
  binary : Bytes
  /-- The blocks with their code. -/
  blocks : List Assembled

/-- What a compilation reports, and what it makes unless it fails. -/
structure Outcome (P : Type) where
  log : Log
  output : Option (Output P)

/-- Whether a compilation went through. -/
def Outcome.success {P : Type} (o : Outcome P) : Bool :=
  o.output.isSome

/-- What a compiler works with. -/
structure Toolchain (σ δ P : Type) where
  assembler : Assembler σ
  device : Device δ P
  /-- What stands for sources in logs. -/
  [digest : Digest]
  /-- The workers who assemble blocks. -/
  [pool : Pool σ]

/-- A compiler between two compilations. -/
structure Compiler (σ δ P : Type) where
  options : Options
  /-- The state of the assembler. -/
  assembler : σ
  /-- The state of the device. -/
  device : δ
  cache : BuildCache P

/-- The entry about a source that was built. -/
def buildEntry {P : Type} (digest : Digest) (source : String) (answer : BuildAnswer P) : LogEntry :=
  let cached := if answer.cached then ", cached" else ""
  .info .build s!"device source {digest.fingerprint source} ({source.utf8ByteSize} bytes){cached}"

/-- The entry about what the device reported, unless it reported nothing. -/
def reportEntries {P : Type} (build : DeviceBuild P) : Log :=
  if Text.isAllBlank build.log then [] else [.info .build (Text.trimEnd build.log)]

/-- The entries about patches. -/
def patchEntries (report : PatchReport) : Log :=
  (report.outcomes.filterMap PatchOutcome.warning?).map (.warning .patch) ++
  [.info .patch s!"patched {report.applied} of {report.outcomes.length} blocks"]

namespace Compiler

variable {σ δ P : Type}

/-- A new compiler, with the states that the assembler and the device start in. -/
def new (options : Options) (assembler : σ) (device : δ) : Except Error (Compiler σ δ P) := do
  options.validate
  .ok ⟨options, assembler, device, .empty⟩

/-- Makes the device build a source. -/
def build (t : Toolchain σ δ P) (source : String) (c : Compiler σ δ P) : Logged P × Compiler σ δ P :=
  let (answer, device, cache) := c.cache.build t.device source c.device
  let c := { c with device, cache }
  match answer.build.program? with
  | some program => (⟨buildEntry t.digest source answer :: reportEntries answer.build, .ok program⟩, c)
  | none => (⟨[buildEntry t.digest source answer], .error (.deviceBuildFailed answer.build.log)⟩, c)

/-- Makes a program of a binary on the device. -/
def load (t : Toolchain σ δ P) (binary : Bytes) (c : Compiler σ δ P) : Except Error P × Compiler σ δ P :=
  match t.device.loadBinaries [binary] c.device with
  | (.error e, device) => (.error e, { c with device })
  | (.ok program, device) =>
    let (finished, device) := t.device.finish program device
    (finished.map fun _ => program, { c with device })

/-- Writes the code of blocks over their dummies in the binary `raw` of `program`, and makes the program of the
    result. A source without blocks is done already. -/
def patch (t : Toolchain σ δ P) (assembled : List Assembled) (program : P) (raw : Bytes)
    (c : Compiler σ δ P) : Logged (Output P) × Compiler σ δ P :=
  if assembled.isEmpty then
    (⟨[], .ok ⟨program, raw, []⟩⟩, { c with cache := c.cache.record raw raw })
  else
    let report := c.options.anchor.patch raw (assembled.map Assembled.patch)
    match c.load t report.binary with
    | (.error e, c) => (⟨patchEntries report, .error e⟩, c)
    | (.ok patched, c) =>
      (⟨patchEntries report, .ok ⟨patched, report.binary, assembled⟩⟩,
        { c with cache := c.cache.record raw report.binary })

/-- Does with the device all that is to be done for a source that is ready for it. -/
def runDevice (t : Toolchain σ δ P) (prepared : Prepared) (c : Compiler σ δ P) :
    Logged (Output P) × Compiler σ δ P :=
  match c.build t prepared.deviceSource with
  | (⟨log, .error e⟩, c) => (⟨log, .error e⟩, c)
  | (⟨log, .ok program⟩, c) =>
    match t.device.binary program c.device with
    | .error e => (⟨log, .error e⟩, c)
    | .ok raw =>
      let (patched, c) := c.patch t prepared.assembled program raw
      (⟨log ++ patched.log, patched.result⟩, c)

/-- Makes a source ready for the device, and changes only the state of the assembler. -/
def prepare (t : Toolchain σ δ P) (source : String) (c : Compiler σ δ P) :
    Logged Prepared × Compiler σ δ P :=
  let (prepared, assembler) := Inlay.prepare t.pool c.options t.assembler source c.assembler
  (prepared, { c with assembler })

/-- Does all that is to be done for a source. -/
def run (t : Toolchain σ δ P) (source : String) (c : Compiler σ δ P) :
    Logged (Output P) × Compiler σ δ P :=
  match c.prepare t source with
  | (⟨log, .error e⟩, c) => (⟨log, .error e⟩, c)
  | (⟨log, .ok prepared⟩, c) =>
    let (done, c) := c.runDevice t prepared
    (⟨log ++ done.log, done.result⟩, c)

/-- Compiles a source. It always gives an outcome: an error is the last entry of the log. -/
def compile (t : Toolchain σ δ P) (source : String) (c : Compiler σ δ P) : Outcome P × Compiler σ δ P :=
  match c.run t source with
  | (⟨log, .error e⟩, c) => (⟨log ++ [.ofError e], none⟩, c)
  | (⟨log, .ok output⟩, c) => (⟨log, some output⟩, c)

/-- The source that the device would receive. The device is not asked. -/
def deviceSource (t : Toolchain σ δ P) (source : String) (c : Compiler σ δ P) :
    Except Error String × Compiler σ δ P :=
  let (prepared, c) := c.prepare t source
  (prepared.result.map (·.deviceSource), c)

/-- Forgets the last build, so that the next compilation asks the device. -/
def invalidate (c : Compiler σ δ P) : Compiler σ δ P :=
  { c with cache := c.cache.invalidate }

end Compiler

end Inlay
