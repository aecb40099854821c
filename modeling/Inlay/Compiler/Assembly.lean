import Inlay.Compiler.Log
import Inlay.Kernel.Block

/-!
# `Inlay.Compiler.Assembly` — assembling the blocks

The assembler is given by whoever runs the program. It sees the lines of one body at a time and may keep a state.
Every block is assembled, also behind one that failed, so that all failures can be reported together. Several blocks
may be given to a pool of workers, which takes them in an order of its own; what came of them is put back into the
order of the blocks.
-/

namespace Inlay

/-- A message of the assembler. -/
structure Diagnostic where
  /-- The line of the body that it is about, counted from one. -/
  line : Option Nat
  message : String
  level : LogLevel
deriving DecidableEq, Repr

/-- What the assembler makes of a body. -/
structure AsmOutput where
  /-- The machine code. -/
  code : Bytes
  /-- The scalar registers used. -/
  scalars : Nat
  /-- The vector registers used. -/
  vectors : Nat
  /-- Text for the log. -/
  log : String
  /-- Messages about lines. -/
  diagnostics : List Diagnostic
  /-- Whether the body could be assembled. -/
  ok : Bool
deriving DecidableEq, Repr

/-- An assembler with a state of type `σ`. -/
abbrev Assembler (σ : Type) := List String → σ → AsmOutput × σ

/-- A block with what the assembler made of it. -/
structure Assembled where
  block : Block
  output : AsmOutput
deriving DecidableEq, Repr

/-! ## One block after the other -/

section

variable {σ : Type}

/-- Assembles blocks in order. -/
def assembleAll (assemble : Assembler σ) : List Block → σ → List Assembled × σ
  | [], s => ([], s)
  | b :: blocks, s =>
    let (output, s) := assemble b.bodyLines s
    let (others, s) := assembleAll assemble blocks s
    (⟨b, output⟩ :: others, s)

theorem map_block_assembleAll (assemble : Assembler σ) (blocks : List Block) (s : σ) :
    (assembleAll assemble blocks s).1.map (·.block) = blocks := by
  induction blocks generalizing s with
  | nil => rfl
  | cons b blocks ih => simp [assembleAll, ih]

/-! ## In the order of a pool -/

/-- A pool of workers, who ask the assembler one at a time. It takes `n` blocks in some order, each of them once. The
    order may be another one each time. -/
class Pool (σ : Type) where
  order : σ → Nat → List Nat
  perm : ∀ s n, (order s n).Perm (List.range n)

/-- A pool with one worker takes the blocks as they come. -/
instance oneWorker : Pool σ :=
  ⟨fun _ n => List.range n, fun _ _ => .refl _⟩

/-- Puts back what was taken in some order of places. -/
def putBack {α : Type} (order : List Nat) (taken : List α) : List α :=
  (List.range order.length).filterMap fun i => taken[order.idxOf i]?

/-- Assembles blocks in some order of their places. -/
def assembleInOrder (order : List Nat) (assemble : Assembler σ) (blocks : List Block) (s : σ) : List Assembled × σ :=
  let (taken, s) := assembleAll assemble (order.filterMap (blocks[·]?)) s
  (putBack order taken, s)

/-- Assembles blocks, in the order of a pool if that is allowed and there are several. -/
def assembleBlocks (pool : Pool σ) (parallel : Bool) (assemble : Assembler σ) (blocks : List Block) (s : σ) :
    List Assembled × σ :=
  if parallel && 1 < blocks.length then
    assembleInOrder (pool.order s blocks.length) assemble blocks s
  else assembleAll assemble blocks s

end

/-! ## What is reported -/

/-- The functions that could not be assembled, in order. -/
def failedFunctions (assembled : List Assembled) : List String :=
  (assembled.filter fun a => !a.output.ok).map fun a => a.block.name

namespace Assembled

/-- The entry about a message, with the line of the source that it is about. -/
def diagnosticEntry (a : Assembled) (d : Diagnostic) : LogEntry :=
  match d.line with
  | some i => ⟨d.level, .assemble, s!"{a.block.name}:{a.block.sourceLine i}: {d.message}"⟩
  | none => ⟨d.level, .assemble, s!"{a.block.name}: {d.message}"⟩

/-- The entry about code that was made. -/
def codeEntry (a : Assembled) : LogEntry :=
  .info .assemble (s!"{a.block.name}: {a.output.code.length} bytes, {a.output.scalars} sgprs, " ++
    s!"{a.output.vectors} vgprs\n{hexDump a.output.code}")

/-- The entries about a block. -/
def entries (a : Assembled) : Log :=
  a.output.diagnostics.map a.diagnosticEntry ++
  (if Text.isAllBlank a.output.log then []
    else [.info .assemble s!"{a.block.name}: {Text.trimEnd a.output.log}"]) ++
  (if a.output.ok then [a.codeEntry] else [])

end Assembled

end Inlay
