import Inlay.Template.Expansion
import Inlay.Text.Comments
import Inlay.Kernel.Extraction
import Inlay.Kernel.Dummy
import Inlay.Patch.Report
import Inlay.Compiler.Options
import Inlay.Compiler.Log
import Inlay.Compiler.Compilation
import Inlay.Proofs.Patch.Placement
import Inlay.Proofs.Compiler.LineNumbers
import Inlay.Proofs.Compiler.RememberedBuilds
import Inlay.Proofs.Compiler.CacheHistory
import Inlay.Proofs.Compiler.Course
import Inlay.Proofs.Compiler.LastBinaries
import Inlay.Proofs.Compiler.Verdict
import Inlay.Proofs.Grammar.Printing
import Inlay.Proofs.Expansion.LiteralCalls
import Inlay.Proofs.Grammar.KeptTokens
import Inlay.Proofs.Kernel.Written
import Inlay.Proofs.Kernel.Scanning
import Inlay.Proofs.Kernel.TakenApart
import Inlay.Proofs.Kernel.Tiling
import Inlay.Proofs.Kernel.DummyText
import Inlay.Proofs.Kernel.Harmless
import Inlay.Proofs.Compiler.NoAssembly
import Inlay.Proofs.Kernel.Parameters
import Inlay.Proofs.Kernel.Rendering
import Inlay.Proofs.Evaluation.Limit
import Inlay.Proofs.Lexing.TokenRow
import Inlay.Proofs.Lexing.RoundTrip
import Inlay.Proofs.Text.BytePieces
import Inlay.Proofs.Patch.Footprint
import Inlay.Proofs.Text.Seams
import Inlay.Proofs.Kernel.OpaqueLiterals
import Inlay.Proofs.Kernel.Flaws
import Inlay.Proofs.Kernel.ParameterFaults
import Inlay.Proofs.Kernel.FirstFault
import Inlay.Proofs.Evaluation.Effects
import Inlay.Proofs.Evaluation.Restored
import Inlay.Proofs.Evaluation.WholeNumbers
import Inlay.Proofs.Evaluation.Shadowing
import Inlay.Proofs.Compiler.BuildFlag
import Inlay.Proofs.Kernel.DeclaredTypes
import Inlay.Proofs.Kernel.KernelTokens
import Inlay.Proofs.Kernel.Declarations
import Inlay.Proofs.Kernel.DummyTokens
import Inlay.Proofs.Kernel.WellMade
import Inlay.Proofs.Evaluation.Unlimited
import Inlay.Proofs.Compiler.OptionsJson
import Inlay.Proofs.Evaluation.Jumps
import Inlay.Proofs.Kernel.ByteBlocks
import Inlay.Proofs.Kernel.ByteScan
import Inlay.Proofs.Grammar.InsideTokens
import Inlay.Proofs.Text.CopyLoop
