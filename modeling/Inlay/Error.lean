/-!
# `Inlay.Error` — what can go wrong

Every failure of the program is a value of `Error`, one constructor for each cause. `Error.message` is the only
place where a cause is put into words, `Error.severity` says whether it ends a compilation, and `Error.stage`
which stage of a compilation it comes from.
-/

namespace Inlay

/-- A stage of a compilation. -/
inductive Stage where
  /-- Checking the options, before any source is read. -/
  | options
  /-- Expanding the tags of the source. -/
  | template
  /-- Finding the embedded blocks. -/
  | extract
  /-- Assembling each block. -/
  | assemble
  /-- Writing the dummy kernels. -/
  | synthesize
  /-- Running the device compiler. -/
  | build
  /-- Patching the device binary. -/
  | patch
deriving DecidableEq, Repr

/-- The name of a stage in a rendered log. -/
def Stage.text : Stage → String
  | options => "options"
  | template => "template"
  | extract => "extract"
  | assemble => "assemble"
  | synthesize => "synthesize"
  | build => "build"
  | patch => "patch"

/-- Whether an error ends the compilation. -/
inductive Severity where
  | fatal
  | warning
deriving DecidableEq, Repr

/-- A cause of failure. -/
inductive Error where
  /-- Template code that cannot be read. The place is one in the program named by the listing. -/
  | templateSyntax (line column : Nat) (message listing : String)
  /-- Template code that failed while it ran. -/
  | templateFailed (cause : Error)
  /-- A variable that was read before it was set. -/
  | undefinedVariable (name : String)
  /-- A value of the wrong type. -/
  | typeMismatch (expected got : String)
  /-- A whole number divided by zero. -/
  | divisionByZero
  /-- A call of a function that does not exist. -/
  | unknownFunction (name : String)
  /-- A call with arguments that the function does not take. -/
  | invalidArguments (function reason : String)
  /-- Loops that ran out of their budget. -/
  | tooManyIterations (limit : Nat)
  /-- A break outside every loop. -/
  | strayBreak
  /-- A continue outside every loop. -/
  | strayContinue
  /-- A block parameter whose declared type has no register type. -/
  | unknownParameterType (function declaredType : String) (line : Nat)
  /-- An introducer that no well-formed block follows. -/
  | malformedBlock (line : Nat) (message : String)
  /-- A block parameter that would have to be cut inside a character. This is where a compiler stops abruptly, without a
      log and without an error to report; the stage, severity and message below only give the stop a place among the
      errors, and no user sees them. -/
  | indivisibleParameter
  /-- Blocks that did not assemble, in source order. -/
  | assemblyFailed (functions : List String)
  /-- Source that the device compiler rejected. -/
  | deviceBuildFailed (log : String)
  /-- A failure of the device outside a build. -/
  | deviceFault (message : String)
  /-- A block without a dummy in the binary. -/
  | anchorNotFound (function : String)
  /-- Options that the program cannot run with. -/
  | invalidOptions (message : String)
deriving DecidableEq, Repr, Inhabited

namespace Error

/-- The wording of each cause. -/
def message : Error → String
  | templateSyntax line column message listing =>
    s!"Template syntax error at line {line}, column {column}: {message}\n{listing}"
  | templateFailed cause => "Template evaluation failed: " ++ cause.message
  | undefinedVariable name => s!"Undefined variable: {name}"
  | typeMismatch expected got => s!"Type error: expected {expected}, got {got}"
  | divisionByZero => "Division by zero"
  | unknownFunction name => s!"Unknown function: {name}"
  | invalidArguments function reason => s!"Invalid arguments for {function}: {reason}"
  | tooManyIterations limit => s!"Too many iterations (limit: {limit})"
  | strayBreak => "Break statement outside loop"
  | strayContinue => "Continue statement outside loop"
  | unknownParameterType function declaredType line =>
    s!"Unknown parameter type '{declaredType}' in function {function} (line {line})"
  | malformedBlock line message => s!"Malformed block at line {line}: {message}"
  | indivisibleParameter => "Block parameter cannot be cut inside a character"
  | assemblyFailed functions => "Assembly failed for: " ++ String.intercalate ", " functions
  | deviceBuildFailed log => s!"Device build failed:\n{log}"
  | deviceFault message => s!"Device error: {message}"
  | anchorNotFound function => s!"Patch anchor not found for function {function}"
  | invalidOptions message => s!"Invalid options: {message}"

/-- A missing anchor skips one block; everything else ends the compilation. -/
def severity : Error → Severity
  | anchorNotFound _ => .warning
  | _ => .fatal

/-- The stage that a cause belongs to. -/
def stage : Error → Stage
  | templateSyntax .. | templateFailed _ | undefinedVariable _ | typeMismatch .. | divisionByZero
  | unknownFunction _ | invalidArguments .. | tooManyIterations _ | strayBreak | strayContinue => .template
  | unknownParameterType .. | malformedBlock .. | indivisibleParameter => .extract
  | invalidOptions _ => .options
  | assemblyFailed _ => .assemble
  | deviceBuildFailed _ | deviceFault _ => .build
  | anchorNotFound _ => .patch

end Error

end Inlay
