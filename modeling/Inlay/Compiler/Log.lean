import Inlay.Error
import Inlay.Json.Basic

/-!
# `Inlay.Compiler.Log` — what a compilation reports

A log is the list of entries in the order in which they were made. A compilation that fails still gives the log
up to the failure, with the failure as its last entry.
-/

namespace Inlay

/-- How serious an entry is. -/
inductive LogLevel where
  | info | warning | error
deriving DecidableEq, Repr

namespace LogLevel

/-- The name of a level in a rendered log. -/
def text : LogLevel → String
  | info => "info"
  | warning => "warning"
  | error => "error"

/-- The name of a level in JSON. -/
def name : LogLevel → String
  | info => "Info"
  | warning => "Warning"
  | error => "Error"

end LogLevel

/-- The name of a stage in JSON. -/
def Stage.name : Stage → String
  | options => "Options"
  | template => "Template"
  | extract => "Extract"
  | assemble => "Assemble"
  | synthesize => "Synthesize"
  | build => "Build"
  | patch => "Patch"

/-- An entry of a log. -/
structure LogEntry where
  level : LogLevel
  stage : Stage
  /-- The text, which may have several lines. -/
  message : String
deriving DecidableEq, Repr

namespace LogEntry

/-- An entry that only informs. -/
def info (stage : Stage) (message : String) : LogEntry :=
  ⟨.info, stage, message⟩

/-- An entry about something that stops nothing. -/
def warning (stage : Stage) (message : String) : LogEntry :=
  ⟨.warning, stage, message⟩

/-- An entry about something that stops the compilation. -/
def error (stage : Stage) (message : String) : LogEntry :=
  ⟨.error, stage, message⟩

/-- The entry about an error, under the stage that it comes from and as serious as it is. -/
def ofError (e : Error) : LogEntry :=
  ⟨match e.severity with
    | .fatal => .error
    | .warning => .warning, e.stage, e.message⟩

/-- An entry with the end of its line. -/
def render (e : LogEntry) : String :=
  s!"[{e.stage.text}] {e.level.text}: {e.message}\n"

/-- The JSON of an entry. -/
def toJson (e : LogEntry) : Json :=
  .object [("level", .string e.level.name), ("stage", .string e.stage.name), ("message", .string e.message)]

end LogEntry

/-- The entries of a compilation in order. -/
abbrev Log := List LogEntry

namespace Log

/-- The entries of a level. -/
def atLevel (level : LogLevel) (log : Log) : Log :=
  log.filter (·.level == level)

/-- Whether something stopped the compilation. -/
def hasErrors (log : Log) : Bool :=
  log.any (·.level == .error)

/-- The number of warnings. -/
def warningCount (log : Log) : Nat :=
  log.countP (·.level == .warning)

/-- The entries line by line. -/
def render (log : Log) : String :=
  String.join (log.map LogEntry.render)

/-- The JSON of a log. -/
def toJson (log : Log) : Json :=
  .object [("entries", .array (log.map LogEntry.toJson))]

/-- The JSON text of a log, on lines. -/
def toJsonText (log : Log) : String :=
  log.toJson.pretty

end Log

end Inlay
