import Inlay.Text.Lines
import Inlay.Template.Segment
import Inlay.Template.Evaluation

/-!
# `Inlay.Template.Expansion` — from a source with tags to plain source

The segments of a source become one program: a literal run becomes a call that writes it, an expression tag a
call that writes its value, and code stays as it is. The program runs once, and what it writes is the expanded
source. Literal runs are passed beside the program and not quoted in it.
-/

namespace Inlay

/-! ## The program of a source -/

/-- A call of a builtin as a statement on a line of its own. -/
def callLine (f : Builtin) (argument : List Char) : List Char :=
  f.name.toList ++ '(' :: argument ++ [')', ';', '\n']

/-- The program text of segments when `n` literal runs came before them. -/
def programFrom (n : Nat) : List Segment → List Char
  | [] => []
  | .literal _ :: rest => callLine .emitText (toString n).toList ++ programFrom (n + 1) rest
  | .code text :: rest | .lineCode text :: rest => text ++ '\n' :: programFrom n rest
  | .expression text :: rest => callLine .emitValue (trim text) ++ programFrom n rest
  | .comment _ :: rest => programFrom n rest

/-- The program text of segments. -/
def programText (segments : List Segment) : String :=
  String.ofList (programFrom 0 segments)

/-- The literal runs of segments in order. -/
def literalRuns (segments : List Segment) : List String :=
  segments.filterMap fun s => s.literal?.map String.ofList

/-! ## Expansion -/

/-- A syntax fault as an error that lists the text it was found in. -/
def listed {α : Type} (text : String) (x : Except SyntaxFault α) : Except Error α :=
  x.mapError fun fault => fault.toError (numberedListing text)

/-- Expands the tags of a source, with loops held to `limit` rounds. A source without a tag is its own
    expansion. -/
def expand (limit : Nat) (source : String) : Except Error String :=
  if (cutAtDouble? '[' source.toList).isNone then .ok source
  else do
    let parts ← listed source (segments source)
    let text := programText parts
    let program ← listed text (parseText text)
    (program.run ⟨literalRuns parts, limit⟩).mapError .templateFailed

end Inlay
