import Inlay.Text.Position
import Inlay.Text.Letter
import Inlay.Text.Blank
import Inlay.Kernel.RegisterType

/-!
# `Inlay.Kernel.Block` — an embedded block

A block is kept as it stands in the source, cut into its parts (`BlockText`), with its place and its parameters.
Everything that is reported about a block, such as its lines or its length, is read off these.
-/

namespace Inlay

/-- The parts of a block as it is written: `introducer gap name gap (list) gap {body} ending`. -/
structure BlockText where
  /-- The word that opens the block. -/
  introducer : List Char
  /-- The blanks in front of the name. -/
  beforeName : List Char
  /-- The name of the function. -/
  name : List Char
  /-- The blanks in front of the parameter list. -/
  beforeList : List Char
  /-- What stands between the parentheses. -/
  list : List Char
  /-- The blanks in front of the body. -/
  beforeBody : List Char
  /-- What stands between the braces. -/
  body : List Char
  /-- The blanks and the semicolon behind the body, if there is one. -/
  ending : List Char
deriving DecidableEq, Repr

namespace BlockText

/-- What stands in front of the parameters. -/
def opening (t : BlockText) : List Char :=
  t.introducer ++ t.beforeName ++ t.name ++ t.beforeList ++ ['(']

/-- What stands in front of the opening brace. -/
def header (t : BlockText) : List Char :=
  t.opening ++ t.list ++ ')' :: t.beforeBody

/-- The whole block. -/
def chars (t : BlockText) : List Char :=
  t.header ++ '{' :: t.body ++ '}' :: t.ending

end BlockText

/-- A parameter of a block. -/
structure Param where
  /-- Its place in the list, from zero. -/
  index : Nat
  /-- Its type as declared, with single spaces between the words. -/
  declaredType : String
  /-- What the assembler sees. -/
  registerType : RegisterType
  /-- Its name, if the source gives one. -/
  given : Option String
deriving DecidableEq, Repr

namespace Param

/-- The name that a parameter without one is given. -/
def generatedName (index : Nat) : String :=
  s!"auto_gen_var_name_{index}"

/-- The name of a parameter. -/
def name (p : Param) : String :=
  p.given.getD (generatedName p.index)

/-- The warning about a parameter of the function `function` that has no name. -/
def warning? (function : String) (p : Param) : Option String :=
  match p.given with
  | some _ => none
  | none =>
    some s!"{function}: parameter {p.index} of type '{p.declaredType}' has no name, using {p.name}"

end Param

/-- A block in its source. -/
structure Block where
  /-- Where the introducer stands. -/
  position : Position
  /-- The block as it is written. -/
  text : BlockText
  /-- Its parameters in order. -/
  params : List Param
deriving DecidableEq, Repr

namespace Block

/-- The name of the function. -/
def name (b : Block) : String :=
  String.ofList b.text.name

/-- The text between the braces. -/
def body (b : Block) : String :=
  String.ofList b.text.body

/-- The lines of the body, without carriage returns at their ends. The first one is right behind the brace. -/
def bodyLines (b : Block) : List String :=
  (pieces (· == '\n') b.text.body).map fun line =>
    String.ofList (line.reverse.dropWhile (· == '\r')).reverse

/-- Bytes in front of the block. -/
def start (b : Block) : Nat :=
  b.position.offset

/-- Bytes that the block takes. -/
def length (b : Block) : Nat :=
  byteLength b.text.chars

/-- Bytes up to the end of the block. -/
def stop (b : Block) : Nat :=
  b.start + b.length

/-- The line of the introducer. -/
def startLine (b : Block) : Nat :=
  b.position.line

/-- The newlines between the introducer and the opening brace. -/
def headerLines (b : Block) : Nat :=
  newlines b.text.header

/-- The newlines in the whole block. -/
def spanLines (b : Block) : Nat :=
  newlines b.text.chars

/-- The line of the source on which line `i` of the body stands, counted from one. -/
def sourceLine (b : Block) (i : Nat) : Nat :=
  b.startLine + b.headerLines + (i - 1)

/-- The warnings about parameters without a name. -/
def warnings (b : Block) : List String :=
  b.params.filterMap (Param.warning? b.name)

end Block

end Inlay
