import Inlay.Template.Program

/-!
# `Inlay.Template.Grammar.Basic` — reading from a list of tokens

A grammar rule takes the tokens that are left and gives what it read with the tokens behind it, or the fault at
the token where no rule goes on. Rules recurse on a depth that is spent at every call: a rule calls fewer than
ten others before a token is read, so `depthFor` is enough for every list of tokens.
-/

namespace Inlay.Grammar

/-- A result, or the fault that stopped the reading. -/
abbrev Reading := Except SyntaxFault

/-- A depth that no rule uses up on the tokens `ts`. -/
def depthFor (ts : List Token) : Nat :=
  10 * (ts.length + 1)

/-- The kind of the next token. -/
def nextKind : List Token → TokenKind
  | [] => .eof
  | t :: _ => t.kind

/-- The next token as a symbol. -/
def nextSymbol? (ts : List Token) : Option Symbol :=
  match nextKind ts with
  | .symbol s => some s
  | _ => none

/-- Whether the next token is the symbol `s`. -/
def nextIs (s : Symbol) (ts : List Token) : Bool :=
  (nextKind ts).isSymbol s

/-- The fault `cause` at the next token. -/
def faultAt (ts : List Token) (cause : SyntaxCause) : SyntaxFault :=
  match ts with
  | [] => ⟨default, .missingEnd⟩
  | t :: _ => ⟨t.position, cause⟩

/-- The fault at the next token, which is not what was expected. -/
def unexpected (what : String) (ts : List Token) : SyntaxFault :=
  faultAt ts (.expected what (nextKind ts))

/-- Reads the symbol `s`, called `what` when it is missing. -/
def symbol (s : Symbol) (what : String) (ts : List Token) : Reading (List Token) :=
  if nextIs s ts then .ok ts.tail else .error (unexpected what ts)

/-- Reads a name, called `what` when it is missing. -/
def identifier (what : String) (ts : List Token) : Reading (String × List Token) :=
  match nextKind ts with
  | .identifier name => .ok (name, ts.tail)
  | _ => .error (unexpected what ts)

end Inlay.Grammar
