import Inlay.Template.Lexer
import Inlay.Template.Grammar.Expression

/-!
# `Inlay.Template.Grammar.Statement` — reading statements and programs

A declaration is a type word in front of a name. The language has no static types, so the word says only that a
new variable begins. `parseTokens` reads a whole program.
-/

namespace Inlay.Grammar

/-- The words that begin a declaration when a name follows. -/
def declarationWords : List String :=
  ["int", "uint", "long", "ulong", "short", "ushort", "char", "uchar", "float", "double", "bool",
    "string", "var", "auto"]

/-- The name that the next tokens declare, and the tokens behind it. -/
def declared? (ts : List Token) : Option (String × List Token) :=
  match nextKind ts, nextKind ts.tail with
  | .identifier word, .identifier name =>
    if declarationWords.contains word then some (name, ts.tail.tail) else none
  | _, _ => none

/-- A declaration or an expression, without a semicolon. -/
def simple (n : Nat) (ts : List Token) : Reading (Simple × List Token) :=
  match declared? ts with
  | some (name, ts) =>
    if nextIs .assign ts then do
      let (value, ts) ← expression n ts.tail
      .ok (.declaration name (some value), ts)
    else
      .ok (.declaration name none, ts)
  | none => do
    let (e, ts) ← expression n ts
    .ok (.expression e, ts)

/-- A part that is missing if the symbol `s` comes next. -/
def optionalBefore {α : Type} (s : Symbol) (part : List Token → Reading (α × List Token)) (ts : List Token) :
    Reading (Option α × List Token) :=
  if nextIs s ts then .ok (none, ts)
  else do
    let (x, ts) ← part ts
    .ok (some x, ts)

mutual

/-- A statement of any kind. -/
def statement : Nat → List Token → Reading (Stmt × List Token)
  | 0, ts => .error (faultAt ts .missingEnd)
  | n + 1, ts =>
    match nextKind ts with
    | .symbol .leftBrace => do
      let (body, ts) ← blockBody n ts.tail
      .ok (.block body, ts)
    | .keyword .ifWord => do
      let ts ← symbol .leftParen "'(' after 'if'" ts.tail
      let (condition, ts) ← expression n ts
      let ts ← symbol .rightParen "')' after if condition" ts
      let (thenBranch, ts) ← statement n ts
      if (nextKind ts).isKeyword .elseWord then
        let (elseBranch, ts) ← statement n ts.tail
        .ok (.ifThenElse condition thenBranch elseBranch, ts)
      else
        .ok (.ifThen condition thenBranch, ts)
    | .keyword .whileWord => do
      let ts ← symbol .leftParen "'(' after 'while'" ts.tail
      let (condition, ts) ← expression n ts
      let ts ← symbol .rightParen "')' after while condition" ts
      let (body, ts) ← statement n ts
      .ok (.whileLoop condition body, ts)
    | .keyword .forWord => do
      let ts ← symbol .leftParen "'(' after 'for'" ts.tail
      let (init, ts) ← optionalBefore .semicolon (simple n) ts
      let ts ← symbol .semicolon "';' after for initializer" ts
      let (condition, ts) ← optionalBefore .semicolon (expression n) ts
      let ts ← symbol .semicolon "';' after for condition" ts
      let (step, ts) ← optionalBefore .rightParen (expression n) ts
      let ts ← symbol .rightParen "')' after for clauses" ts
      let (body, ts) ← statement n ts
      .ok (.forLoop init condition step body, ts)
    | .keyword .breakWord => do
      let ts ← symbol .semicolon "';' after 'break'" ts.tail
      .ok (.break, ts)
    | .keyword .continueWord => do
      let ts ← symbol .semicolon "';' after 'continue'" ts.tail
      .ok (.continue, ts)
    | .symbol .semicolon => .ok (.empty, ts.tail)
    | _ => do
      let (s, ts) ← simple n ts
      let ts ← symbol .semicolon "';' after statement" ts
      .ok (.simple s, ts)

/-- The statements of a block behind its opening brace, and the closing brace. -/
def blockBody : Nat → List Token → Reading (List Stmt × List Token)
  | 0, ts => .error (faultAt ts .missingEnd)
  | n + 1, ts =>
    match nextKind ts with
    | .symbol .rightBrace => .ok ([], ts.tail)
    | .eof => .error (faultAt ts .unclosedBrace)
    | _ => do
      let (first, ts) ← statement n ts
      let (others, ts) ← blockBody n ts
      .ok (first :: others, ts)

end

/-- Statements up to the end of the source. -/
def statements : Nat → List Token → Reading (List Stmt × List Token)
  | 0, ts => .error (faultAt ts .missingEnd)
  | n + 1, ts =>
    if (nextKind ts).isEof then .ok ([], ts)
    else do
      let (first, ts) ← statement n ts
      let (others, ts) ← statements n ts
      .ok (first :: others, ts)

end Inlay.Grammar

namespace Inlay

/-- The program that a list of tokens stands for. -/
def parseTokens (ts : List Token) : Except SyntaxFault Program :=
  (·.1) <$> Grammar.statements (Grammar.depthFor ts) ts

/-- The program that a text stands for. -/
def parseText (source : String) : Except SyntaxFault Program :=
  scanTokens source >>= parseTokens

end Inlay
