import Inlay.Template.Grammar.Basic

/-!
# `Inlay.Template.Grammar.Expression` — reading expressions

One rule for each way of forming an expression, from the loosest to the tightest: assignment, the conditional
form, the ten levels of operators between two operands, operators in front of an operand, steps, and what stands
for itself. Operators of one level group to the left; assignments and the last part of the conditional form
group to the right.
-/

namespace Inlay.Grammar

/-- The operator between two operands that comes next, if it binds at `level` or tighter. -/
def operatorFrom? (level : Nat) (ts : List Token) : Option BinaryOp :=
  match (nextSymbol? ts).bind BinaryOp.ofSymbol? with
  | some op => if level ≤ op.level then some op else none
  | none => none

mutual

/-- An expression of any kind. -/
def expression : Nat → List Token → Reading (Expr × List Token)
  | 0, ts => .error (faultAt ts .missingEnd)
  | n + 1, ts => do
    let (target, ts) ← ternary n ts
    match (nextSymbol? ts).bind CompoundOp.assignment? with
    | none => .ok (target, ts)
    | some op =>
      match target with
      | .variable name => do
        let (value, ts) ← expression n ts.tail
        .ok (.assign name op value, ts)
      | _ => .error (faultAt ts .assignmentTarget)

/-- The conditional form, or an expression that binds tighter. -/
def ternary : Nat → List Token → Reading (Expr × List Token)
  | 0, ts => .error (faultAt ts .missingEnd)
  | n + 1, ts => do
    let (condition, ts) ← binary n 0 ts
    if nextIs .question ts then
      let (thenExpr, ts) ← expression n ts.tail
      let ts ← symbol .colon "':' in conditional expression" ts
      let (elseExpr, ts) ← ternary n ts
      .ok (.ternary condition thenExpr elseExpr, ts)
    else
      .ok (condition, ts)

/-- Operands joined by operators of `level` or tighter. -/
def binary : Nat → Nat → List Token → Reading (Expr × List Token)
  | 0, _, ts => .error (faultAt ts .missingEnd)
  | n + 1, level, ts => do
    let (left, ts) ← unary n ts
    binaryRest n level left ts

/-- The operators of `level` or tighter behind the operand `left`, with their right operands. -/
def binaryRest : Nat → Nat → Expr → List Token → Reading (Expr × List Token)
  | 0, _, _, ts => .error (faultAt ts .missingEnd)
  | n + 1, level, left, ts =>
    match operatorFrom? level ts with
    | none => .ok (left, ts)
    | some op => do
      let (right, ts) ← binary n (op.level + 1) ts.tail
      binaryRest n level (.binary op left right) ts

/-- An operand with the operators in front of it. -/
def unary : Nat → List Token → Reading (Expr × List Token)
  | 0, ts => .error (faultAt ts .missingEnd)
  | n + 1, ts =>
    match (nextSymbol? ts).bind UnaryOp.ofSymbol? with
    | some op => do
      let (operand, ts) ← unary n ts.tail
      .ok (.unary op operand, ts)
    | none =>
      match (nextSymbol? ts).bind Increment.ofSymbol? with
      | some step => do
        let (name, ts) ← identifier "variable after prefix increment" ts.tail
        .ok (.increment name step true, ts)
      | none => stepped n ts

/-- An operand with a step behind it, if there is one. -/
def stepped : Nat → List Token → Reading (Expr × List Token)
  | 0, ts => .error (faultAt ts .missingEnd)
  | n + 1, ts => do
    let (target, ts) ← primary n ts
    match (nextSymbol? ts).bind Increment.ofSymbol? with
    | none => .ok (target, ts)
    | some step =>
      match target with
      | .variable name => .ok (.increment name step false, ts.tail)
      | _ => .error (faultAt ts .incrementTarget)

/-- A literal, a variable, a call or an expression in parentheses. -/
def primary : Nat → List Token → Reading (Expr × List Token)
  | 0, ts => .error (faultAt ts .missingEnd)
  | n + 1, ts =>
    match nextKind ts with
    | .integer v => .ok (.intLiteral v, ts.tail)
    | .float v => .ok (.floatLiteral v, ts.tail)
    | .string v => .ok (.stringLiteral v, ts.tail)
    | .keyword .trueWord => .ok (.boolLiteral true, ts.tail)
    | .keyword .falseWord => .ok (.boolLiteral false, ts.tail)
    | .identifier name =>
      if nextIs .leftParen ts.tail then do
        let (args, ts) ← arguments n ts.tail.tail
        .ok (.call name args, ts)
      else
        .ok (.variable name, ts.tail)
    | .symbol .leftParen => do
      let (inner, ts) ← expression n ts.tail
      let ts ← symbol .rightParen "')' after expression" ts
      .ok (inner, ts)
    | other => .error (faultAt ts (.unexpectedToken other))

/-- The arguments of a call behind its opening parenthesis. -/
def arguments : Nat → List Token → Reading (List Expr × List Token)
  | 0, ts => .error (faultAt ts .missingEnd)
  | n + 1, ts => if nextIs .rightParen ts then .ok ([], ts.tail) else someArguments n ts

/-- One argument or more, and the closing parenthesis. -/
def someArguments : Nat → List Token → Reading (List Expr × List Token)
  | 0, ts => .error (faultAt ts .missingEnd)
  | n + 1, ts => do
    let (arg, ts) ← expression n ts
    if nextIs .comma ts then
      let (args, ts) ← someArguments n ts.tail
      .ok (arg :: args, ts)
    else
      let ts ← symbol .rightParen "')' after arguments" ts
      .ok ([arg], ts)

end

end Inlay.Grammar
