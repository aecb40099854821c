import Inlay.Template.Token

/-!
# `Inlay.Template.Program` — programs of the template language

Expressions, statements and programs as trees. What the grammar cannot produce has no form here: a compound
assignment names one of five operators (`CompoundOp`), an increment goes up or down by one (`Increment`), and
only a `Simple` statement, one without parts of its own, may start a `for` loop. So a statement about every program,
statement or expression is about the trees that the parser can build. It says nothing of others that a caller could
put together by hand: an assignment joined with any operator, a step by any amount, a loop that starts with any
statement.
-/

namespace Inlay

/-! ## Operators -/

/-- The operators between two operands. -/
inductive BinaryOp where
  | add | sub | mul | div | mod
  | shl | shr | bitAnd | bitOr | bitXor
  | eq | notEq | lt | ltEq | gt | gtEq
  | and | or
deriving DecidableEq, Repr

namespace BinaryOp

/-- The symbol of an operator. -/
def symbol : BinaryOp → Symbol
  | add => .plus
  | sub => .minus
  | mul => .star
  | div => .slash
  | mod => .percent
  | shl => .shl
  | shr => .shr
  | bitAnd => .amp
  | bitOr => .pipe
  | bitXor => .caret
  | eq => .eq
  | notEq => .notEq
  | lt => .lt
  | ltEq => .ltEq
  | gt => .gt
  | gtEq => .gtEq
  | and => .and
  | or => .or

/-- How tightly an operator binds, from 0 for `or` to 9 for the products. -/
def level : BinaryOp → Nat
  | or => 0
  | and => 1
  | bitOr => 2
  | bitXor => 3
  | bitAnd => 4
  | eq | notEq => 5
  | lt | ltEq | gt | gtEq => 6
  | shl | shr => 7
  | add | sub => 8
  | mul | div | mod => 9

/-- The operator that a symbol stands for between two operands. -/
def ofSymbol? : Symbol → Option BinaryOp
  | .plus => some add
  | .minus => some sub
  | .star => some mul
  | .slash => some div
  | .percent => some mod
  | .shl => some shl
  | .shr => some shr
  | .amp => some bitAnd
  | .pipe => some bitOr
  | .caret => some bitXor
  | .eq => some eq
  | .notEq => some notEq
  | .lt => some lt
  | .ltEq => some ltEq
  | .gt => some gt
  | .gtEq => some gtEq
  | .and => some and
  | .or => some or
  | _ => none

theorem ofSymbol?_symbol (op : BinaryOp) : ofSymbol? op.symbol = some op := by
  cases op <;> rfl

theorem level_le_nine (op : BinaryOp) : op.level ≤ 9 := by
  cases op <;> decide

end BinaryOp

/-- The operators in front of one operand. -/
inductive UnaryOp where
  | neg | not | bitNot
deriving DecidableEq, Repr

namespace UnaryOp

/-- The symbol of an operator. -/
def symbol : UnaryOp → Symbol
  | neg => .minus
  | not => .not
  | bitNot => .tilde

/-- The operator that a symbol stands for in front of an operand. -/
def ofSymbol? : Symbol → Option UnaryOp
  | .minus => some neg
  | .not => some not
  | .tilde => some bitNot
  | _ => none

theorem ofSymbol?_symbol (op : UnaryOp) : ofSymbol? op.symbol = some op := by
  cases op <;> rfl

end UnaryOp

/-- The operators that may be joined with an assignment. -/
inductive CompoundOp where
  | add | sub | mul | div | mod
deriving DecidableEq, Repr

namespace CompoundOp

/-- The operator that a compound assignment applies. -/
def toBinary : CompoundOp → BinaryOp
  | add => .add
  | sub => .sub
  | mul => .mul
  | div => .div
  | mod => .mod

/-- The symbol of a compound assignment. -/
def symbol : CompoundOp → Symbol
  | add => .plusAssign
  | sub => .minusAssign
  | mul => .starAssign
  | div => .slashAssign
  | mod => .percentAssign

/-- The symbol of an assignment, compound or plain. -/
def assignSymbol : Option CompoundOp → Symbol
  | none => .assign
  | some op => op.symbol

/-- The assignment that a symbol stands for: `some none` for the plain one. -/
def assignment? : Symbol → Option (Option CompoundOp)
  | .assign => some none
  | .plusAssign => some (some add)
  | .minusAssign => some (some sub)
  | .starAssign => some (some mul)
  | .slashAssign => some (some div)
  | .percentAssign => some (some mod)
  | _ => none

theorem assignment?_assignSymbol (op : Option CompoundOp) : assignment? (assignSymbol op) = some op := by
  rcases op with _ | op
  · rfl
  · cases op <;> rfl

end CompoundOp

/-- A step up or down by one. -/
inductive Increment where
  | up | down
deriving DecidableEq, Repr

namespace Increment

/-- The amount of a step. -/
def delta : Increment → Int64
  | up => 1
  | down => -1

/-- The symbol of a step. -/
def symbol : Increment → Symbol
  | up => .plusPlus
  | down => .minusMinus

/-- The step that a symbol stands for. -/
def ofSymbol? : Symbol → Option Increment
  | .plusPlus => some up
  | .minusMinus => some down
  | _ => none

theorem ofSymbol?_symbol (i : Increment) : ofSymbol? i.symbol = some i := by
  cases i <;> rfl

end Increment

/-! ## Trees -/

/-- Expressions. -/
inductive Expr where
  | intLiteral (n : Int64)
  | floatLiteral (x : Float)
  | stringLiteral (s : String)
  | boolLiteral (b : Bool)
  | variable (name : String)
  | binary (op : BinaryOp) (left right : Expr)
  | unary (op : UnaryOp) (operand : Expr)
  /-- An assignment, which applies `op` to the old and the new value if there is one. -/
  | assign (name : String) (op : Option CompoundOp) (value : Expr)
  /-- A step of a variable. Its value is the new one if the symbol stands in front, else the old one. -/
  | increment (name : String) (step : Increment) (inFront : Bool)
  | ternary (condition thenExpr elseExpr : Expr)
  | call (name : String) (args : List Expr)
deriving Inhabited

/-- Statements without a statement inside. -/
inductive Simple where
  | expression (e : Expr)
  /-- A new variable in the innermost scope; without a value it is unset. -/
  | declaration (name : String) (value : Option Expr)
deriving Inhabited

/-- Statements. -/
inductive Stmt where
  | simple (s : Simple)
  | block (body : List Stmt)
  | ifThen (condition : Expr) (thenBranch : Stmt)
  | ifThenElse (condition : Expr) (thenBranch elseBranch : Stmt)
  | whileLoop (condition : Expr) (body : Stmt)
  /-- A loop with its own scope. Without a condition it goes on until it is left. -/
  | forLoop (init : Option Simple) (condition step : Option Expr) (body : Stmt)
  | break
  | continue
  | empty
deriving Inhabited

/-- A program: its statements in order. -/
abbrev Program := List Stmt

end Inlay
