import Inlay.Template.Grammar.Statement
import Inlay.Template.Scopes
import Inlay.Template.Builtin

/-!
# `Inlay.Template.Evaluation` — running a program

A program runs on a `Machine`: the variables, the output so far, and how many times a loop has tested whether to
go on. That number is held below a limit, which is shared by all loops of a program, so every program ends:
statements and expressions are run by recursion on their form, and a loop by recursion on what is left of its
budget.
-/

namespace Inlay

/-- What a program changes while it runs. -/
structure Machine where
  /-- The variables. -/
  scopes : Scopes
  /-- What has been written. -/
  output : String
  /-- How many rounds of loops have begun. -/
  iterations : Nat
deriving Inhabited

/-- What a program is given. -/
structure Budget where
  /-- The runs of literal text that it can write. -/
  literals : List String
  /-- The greatest number of rounds. -/
  limit : Nat

/-- A computation on a machine. -/
abbrev Run := StateT Machine (Except Error)

/-- How a statement ends. -/
inductive Flow where
  | normal | break | continue
deriving DecidableEq, Repr

namespace Machine

/-- Before a program starts. -/
def initial : Machine :=
  ⟨.empty, "", 0⟩

/-- Fails with a cause. -/
def fail {α : Type} (cause : Error) : Run α :=
  fun _ => .error cause

/-- The result of something that needs no machine. -/
def lift {α : Type} (x : Except Error α) : Run α :=
  fun m => (·, m) <$> x

/-- Reads a variable. -/
def read (name : String) : Run Value :=
  fun m => (·, m) <$> m.scopes.get name

/-- Changes the variables. -/
def onScopes (f : Scopes → Scopes) : Run Unit :=
  fun m => .ok ((), { m with scopes := f m.scopes })

/-- Appends to the output. -/
def write (text : String) : Run Unit :=
  fun m => .ok ((), { m with output := m.output ++ text })

/-- Begins a round of a loop, if the limit permits it. -/
def beginRound (limit : Nat) : Run Unit :=
  fun m =>
    if m.iterations + 1 > limit then .error (.tooManyIterations limit)
    else .ok ((), { m with iterations := m.iterations + 1 })

/-- Does `round` until it says that it was the last one, and at most `rounds` times. -/
def loop (limit : Nat) (round : Run Bool) (rounds : Nat) : Run Unit :=
  match rounds with
  | 0 => fail (.tooManyIterations limit)
  | rounds + 1 => do
    beginRound limit
    if ← round then loop limit round rounds else pure ()

/-- Does `round` until it says that it was the last one. No loop can begin more rounds than are left. -/
def repeatRound (limit : Nat) (round : Run Bool) : Run Unit :=
  fun m => loop limit round (limit - m.iterations) m

end Machine

open Machine

/-! ## Expressions -/

mutual

/-- The value of an expression. -/
def Expr.eval (b : Budget) : Expr → Run Value
  | .intLiteral n => pure (.int n)
  | .floatLiteral x => pure (.float x)
  | .stringLiteral s => pure (.string s)
  | .boolLiteral v => pure (.bool v)
  | .variable name => read name
  | .binary .and left right => do
    if (← left.eval b).isTruthy then return .bool (← right.eval b).isTruthy
    else return .bool false
  | .binary .or left right => do
    if (← left.eval b).isTruthy then return .bool true
    else return .bool (← right.eval b).isTruthy
  | .binary op left right => do
    let v ← left.eval b
    let w ← right.eval b
    lift (op.apply v w)
  | .unary op operand => do
    lift (op.apply (← operand.eval b))
  | .assign name none value => do
    let v ← value.eval b
    onScopes (·.set name v)
    return v
  | .assign name (some op) value => do
    let v ← value.eval b
    let new ← lift (op.toBinary.apply (← read name) v)
    onScopes (·.set name new)
    return new
  | .increment name step inFront => do
    let old ← read name
    let new ← lift (old.stepBy step)
    onScopes (·.set name new)
    return if inFront then new else old
  | .ternary condition thenExpr elseExpr => do
    if (← condition.eval b).isTruthy then thenExpr.eval b else elseExpr.eval b
  | .call name args => do
    let values ← Expr.evalAll b args
    match Builtin.ofName? name with
    | some f =>
      let (text, v) ← lift (f.call b.literals values)
      write text
      return v
    | none => fail (.unknownFunction name)

/-- The values of expressions, from the left to the right. -/
def Expr.evalAll (b : Budget) : List Expr → Run (List Value)
  | [] => pure []
  | e :: es => do
    let v ← e.eval b
    let vs ← Expr.evalAll b es
    return v :: vs

end

/-! ## Statements -/

/-- Runs an expression or a declaration. -/
def Simple.exec (b : Budget) : Simple → Run Unit
  | .expression e => do
    let _ ← e.eval b
  | .declaration name none => onScopes (·.define name .unset)
  | .declaration name (some e) => do
    let v ← e.eval b
    onScopes (·.define name v)

/-- Whether a loop goes on. Without a condition it does. -/
def testCondition (b : Budget) : Option Expr → Run Bool
  | none => pure true
  | some e => do
    return (← e.eval b).isTruthy

/-- What a `for` loop does after its body. -/
def runStep (b : Budget) : Option Expr → Run Unit
  | none => pure ()
  | some e => do
    let _ ← e.eval b

mutual

/-- Runs a statement and says how it ended. -/
def Stmt.exec (b : Budget) : Stmt → Run Flow
  | .simple s => do
    s.exec b
    return .normal
  | .block body => do
    onScopes Scopes.enter
    let flow ← Stmt.execAll b body
    onScopes Scopes.exit
    return flow
  | .ifThen condition thenBranch => do
    if (← condition.eval b).isTruthy then thenBranch.exec b else return .normal
  | .ifThenElse condition thenBranch elseBranch => do
    if (← condition.eval b).isTruthy then thenBranch.exec b else elseBranch.exec b
  | .whileLoop condition body => do
    repeatRound b.limit do
      if (← condition.eval b).isTruthy then return (← body.exec b) != .break
      else return false
    return .normal
  | .forLoop init condition step body => do
    onScopes Scopes.enter
    match init with
    | some s => s.exec b
    | none => pure ()
    repeatRound b.limit do
      if ← testCondition b condition then
        if (← body.exec b) == .break then return false
        else
          runStep b step
          return true
      else return false
    onScopes Scopes.exit
    return .normal
  | .break => return .break
  | .continue => return .continue
  | .empty => return .normal

/-- Runs statements in order, up to the first one that does not end normally. -/
def Stmt.execAll (b : Budget) : List Stmt → Run Flow
  | [] => return .normal
  | s :: ss => do
    match ← s.exec b with
    | .normal => Stmt.execAll b ss
    | flow => return flow

end

/-! ## Programs -/

/-- The rounds that a program may begin if nothing else is said. -/
def defaultIterationLimit : Nat := 1000000

/-- Runs a program from its start and gives its output. -/
def Program.run (b : Budget) (p : Program) : Except Error String := do
  let (flow, m) ← Stmt.execAll b p Machine.initial
  match flow with
  | .normal => .ok m.output
  | .break => .error .strayBreak
  | .continue => .error .strayContinue

end Inlay
