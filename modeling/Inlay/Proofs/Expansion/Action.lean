import Inlay.Template.Expansion
import Inlay.Proofs.Evaluation.Course
import Inlay.Proofs.Lexing.Comments

/-!
# `Proofs.Expansion.Action` — what the segments of a source do

A segment by itself, without the program that the others are put into with it: a literal run is written, code is run,
the value of an expression is written, and a comment does nothing (`Action`). The code and the expression are what the
segment's own text stands for (`Segment.Means`). Actions are performed one after the other on one machine
(`Action.performAll`).

The program of a source has for each action the statements that perform it (`Action.statements`), and to run them one
after the other is to perform the actions (`perform_statementsOf`).
-/

namespace Inlay

open Machine

/-! ## Actions -/

/-- What a segment does when its source is expanded. -/
inductive Action where
  /-- Appends a text to the output. -/
  | write (text : String)
  /-- Runs statements. -/
  | run (p : Program)
  /-- Appends the text of a value to the output. -/
  | writeValue (e : Expr)
  /-- Does nothing. -/
  | skip

/-- **A text stands for an expression** if it can be read as one to its end. -/
def ReadsExpr (text : List Char) (e : Expr) : Prop :=
  ∃ ts rest, scanTokens (String.ofList text) = .ok ts ∧
    Grammar.expression (Grammar.depthFor ts) ts = .ok (e, rest) ∧ Grammar.nextKind rest = .eof

/-- **What a segment stands for** by itself. Code and expressions must be readable, and hold no comments. -/
inductive Segment.Means : Segment → Action → Prop where
  | literal (text : List Char) : Means (.literal text) (.write (String.ofList text))
  | code {text p} (plain : comments text = []) (read : parseText (String.ofList text) = .ok p) :
      Means (.code text) (.run p)
  | lineCode {text p} (plain : comments text = []) (read : parseText (String.ofList text) = .ok p) :
      Means (.lineCode text) (.run p)
  | expression {text e} (plain : comments text = []) (read : ReadsExpr (trim text) e) :
      Means (.expression text) (.writeValue e)
  | comment (text : List Char) : Means (.comment text) .skip

namespace Action

/-- Performs an action. Statements that end with a `break` or `continue` of no loop are an error. -/
def perform (b : Budget) : Action → Run Unit
  | write text => Machine.write text
  | run p => do
    match ← Stmt.execAll b p with
    | .normal => return ()
    | .break => fail .strayBreak
    | .continue => fail .strayContinue
  | writeValue e => do
    let v ← e.eval b
    Machine.write v.text
  | skip => return ()

/-- Performs actions in order, from the start of a machine, and gives its output. -/
def performAll (b : Budget) (actions : List Action) : Except Error String := do
  let (_, m) ← actions.forM (perform b) Machine.initial
  return m.output

/-- The literal runs that actions write. -/
def literals (actions : List Action) : List String :=
  actions.filterMap fun
    | write text => some text
    | _ => none

/-! ## Statements for actions -/

/-- A call of a builtin as a statement. -/
def call (f : Builtin) (argument : Expr) : Stmt :=
  .simple (.expression (.call f.name [argument]))

/-- The statements for an action when `n` literal runs came before it. -/
def statements (n : Nat) : Action → Program
  | write _ => [call .emitText (.intLiteral (Int64.ofNat n))]
  | run p => p
  | writeValue e => [call .emitValue e]
  | skip => []

/-- The statements for actions when `n` literal runs came before them. -/
def statementsOf (n : Nat) : List Action → Program
  | [] => []
  | a :: as => a.statements n ++ statementsOf (n + (literals [a]).length) as

variable {b : Budget} {p q : Program} {n : Nat}

/-! ## Running the statements -/

/-- **Statements in a row** are run one after the other. -/
theorem perform_run_append (b : Budget) (p q : Program) :
    perform b (.run (p ++ q)) = (do perform b (.run p); perform b (.run q)) := by
  rw [perform, perform, execAll_append, bind_assoc, bind_assoc]
  -- a `break` or `continue` that leaves the first statements is an error on both sides
  refine bind_congr fun flow => ?_
  cases flow with
  | normal =>
      rw [pure_bind]
      rfl
  | «break» => rfl
  | «continue» => rfl

/-- A call of a builtin as the only statement: its argument's value, and what the builtin appends for it. -/
theorem perform_call (b : Budget) (f : Builtin) (e : Expr) : perform b (.run [call f e]) = (do
    let v ← e.eval b
    let (text, _) ← lift (f.call b.literals [v])
    Machine.write text) := by
  have hname : Builtin.ofName? f.name = some f := by cases f <;> decide
  simp only [perform, call, Stmt.execAll, Stmt.exec, Simple.exec, Expr.eval, Expr.evalAll, hname, bind_assoc, pure_bind,
    bind_pure_unit]

/-- The literal run with a number that a word can hold. -/
theorem literalRun_ofNat {literals : List String} {text : String} (hn : n < UInt64.size / 2) (h : literals[n]? = some text) :
    Builtin.literalRun literals (Int64.ofNat n) = .ok text := by
  have htoInt : (Int64.ofNat n).toInt = n := Int64.toInt_ofNat_of_lt hn
  have hnonneg : ¬Int64.ofNat n < 0 := by
    rw [Int64.lt_iff_toInt_lt, htoInt]
    exact Int.not_lt.mpr (Int.natCast_nonneg n)
  unfold Builtin.literalRun
  rw [if_neg hnonneg, htoInt, Int.toNat_natCast, h]

theorem perform_emitText {text : String} (hn : n < UInt64.size / 2) (h : b.literals[n]? = some text) :
    perform b (.run [call .emitText (.intLiteral (Int64.ofNat n))]) = perform b (.write text) := by
  have hcall : Builtin.emitText.call b.literals [.int (Int64.ofNat n)] = .ok (text, .unset) := by
    show (Builtin.literalRun b.literals (Int64.ofNat n) >>= fun text => pure (text, Value.unset)) = .ok (text, .unset)
    rw [literalRun_ofNat hn h]
    rfl
  rw [perform_call, Expr.eval, pure_bind, hcall]
  rfl

theorem perform_emitValue (b : Budget) (e : Expr) :
    perform b (.run [call .emitValue e]) = perform b (.writeValue e) := by
  rw [perform_call]
  rfl

/-- **The statements for an action** do what the action does. -/
theorem perform_statements {a : Action} (hn : n + (literals [a]).length ≤ UInt64.size / 2)
    (h : literals [a] <+: b.literals.drop n) : perform b (.run (a.statements n)) = perform b a := by
  cases a with
  | write text =>
      obtain ⟨others, hothers⟩ := h
      have htext : b.literals[n]? = some text := by
        rw [← Nat.add_zero n, ← List.getElem?_drop, ← hothers]
        rfl
      exact perform_emitText hn htext
  | run p => rfl
  | writeValue e => exact perform_emitValue b e
  | skip => rfl

theorem literals_cons (a : Action) (as : List Action) : literals (a :: as) = literals [a] ++ literals as := by
  rw [literals, ← List.singleton_append, List.filterMap_append]
  rfl

/-- **The statements for actions** do what the actions do, one after the other. -/
theorem perform_statementsOf {as : List Action} (hn : n + (literals as).length ≤ UInt64.size / 2)
    (h : literals as = b.literals.drop n) : perform b (.run (statementsOf n as)) = as.forM (perform b) := by
  induction as generalizing n with
  | nil => rfl
  | cons a as ih =>
      rw [literals_cons] at hn h
      rw [List.length_append] at hn
      -- behind the runs that `a` writes come those that the other actions write
      have hrest : literals as = b.literals.drop (n + (literals [a]).length) := by
        rw [← List.drop_drop, ← h, List.drop_left]
      rw [statementsOf, perform_run_append, perform_statements (by omega) ⟨_, h⟩, ih (by omega) hrest]
      rfl

/-- The output of a program is what it writes when it is run as an action. -/
theorem run_eq (b : Budget) (p : Program) :
    p.run b = (do let (_, m) ← perform b (.run p) Machine.initial; return m.output) := by
  show (Stmt.execAll b p Machine.initial >>= _) = (Stmt.execAll b p Machine.initial >>= _) >>= _
  cases Stmt.execAll b p Machine.initial with
  | error => rfl
  | ok result =>
      obtain ⟨flow, m⟩ := result
      cases flow <;> rfl

/-- **The program of actions** gives what the actions give. -/
theorem run_statementsOf {as : List Action} (hn : (literals as).length ≤ UInt64.size / 2) (h : b.literals = literals as) :
    Program.run b (statementsOf 0 as) = performAll b as := by
  rw [run_eq, perform_statementsOf (by omega) h.symm]
  rfl

end Action

end Inlay
