import Inlay.Template.Evaluation
import Inlay.Proofs.Fallible

/-!
# `Proofs.Evaluation.Faults` — what fails in an expression

An expression fails for want of a value: a variable or function that is not there, operands or arguments that do not
fit, a division by zero (`Error.OfValues`). Operations have no other failure (`Tame`), and so expressions have none
either. They do not begin rounds of loops: they are computations of values (`Machine.Computes`), which is closed under
everything that expressions are made of (`Expr.computes_eval`).
-/

namespace Inlay

open Machine

variable {α β : Type} {e : Error}

/-- **An error of values**: there is no value, or none that fits. -/
def Error.OfValues : Error → Prop
  | .undefinedVariable _ | .typeMismatch .. | .divisionByZero | .unknownFunction _ | .invalidArguments .. => True
  | _ => False

/-- A result that is no failure, or the failure to compute a value. -/
def Tame (x : Except Error α) : Prop :=
  ∀ e, x = .error e → e.OfValues

namespace Tame

theorem ok (a : α) : Tame (.ok a) := by
  intro e h
  cases h

theorem error (h : e.OfValues) : Tame (.error e : Except Error α) := by
  intro e' heq
  cases heq
  exact h

theorem bind {x : Except Error α} {f : α → Except Error β} (hx : Tame x) (hf : ∀ a, Tame (f a)) : Tame (x >>= f) := by
  intro e h
  rcases bind_eq_error.mp h with h | ⟨a, -, h⟩
  · exact hx e h
  · exact hf a e h

theorem map {x : Except Error α} (f : α → β) (hx : Tame x) : Tame (f <$> x) := by
  intro e h
  exact hx e (map_eq_error.mp h)

end Tame

/-! ## Operations -/

namespace Value

theorem tame_asInt (v : Value) : Tame v.asInt := by
  cases v <;> first | exact .ok _ | exact .error trivial

theorem tame_asBits (v : Value) : Tame v.asBits := by
  cases v <;> first | exact .ok _ | exact .error trivial

theorem tame_negate (v : Value) : Tame v.negate := by
  cases v <;> first | exact .ok _ | exact .error trivial

theorem tame_magnitude (v : Value) : Tame v.magnitude := by
  cases v <;> first | exact .ok _ | exact .error trivial

theorem tame_stepBy (i : Increment) (v : Value) : Tame (v.stepBy i) := by
  cases v <;> first | exact .ok _ | exact .error trivial

theorem tame_wholeQuotient (a b : Int64) : Tame (wholeQuotient a b) := by
  unfold wholeQuotient
  split
  · exact .error trivial
  · exact .ok _

theorem tame_wholeRemainder (a b : Int64) : Tame (wholeRemainder a b) := by
  unfold wholeRemainder
  split
  · exact .error trivial
  · exact .ok _

theorem tame_arithmetic {whole : Int64 → Int64 → Except Error Int64} (h : ∀ a b, Tame (whole a b))
    (real : Float → Float → Float) (left right : Value) : Tame (arithmetic whole real left right) := by
  unfold arithmetic
  split
  · exact (h _ _).map _
  · exact .ok _
  · exact .error trivial
  · exact .error trivial

theorem tame_bitwise (f : Int64 → Int64 → Int64) (left right : Value) : Tame (bitwise f left right) :=
  left.tame_asBits.bind fun _ => right.tame_asBits.bind fun _ => .ok _

theorem tame_order (left right : Value) : Tame (order left right) := by
  unfold order
  split
  · exact .ok _
  · split
    · exact .ok _
    · split
      · exact .ok _
      · exact .error trivial
    · exact .error trivial

theorem tame_plus (left right : Value) : Tame (left.plus right) := by
  unfold plus
  split
  · exact .ok _
  · exact .ok _
  · exact tame_arithmetic (fun _ _ => .ok _) _ _ _

end Value

theorem BinaryOp.tame_apply (op : BinaryOp) (left right : Value) : Tame (op.apply left right) := by
  cases op with
  | add => exact left.tame_plus right
  | sub | mul => exact Value.tame_arithmetic (fun _ _ => .ok _) _ _ _
  | div => exact Value.tame_arithmetic Value.tame_wholeQuotient _ _ _
  | mod => exact Value.tame_arithmetic Value.tame_wholeRemainder _ _ _
  | shl | shr | bitAnd | bitOr | bitXor => exact Value.tame_bitwise _ _ _
  | eq | notEq | and | or => exact .ok _
  | lt | ltEq | gt | gtEq => exact (left.tame_order right).map _

theorem UnaryOp.tame_apply (op : UnaryOp) (v : Value) : Tame (op.apply v) := by
  cases op with
  | neg => exact v.tame_negate
  | not => exact .ok _
  | bitNot => exact v.tame_asBits.map _

namespace Builtin

theorem tame_oneArgument (f : Builtin) (args : List Value) : Tame (f.oneArgument args) := by
  unfold oneArgument
  split
  · exact .ok _
  · exact .error trivial

theorem tame_twoArguments (f : Builtin) (args : List Value) : Tame (f.twoArguments args) := by
  unfold twoArguments
  split
  · exact .ok _
  · exact .error trivial

theorem tame_literalRun (literals : List String) (index : Int64) : Tame (literalRun literals index) := by
  unfold literalRun
  split
  · exact .ok _
  · exact .error trivial

theorem tame_call (f : Builtin) (literals : List String) (args : List Value) : Tame (f.call literals args) := by
  cases f with
  | emitText =>
      exact (tame_oneArgument _ args).bind fun v => v.tame_asInt.bind fun n =>
        (tame_literalRun literals n).bind fun _ => .ok _
  | emitValue | str => exact (tame_oneArgument _ args).bind fun _ => .ok _
  | min | max => exact (tame_twoArguments _ args).bind fun (v, w) => (v.tame_order w).bind fun _ => .ok _
  | abs => exact (tame_oneArgument _ args).bind fun v => v.tame_magnitude.bind fun _ => .ok _
  | hex => exact (tame_oneArgument _ args).bind fun v => v.tame_asBits.bind fun _ => .ok _

end Builtin

namespace Scopes

theorem tame_get (name : String) (s : Scopes) : Tame (s.get name) := by
  unfold get
  split
  · exact .ok _
  · exact .error trivial

end Scopes

/-! ## Computations -/

namespace Machine

/-- **A computation of values** begins no round, and fails with nothing but an error of values. -/
structure Computes (x : Run α) : Prop where
  /-- No round is begun. -/
  iterations : ∀ {m a m'}, x m = .ok (a, m') → m'.iterations = m.iterations
  /-- Nothing else goes wrong. -/
  tame : ∀ m, Tame (x m)

namespace Computes

theorem pure (a : α) : Computes (Pure.pure a : Run α) where
  iterations h := by cases h; rfl
  tame _ := .ok _

theorem fail (h : e.OfValues) : Computes (fail e : Run α) where
  iterations h := nomatch h
  tame _ := .error h

theorem lift {x : Except Error α} (h : Tame x) : Computes (lift x) where
  iterations hrun := by
    obtain ⟨a, -, heq⟩ := map_eq_ok.mp hrun
    cases heq
    rfl
  tame _ := h.map _

theorem read (name : String) : Computes (read name) where
  iterations hrun := by
    obtain ⟨a, -, heq⟩ := map_eq_ok.mp hrun
    cases heq
    rfl
  tame m := (m.scopes.tame_get name).map _

theorem onScopes (f : Scopes → Scopes) : Computes (onScopes f) where
  iterations h := by cases h; rfl
  tame _ := .ok _

theorem write (text : String) : Computes (write text) where
  iterations h := by cases h; rfl
  tame _ := .ok _

theorem bind {x : Run α} {f : α → Run β} (hx : Computes x) (hf : ∀ a, Computes (f a)) : Computes (x >>= f) where
  iterations h := by
    obtain ⟨⟨a, m₁⟩, h₁, h₂⟩ := bind_eq_ok.mp h
    rw [(hf a).iterations h₂, hx.iterations h₁]
  tame m := (hx.tame m).bind fun (a, m₁) => (hf a).tame m₁

theorem ite {c : Prop} [Decidable c] {x y : Run α} (hx : Computes x) (hy : Computes y) :
    Computes (if c then x else y) := by
  split
  · exact hx
  · exact hy

end Computes

end Machine

open Computes in
mutual

/-- **Expressions compute values.** -/
theorem Expr.computes_eval (b : Budget) : ∀ e : Expr, Computes (e.eval b)
  | .intLiteral _ | .floatLiteral _ | .stringLiteral _ | .boolLiteral _ => .pure _
  | .variable name => .read name
  | .binary op left right => by
      have hleft := left.computes_eval b
      have hright := right.computes_eval b
      cases op with
      | and => exact hleft.bind fun _ => .ite (hright.bind fun _ => .pure _) (.pure _)
      | or => exact hleft.bind fun _ => .ite (.pure _) (hright.bind fun _ => .pure _)
      | _ => exact hleft.bind fun v => hright.bind fun w => .lift (BinaryOp.tame_apply _ v w)
  | .unary op operand => (operand.computes_eval b).bind fun v => .lift (op.tame_apply v)
  | .assign name none value => (value.computes_eval b).bind fun v => (Computes.onScopes _).bind fun _ => .pure v
  | .assign name (some op) value =>
      (value.computes_eval b).bind fun v => (Computes.read name).bind fun old =>
        (Computes.lift (op.toBinary.tame_apply old v)).bind fun _ => (Computes.onScopes _).bind fun _ => .pure _
  | .increment name step inFront =>
      (Computes.read name).bind fun old => (Computes.lift (old.tame_stepBy step)).bind fun _ =>
        (Computes.onScopes _).bind fun _ => .pure _
  | .ternary condition thenExpr elseExpr =>
      (condition.computes_eval b).bind fun _ => .ite (thenExpr.computes_eval b) (elseExpr.computes_eval b)
  | .call name args => by
      refine (Expr.computes_evalAll b args).bind fun values => ?_
      split
      · next f _ =>
        refine (Computes.lift (f.tame_call b.literals values)).bind fun _ => ?_
        exact (Computes.write _).bind fun _ => .pure _
      · exact .fail trivial

theorem Expr.computes_evalAll (b : Budget) : ∀ es : List Expr, Computes (Expr.evalAll b es)
  | [] => .pure _
  | e :: es => (e.computes_eval b).bind fun _ => (Expr.computes_evalAll b es).bind fun _ => .pure _

end

theorem Simple.computes_exec (b : Budget) (s : Simple) : Computes (s.exec b) := by
  cases s with
  | expression e => exact (e.computes_eval b).bind fun _ => .pure ()
  | declaration name value =>
      cases value with
      | none => exact .onScopes _
      | some e => exact (e.computes_eval b).bind fun _ => .onScopes _

theorem computes_testCondition (b : Budget) (condition : Option Expr) : Computes (testCondition b condition) := by
  cases condition with
  | none => exact .pure true
  | some e => exact (e.computes_eval b).bind fun _ => .pure _

theorem computes_runStep (b : Budget) (step : Option Expr) : Computes (runStep b step) := by
  cases step with
  | none => exact .pure ()
  | some e => exact (e.computes_eval b).bind fun _ => .pure ()

end Inlay
