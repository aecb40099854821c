import Inlay.Proofs.Evaluation.Course
import Inlay.Proofs.Evaluation.Nesting

/-!
# `Proofs.Evaluation.Effects` — what the evaluation of an expression does

An expression sets the variables that it assigns or steps (`Expr.changed`), and it writes; it does nothing else to a
machine (`Alters`, `Expr.alters_eval`). So it keeps all scopes, adds to the output, and every other variable has the
value that it had (`Alters.get?_eq`). That is why a compound assignment may read its variable before or behind its
operand (`compound_agrees_with_expansion`).
-/

namespace Inlay

open Machine

variable {α β : Type} {names names' : List String} {m m' m'' : Machine} {x : String}

/-! ## Variables that an expression changes -/

mutual

/-- The variables that an expression assigns or steps, at any depth. -/
def Expr.changed : Expr → List String
  | .intLiteral _ | .floatLiteral _ | .stringLiteral _ | .boolLiteral _ | .variable _ => []
  | .binary _ left right => left.changed ++ right.changed
  | .unary _ operand => operand.changed
  | .assign name _ value => name :: value.changed
  | .increment name _ _ => [name]
  | .ternary condition thenExpr elseExpr => condition.changed ++ (thenExpr.changed ++ elseExpr.changed)
  | .call _ args => Expr.changedAll args

/-- The variables that expressions change. -/
def Expr.changedAll : List Expr → List String
  | [] => []
  | e :: es => e.changed ++ Expr.changedAll es

end

/-! ## Altered machines -/

namespace Machine

/-- **A machine that is altered** by setting variables among `names` and by writing, any number of times. -/
inductive Alters (names : List String) (m : Machine) : Machine → Prop
  | refl : Alters names m m
  | set {m' : Machine} {x : String} (before : Alters names m m') (member : x ∈ names) (v : Value) :
      Alters names m (m'.mapScopes (·.set x v))
  | write {m' : Machine} (before : Alters names m m') (text : String) :
      Alters names m { m' with output := m'.output ++ text }

namespace Alters

theorem trans (h : Alters names m m') (h' : Alters names m' m'') : Alters names m m'' := by
  induction h' with
  | refl => exact h
  | set _ member v ih => exact .set ih member v
  | write _ text ih => exact .write ih text

theorem mono (h : Alters names m m') (hsubset : names ⊆ names') : Alters names' m m' := by
  induction h with
  | refl => exact .refl
  | set _ member v ih => exact .set ih (hsubset member) v
  | write _ text ih => exact .write ih text

theorem kept (h : Alters names m m') : m.scopes.Kept m'.scopes := by
  induction h with
  | refl => exact .refl _
  | set _ _ v ih => exact ih.trans (.set _ v _)
  | write _ _ ih => exact ih

theorem output (h : Alters names m m') : ∃ text, m'.output = m.output ++ text := by
  induction h with
  | refl => exact ⟨"", String.append_empty.symm⟩
  | set _ _ _ ih => exact ih
  | write _ text ih =>
      obtain ⟨before, hbefore⟩ := ih
      exact ⟨before ++ text, by simp [hbefore, String.append_assoc]⟩

/-- **Other variables** have the values that they had. -/
theorem get?_eq (h : Alters names m m') (hx : x ∉ names) : m'.scopes.get? x = m.scopes.get? x := by
  induction h with
  | refl => rfl
  | @set m' y _ member v ih =>
      have hne : x ≠ y := fun heq => hx (heq ▸ member)
      rw [← ih]
      exact Scopes.get?_set_of_ne hne v m'.scopes
  | write _ _ ih => exact ih

end Alters

/-- A computation that alters no machine in another way. -/
def AltersOnly (names : List String) (x : Run α) : Prop :=
  ∀ m a m', x m = .ok (a, m') → Alters names m m'

namespace AltersOnly

theorem pure (a : α) : AltersOnly names (Pure.pure a : Run α) := by
  intro m a' m' h
  cases h
  exact .refl

theorem fail (cause : Error) : AltersOnly names (fail cause : Run α) :=
  fun _ _ _ h => nomatch h

theorem lift (x : Except Error α) : AltersOnly names (lift x) := by
  intro m a m' h
  obtain ⟨a, -, heq⟩ := map_eq_ok.mp h
  cases heq
  exact .refl

theorem read (name : String) : AltersOnly names (read name) := by
  intro m a m' h
  obtain ⟨a, -, heq⟩ := map_eq_ok.mp h
  cases heq
  exact .refl

theorem set {name : String} (h : name ∈ names) (v : Value) : AltersOnly names (onScopes (·.set name v)) := by
  intro m a m' hrun
  cases hrun
  exact .set .refl h v

theorem write (text : String) : AltersOnly names (write text) := by
  intro m a m' h
  cases h
  exact .write .refl text

theorem bind {x : Run α} {f : α → Run β} (hx : AltersOnly names x) (hf : ∀ a, AltersOnly names (f a)) :
    AltersOnly names (x >>= f) := by
  intro m c m' h
  obtain ⟨⟨a, m₁⟩, h₁, h₂⟩ := bind_eq_ok.mp h
  exact (hx m a m₁ h₁).trans (hf a m₁ c m' h₂)

theorem ite {c : Prop} [Decidable c] {x y : Run α} (hx : AltersOnly names x) (hy : AltersOnly names y) :
    AltersOnly names (if c then x else y) := by
  split
  · exact hx
  · exact hy

theorem mono {x : Run α} (h : AltersOnly names x) (hsubset : names ⊆ names') : AltersOnly names' x :=
  fun m a m' hrun => (h m a m' hrun).mono hsubset

end AltersOnly

end Machine

open Machine.AltersOnly in
mutual

/-- **An expression sets the variables that it changes, and writes.** -/
theorem Expr.alters_eval (b : Budget) : ∀ e : Expr, AltersOnly e.changed (e.eval b)
  | .intLiteral _ | .floatLiteral _ | .stringLiteral _ | .boolLiteral _ => .pure _
  | .variable name => .read name
  | .binary op left right => by
      have hleft := (left.alters_eval b).mono (List.subset_append_left _ right.changed)
      have hright := (right.alters_eval b).mono (List.subset_append_right left.changed _)
      cases op with
      | and => exact hleft.bind fun _ => .ite (hright.bind fun _ => .pure _) (.pure _)
      | or => exact hleft.bind fun _ => .ite (.pure _) (hright.bind fun _ => .pure _)
      | _ => exact hleft.bind fun v => hright.bind fun w => .lift (BinaryOp.apply _ v w)
  | .unary op operand => (operand.alters_eval b).bind fun v => .lift (op.apply v)
  | .assign name none value => by
      have hvalue := (value.alters_eval b).mono (List.subset_cons_self name _)
      have hname : name ∈ name :: value.changed := List.mem_cons_self
      exact hvalue.bind fun v => (AltersOnly.set hname v).bind fun _ => .pure v
  | .assign name (some op) value => by
      have hvalue := (value.alters_eval b).mono (List.subset_cons_self name _)
      have hname : name ∈ name :: value.changed := List.mem_cons_self
      refine hvalue.bind fun v => (AltersOnly.read name).bind fun old => ?_
      exact (AltersOnly.lift _).bind fun new => (AltersOnly.set hname new).bind fun _ => .pure new
  | .increment name step inFront => by
      have hname : name ∈ [name] := List.mem_cons_self
      refine (AltersOnly.read name).bind fun old => (AltersOnly.lift _).bind fun new => ?_
      exact (AltersOnly.set hname new).bind fun _ => .pure _
  | .ternary condition thenExpr elseExpr => by
      have hcondition := (condition.alters_eval b).mono (List.subset_append_left _ (thenExpr.changed ++ elseExpr.changed))
      have hothers := List.subset_append_right condition.changed (thenExpr.changed ++ elseExpr.changed)
      have hthen := ((thenExpr.alters_eval b).mono (List.subset_append_left _ elseExpr.changed)).mono hothers
      have helse := ((elseExpr.alters_eval b).mono (List.subset_append_right thenExpr.changed _)).mono hothers
      exact hcondition.bind fun _ => .ite hthen helse
  | .call name args => by
      refine (Expr.alters_evalAll b args).bind fun values => ?_
      split
      · exact (AltersOnly.lift _).bind fun _ => (AltersOnly.write _).bind fun _ => .pure _
      · exact .fail _

theorem Expr.alters_evalAll (b : Budget) : ∀ es : List Expr, AltersOnly (Expr.changedAll es) (Expr.evalAll b es)
  | [] => .pure _
  | e :: es => by
      have hfirst := (e.alters_eval b).mono (List.subset_append_left _ (Expr.changedAll es))
      have hothers := (Expr.alters_evalAll b es).mono (List.subset_append_right e.changed _)
      exact hfirst.bind fun _ => hothers.bind fun _ => .pure _

end

/-! ## Compound assignments -/

theorem read_of_ok {v : Value} (h : m.scopes.get x = .ok v) : read x m = .ok (v, m) := by
  show (·, m) <$> m.scopes.get x = _
  rw [h]
  rfl

theorem read_of_error {cause : Error} (h : m.scopes.get x = .error cause) : read x m = .error cause := by
  show (·, m) <$> m.scopes.get x = _
  rw [h]
  rfl

theorem lift_of_ok {y : Except Error α} {a : α} (h : y = .ok a) (m : Machine) : lift y m = .ok (a, m) := by
  subst h
  rfl

/-- Sets a variable to what an operator gives for two values. -/
def update (x : String) (op : CompoundOp) (old v : Value) : Run Value := do
  let new ← lift (op.toBinary.apply old v)
  onScopes (·.set x new)
  return new

theorem eval_compound (b : Budget) (x : String) (op : CompoundOp) (e : Expr) :
    Expr.eval b (.assign x (some op) e) = (do
      let v ← e.eval b
      let old ← read x
      update x op old v) := rfl

theorem eval_expanded (b : Budget) (x : String) (op : CompoundOp) (e : Expr) :
    Expr.eval b (.assign x none (.binary op.toBinary (.variable x) e)) = (do
      let old ← read x
      let v ← e.eval b
      update x op old v) := by
  cases op <;> simp [Expr.eval, CompoundOp.toBinary, update]

/-- Two results of which both are failures, or both the same success. -/
def SameSuccess (r r' : Except Error α) : Prop :=
  (∃ cause cause', r = .error cause ∧ r' = .error cause') ∨ ∃ a, r = .ok a ∧ r' = .ok a

/-- **A compound assignment is the assignment that it stands for**, if its operand does not change its variable. It
    evaluates the operand first, and the other one reads the variable first. If one of them succeeds, so does the
    other, with the same value, and it leaves the same machine: variables, output and rounds. The operator is one of the
    five that the grammar joins with an assignment. -/
theorem compound_agrees_with_expansion (b : Budget) (op : CompoundOp) {x : String} {e : Expr} (hx : x ∉ e.changed)
    (m : Machine) : SameSuccess (Expr.eval b (.assign x (some op) e) m)
      (Expr.eval b (.assign x none (.binary op.toBinary (.variable x) e)) m) := by
  rw [eval_compound, eval_expanded]
  cases heval : e.eval b m with
  | error cause =>
      cases hget : m.scopes.get x with
      | error cause' => exact .inl ⟨cause, cause', run_bind_of_error heval, run_bind_of_error (read_of_error hget)⟩
      | ok old =>
          refine .inl ⟨cause, cause, run_bind_of_error heval, ?_⟩
          exact (run_bind_of_ok (read_of_ok hget)).trans (run_bind_of_error heval)
  | ok result =>
      obtain ⟨v, m'⟩ := result
      -- the operand leaves the variable alone, so it is read as it was
      have hsame : m'.scopes.get x = m.scopes.get x := by
        unfold Scopes.get
        rw [(e.alters_eval b m v m' heval).get?_eq hx]
      cases hget : m.scopes.get x with
      | error cause =>
          refine .inl ⟨cause, cause, ?_, run_bind_of_error (read_of_error hget)⟩
          exact (run_bind_of_ok heval).trans (run_bind_of_error (read_of_error (hsame.trans hget)))
      | ok old =>
          have hcompound : (e.eval b >>= fun v => read x >>= fun old => update x op old v) m = update x op old v m' :=
            (run_bind_of_ok heval).trans (run_bind_of_ok (read_of_ok (hsame.trans hget)))
          have hexpanded : (read x >>= fun old => e.eval b >>= fun v => update x op old v) m = update x op old v m' :=
            (run_bind_of_ok (read_of_ok hget)).trans (run_bind_of_ok heval)
          rw [hcompound, hexpanded]
          cases update x op old v m' with
          | error cause => exact .inl ⟨cause, cause, rfl, rfl⟩
          | ok result => exact .inr ⟨result, rfl, rfl⟩

/-- The expression `(y = 4) * x`, which changes `y` and reads `x`. -/
def fourTimes : Expr :=
  .binary .mul (.assign "y" none (.intLiteral 4)) (.variable "x")

/-- Where `x` is 10, `x -= (y = 4) * x` is -30, and so is `x = x - (y = 4) * x`; both make `y` a global variable. -/
theorem operand_with_assignment_is_subtracted :
    let m : Machine := ⟨⟨[[("x", .int 10)]], []⟩, "", 0⟩
    let m' : Machine := ⟨⟨[[("x", .int (-30))]], [("y", .int 4)]⟩, "", 0⟩
    "x" ∉ fourTimes.changed ∧ Expr.eval ⟨[], 0⟩ (.assign "x" (some .sub) fourTimes) m = .ok (.int (-30), m') ∧
      Expr.eval ⟨[], 0⟩ (.assign "x" none (.binary .sub (.variable "x") fourTimes)) m = .ok (.int (-30), m') := by
  intro m m'
  have hx : "x" ∉ fourTimes.changed := by decide
  have hcompound : Expr.eval ⟨[], 0⟩ (.assign "x" (some .sub) fourTimes) m = .ok (.int (-30), m') := by rfl
  refine ⟨hx, hcompound, ?_⟩
  rcases compound_agrees_with_expansion ⟨[], 0⟩ .sub hx m with ⟨cause, _, hfails, -⟩ | ⟨result, hresult, hexpanded⟩
  · rw [hcompound] at hfails
    cases hfails
  · rw [hcompound] at hresult
    cases hresult
    exact hexpanded

end Inlay
