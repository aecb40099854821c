import Inlay.Proofs.Evaluation.Course

/-!
# `Proofs.Evaluation.Limit` — the limit only cuts off

The limit of a budget is asked for where a round begins, and nowhere else. So expressions have the same value under
every limit (`Expr.eval_congr`), and what a limit lets through takes the same course under a greater one
(`Course.raise`). Every run has a course, which accounts for its tests: it ends after at most one test more than the
limit permits, and fails with the limit exactly if it makes that test (`limit_only_cuts_off`).
-/

namespace Inlay

open Machine

variable {b b' : Budget} {t : Task} {m : Machine} {n : Nat} {r : RunEnd}

/-! ## Expressions -/

mutual

/-- **The limit does not change the value of an expression.** -/
theorem Expr.eval_congr (h : b.literals = b'.literals) : ∀ e : Expr, e.eval b = e.eval b'
  | .intLiteral _ | .floatLiteral _ | .stringLiteral _ | .boolLiteral _ | .variable _ | .increment .. => rfl
  | .binary op left right => by
      have hleft := left.eval_congr h
      have hright := right.eval_congr h
      cases op <;> simp only [Expr.eval, hleft, hright]
  | .unary op operand => by
      simp only [Expr.eval, operand.eval_congr h]
  | .assign name op value => by
      have hvalue := value.eval_congr h
      cases op <;> simp only [Expr.eval, hvalue]
  | .ternary condition thenExpr elseExpr => by
      simp only [Expr.eval, condition.eval_congr h, thenExpr.eval_congr h, elseExpr.eval_congr h]
  | .call name args => by
      simp only [Expr.eval, Expr.evalAll_congr h args, h]

theorem Expr.evalAll_congr (h : b.literals = b'.literals) :
    ∀ es : List Expr, Expr.evalAll b es = Expr.evalAll b' es
  | [] => rfl
  | e :: es => by
      simp only [Expr.evalAll, e.eval_congr h, Expr.evalAll_congr h es]

end

section

variable (h : b.literals = b'.literals)
include h

theorem Simple.exec_congr (s : Simple) : s.exec b = s.exec b' := by
  cases s with
  | expression e => simp only [Simple.exec, e.eval_congr h]
  | declaration name value =>
      cases value with
      | none => rfl
      | some e => simp only [Simple.exec, e.eval_congr h]

theorem testCondition_congr (condition : Option Expr) : testCondition b condition = testCondition b' condition := by
  cases condition with
  | none => rfl
  | some e => simp only [testCondition, e.eval_congr h]

theorem runStep_congr (step : Option Expr) : runStep b step = runStep b' step := by
  cases step with
  | none => rfl
  | some e => simp only [runStep, e.eval_congr h]

theorem runInit_congr (init : Option Simple) : runInit b init = runInit b' init := by
  cases init with
  | none => rfl
  | some s => exact s.exec_congr h

end

/-! ## Courses -/

theorem RunEnd.spares_of_leaveScope (h : Spares r.leaveScope) : Spares r := by
  intro k hr
  rw [hr] at h
  exact h k rfl

/-- **A course that a limit lets through** is one under every greater limit. -/
theorem Course.raise (h : Course b t m n r) (hliterals : b.literals = b'.literals) (hlimit : b.limit ≤ b'.limit)
    (hr : Spares r) : Course b' t m n r := by
  induction h with
  | simple run => exact .simple (Simple.exec_congr hliterals _ ▸ run)
  | simpleFails run => exact .simpleFails (Simple.exec_congr hliterals _ ▸ run)
  | block _ ih => exact .block (ih (RunEnd.spares_of_leaveScope hr))
  | ifThen test _ ih => exact .ifThen (Expr.eval_congr hliterals _ ▸ test) (ih hr)
  | ifThenFails test => exact .ifThenFails (Expr.eval_congr hliterals _ ▸ test)
  | ifThenElse test _ ih => exact .ifThenElse (Expr.eval_congr hliterals _ ▸ test) (ih hr)
  | ifThenElseFails test => exact .ifThenElseFails (Expr.eval_congr hliterals _ ▸ test)
  | whileLoop _ ih => exact .whileLoop (ih hr)
  | forLoop start _ ih =>
      exact .forLoop (runInit_congr hliterals _ ▸ start) (ih (RunEnd.spares_of_leaveScope hr))
  | forLoopFails start => exact .forLoopFails (runInit_congr hliterals _ ▸ start)
  | «break» => exact .break _
  | «continue» => exact .continue _
  | empty => exact .empty _
  | nil => exact .nil _
  | cons _ _ ihFirst ihOthers => exact .cons (ihFirst (.ok _)) (ihOthers hr)
  | stop _ leaves ih => exact .stop (ih hr) leaves
  | limit => exact absurd rfl (hr _)
  | testFails begun test =>
      exact .testFails (Nat.lt_of_lt_of_le begun hlimit) (testCondition_congr hliterals _ ▸ test)
  | ends begun test => exact .ends (Nat.lt_of_lt_of_le begun hlimit) (testCondition_congr hliterals _ ▸ test)
  | bodyFails begun test _ ih =>
      exact .bodyFails (Nat.lt_of_lt_of_le begun hlimit) (testCondition_congr hliterals _ ▸ test) (ih hr)
  | left begun test _ ih =>
      exact .left (Nat.lt_of_lt_of_le begun hlimit) (testCondition_congr hliterals _ ▸ test) (ih (.ok _))
  | stepFails begun test _ stays next ih =>
      exact .stepFails (Nat.lt_of_lt_of_le begun hlimit) (testCondition_congr hliterals _ ▸ test) (ih (.ok _)) stays
        (runStep_congr hliterals _ ▸ next)
  | again begun test _ stays next _ ihRound ihOthers =>
      exact .again (Nat.lt_of_lt_of_le begun hlimit) (testCondition_congr hliterals _ ▸ test) (ihRound (.ok _)) stays
        (runStep_congr hliterals _ ▸ next) (ihOthers hr)

/-! ## Programs -/

namespace Program

/-- What a program gives when its statements end like this. -/
def result (r : RunEnd) : Except Error String := do
  let (flow, m) ← r
  match flow with
  | .normal => .ok m.output
  | .break => .error .strayBreak
  | .continue => .error .strayContinue

/-- **The course of a program**, which tests `n` times whether a loop goes on. -/
def Course (b : Budget) (p : Program) (n : Nat) (out : Except Error String) : Prop :=
  ∃ r, Inlay.Course b (.list p) initial n r ∧ out = result r

variable {p : Program} {out : Except Error String}

theorem run_eq_result (b : Budget) (p : Program) : p.run b = result ((Task.list p).exec b initial) := rfl

theorem result_eq_limit {k : Nat} :
    result r = .error (.tooManyIterations k) ↔ r = .error (.tooManyIterations k) := by
  constructor
  · intro h
    rcases bind_eq_error.mp h with h | ⟨⟨flow, m⟩, -, h⟩
    · exact h
    · cases flow <;> cases h
  · rintro rfl
    rfl

/-- **Every program has a course**, and ends with what it gives when it is run. -/
theorem exists_course (b : Budget) (p : Program) : ∃ n, p.Course b n (p.run b) := by
  obtain ⟨n, r, h⟩ := exists_course_list b p initial
  refine ⟨n, r, h, ?_⟩
  rw [run_eq_result, h.exec_eq]

theorem Course.eq_run (h : p.Course b n out) : out = p.run b := by
  obtain ⟨r, h, rfl⟩ := h
  rw [run_eq_result, h.exec_eq]

/-- **A program makes at most one test more than it has rounds**, and fails with the limit exactly if it makes that
    one. -/
theorem Course.tests (h : p.Course b n out) :
    n ≤ b.limit + 1 ∧ ∀ k, out = .error (.tooManyIterations k) ↔ n = b.limit + 1 ∧ k = b.limit := by
  obtain ⟨r, h, rfl⟩ := h
  obtain ⟨hle, hiff⟩ := (h.accounted (Nat.zero_le _)).tests
  have hzero : initial.iterations = 0 := rfl
  rw [hzero, Nat.zero_add] at hle hiff
  exact ⟨hle, fun k => result_eq_limit.trans (hiff k)⟩

/-- **A greater limit changes no result** but the failure of the limit. -/
theorem run_raise (hliterals : b.literals = b'.literals) (hlimit : b.limit ≤ b'.limit) (h : Spares (p.run b)) :
    p.run b' = p.run b := by
  obtain ⟨n, r, hcourse, hrun⟩ := exists_course b p
  have hr : Spares r := fun k hk => h k (hrun.trans (result_eq_limit.mpr hk))
  have hraised : p.Course b' n (p.run b) := ⟨r, hcourse.raise hliterals hlimit hr, hrun⟩
  exact hraised.eq_run.symm

end Program

/-- **The limit only cuts off.** Take limits `l ≤ k`. Run under `l`, a program has a course that ends with its result.
    On every course it tests at most `l + 1` times whether a loop goes on, and it fails with the limit exactly if it
    tests so often. Any other result under `l`, an output or an error, is the result under `k`, too; and if the program
    fails with the limit under `k`, it does so under `l`. Programs are the trees that the parser can build. -/
theorem limit_only_cuts_off (p : Program) (literals : List String) {l k : Nat} (h : l ≤ k) :
    (∃ n, p.Course ⟨literals, l⟩ n (p.run ⟨literals, l⟩)) ∧
    (∀ n out, p.Course ⟨literals, l⟩ n out → out = p.run ⟨literals, l⟩ ∧ n ≤ l + 1 ∧
      (out = .error (.tooManyIterations l) ↔ n = l + 1)) ∧
    (p.run ⟨literals, l⟩ ≠ .error (.tooManyIterations l) → p.run ⟨literals, k⟩ = p.run ⟨literals, l⟩) ∧
    ∀ i, p.run ⟨literals, k⟩ = .error (.tooManyIterations i) → p.run ⟨literals, l⟩ = .error (.tooManyIterations l) := by
  obtain ⟨n, hcourse⟩ := Program.exists_course ⟨literals, l⟩ p
  -- the only limit that a run under `l` can fail with is `l`
  have hspares : p.run ⟨literals, l⟩ ≠ .error (.tooManyIterations l) → Spares (p.run ⟨literals, l⟩) := by
    intro hne i hi
    obtain ⟨-, rfl⟩ := (hcourse.tests.2 i).mp hi
    exact hne hi
  have hraise : p.run ⟨literals, l⟩ ≠ .error (.tooManyIterations l) → p.run ⟨literals, k⟩ = p.run ⟨literals, l⟩ :=
    fun hne => Program.run_raise rfl h (hspares hne)
  refine ⟨⟨n, hcourse⟩, ?_, hraise, ?_⟩
  · intro n out hcourse
    obtain ⟨hle, hiff⟩ := hcourse.tests
    exact ⟨hcourse.eq_run, hle, (hiff l).trans (and_iff_left rfl)⟩
  · intro i hi
    refine Classical.byContradiction fun hne => ?_
    exact hspares hne i ((hraise hne).symm.trans hi)

/-- The program `for (i = 0; i < 3; i++) ; __emit_value(i);`, which tests four times whether it goes on. -/
def countToThree : Program :=
  [.forLoop (some (.expression (.assign "i" none (.intLiteral 0))))
    (some (.binary .lt (.variable "i") (.intLiteral 3))) (some (.increment "i" .up false)) .empty,
    .simple (.expression (.call "__emit_value" [.variable "i"]))]

/-- Four tests are enough for counting to three, and then so are nine; three are not, and then two are not. -/
theorem counting_needs_four_tests : (4 ≤ 9 ∧ countToThree.run ⟨[], 4⟩ = .ok "3" ∧ countToThree.run ⟨[], 9⟩ = .ok "3") ∧
    (2 ≤ 3 ∧ countToThree.run ⟨[], 3⟩ = .error (.tooManyIterations 3) ∧
      countToThree.run ⟨[], 2⟩ = .error (.tooManyIterations 2) ∧
      ∃ n ≤ 3, countToThree.Course ⟨[], 2⟩ n (.error (.tooManyIterations 2))) := by
  have hfour : countToThree.run ⟨[], 4⟩ = .ok "3" := by rfl
  have hthree : countToThree.run ⟨[], 3⟩ = .error (.tooManyIterations 3) := by rfl
  have hraised := (limit_only_cuts_off countToThree [] (show 4 ≤ 9 by decide)).2.2.1 (by rw [hfour]; nofun)
  obtain ⟨⟨n, hcourse⟩, hcourses, -, hlowered⟩ := limit_only_cuts_off countToThree [] (show 2 ≤ 3 by decide)
  have htwo := hlowered 3 hthree
  rw [htwo] at hcourse
  exact ⟨⟨by decide, hfour, hraised.trans hfour⟩, by decide, hthree, htwo, n, (hcourses n _ hcourse).2.1, hcourse⟩

end Inlay
