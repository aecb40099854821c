import Inlay.Proofs.Evaluation.Limit

/-!
# `Proofs.Evaluation.Jumps` — where break and continue end

The jumps of a statement, its break and continue statements, are listed with the number of loops that enclose them
(`Stmt.jumps`). A run that ends with a break or a continue comes from a jump that no loop encloses, which is read off
its course (`Course.jump`); and no run fails as if it had met one (`Course.fault`). So a program in which every jump
stands in a loop has no stray jump, every loop ends normally, and a jump ends or goes on with the loop around it alone
(`jumps_stay_in_their_loop`).
-/

namespace Inlay

open Machine

variable {b : Budget} {t : Task} {s : Stmt} {m m₁ m₂ : Machine} {n : Nat} {r : RunEnd} {flow : Flow} {e : Error}
  {condition step : Option Expr} {body : Stmt}

/-! ## Jumps -/

mutual

/-- **The jumps of a statement**, each with the number of loops inside of which it stands. -/
def Stmt.jumps : Stmt → List (Flow × Nat)
  | .simple _ | .empty => []
  | .block body => Stmt.jumpsAll body
  | .ifThen _ thenBranch => thenBranch.jumps
  | .ifThenElse _ thenBranch elseBranch => thenBranch.jumps ++ elseBranch.jumps
  | .whileLoop _ body | .forLoop _ _ _ body => body.jumps.map fun (flow, n) => (flow, n + 1)
  | .break => [(.break, 0)]
  | .continue => [(.continue, 0)]

/-- The jumps of statements in order. -/
def Stmt.jumpsAll : List Stmt → List (Flow × Nat)
  | [] => []
  | s :: ss => s.jumps ++ Stmt.jumpsAll ss

end

/-- The jumps of a task. The rounds of a loop enclose those of its body. -/
def Task.jumps : Task → List (Flow × Nat)
  | stmt s => s.jumps
  | list ss => Stmt.jumpsAll ss
  | rounds _ _ body => body.jumps.map fun (flow, n) => (flow, n + 1)

/-- Whether a statement is a loop. -/
def Stmt.isLoop : Stmt → Bool
  | .whileLoop .. | .forLoop .. => true
  | _ => false

/-- **Every jump of a program stands in a loop.** -/
def Program.Encloses (p : Program) : Prop :=
  ∀ flow n, (flow, n) ∈ Stmt.jumpsAll p → 0 < n

/-- No jump in the body of a loop is outside of all loops. -/
theorem not_mem_enclosed (flow : Flow) (jumps : List (Flow × Nat)) :
    (flow, 0) ∉ jumps.map fun (flow, n) => (flow, n + 1) := by
  intro h
  obtain ⟨⟨flow', n⟩, -, heq⟩ := List.mem_map.mp h
  cases heq

/-! ## Courses -/

/-- **A course that ends with a jump** comes from one that no loop encloses. -/
theorem Course.jump (h : Course b t m n r) :
    ∀ {flow m'}, r = .ok (flow, m') → flow ≠ .normal → (flow, 0) ∈ t.jumps := by
  induction h with
  | simple | empty | nil | ends | left =>
      intro flow m' hr hjump
      cases hr
      exact absurd rfl hjump
  | block _ ih =>
      intro flow m' hr hjump
      obtain ⟨⟨flow, m⟩, hinside, heq⟩ := map_eq_ok.mp hr
      cases heq
      exact ih hinside hjump
  | @ifThen _ _ _ v _ _ _ _ _ ih =>
      intro flow m' hr hjump
      have hchosen := ih hr hjump
      by_cases hv : v.isTruthy = true
      · rwa [if_pos hv] at hchosen
      · rw [if_neg hv] at hchosen
        cases hchosen
  | @ifThenElse _ _ _ _ v _ _ _ _ _ ih =>
      intro flow m' hr hjump
      have hchosen := ih hr hjump
      apply List.mem_append.mpr
      by_cases hv : v.isTruthy = true
      · rw [if_pos hv] at hchosen
        exact Or.inl hchosen
      · rw [if_neg hv] at hchosen
        exact Or.inr hchosen
  | whileLoop _ ih =>
      intro flow m' hr hjump
      exact ih hr hjump
  | forLoop _ _ ih =>
      intro flow m' hr hjump
      obtain ⟨⟨flow, m⟩, hinside, heq⟩ := map_eq_ok.mp hr
      cases heq
      exact ih hinside hjump
  | «break» | «continue» =>
      intro flow m' hr _
      cases hr
      exact List.mem_singleton_self _
  | cons _ _ _ ihOthers =>
      intro flow m' hr hjump
      exact List.mem_append_right _ (ihOthers hr hjump)
  | stop _ _ ih =>
      intro flow m' hr hjump
      exact List.mem_append_left _ (ih hr hjump)
  | again _ _ _ _ _ _ _ ihOthers =>
      intro flow m' hr hjump
      exact ihOthers hr hjump
  | simpleFails | ifThenFails | ifThenElseFails | forLoopFails | limit | testFails | bodyFails | stepFails =>
      intro flow m' hr _
      cases hr

/-- **A course that fails** fails for want of a value, or with the limit. -/
theorem Course.fault (h : Course b t m n r) :
    ∀ {e}, r = .error e → e.OfValues ∨ e = .tooManyIterations b.limit := by
  induction h with
  | simple | «break» | «continue» | empty | nil | ends | left =>
      intro e hr
      cases hr
  | simpleFails run =>
      intro e hr
      cases hr
      exact Or.inl ((Simple.computes_exec b _).tame _ _ run)
  | block _ ih | forLoop _ _ ih =>
      intro e hr
      exact ih (map_eq_error.mp hr)
  | ifThen _ _ ih | ifThenElse _ _ ih | whileLoop _ ih | stop _ _ ih => exact ih
  | ifThenFails test | ifThenElseFails test =>
      intro e hr
      cases hr
      exact Or.inl ((Expr.computes_eval b _).tame _ _ test)
  | forLoopFails start =>
      intro e hr
      cases hr
      exact Or.inl ((computes_runInit b _).tame _ _ start)
  | cons _ _ _ ihOthers | again _ _ _ _ _ _ _ ihOthers => exact ihOthers
  | limit =>
      intro e hr
      cases hr
      exact Or.inr rfl
  | testFails _ test =>
      intro e hr
      cases hr
      exact Or.inl ((computes_testCondition b _).tame _ _ test)
  | bodyFails _ _ _ ih =>
      intro e hr
      cases hr
      exact ih rfl
  | stepFails _ _ _ _ next =>
      intro e hr
      cases hr
      exact Or.inl ((computes_runStep b _).tame _ _ next)

/-! ## Statements and programs -/

theorem Stmt.jump {m' : Machine} (h : s.exec b m = .ok (flow, m')) (hjump : flow ≠ .normal) : (flow, 0) ∈ s.jumps := by
  obtain ⟨n, r, course⟩ := exists_course_stmt b s m
  exact course.jump (course.exec_eq.symm.trans h) hjump

/-- **A loop ends normally**, if it does not fail. -/
theorem Stmt.normal_of_isLoop {m' : Machine} (hloop : s.isLoop = true) (h : s.exec b m = .ok (flow, m')) :
    flow = .normal := by
  apply Classical.byContradiction
  intro hjump
  have hmem := Stmt.jump h hjump
  cases s with
  | whileLoop condition body | forLoop init condition step body => exact not_mem_enclosed flow body.jumps hmem
  | _ => cases hloop

/-- **The round of a loop** takes a jump of the body: a break ends the loop, and behind a continue it goes on as it does
    behind a body that ends normally. -/
theorem exec_rounds_of_body (begun : m.iterations < b.limit)
    (test : testCondition b condition m.inRound = .ok (true, m₁)) (round : body.exec b m₁ = .ok (flow, m₂)) :
    (Task.rounds condition step body).exec b m = if flow = .break then .ok (.normal, m₂)
      else (do runStep b step; (Task.rounds condition step body).exec b : Run Flow) m₂ := by
  have hround := roundOf_of_body step test round
  rw [exec_rounds begun]
  by_cases hbreak : flow = .break
  · subst hbreak
    rw [if_pos rfl]
    exact run_bind_of_ok hround
  · rw [if_neg (by simpa using hbreak)] at hround
    rw [if_neg hbreak]
    cases next : runStep b step m₂ with
    | error e =>
        rw [run_bind_of_error next] at hround ⊢
        exact run_bind_of_error hround
    | ok stepped =>
        obtain ⟨⟨⟩, m₃⟩ := stepped
        rw [run_bind_of_ok next] at hround ⊢
        exact run_bind_of_ok hround

/-- A program fails with a stray jump only where one stands outside of all loops. -/
theorem Program.jump_of_stray {p : Program} :
    (p.run b = .error .strayBreak → (.break, 0) ∈ Stmt.jumpsAll p) ∧
    (p.run b = .error .strayContinue → (.continue, 0) ∈ Stmt.jumpsAll p) := by
  obtain ⟨n, r, course⟩ := exists_course_list b p initial
  have hrun : p.run b = result r := by rw [run_eq_result, course.exec_eq]
  rw [hrun]
  cases r with
  | error e =>
      -- the course itself does not fail with a stray jump
      rcases course.fault rfl with hvalue | rfl
      · refine ⟨fun h => ?_, fun h => ?_⟩ <;> cases h <;> cases hvalue
      · refine ⟨fun h => ?_, fun h => ?_⟩ <;> cases h
  | ok ending =>
      obtain ⟨flow, m⟩ := ending
      cases flow with
      | normal => refine ⟨fun h => ?_, fun h => ?_⟩ <;> cases h
      | «break» =>
          refine ⟨fun _ => course.jump rfl (by decide), fun h => ?_⟩
          cases h
      | «continue» =>
          refine ⟨fun h => ?_, fun _ => course.jump rfl (by decide)⟩
          cases h

/-- **Jumps stay in their loop.** A program in which every jump stands in a loop does not fail with a stray one. A
    statement that ends with a break or a continue has one that none of its loops encloses, and so a loop ends normally.
    The rounds of a loop take the jump of their body: a break ends them, behind the body and without the step, and
    behind a continue they go on with the step and the next round. Programs are the trees that the parser can build, in
    which no jump starts a loop. -/
theorem jumps_stay_in_their_loop (b : Budget) :
    (∀ p : Program, p.Encloses → p.run b ≠ .error .strayBreak ∧ p.run b ≠ .error .strayContinue) ∧
    (∀ (s : Stmt) (m m' : Machine) (flow : Flow), s.exec b m = .ok (flow, m') →
      (flow ≠ .normal → (flow, 0) ∈ s.jumps) ∧ (s.isLoop = true → flow = .normal)) ∧
    (∀ (condition : Expr) (body : Stmt), (Stmt.whileLoop condition body).exec b =
      (Task.rounds (some condition) none body).exec b) ∧
    (∀ (init : Option Simple) (condition step : Option Expr) (body : Stmt),
      (Stmt.forLoop init condition step body).exec b = do
        onScopes Scopes.enter
        runInit b init
        let flow ← (Task.rounds condition step body).exec b
        onScopes Scopes.exit
        return flow) ∧
    ∀ (condition step : Option Expr) (body : Stmt) (m m₁ m₂ : Machine) (flow : Flow), m.iterations < b.limit →
      testCondition b condition m.inRound = .ok (true, m₁) → body.exec b m₁ = .ok (flow, m₂) →
      (Task.rounds condition step body).exec b m = if flow = .break then .ok (.normal, m₂)
        else (do runStep b step; (Task.rounds condition step body).exec b : Run Flow) m₂ := by
  refine ⟨?_, ?_, ?_, ?_, ?_⟩
  · intro p hencloses
    obtain ⟨hbreak, hcontinue⟩ := Program.jump_of_stray (b := b) (p := p)
    constructor
    · intro h
      exact absurd (hencloses _ _ (hbreak h)) (Nat.lt_irrefl 0)
    · intro h
      exact absurd (hencloses _ _ (hcontinue h)) (Nat.lt_irrefl 0)
  · intro s m m' flow h
    exact ⟨Stmt.jump h, fun hloop => Stmt.normal_of_isLoop hloop h⟩
  · exact exec_whileLoop b
  · intro init condition step body
    rw [exec_forLoop]
    refine bind_congr fun _ => bind_congr fun _ => ?_
    simp only [Task.exec, bind_assoc, pure_bind]
  · intro condition step body m m₁ m₂ flow begun test round
    exact exec_rounds_of_body begun test round

/-- A loop that is left behind a loop that is left at once. -/
def leftTwice : Program :=
  [.forLoop none none none (.block [.whileLoop (.boolLiteral true) .break,
    .simple (.expression (.call "__emit_text" [.intLiteral 0])), .break])]

theorem encloses_leftTwice : leftTwice.Encloses := by
  intro flow n h
  rcases List.mem_cons.mp h with h | h
  · cases h
    decide
  · cases List.mem_singleton.mp h
    decide

/-- The break of the inner loop does not leave the outer one, which writes its text. -/
theorem inner_break_leaves_inner_loop : leftTwice.Encloses ∧ leftTwice.run ⟨["x"], 2⟩ = .ok "x" ∧
    leftTwice.run ⟨[], 1⟩ ≠ .error .strayBreak ∧ (.break, 0) ∈ Stmt.break.jumps ∧
    (Task.rounds (some (.boolLiteral true)) none .break).exec ⟨[], 1⟩ initial = .ok (.normal, initial.inRound) := by
  obtain ⟨hprogram, hstmt, -, -, hrounds⟩ := jumps_stay_in_their_loop ⟨[], 1⟩
  refine ⟨encloses_leftTwice, rfl, (hprogram _ encloses_leftTwice).1, ?_, ?_⟩
  · exact (hstmt .break initial initial .break rfl).1 (by decide)
  · have hround := hrounds (some (.boolLiteral true)) none .break initial _ _ .break (by decide) rfl rfl
    exact hround.trans (if_pos rfl)

end Inlay
