import Inlay.Proofs.Evaluation.Effects

/-!
# `Proofs.Evaluation.Restored` — scopes are closed on every way out

A block or `for` loop restores the scopes that it was run in (`Machine.Restores`): the scope that it opens is closed
again, and the others are kept. Any other statement may add variables to the innermost scope (`Machine.Develops`). That
holds however a run ends that does not fail, which is read off its course: one case for each rule (`Course.develops`).

So a variable that is declared inside goes with its scope, whichever way the body is left (`scopes_are_restored`).
-/

namespace Inlay

open Machine

variable {α : Type} {b : Budget} {names : List String} {m m' m'' : Machine} {t : Task} {s : Stmt} {n : Nat} {r : RunEnd}
  {flow : Flow}

namespace Machine

/-- **A machine that is restored**: its scopes are kept, and its output is that of the other one, or goes on from it. -/
structure Restores (m m' : Machine) : Prop where
  scopes : m.scopes.Kept m'.scopes
  output : ∃ text, m'.output = m.output ++ text

/-- **A machine that developed** from another one by running statements: the innermost scope may bind more names. -/
structure Develops (m m' : Machine) : Prop where
  scopes : m.scopes.Grown m'.scopes
  output : ∃ text, m'.output = m.output ++ text

theorem Alters.restores (h : Alters names m m') : m.Restores m' :=
  ⟨h.kept, h.output⟩

theorem Restores.develops (h : m.Restores m') : m.Develops m' :=
  ⟨h.scopes.grown, h.output⟩

namespace Develops

theorem refl (m : Machine) : m.Develops m :=
  ⟨(Scopes.Kept.refl m.scopes).grown, "", String.append_empty.symm⟩

theorem trans (h : m.Develops m') (h' : m'.Develops m'') : m.Develops m'' := by
  obtain ⟨text, htext⟩ := h.output
  obtain ⟨text', htext'⟩ := h'.output
  exact ⟨h.scopes.trans h'.scopes, text ++ text', by rw [htext', htext, String.append_assoc]⟩

theorem define (x : String) (v : Value) (m : Machine) : m.Develops (m.mapScopes (·.define x v)) :=
  ⟨.define x v m.scopes, "", String.append_empty.symm⟩

theorem inRound (m : Machine) : m.Develops m.inRound :=
  ⟨(Scopes.Kept.refl m.scopes).grown, "", String.append_empty.symm⟩

/-- What began with a new scope and ends by closing it restores the machine. -/
theorem leaveScope (h : (m.mapScopes Scopes.enter).Develops m') : m.Restores (m'.mapScopes Scopes.exit) :=
  ⟨h.scopes.exit, h.output⟩

end Develops

end Machine

/-! ## The parts of statements -/

theorem Expr.restores {e : Expr} {v : Value} (h : e.eval b m = .ok (v, m')) : m.Restores m' :=
  (e.alters_eval b m v m' h).restores

theorem Simple.develops {s : Simple} (h : s.exec b m = .ok ((), m')) : m.Develops m' := by
  cases s with
  | expression e =>
      obtain ⟨⟨v, m₁⟩, heval, hpure⟩ := bind_eq_ok.mp h
      cases hpure
      exact (Expr.restores heval).develops
  | declaration name value =>
      cases value with
      | none =>
          cases h
          exact .define name .unset m
      | some e =>
          obtain ⟨⟨v, m₁⟩, heval, hdefine⟩ := bind_eq_ok.mp h
          cases hdefine
          exact (Expr.restores heval).develops.trans (.define name v m₁)

theorem develops_testCondition {condition : Option Expr} {goesOn : Bool}
    (h : testCondition b condition m = .ok (goesOn, m')) : m.Develops m' := by
  cases condition with
  | none =>
      cases h
      exact .refl m
  | some e =>
      obtain ⟨⟨v, m₁⟩, heval, hpure⟩ := bind_eq_ok.mp h
      cases hpure
      exact (Expr.restores heval).develops

theorem develops_runStep {step : Option Expr} (h : runStep b step m = .ok ((), m')) : m.Develops m' := by
  cases step with
  | none =>
      cases h
      exact .refl m
  | some e =>
      obtain ⟨⟨v, m₁⟩, heval, hpure⟩ := bind_eq_ok.mp h
      cases hpure
      exact (Expr.restores heval).develops

theorem develops_runInit {init : Option Simple} (h : runInit b init m = .ok ((), m')) : m.Develops m' := by
  cases init with
  | none =>
      cases h
      exact .refl m
  | some s => exact s.develops h

/-! ## Courses -/

theorem RunEnd.leaveScope_eq_ok : r.leaveScope = .ok (flow, m') ↔
    ∃ m, r = .ok (flow, m) ∧ m' = m.mapScopes Scopes.exit := by
  constructor
  · intro h
    obtain ⟨⟨flow, m⟩, hr, heq⟩ := map_eq_ok.mp h
    cases heq
    exact ⟨m, hr, rfl⟩
  · rintro ⟨m, rfl, rfl⟩
    rfl

/-- **A run that does not fail** only develops its machine. -/
theorem Course.develops (h : Course b t m n r) : ∀ {flow m'}, r = .ok (flow, m') → m.Develops m' := by
  induction h with
  | simple run =>
      intro flow m' hr
      cases hr
      exact Simple.develops run
  | block _ ih =>
      intro flow m' hr
      obtain ⟨m₁, hinside, rfl⟩ := RunEnd.leaveScope_eq_ok.mp hr
      exact (ih hinside).leaveScope.develops
  | ifThen test _ ih | ifThenElse test _ ih =>
      intro flow m' hr
      exact (Expr.restores test).develops.trans (ih hr)
  | whileLoop _ ih => exact ih
  | forLoop start _ ih =>
      intro flow m' hr
      obtain ⟨m₁, hinside, rfl⟩ := RunEnd.leaveScope_eq_ok.mp hr
      exact ((develops_runInit start).trans (ih hinside)).leaveScope.develops
  | «break» m | «continue» m | empty m | nil m =>
      intro flow m' hr
      cases hr
      exact .refl m
  | cons _ _ ihFirst ihOthers =>
      intro flow m' hr
      exact (ihFirst rfl).trans (ihOthers hr)
  | stop _ _ ih => exact ih
  | ends _ test =>
      intro flow m' hr
      cases hr
      exact (Develops.inRound _).trans (develops_testCondition test)
  | left _ test _ ih =>
      intro flow m' hr
      cases hr
      exact ((Develops.inRound _).trans (develops_testCondition test)).trans (ih rfl)
  | again _ test _ _ next _ ihRound ihOthers =>
      intro flow m' hr
      have hround := ((Develops.inRound _).trans (develops_testCondition test)).trans (ihRound rfl)
      exact (hround.trans (develops_runStep next)).trans (ihOthers hr)
  | simpleFails | ifThenFails | ifThenElseFails | forLoopFails | limit | testFails | bodyFails | stepFails =>
      intro flow m' hr
      cases hr

/-- The course of a statement that does not fail. -/
theorem Stmt.develops {s : Stmt} (h : s.exec b m = .ok (flow, m')) : m.Develops m' := by
  obtain ⟨n, r, course⟩ := exists_course_stmt b s m
  exact course.develops (course.exec_eq.symm.trans h)

theorem Stmt.develops_all {ss : List Stmt} (h : Stmt.execAll b ss m = .ok (flow, m')) : m.Develops m' := by
  obtain ⟨n, r, course⟩ := exists_course_list b ss m
  exact course.develops (course.exec_eq.symm.trans h)

theorem develops_rounds {condition step : Option Expr} {body : Stmt}
    (h : (Task.rounds condition step body).exec b m = .ok (flow, m')) : m.Develops m' := by
  obtain ⟨n, r, course⟩ := exists_course_rounds condition step (exists_course_stmt b body) m
  exact course.develops (course.exec_eq.symm.trans h)

/-! ## Statements with a scope of their own -/

/-- Whether a statement opens a scope. -/
def Stmt.hasScope : Stmt → Bool
  | .block _ | .forLoop .. => true
  | _ => false

/-- **A moment inside a statement with a scope**: behind the first statements of a block, or behind what a loop does
    before its rounds. -/
inductive Moment (b : Budget) : Stmt → Machine → Machine → Prop
  | block {front behind : List Stmt} {m m₁ : Machine}
      (run : Stmt.execAll b front (m.mapScopes Scopes.enter) = .ok (.normal, m₁)) :
      Moment b (.block (front ++ behind)) m m₁
  | forLoop {init : Option Simple} {condition step : Option Expr} {body : Stmt} {m m₁ : Machine}
      (run : runInit b init (m.mapScopes Scopes.enter) = .ok ((), m₁)) :
      Moment b (.forLoop init condition step body) m m₁

namespace Moment

variable {s : Stmt} {m₁ : Machine}

/-- Every statement with a scope has such a moment, unless it fails in front of it. -/
theorem exists_of_exec (hscope : s.hasScope = true) (h : s.exec b m = .ok (flow, m')) : ∃ m₁, Moment b s m m₁ := by
  cases s with
  | block body => exact ⟨_, @Moment.block b [] body m _ rfl⟩
  | forLoop init condition step body =>
      rw [exec_forLoop, onScopes_bind] at h
      obtain ⟨⟨⟨⟩, m₁⟩, hinit, -⟩ := bind_eq_ok.mp h
      exact ⟨m₁, .forLoop hinit⟩
  | _ => cases hscope

/-- **Up to a moment and from it on** a run develops its machine, inside of the scope that is closed in the end. -/
theorem develops (h : Moment b s m m₁) (hrun : s.exec b m = .ok (flow, m')) :
    ∃ m₂, (m.mapScopes Scopes.enter).Develops m₁ ∧ m₁.Develops m₂ ∧ m' = m₂.mapScopes Scopes.exit := by
  cases h with
  | @block front behind _ _ run =>
      change (Stmt.execAll b (front ++ behind) (m.mapScopes Scopes.enter) >>= _) = _ at hrun
      obtain ⟨⟨flow', m₂⟩, hall, hend⟩ := bind_eq_ok.mp hrun
      cases hend
      rw [execAll_append, run_bind_of_ok run] at hall
      exact ⟨m₂, Stmt.develops_all run, Stmt.develops_all hall, rfl⟩
  | @forLoop init condition step body _ _ run =>
      rw [exec_forLoop, onScopes_bind, run_bind_of_ok run] at hrun
      obtain ⟨⟨⟨⟩, m₂⟩, hloop, hend⟩ := bind_eq_ok.mp hrun
      cases hend
      have hrounds : (Task.rounds condition step body).exec b m₁ = .ok (.normal, m₂) := run_bind_of_ok hloop
      exact ⟨m₂, develops_runInit run, develops_rounds hrounds, rfl⟩

end Moment

/-- **A statement with a scope restores the machine.** -/
theorem Stmt.restores {s : Stmt} (hscope : s.hasScope = true) (h : s.exec b m = .ok (flow, m')) : m.Restores m' := by
  obtain ⟨m₁, hmoment⟩ := Moment.exists_of_exec hscope h
  obtain ⟨m₂, hfront, hbehind, rfl⟩ := hmoment.develops h
  exact (hfront.trans hbehind).leaveScope

/-- Scopes of which the innermost one, inside of others, binds a name. -/
def Scopes.Declares (x : String) (s : Scopes) : Prop :=
  ∃ (a : Scope) (outer : Scopes), s = outer.push a ∧ x ∈ a.names

/-- **Scopes are always restored.** However a statement ends that does not fail, there are as many scopes as before, and
    the output goes on from what it was. Behind a block or a `for` loop every scope binds the names that it bound
    before, and only the global one may bind more. Whatever is declared inside is gone: from the moment on when the
    scope of the block or loop binds a name, nothing changes what the name stands for outside, and that it stands for
    in the end. Statements are the trees that the parser can build. -/
theorem scopes_are_restored {s : Stmt} (h : s.exec b m = .ok (flow, m')) :
    m'.scopes.depth = m.scopes.depth ∧
    (s.hasScope = true → m'.scopes.inner.map Scope.names = m.scopes.inner.map Scope.names ∧
      m.scopes.global.names ⊆ m'.scopes.global.names ∧
      ∀ m₁ x, Moment b s m m₁ → m₁.scopes.Declares x → m'.scopes.get? x = m₁.scopes.exit.get? x) ∧
    ∃ text, m'.output = m.output ++ text := by
  have hdevelops := Stmt.develops h
  refine ⟨hdevelops.scopes.depth_eq, fun hscope => ?_, hdevelops.output⟩
  have hrestores := Stmt.restores hscope h
  refine ⟨hrestores.scopes.names_inner, hrestores.scopes.names_global, ?_⟩
  intro m₁ x hmoment hdeclares
  obtain ⟨m₂, -, hbehind, rfl⟩ := hmoment.develops h
  obtain ⟨a, outer, heq, hx⟩ := hdeclares
  have hgrown : (outer.push a).Grown m₂.scopes := heq ▸ hbehind.scopes
  rw [heq]
  exact hgrown.get?_exit hx

/-- The loop `for (int i = 0; ; i++) { int y = i; if (i == 1) break; z = y; }`, which is left in its second round. -/
def leftInSecondRound : Stmt :=
  .forLoop (some (.declaration "i" (some (.intLiteral 0)))) none (some (.increment "i" .up false))
    (.block [.simple (.declaration "y" (some (.variable "i"))),
      .ifThen (.binary .eq (.variable "i") (.intLiteral 1)) .break,
      .simple (.expression (.assign "z" none (.variable "y")))])

/-- Where `i` is 7, it is 7 behind that loop, too. There is no `y`, and `z` is a global variable. -/
theorem loop_variable_is_gone :
    let m : Machine := ⟨⟨[[("i", .int 7)]], []⟩, "x", 0⟩
    let m' : Machine := ⟨⟨[[("i", .int 7)]], [("z", .int 0)]⟩, "x", 2⟩
    leftInSecondRound.exec ⟨[], 5⟩ m = .ok (.normal, m') ∧ m'.scopes.depth = m.scopes.depth ∧
      m'.scopes.get? "i" = some (.int 7) ∧ m'.scopes.get? "y" = none := by
  intro m m'
  have hrun : leftInSecondRound.exec ⟨[], 5⟩ m = .ok (.normal, m') := by rfl
  obtain ⟨hdepth, hrestored, -⟩ := scopes_are_restored hrun
  obtain ⟨-, -, hgone⟩ := hrestored rfl
  have hmoment : Moment ⟨[], 5⟩ leftInSecondRound m (m.mapScopes fun s => s.push [("i", .int 0)]) := .forLoop rfl
  have hi := hgone _ "i" hmoment ⟨[("i", .int 0)], m.scopes, rfl, by decide⟩
  exact ⟨hrun, hdepth, hi, rfl⟩

end Inlay
