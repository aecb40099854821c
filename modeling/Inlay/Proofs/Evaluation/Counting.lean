import Inlay.Proofs.Evaluation.Faults

/-!
# `Proofs.Evaluation.Counting` — what counts as a round

A run counts the rounds of all its loops together, and a round is begun in one place. Everything else, an expression
above all, leaves the count as it is and does not fail with the limit (`Uncounted`); a statement takes nothing back
from the count (`Stmt.advances_exec`). So the rounds that a loop is given are never too few: it is its first round and
the loop again (`repeatRound_eq`).
-/

namespace Inlay

open Machine

variable {α β : Type} {e : Error}

/-- A result that is not the failure of a limit. -/
def Spares (x : Except Error α) : Prop :=
  ∀ k, x ≠ .error (.tooManyIterations k)

theorem Spares.ok (a : α) : Spares (.ok a) :=
  fun _ h => nomatch h

theorem Tame.spares {x : Except Error α} (h : Tame x) : Spares x :=
  fun _ heq => h _ heq

/-! ## Computations -/

namespace Machine

/-- **A computation that begins no round** and does not fail as if it did. -/
structure Uncounted (x : Run α) : Prop where
  iterations : ∀ {m a m'}, x m = .ok (a, m') → m'.iterations = m.iterations
  spares : ∀ m, Spares (x m)

/-- A computation that takes back no round. -/
def Advances (x : Run α) : Prop :=
  ∀ m a m', x m = .ok (a, m') → m.iterations ≤ m'.iterations

theorem Computes.uncounted {x : Run α} (h : Computes x) : Uncounted x :=
  ⟨h.iterations, fun m => (h.tame m).spares⟩

namespace Uncounted

theorem pure (a : α) : Uncounted (Pure.pure a : Run α) :=
  (Computes.pure a).uncounted

theorem onScopes (f : Scopes → Scopes) : Uncounted (onScopes f) :=
  (Computes.onScopes f).uncounted

theorem advances {x : Run α} (h : Uncounted x) : Advances x :=
  fun _ _ _ hrun => Nat.le_of_eq (h.iterations hrun).symm

end Uncounted

end Machine

/-- **Expressions begin no rounds.** -/
theorem Expr.uncounted_eval (b : Budget) (e : Expr) : Uncounted (e.eval b) :=
  (e.computes_eval b).uncounted

theorem Simple.uncounted_exec (b : Budget) (s : Simple) : Uncounted (s.exec b) :=
  (s.computes_exec b).uncounted

theorem uncounted_testCondition (b : Budget) (condition : Option Expr) : Uncounted (testCondition b condition) :=
  (computes_testCondition b condition).uncounted

theorem uncounted_runStep (b : Budget) (step : Option Expr) : Uncounted (runStep b step) :=
  (computes_runStep b step).uncounted

/-! ## Loops -/

namespace Machine

variable {limit : Nat} {round : Run Bool} {m : Machine}

namespace Advances

theorem bind {x : Run α} {f : α → Run β} (hx : Advances x) (hf : ∀ a, Advances (f a)) : Advances (x >>= f) := by
  intro m c m' h
  obtain ⟨⟨a, m₁⟩, h₁, h₂⟩ := bind_eq_ok.mp h
  exact Nat.le_trans (hx m a m₁ h₁) (hf a m₁ c m' h₂)

theorem ite {c : Prop} [Decidable c] {x y : Run α} (hx : Advances x) (hy : Advances y) :
    Advances (if c then x else y) := by
  split
  · exact hx
  · exact hy

theorem pure (a : α) : Advances (Pure.pure a : Run α) :=
  (Uncounted.pure a).advances

end Advances

/-- A round may begin exactly below the limit. -/
theorem beginRound_eq (limit : Nat) (m : Machine) : beginRound limit m =
    if m.iterations < limit then .ok ((), { m with iterations := m.iterations + 1 })
    else .error (.tooManyIterations limit) := by
  unfold beginRound
  by_cases h : m.iterations < limit
  · rw [if_pos h, if_neg (Nat.not_lt.mpr h)]
  · rw [if_neg h, if_pos (Nat.lt_succ_of_le (Nat.le_of_not_lt h))]

theorem beginRound_advances (limit : Nat) : Advances (beginRound limit) := by
  intro m a m' h
  rw [beginRound_eq] at h
  split at h
  · cases h
    exact Nat.le_succ _
  · cases h

theorem loop_advances (h : Advances round) (rounds : Nat) : Advances (loop limit round rounds) := by
  induction rounds with
  | zero => exact fun _ _ _ hrun => nomatch hrun
  | succ rounds ih => exact (beginRound_advances limit).bind fun _ => h.bind fun _ => .ite ih (.pure ())

theorem repeatRound_advances (h : Advances round) : Advances (repeatRound limit round) :=
  fun m => loop_advances h (limit - m.iterations) m

/-- A loop that can begin no round. -/
theorem loop_of_limit (h : limit ≤ m.iterations) (rounds : Nat) :
    loop limit round rounds m = .error (.tooManyIterations limit) := by
  cases rounds with
  | zero => rfl
  | succ rounds =>
      show (beginRound limit m >>= _) = _
      rw [beginRound_eq, if_neg (Nat.not_lt.mpr h)]
      rfl

/-- A loop that can begin a round does so, and goes on or ends. -/
theorem loop_succ (h : m.iterations < limit) (rounds : Nat) : loop limit round (rounds + 1) m = (do
    let (goesOn, m') ← round { m with iterations := m.iterations + 1 }
    if goesOn then loop limit round rounds m' else .ok ((), m')) := by
  show (beginRound limit m >>= _) = _
  rw [beginRound_eq, if_pos h]
  show (round _ >>= _) = _
  refine bind_congr fun (goesOn, m') => ?_
  cases goesOn <;> rfl

/-- **Rounds beyond those that are left** are never begun. -/
theorem loop_eq_loop (h : Advances round) {j k : Nat} (hj : limit - m.iterations ≤ j)
    (hk : limit - m.iterations ≤ k) : loop limit round j m = loop limit round k m := by
  induction j generalizing k m with
  | zero => rw [loop_of_limit (by omega), loop_of_limit (by omega)]
  | succ j ih =>
      by_cases hm : m.iterations < limit
      · obtain ⟨k, rfl⟩ : ∃ k', k = k' + 1 := ⟨k - 1, by omega⟩
        rw [loop_succ hm, loop_succ hm]
        cases hround : round { m with iterations := m.iterations + 1 } with
        | error e => rfl
        | ok result =>
            obtain ⟨goesOn, m'⟩ := result
            have hle : m.iterations + 1 ≤ m'.iterations := h _ _ _ hround
            cases goesOn with
            | false => rfl
            | true => exact ih (by omega) (by omega)
      · rw [loop_of_limit (by omega), loop_of_limit (by omega)]

/-- **A loop is its first round and the loop again.** -/
theorem repeatRound_eq (h : Advances round) : repeatRound limit round = (do
    beginRound limit
    if ← round then repeatRound limit round else pure ()) := by
  funext m
  show loop limit round (limit - m.iterations) m = (beginRound limit m >>= _)
  rw [beginRound_eq]
  by_cases hm : m.iterations < limit
  · obtain ⟨k, hk⟩ : ∃ k, limit - m.iterations = k + 1 := ⟨limit - m.iterations - 1, by omega⟩
    rw [hk, loop_succ hm, if_pos hm]
    show _ = (round _ >>= _)
    cases hround : round { m with iterations := m.iterations + 1 } with
    | error e => rfl
    | ok result =>
        obtain ⟨goesOn, m'⟩ := result
        have hle : m.iterations + 1 ≤ m'.iterations := h _ _ _ hround
        cases goesOn with
        | false => rfl
        | true => exact loop_eq_loop h (by omega) (by omega)
  · rw [loop_of_limit (by omega), if_neg hm]
    rfl

end Machine

/-- **A round of a loop**: its test, its body and its step. It says whether there is another one. -/
def roundOf (b : Budget) (condition step : Option Expr) (body : Stmt) : Run Bool := do
  if ← testCondition b condition then
    if (← body.exec b) == .break then return false
    else
      runStep b step
      return true
  else return false

/-- What a loop does before its first round. -/
def runInit (b : Budget) : Option Simple → Run Unit
  | none => pure ()
  | some s => s.exec b

theorem computes_runInit (b : Budget) (init : Option Simple) : Computes (runInit b init) := by
  cases init with
  | none => exact .pure ()
  | some s => exact s.computes_exec b

theorem uncounted_runInit (b : Budget) (init : Option Simple) : Uncounted (runInit b init) :=
  (computes_runInit b init).uncounted

theorem exec_forLoop (b : Budget) (init : Option Simple) (condition step : Option Expr) (body : Stmt) :
    (Stmt.forLoop init condition step body).exec b = (do
      onScopes Scopes.enter
      runInit b init
      repeatRound b.limit (roundOf b condition step body)
      onScopes Scopes.exit
      return .normal) := by
  cases init <;> rfl

theorem exec_whileLoop (b : Budget) (condition : Expr) (body : Stmt) :
    (Stmt.whileLoop condition body).exec b = (do
      repeatRound b.limit (roundOf b (some condition) none body)
      return .normal) := by
  have hround : roundOf b (some condition) none body = (do
      if (← condition.eval b).isTruthy then return (← body.exec b) != .break else return false) := by
    unfold roundOf
    rw [testCondition, bind_assoc]
    refine bind_congr fun v => ?_
    rw [pure_bind]
    by_cases hv : v.isTruthy = true
    · rw [if_pos hv, if_pos hv]
      refine bind_congr fun flow => ?_
      cases flow <;> rfl
    · rw [if_neg hv, if_neg hv]
  rw [hround]
  rfl

theorem roundOf_advances {b : Budget} {body : Stmt} (h : Advances (body.exec b)) (condition step : Option Expr) :
    Advances (roundOf b condition step body) := by
  have hstep : Advances (do runStep b step; return true) :=
    (uncounted_runStep b step).advances.bind fun _ => .pure true
  exact (uncounted_testCondition b condition).advances.bind fun _ =>
    .ite (h.bind fun _ => .ite (.pure false) hstep) (.pure false)

mutual

/-- **Statements take back no rounds.** -/
theorem Stmt.advances_exec (b : Budget) : ∀ s : Stmt, Advances (s.exec b)
  | .simple s => (s.uncounted_exec b).advances.bind fun _ => .pure _
  | .block body =>
      (Uncounted.onScopes _).advances.bind fun _ => (Stmt.advances_execAll b body).bind fun _ =>
        (Uncounted.onScopes _).advances.bind fun _ => .pure _
  | .ifThen condition thenBranch =>
      (condition.uncounted_eval b).advances.bind fun _ => .ite (thenBranch.advances_exec b) (.pure _)
  | .ifThenElse condition thenBranch elseBranch =>
      (condition.uncounted_eval b).advances.bind fun _ =>
        .ite (thenBranch.advances_exec b) (elseBranch.advances_exec b)
  | .whileLoop condition body => by
      rw [exec_whileLoop]
      exact (repeatRound_advances (roundOf_advances (body.advances_exec b) _ _)).bind fun _ => .pure _
  | .forLoop init condition step body => by
      have hloop : Advances (repeatRound b.limit (roundOf b condition step body)) :=
        repeatRound_advances (roundOf_advances (body.advances_exec b) condition step)
      rw [exec_forLoop]
      exact (Uncounted.onScopes _).advances.bind fun _ => (uncounted_runInit b init).advances.bind fun _ =>
        hloop.bind fun _ => (Uncounted.onScopes _).advances.bind fun _ => .pure _
  | .break | .continue | .empty => .pure _

theorem Stmt.advances_execAll (b : Budget) : ∀ ss : List Stmt, Advances (Stmt.execAll b ss)
  | [] => .pure _
  | s :: ss => by
      refine (s.advances_exec b).bind fun flow => ?_
      split
      · exact Stmt.advances_execAll b ss
      · exact .pure _

end

end Inlay
