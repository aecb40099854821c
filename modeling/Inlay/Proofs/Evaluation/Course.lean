import Inlay.Proofs.Evaluation.Counting

/-!
# `Proofs.Evaluation.Course` — the course of a run, rule by rule

What a run does is given by rules that know no number of rounds in advance (`Course`). They count how often the run
tests whether a loop goes on. The limit is in them only where it forbids a round, so the count tells whether a run was
cut off (`Course.accounted`).

The interpreter follows the rules (`Course.exec_eq`), and every run has a course (`exists_course_stmt`): the rounds
that are left become fewer with each round, and between rounds the syntax does.
-/

namespace Inlay

open Machine

/-! ## The rules -/

/-- What a run ends with. -/
abbrev RunEnd := Except Error (Flow × Machine)

/-- What can be run: a statement, statements in order, or the rounds of a loop. -/
inductive Task where
  | stmt (s : Stmt)
  | list (ss : List Stmt)
  | rounds (condition step : Option Expr) (body : Stmt)

namespace Machine

/-- A machine with other variables. -/
def mapScopes (f : Scopes → Scopes) (m : Machine) : Machine :=
  { m with scopes := f m.scopes }

/-- A machine that has begun another round. -/
def inRound (m : Machine) : Machine :=
  { m with iterations := m.iterations + 1 }

@[simp] theorem iterations_inRound (m : Machine) : m.inRound.iterations = m.iterations + 1 := rfl

end Machine

/-- The end of a run, with the innermost scope closed. -/
def RunEnd.leaveScope (r : RunEnd) : RunEnd :=
  r.map fun (flow, m) => (flow, m.mapScopes Scopes.exit)

/-- **The course of a run.** Run on `m`, the task tests `n` times whether a loop goes on, and ends with `r`. The test
    that the limit forbids is counted, too. -/
inductive Course (b : Budget) : Task → Machine → Nat → RunEnd → Prop
  | simple {s m m'} (run : s.exec b m = .ok ((), m')) : Course b (.stmt (.simple s)) m 0 (.ok (.normal, m'))
  | simpleFails {s m e} (run : s.exec b m = .error e) : Course b (.stmt (.simple s)) m 0 (.error e)
  | block {body m n r} (inside : Course b (.list body) (m.mapScopes Scopes.enter) n r) :
      Course b (.stmt (.block body)) m n r.leaveScope
  | ifThen {condition thenBranch m v m' n r} (test : condition.eval b m = .ok (v, m'))
      (chosen : Course b (.stmt (if v.isTruthy then thenBranch else .empty)) m' n r) :
      Course b (.stmt (.ifThen condition thenBranch)) m n r
  | ifThenFails {condition thenBranch m e} (test : condition.eval b m = .error e) :
      Course b (.stmt (.ifThen condition thenBranch)) m 0 (.error e)
  | ifThenElse {condition thenBranch elseBranch m v m' n r} (test : condition.eval b m = .ok (v, m'))
      (chosen : Course b (.stmt (if v.isTruthy then thenBranch else elseBranch)) m' n r) :
      Course b (.stmt (.ifThenElse condition thenBranch elseBranch)) m n r
  | ifThenElseFails {condition thenBranch elseBranch m e} (test : condition.eval b m = .error e) :
      Course b (.stmt (.ifThenElse condition thenBranch elseBranch)) m 0 (.error e)
  | whileLoop {condition body m n r} (rounds : Course b (.rounds (some condition) none body) m n r) :
      Course b (.stmt (.whileLoop condition body)) m n r
  | forLoop {init condition step body m m' n r} (start : runInit b init (m.mapScopes Scopes.enter) = .ok ((), m'))
      (rounds : Course b (.rounds condition step body) m' n r) :
      Course b (.stmt (.forLoop init condition step body)) m n r.leaveScope
  | forLoopFails {init condition step body m e} (start : runInit b init (m.mapScopes Scopes.enter) = .error e) :
      Course b (.stmt (.forLoop init condition step body)) m 0 (.error e)
  | break (m) : Course b (.stmt .break) m 0 (.ok (.break, m))
  | continue (m) : Course b (.stmt .continue) m 0 (.ok (.continue, m))
  | empty (m) : Course b (.stmt .empty) m 0 (.ok (.normal, m))
  /-- No statement is left. -/
  | nil (m) : Course b (.list []) m 0 (.ok (.normal, m))
  /-- The first statement ends normally. -/
  | cons {s ss m n m' k r} (first : Course b (.stmt s) m n (.ok (.normal, m')))
      (others : Course b (.list ss) m' k r) : Course b (.list (s :: ss)) m (n + k) r
  /-- The first statement fails or leaves. -/
  | stop {s ss m n r} (first : Course b (.stmt s) m n r) (leaves : ∀ m', r ≠ .ok (.normal, m')) :
      Course b (.list (s :: ss)) m n r
  /-- The limit forbids another round. -/
  | limit {condition step body m} (reached : b.limit ≤ m.iterations) :
      Course b (.rounds condition step body) m 1 (.error (.tooManyIterations b.limit))
  | testFails {condition step body m e} (begun : m.iterations < b.limit)
      (test : testCondition b condition m.inRound = .error e) :
      Course b (.rounds condition step body) m 1 (.error e)
  /-- The loop does not go on. -/
  | ends {condition step body m m'} (begun : m.iterations < b.limit)
      (test : testCondition b condition m.inRound = .ok (false, m')) :
      Course b (.rounds condition step body) m 1 (.ok (.normal, m'))
  | bodyFails {condition step body m m₁ n e} (begun : m.iterations < b.limit)
      (test : testCondition b condition m.inRound = .ok (true, m₁)) (round : Course b (.stmt body) m₁ n (.error e)) :
      Course b (.rounds condition step body) m (1 + n) (.error e)
  /-- The body leaves the loop. -/
  | left {condition step body m m₁ n m'} (begun : m.iterations < b.limit)
      (test : testCondition b condition m.inRound = .ok (true, m₁))
      (round : Course b (.stmt body) m₁ n (.ok (.break, m'))) :
      Course b (.rounds condition step body) m (1 + n) (.ok (.normal, m'))
  | stepFails {condition step body m m₁ n flow m₂ e} (begun : m.iterations < b.limit)
      (test : testCondition b condition m.inRound = .ok (true, m₁))
      (round : Course b (.stmt body) m₁ n (.ok (flow, m₂))) (stays : flow ≠ .break)
      (next : runStep b step m₂ = .error e) : Course b (.rounds condition step body) m (1 + n) (.error e)
  /-- The loop goes on. -/
  | again {condition step body m m₁ n flow m₂ m₃ k r} (begun : m.iterations < b.limit)
      (test : testCondition b condition m.inRound = .ok (true, m₁))
      (round : Course b (.stmt body) m₁ n (.ok (flow, m₂))) (stays : flow ≠ .break)
      (next : runStep b step m₂ = .ok ((), m₃)) (others : Course b (.rounds condition step body) m₃ k r) :
      Course b (.rounds condition step body) m (1 + n + k) r

/-! ## The tests of a course -/

/-- **How a course ends** that starts behind `i` rounds. The rounds that were begun are those that were tested, and
    they are within the limit; or the last test is the one too many. -/
inductive Accounted (limit i : Nat) : Nat → RunEnd → Prop
  | ended {n flow m} (count : m.iterations = i + n) (within : m.iterations ≤ limit) :
      Accounted limit i n (.ok (flow, m))
  | failed {n e} (other : ∀ k, e ≠ .tooManyIterations k) (within : i + n ≤ limit) : Accounted limit i n (.error e)
  | cutOff {n} (count : i + n = limit + 1) : Accounted limit i n (.error (.tooManyIterations limit))

variable {b : Budget} {t : Task} {r : RunEnd} {m m' : Machine} {n k i j limit : Nat} {flow : Flow} {e : Error}

namespace Accounted

theorem of_ok (h : Accounted limit i n (.ok (flow, m))) : m.iterations = i + n ∧ m.iterations ≤ limit := by
  cases h with
  | ended count within => exact ⟨count, within⟩

/-- No test follows on the one too many, and no other failure is taken for it. -/
theorem tests (h : Accounted limit i n r) :
    i + n ≤ limit + 1 ∧ ∀ k, r = .error (.tooManyIterations k) ↔ i + n = limit + 1 ∧ k = limit := by
  cases h with
  | ended count within =>
      refine ⟨by omega, fun k => ⟨nofun, ?_⟩⟩
      rintro ⟨h, -⟩
      omega
  | failed other within =>
      refine ⟨by omega, fun k => ⟨fun h => absurd (Except.error.inj h) (other k), ?_⟩⟩
      rintro ⟨h, -⟩
      omega
  | cutOff count =>
      refine ⟨by omega, fun k => ⟨?_, ?_⟩⟩
      · rintro ⟨⟩
        exact ⟨count, rfl⟩
      · rintro ⟨-, rfl⟩
        rfl

/-- What follows on other tests is accounted for together with them. -/
theorem after (hj : j = i + k) (h : Accounted limit j n r) : Accounted limit i (k + n) r := by
  cases h with
  | ended count within => exact .ended (by omega) within
  | failed other within => exact .failed other (by omega)
  | cutOff count => exact .cutOff (by omega)

theorem leaveScope (h : Accounted limit i n r) : Accounted limit i n r.leaveScope := by
  cases h with
  | ended count within => exact .ended count within
  | failed other within => exact .failed other within
  | cutOff count => exact .cutOff count

end Accounted

namespace Machine.Uncounted

variable {α : Type} {x : Run α}

theorem ne_of_error (hx : Uncounted x) (h : x m = .error e) (k : Nat) : e ≠ .tooManyIterations k := by
  rintro rfl
  exact hx.spares m k h

end Machine.Uncounted

/-- **A course accounts for its tests**, if it starts within the limit. -/
theorem Course.accounted (h : Course b t m n r) (hm : m.iterations ≤ b.limit) :
    Accounted b.limit m.iterations n r := by
  -- only the rules for rounds count; everything else leaves the number of rounds as it is
  induction h with
  | simple run =>
      have hrun := (Simple.uncounted_exec b _).iterations run
      exact .ended hrun (hrun ▸ hm)
  | simpleFails run => exact .failed ((Simple.uncounted_exec b _).ne_of_error run) hm
  | block _ ih => exact (ih hm).leaveScope
  | ifThen test _ ih | ifThenElse test _ ih =>
      have htest := (Expr.uncounted_eval b _).iterations test
      exact htest ▸ ih (htest ▸ hm)
  | ifThenFails test | ifThenElseFails test => exact .failed ((Expr.uncounted_eval b _).ne_of_error test) hm
  | whileLoop _ ih => exact ih hm
  | @forLoop _ _ _ _ m _ _ _ start _ ih =>
      have hstart := (uncounted_runInit b _).iterations start
      rw [hstart] at ih
      exact (ih hm).leaveScope
  | forLoopFails start => exact .failed ((uncounted_runInit b _).ne_of_error start) hm
  | «break» | «continue» | empty | nil => exact .ended rfl hm
  | cons _ _ ihFirst ihOthers =>
      obtain ⟨hcount, hwithin⟩ := (ihFirst hm).of_ok
      exact (ihOthers hwithin).after hcount
  | stop _ _ ih => exact ih hm
  | limit reached => exact .cutOff (by omega)
  | testFails begun test => exact .failed ((uncounted_testCondition b _).ne_of_error test) begun
  | ends begun test =>
      have htest := (uncounted_testCondition b _).iterations test
      exact .ended htest (htest ▸ begun)
  | bodyFails begun test _ ih =>
      have htest := (uncounted_testCondition b _).iterations test
      exact (ih (htest ▸ begun)).after htest
  | left begun test _ ih =>
      have htest := (uncounted_testCondition b _).iterations test
      obtain ⟨hcount, hwithin⟩ := ((ih (htest ▸ begun)).after htest).of_ok
      exact .ended hcount hwithin
  | stepFails begun test _ _ next ih =>
      have htest := (uncounted_testCondition b _).iterations test
      obtain ⟨hcount, hwithin⟩ := ((ih (htest ▸ begun)).after htest).of_ok
      exact .failed ((uncounted_runStep b _).ne_of_error next) (hcount ▸ hwithin)
  | again begun test _ _ next _ ihRound ihOthers =>
      have htest := (uncounted_testCondition b _).iterations test
      have hnext := (uncounted_runStep b _).iterations next
      obtain ⟨hcount, hwithin⟩ := ((ihRound (htest ▸ begun)).after htest).of_ok
      exact (ihOthers (hnext ▸ hwithin)).after (hnext.trans hcount)

/-! ## Courses and the interpreter -/

/-- What the interpreter does with a task. -/
def Task.exec (b : Budget) : Task → Run Flow
  | stmt s => s.exec b
  | list ss => Stmt.execAll b ss
  | rounds condition step body => do
    repeatRound b.limit (roundOf b condition step body)
    return .normal

section

variable {α β : Type} {x : Run α} {f : α → Run β} {a : α}

theorem run_bind_of_ok (h : x m = .ok (a, m')) : (x >>= f) m = f a m' := by
  show (x m >>= fun (a, m') => f a m') = _
  rw [h]
  rfl

theorem onScopes_bind (g : Scopes → Scopes) (f : Unit → Run β) (m : Machine) :
    (onScopes g >>= f) m = f () (m.mapScopes g) := rfl

theorem run_bind_of_error (h : x m = .error e) : (x >>= f) m = .error e := by
  show (x m >>= fun (a, m') => f a m') = _
  rw [h]
  rfl

end

variable {condition step : Option Expr} {body : Stmt}

theorem exec_rounds_of_limit (reached : b.limit ≤ m.iterations) :
    (Task.rounds condition step body).exec b m = .error (.tooManyIterations b.limit) :=
  run_bind_of_error (loop_of_limit reached _)

theorem exec_rounds_eq (b : Budget) (condition step : Option Expr) (body : Stmt) :
    (Task.rounds condition step body).exec b = (do
      beginRound b.limit
      if ← roundOf b condition step body then (Task.rounds condition step body).exec b else return .normal) := by
  have hround := roundOf_advances (body.advances_exec b) condition step
  have hloop : repeatRound b.limit (roundOf b condition step body) = _ := repeatRound_eq hround
  have hexec := congrArg (· >>= fun _ => (return .normal : Run Flow)) hloop
  refine hexec.trans ?_
  rw [bind_assoc]
  refine bind_congr fun _ => ?_
  rw [bind_assoc]
  refine bind_congr fun goesOn => ?_
  cases goesOn <;> rfl

/-- **A round that may begin** is run, and the loop goes on or ends. -/
theorem exec_rounds (begun : m.iterations < b.limit) : (Task.rounds condition step body).exec b m = (do
    if ← roundOf b condition step body then (Task.rounds condition step body).exec b
    else return .normal) m.inRound := by
  have hbegin : beginRound b.limit m = .ok ((), m.inRound) := by
    rw [beginRound_eq, if_pos begun]
    rfl
  exact (congrFun (exec_rounds_eq b condition step body) m).trans (run_bind_of_ok hbegin)

/-- The round of a body that was run. -/
theorem roundOf_of_body {m₁ m₂ : Machine} (step : Option Expr) (test : testCondition b condition m = .ok (true, m₁))
    (round : body.exec b m₁ = .ok (flow, m₂)) : roundOf b condition step body m =
      (if flow == .break then return false else do runStep b step; return true : Run Bool) m₂ :=
  (run_bind_of_ok test).trans (run_bind_of_ok round)

theorem Course.exec_eq (h : Course b t m n r) : t.exec b m = r := by
  induction h with
  | simple run => exact run_bind_of_ok run
  | simpleFails run => exact run_bind_of_error run
  | @block body m n r _ ih =>
      show (Stmt.execAll b body (m.mapScopes Scopes.enter) >>= _) = _
      rw [show Stmt.execAll b body _ = r from ih]
      cases r <;> rfl
  | @ifThen condition thenBranch m v m' n r test _ ih =>
      refine (run_bind_of_ok test).trans ?_
      rw [← ih]
      split <;> rfl
  | @ifThenElse condition thenBranch elseBranch m v m' n r test _ ih =>
      refine (run_bind_of_ok test).trans ?_
      rw [← ih]
      split <;> rfl
  | ifThenFails test | ifThenElseFails test => exact run_bind_of_error test
  | whileLoop _ ih => exact (congrFun (exec_whileLoop b _ _) _).trans ih
  | @forLoop init condition step body m m' n r start _ ih =>
      show (Stmt.forLoop init condition step body).exec b m = _
      have hloop : (repeatRound b.limit (roundOf b condition step body) m' >>= fun (_, m) => .ok (.normal, m)) = r := ih
      rw [exec_forLoop]
      refine (onScopes_bind _ _ m).trans ((run_bind_of_ok start).trans ?_)
      rw [← hloop]
      show (repeatRound b.limit (roundOf b condition step body) m' >>= _) = _
      cases repeatRound b.limit (roundOf b condition step body) m' <;> rfl
  | @forLoopFails init condition step body m e start =>
      show (Stmt.forLoop init condition step body).exec b m = _
      rw [exec_forLoop]
      exact (onScopes_bind _ _ m).trans (run_bind_of_error start)
  | «break» | «continue» | empty | nil => rfl
  | cons _ _ ihFirst ihOthers => exact (run_bind_of_ok ihFirst).trans ihOthers
  | @stop s ss m n r _ leaves ih =>
      show (s.exec b m >>= _) = _
      rw [show s.exec b m = r from ih]
      cases r with
      | error e => rfl
      | ok result =>
          obtain ⟨flow, m'⟩ := result
          cases flow with
          | normal => exact absurd rfl (leaves m')
          | «break» | «continue» => rfl
  | limit reached => exact exec_rounds_of_limit reached
  | testFails begun test => exact (exec_rounds begun).trans (run_bind_of_error (run_bind_of_error test))
  | @ends condition step body _ m' begun test =>
      have hround : roundOf b condition step body _ = .ok (false, m') := run_bind_of_ok test
      rw [exec_rounds begun, run_bind_of_ok hround]
      rfl
  | bodyFails begun test _ ih =>
      exact (exec_rounds begun).trans (run_bind_of_error ((run_bind_of_ok test).trans (run_bind_of_error ih)))
  | @left condition step body _ _ _ m' begun test _ ih =>
      have hround : roundOf b condition step body _ = .ok (false, m') := roundOf_of_body step test ih
      rw [exec_rounds begun, run_bind_of_ok hround]
      rfl
  | @stepFails _ step _ _ _ _ _ _ _ begun test _ stays next ih =>
      have hround := roundOf_of_body step test ih
      rw [if_neg (by simpa using stays), run_bind_of_error next] at hround
      exact (exec_rounds begun).trans (run_bind_of_error hround)
  | @again _ step _ _ _ _ _ _ _ _ _ begun test _ stays next _ ihRound ihOthers =>
      have hround := roundOf_of_body step test ihRound
      rw [if_neg (by simpa using stays), run_bind_of_ok next] at hround
      exact (exec_rounds begun).trans ((run_bind_of_ok hround).trans ihOthers)

/-- Statements behind others are run if the others end normally. -/
theorem execAll_append (b : Budget) (p q : Program) : Stmt.execAll b (p ++ q) = do
    match ← Stmt.execAll b p with
    | .normal => Stmt.execAll b q
    | flow => return flow := by
  induction p with
  | nil =>
      rw [Stmt.execAll, pure_bind]
      rfl
  | cons s p ih =>
      rw [List.cons_append, Stmt.execAll, Stmt.execAll, bind_assoc]
      refine bind_congr fun flow => ?_
      cases flow with
      | normal => exact ih
      | «break» => rw [pure_bind]
      | «continue» => rw [pure_bind]

/-! ## Every run has a course -/

/-- **The rounds of a loop end**, if its body always does. -/
theorem exists_course_rounds (condition step : Option Expr) (hbody : ∀ m, ∃ n r, Course b (.stmt body) m n r)
    (m : Machine) :
    ∃ n r, Course b (.rounds condition step body) m n r := by
  induction hleft : b.limit - m.iterations using Nat.strongRecOn generalizing m with
  | ind left ih =>
      subst hleft
      by_cases begun : m.iterations < b.limit
      · cases test : testCondition b condition m.inRound with
        | error e => exact ⟨_, _, .testFails begun test⟩
        | ok tested =>
            obtain ⟨goesOn, m₁⟩ := tested
            cases goesOn with
            | false => exact ⟨_, _, .ends begun test⟩
            | true =>
                obtain ⟨n, r, round⟩ := hbody m₁
                cases r with
                | error e => exact ⟨_, _, .bodyFails begun test round⟩
                | ok result =>
                    obtain ⟨flow, m₂⟩ := result
                    by_cases stays : flow = .break
                    · subst stays
                      exact ⟨_, _, .left begun test round⟩
                    · cases next : runStep b step m₂ with
                      | error e => exact ⟨_, _, .stepFails begun test round stays next⟩
                      | ok stepped =>
                          obtain ⟨⟨⟩, m₃⟩ := stepped
                          -- the round that was begun leaves fewer of them
                          have htest := (uncounted_testCondition b condition).iterations test
                          have hnext := (uncounted_runStep b step).iterations next
                          have hround := (round.accounted (htest ▸ begun)).of_ok
                          have hless : b.limit - m₃.iterations < b.limit - m.iterations := by
                            rw [hnext, hround.1, htest, iterations_inRound]
                            omega
                          obtain ⟨k, r, others⟩ := ih _ hless m₃ rfl
                          exact ⟨_, _, .again begun test round stays next others⟩
      · exact ⟨_, _, .limit (Nat.le_of_not_lt begun)⟩

mutual

/-- **Every statement has a course.** -/
theorem exists_course_stmt (b : Budget) : ∀ (s : Stmt) (m : Machine), ∃ n r, Course b (.stmt s) m n r
  | .simple s, m => by
      cases run : s.exec b m with
      | error e => exact ⟨_, _, .simpleFails run⟩
      | ok result => exact ⟨_, _, .simple run⟩
  | .block body, m => by
      obtain ⟨n, r, inside⟩ := exists_course_list b body (m.mapScopes Scopes.enter)
      exact ⟨_, _, .block inside⟩
  | .ifThen condition thenBranch, m => by
      cases test : condition.eval b m with
      | error e => exact ⟨_, _, .ifThenFails test⟩
      | ok result =>
          obtain ⟨v, m'⟩ := result
          have hchosen : ∃ n r, Course b (.stmt (if v.isTruthy then thenBranch else .empty)) m' n r := by
            split
            · exact exists_course_stmt b thenBranch m'
            · exact ⟨_, _, .empty m'⟩
          obtain ⟨n, r, chosen⟩ := hchosen
          exact ⟨_, _, .ifThen test chosen⟩
  | .ifThenElse condition thenBranch elseBranch, m => by
      cases test : condition.eval b m with
      | error e => exact ⟨_, _, .ifThenElseFails test⟩
      | ok result =>
          obtain ⟨v, m'⟩ := result
          have hchosen : ∃ n r, Course b (.stmt (if v.isTruthy then thenBranch else elseBranch)) m' n r := by
            split
            · exact exists_course_stmt b thenBranch m'
            · exact exists_course_stmt b elseBranch m'
          obtain ⟨n, r, chosen⟩ := hchosen
          exact ⟨_, _, .ifThenElse test chosen⟩
  | .whileLoop condition body, m => by
      obtain ⟨n, r, rounds⟩ := exists_course_rounds (some condition) none (exists_course_stmt b body) m
      exact ⟨_, _, .whileLoop rounds⟩
  | .forLoop init condition step body, m => by
      cases start : runInit b init (m.mapScopes Scopes.enter) with
      | error e => exact ⟨_, _, .forLoopFails start⟩
      | ok result =>
          obtain ⟨n, r, rounds⟩ := exists_course_rounds condition step (exists_course_stmt b body) result.2
          exact ⟨_, _, .forLoop start rounds⟩
  | .break, m => ⟨_, _, .break m⟩
  | .continue, m => ⟨_, _, .continue m⟩
  | .empty, m => ⟨_, _, .empty m⟩

theorem exists_course_list (b : Budget) : ∀ (ss : List Stmt) (m : Machine), ∃ n r, Course b (.list ss) m n r
  | [], m => ⟨_, _, .nil m⟩
  | s :: ss, m => by
      obtain ⟨n, r, first⟩ := exists_course_stmt b s m
      by_cases hnormal : ∃ m', r = .ok (.normal, m')
      · obtain ⟨m', rfl⟩ := hnormal
        obtain ⟨k, r, others⟩ := exists_course_list b ss m'
        exact ⟨_, _, .cons first others⟩
      · exact ⟨_, _, .stop first fun m' hr => hnormal ⟨m', hr⟩⟩

end

end Inlay
