import Inlay.Proofs.Evaluation.Limit

/-!
# `Proofs.Evaluation.Unlimited` — running without a limit

Without a limit a run need not end, so it is a relation: on a machine it may end with a result, behind a tally of what
its loops did (`Unlimited`). The tally tells the tests behind which a body was entered from those behind which none was.

A limit only cuts such runs off (`CutOff`), which holds of every part of a statement if it holds of the parts of that.
So a limit lets through the programs that make no more tests than it says, and cuts off the others
(`limit_counts_tests`). A loop that is over has made one test more than it has entered its body, and for that a limit
that says how often bodies may be entered is too small (`not_limitAllowsRounds`).
-/

namespace Inlay

open Machine

variable {α β : Type} {b : Budget} {limit : Nat}

/-! ## Runs without a limit -/

/-- How often the loops of a run tested whether to go on. -/
structure Tally where
  /-- The tests behind which the body was entered. -/
  entered : Nat
  /-- The tests behind which it was not: the loop was over, or the test failed. -/
  declined : Nat

namespace Tally

/-- No test. -/
def none : Tally :=
  ⟨0, 0⟩

instance : Add Tally :=
  ⟨fun c d => ⟨c.entered + d.entered, c.declined + d.declined⟩⟩

/-- All tests. -/
def tests (c : Tally) : Nat :=
  c.entered + c.declined

@[simp] theorem tests_add (c d : Tally) : (c + d).tests = c.tests + d.tests :=
  Nat.add_add_add_comm c.entered d.entered c.declined d.declined

end Tally

/-- What an expression is given where there is no limit, for it asks for none. -/
def Budget.ofLiterals (literals : List String) : Budget :=
  ⟨literals, 0⟩

theorem Budget.literals_ofLiterals (literals : List String) : (ofLiterals literals).literals = literals := rfl

/-- **A computation without a limit.** On a machine it may end with a result behind a tally; if it does not end, it is
    related to no result. -/
def Unlimited (α : Type) : Type :=
  Machine → Tally → Except Error (α × Machine) → Prop

namespace Unlimited

/-- A computation that begins no round. -/
def ofRun (x : Run α) : Unlimited α :=
  fun m c r => c = .none ∧ x m = r

/-- A computation and what follows on its value. -/
inductive Bind (x : Unlimited α) (f : α → Unlimited β) : Machine → Tally → Except Error (β × Machine) → Prop
  | fails {m c e} (first : x m c (.error e)) : Bind x f m c (.error e)
  | next {m c a m' d r} (first : x m c (.ok (a, m'))) (others : f a m' d r) : Bind x f m (c + d) r

instance : Monad Unlimited where
  pure a := ofRun (pure a)
  bind := Bind

/-- The test at the start of a round. -/
inductive Test (condition : Run Bool) : Machine → Tally → Except Error (Bool × Machine) → Prop
  | enters {m m'} (run : condition m.inRound = .ok (true, m')) : Test condition m ⟨1, 0⟩ (.ok (true, m'))
  | leaves {m m'} (run : condition m.inRound = .ok (false, m')) : Test condition m ⟨0, 1⟩ (.ok (false, m'))
  | fails {m e} (run : condition m.inRound = .error e) : Test condition m ⟨0, 1⟩ (.error e)

/-- Rounds up to the one that says it was the last. -/
inductive Rounds (round : Unlimited Bool) : Machine → Tally → Except Error (Unit × Machine) → Prop
  | fails {m c e} (run : round m c (.error e)) : Rounds round m c (.error e)
  | last {m c m'} (run : round m c (.ok (false, m'))) : Rounds round m c (.ok ((), m'))
  | again {m c m' d r} (run : round m c (.ok (true, m'))) (others : Rounds round m' d r) : Rounds round m (c + d) r

/-- **A round of a loop**: its test, its body and its step. -/
def round (literals : List String) (condition step : Option Expr) (body : Unlimited Flow) : Unlimited Bool := do
  if ← (Test (testCondition (.ofLiterals literals) condition) : Unlimited Bool) then
    if (← body) == .break then return false
    else
      ofRun (runStep (.ofLiterals literals) step)
      return true
  else return false

end Unlimited

open Unlimited

mutual

/-- **Runs a statement without a limit** and says how it ended. -/
def Stmt.unlimited (literals : List String) : Stmt → Unlimited Flow
  | .simple s => do
    ofRun (s.exec (.ofLiterals literals))
    return .normal
  | .block body => do
    ofRun (onScopes Scopes.enter)
    let flow ← Stmt.unlimitedAll literals body
    ofRun (onScopes Scopes.exit)
    return flow
  | .ifThen condition thenBranch => do
    if (← ofRun (condition.eval (.ofLiterals literals))).isTruthy then thenBranch.unlimited literals else return .normal
  | .ifThenElse condition thenBranch elseBranch => do
    if (← ofRun (condition.eval (.ofLiterals literals))).isTruthy then thenBranch.unlimited literals
    else elseBranch.unlimited literals
  | .whileLoop condition body => do
    (Rounds (round literals (some condition) none (body.unlimited literals)) : Unlimited Unit)
    return .normal
  | .forLoop init condition step body => do
    ofRun (onScopes Scopes.enter)
    ofRun (runInit (.ofLiterals literals) init)
    (Rounds (round literals condition step (body.unlimited literals)) : Unlimited Unit)
    ofRun (onScopes Scopes.exit)
    return .normal
  | .break => return .break
  | .continue => return .continue
  | .empty => return .normal

/-- Runs statements in order without a limit, up to the first one that does not end normally. -/
def Stmt.unlimitedAll (literals : List String) : List Stmt → Unlimited Flow
  | [] => return .normal
  | s :: ss => do
    match ← s.unlimited literals with
    | .normal => Stmt.unlimitedAll literals ss
    | flow => return flow

end

/-! ## Rounds under a limit -/

section Rounds

variable {round : Run Bool} {m m' : Machine} {e : Error}

/-- Below the limit a round is begun. -/
theorem beginRound_bind_of_lt (hm : m.iterations < limit) (x : Run α) :
    (beginRound limit >>= fun _ => x) m = x m.inRound := by
  apply run_bind_of_ok
  rw [beginRound_eq, if_pos hm]
  rfl

/-- At the limit none is. -/
theorem beginRound_bind_of_le (hm : limit ≤ m.iterations) (x : Run α) :
    (beginRound limit >>= fun _ => x) m = .error (.tooManyIterations limit) := by
  apply run_bind_of_error
  rw [beginRound_eq, if_neg (Nat.not_lt.mpr hm)]

/-- What is repeated is begun as a whole before it is asked whether it goes on. -/
theorem repeatRound_eq_bind (h : Advances round) : repeatRound limit round =
    (beginRound limit >>= fun _ => round) >>= fun goesOn => if goesOn then repeatRound limit round else pure () := by
  rw [bind_assoc]
  exact repeatRound_eq h

theorem repeatRound_of_true (h : Advances round) (run : (beginRound limit >>= fun _ => round) m = .ok (true, m')) :
    repeatRound limit round m = repeatRound limit round m' :=
  (congrFun (repeatRound_eq_bind h) m).trans (run_bind_of_ok run)

theorem repeatRound_of_false (h : Advances round) (run : (beginRound limit >>= fun _ => round) m = .ok (false, m')) :
    repeatRound limit round m = .ok ((), m') :=
  (congrFun (repeatRound_eq_bind h) m).trans (run_bind_of_ok run)

theorem repeatRound_of_error (h : Advances round) (run : (beginRound limit >>= fun _ => round) m = .error e) :
    repeatRound limit round m = .error e :=
  (congrFun (repeatRound_eq_bind h) m).trans (run_bind_of_error run)

end Rounds

/-! ## Cutting off -/

/-- **What a limit makes of a computation** without one, if it is not reached from the start: up to so many tests
    nothing changes, and one test more is the failure of the limit. -/
structure CutOff (limit : Nat) (x : Unlimited α) (y : Run α) : Prop where
  /-- The machine counts the tests. -/
  counts : ∀ {m c a m'}, x m c (.ok (a, m')) → m'.iterations = m.iterations + c.tests
  /-- With few tests there is the same end. -/
  within : ∀ {m c r}, x m c r → m.iterations + c.tests ≤ limit → y m = r
  /-- With many tests the limit is the end. -/
  beyond : ∀ {m c r}, x m c r → m.iterations ≤ limit → limit < m.iterations + c.tests →
    y m = .error (.tooManyIterations limit)
  /-- What the limit lets through ends without it. -/
  ends : ∀ {m}, m.iterations ≤ limit → Spares (y m) → ∃ c, x m c (y m) ∧ m.iterations + c.tests ≤ limit

namespace CutOff

/-- What begins no round is never cut off. -/
theorem ofRun {x y : Run α} (h : Uncounted y) (heq : x = y) : CutOff limit (Unlimited.ofRun x) y where
  counts := by
    rintro m c a m' ⟨rfl, hrun⟩
    subst heq
    exact h.iterations hrun
  within := by
    rintro m c r ⟨rfl, hrun⟩ -
    subst heq
    exact hrun
  beyond := by
    rintro m c r ⟨rfl, -⟩ hle hlt
    exact absurd hle (Nat.not_le.mpr hlt)
  ends := by
    intro m hle _
    subst heq
    exact ⟨.none, ⟨rfl, rfl⟩, hle⟩

theorem pure (a : α) : CutOff limit (Pure.pure a : Unlimited α) (Pure.pure a : Run α) :=
  ofRun (.pure a) rfl

theorem bind {x : Unlimited α} {y : Run α} {f : α → Unlimited β} {g : α → Run β} (hx : CutOff limit x y)
    (hf : ∀ a, CutOff limit (f a) (g a)) : CutOff limit (x >>= f) (y >>= g) where
  counts := by
    intro m c a m' h
    cases h with
    | next first others =>
        rw [(hf _).counts others, hx.counts first, Tally.tests_add, Nat.add_assoc]
  within := by
    intro m c r h hle
    cases h with
    | fails first => exact run_bind_of_error (hx.within first hle)
    | next first others =>
        rw [Tally.tests_add, ← Nat.add_assoc] at hle
        have hfirst := hx.within first (Nat.le_trans (Nat.le_add_right _ _) hle)
        rw [← hx.counts first] at hle
        exact (run_bind_of_ok hfirst).trans ((hf _).within others hle)
  beyond := by
    intro m c r h hm hlt
    cases h with
    | fails first => exact run_bind_of_error (hx.beyond first hm hlt)
    | @next c _ _ _ _ first others =>
        by_cases hle : m.iterations + c.tests ≤ limit
        · -- the first part is let through, so it is the second that goes beyond the limit
          rw [Tally.tests_add, ← Nat.add_assoc, ← hx.counts first] at hlt
          exact (run_bind_of_ok (hx.within first hle)).trans ((hf _).beyond others (hx.counts first ▸ hle) hlt)
        · exact run_bind_of_error (hx.beyond first hm (Nat.lt_of_not_le hle))
  ends := by
    intro m hm hspares
    cases hy : y m with
    | error e =>
        rw [run_bind_of_error hy] at hspares ⊢
        obtain ⟨c, hc, hle⟩ := hx.ends hm (hy ▸ fun k hk => hspares k (congrArg _ (Except.error.inj hk)))
        exact ⟨c, .fails (hy ▸ hc), hle⟩
    | ok result =>
        obtain ⟨a, m'⟩ := result
        rw [run_bind_of_ok hy] at hspares ⊢
        obtain ⟨c, hc, hle⟩ := hx.ends hm (hy ▸ .ok _)
        rw [hy] at hc
        rw [← hx.counts hc] at hle
        obtain ⟨d, hd, hle'⟩ := (hf a).ends hle hspares
        rw [hx.counts hc, Nat.add_assoc, ← Tally.tests_add] at hle'
        exact ⟨c + d, .next hc hd, hle'⟩

theorem ite {p : Prop} [Decidable p] {x x' : Unlimited α} {y y' : Run α} (h : CutOff limit x y)
    (h' : CutOff limit x' y') : CutOff limit (if p then x else x') (if p then y else y') := by
  split
  · exact h
  · exact h'

/-! ### Loops -/

/-- **A test is made where the limit permits it.** -/
theorem test {condition condition' : Run Bool} (h : Uncounted condition') (heq : condition = condition') :
    CutOff limit (Test condition : Unlimited Bool) (beginRound limit >>= fun _ => condition') := by
  subst heq
  have hone : ∀ {m : Machine} {c : Tally} {r}, Test condition m c r → c.tests = 1 ∧ condition m.inRound = r := by
    intro m c r h
    cases h with
    | enters run | leaves run | fails run => exact ⟨rfl, run⟩
  constructor
  · intro m c a m' hrun
    obtain ⟨hc, hrun⟩ := hone hrun
    rw [hc, h.iterations hrun, iterations_inRound]
  · intro m c r hrun hle
    obtain ⟨hc, hrun⟩ := hone hrun
    rw [hc] at hle
    rw [beginRound_bind_of_lt hle, hrun]
  · intro m c r hrun _ hlt
    obtain ⟨hc, -⟩ := hone hrun
    rw [hc] at hlt
    exact beginRound_bind_of_le (Nat.le_of_lt_succ hlt) condition
  · intro m hm hspares
    rcases Nat.lt_or_ge m.iterations limit with hlt | hge
    · rw [beginRound_bind_of_lt hlt]
      cases hrun : condition m.inRound with
      | error e => exact ⟨_, .fails hrun, hlt⟩
      | ok result =>
          obtain ⟨goesOn, m'⟩ := result
          cases goesOn with
          | true => exact ⟨_, .enters hrun, hlt⟩
          | false => exact ⟨_, .leaves hrun, hlt⟩
    · exact absurd (beginRound_bind_of_le hge condition) (hspares limit)

/-- **Rounds are cut off** if a round is, with the limit asked at its start. -/
theorem rounds {round : Unlimited Bool} {round' : Run Bool}
    (h : CutOff limit round (beginRound limit >>= fun _ => round')) (hadvances : Advances round')
    (hpos : ∀ {m c r}, round m c r → 0 < c.tests) :
    CutOff limit (Rounds round : Unlimited Unit) (repeatRound limit round') := by
  constructor
  · intro m c a m' hrun
    generalize hr : (Except.ok (a, m') : Except Error (Unit × Machine)) = r at hrun
    induction hrun with
    | fails => cases hr
    | last run =>
        cases hr
        exact h.counts run
    | again run _ ih => rw [ih hr, h.counts run, Tally.tests_add, Nat.add_assoc]
  · intro m c r hrun hle
    induction hrun with
    | fails run => exact repeatRound_of_error hadvances (h.within run hle)
    | last run => exact repeatRound_of_false hadvances (h.within run hle)
    | again run _ ih =>
        rw [Tally.tests_add, ← Nat.add_assoc] at hle
        have hrun := h.within run (Nat.le_trans (Nat.le_add_right _ _) hle)
        rw [← h.counts run] at hle
        exact (repeatRound_of_true hadvances hrun).trans (ih hle)
  · intro m c r hrun hm hlt
    induction hrun with
    | fails run | last run => exact repeatRound_of_error hadvances (h.beyond run hm hlt)
    | @again m c _ _ _ run _ ih =>
        by_cases hle : m.iterations + c.tests ≤ limit
        · rw [Tally.tests_add, ← Nat.add_assoc, ← h.counts run] at hlt
          have hfirst := repeatRound_of_true hadvances (h.within run hle)
          exact hfirst.trans (ih (h.counts run ▸ hle) hlt)
        · exact repeatRound_of_error hadvances (h.beyond run hm (Nat.lt_of_not_le hle))
  · -- each round makes a test, so there is less and less left of the limit
    intro m hm hspares
    induction hleft : limit - m.iterations using Nat.strongRecOn generalizing m with
    | ind left ih =>
        subst hleft
        cases hrun : (beginRound limit >>= fun _ => round') m with
        | error e =>
            rw [repeatRound_of_error hadvances hrun] at hspares ⊢
            obtain ⟨c, hc, hle⟩ := h.ends hm (hrun ▸ fun k hk => hspares k (congrArg _ (Except.error.inj hk)))
            exact ⟨c, .fails (hrun ▸ hc), hle⟩
        | ok result =>
            obtain ⟨goesOn, m'⟩ := result
            obtain ⟨c, hc, hle⟩ := h.ends hm (hrun ▸ .ok _)
            rw [hrun] at hc
            cases goesOn with
            | false =>
                rw [repeatRound_of_false hadvances hrun]
                exact ⟨c, .last hc, hle⟩
            | true =>
                rw [repeatRound_of_true hadvances hrun] at hspares ⊢
                have hcount := h.counts hc
                have htested := hpos hc
                have hless : limit - m'.iterations < limit - m.iterations := by omega
                rw [← hcount] at hle
                obtain ⟨d, hd, hle'⟩ := ih _ hless hle hspares rfl
                rw [hcount, Nat.add_assoc, ← Tally.tests_add] at hle'
                exact ⟨c + d, .again hc hd, hle'⟩

/-- **The rounds of a loop are cut off** if its body is. -/
theorem loop {body : Stmt} {x : Unlimited Flow} (h : CutOff b.limit x (body.exec b)) (condition step : Option Expr) :
    CutOff b.limit (Rounds (Unlimited.round b.literals condition step x) : Unlimited Unit)
      (repeatRound b.limit (roundOf b condition step body)) := by
  apply rounds
  · have hround : (beginRound b.limit >>= fun _ => roundOf b condition step body) =
        (beginRound b.limit >>= fun _ => testCondition b condition) >>= fun goesOn =>
          if goesOn then body.exec b >>= fun flow =>
            if flow == .break then Pure.pure false else runStep b step >>= fun _ => Pure.pure true
          else Pure.pure false := by
      rw [bind_assoc]
      rfl
    rw [hround]
    have htest : CutOff b.limit (Test (testCondition (.ofLiterals b.literals) condition) : Unlimited Bool)
        (beginRound b.limit >>= fun _ => testCondition b condition) :=
      test (uncounted_testCondition b condition) (testCondition_congr (Budget.literals_ofLiterals b.literals) condition)
    apply htest.bind
    intro goesOn
    apply ite _ (.pure false)
    apply h.bind
    intro flow
    apply ite (.pure false)
    apply (ofRun (uncounted_runStep b step) (runStep_congr (Budget.literals_ofLiterals b.literals) step)).bind
    exact fun _ => .pure true
  · exact roundOf_advances (body.advances_exec b) condition step
  · -- whatever follows on the test of a round, the test is counted
    intro m c r hrun
    have htest : ∀ {m : Machine} {c : Tally} {r},
        Test (testCondition (.ofLiterals b.literals) condition) m c r → 0 < c.tests := by
      intro m c r htest
      cases htest <;> exact Nat.one_pos
    cases hrun with
    | fails first => exact htest first
    | next first others =>
        rw [Tally.tests_add]
        exact Nat.add_pos_left (htest first) _

end CutOff

/-! ## Statements -/

open CutOff in
mutual

/-- **A limit cuts statements off**, and changes nothing else. -/
theorem Stmt.cutOff (b : Budget) : ∀ s : Stmt, CutOff b.limit (s.unlimited b.literals) (s.exec b)
  | .simple s => by
      apply (ofRun (s.uncounted_exec b) (s.exec_congr (Budget.literals_ofLiterals b.literals))).bind
      exact fun _ => .pure Flow.normal
  | .block body => by
      apply (ofRun (.onScopes Scopes.enter) rfl).bind
      intro _
      apply (Stmt.cutOff_all b body).bind
      intro flow
      exact (ofRun (.onScopes Scopes.exit) rfl).bind fun _ => .pure flow
  | .ifThen condition thenBranch => by
      apply (ofRun (condition.uncounted_eval b) (condition.eval_congr (Budget.literals_ofLiterals b.literals))).bind
      exact fun _ => ite (thenBranch.cutOff b) (.pure Flow.normal)
  | .ifThenElse condition thenBranch elseBranch => by
      apply (ofRun (condition.uncounted_eval b) (condition.eval_congr (Budget.literals_ofLiterals b.literals))).bind
      exact fun _ => ite (thenBranch.cutOff b) (elseBranch.cutOff b)
  | .whileLoop condition body => by
      rw [exec_whileLoop]
      exact (loop (body.cutOff b) (some condition) none).bind fun _ => .pure Flow.normal
  | .forLoop init condition step body => by
      rw [exec_forLoop]
      apply (ofRun (.onScopes Scopes.enter) rfl).bind
      intro _
      apply (ofRun (uncounted_runInit b init) (runInit_congr (Budget.literals_ofLiterals b.literals) init)).bind
      intro _
      apply (loop (body.cutOff b) condition step).bind
      intro _
      exact (ofRun (.onScopes Scopes.exit) rfl).bind fun _ => .pure Flow.normal
  | .break => .pure Flow.break
  | .continue => .pure Flow.continue
  | .empty => .pure Flow.normal

theorem Stmt.cutOff_all (b : Budget) :
    ∀ ss : List Stmt, CutOff b.limit (Stmt.unlimitedAll b.literals ss) (Stmt.execAll b ss)
  | [] => .pure Flow.normal
  | s :: ss => by
      apply (s.cutOff b).bind
      intro flow
      cases flow with
      | normal => exact Stmt.cutOff_all b ss
      | «break» => exact .pure Flow.break
      | «continue» => exact .pure Flow.continue

end

/-! ## Programs -/

namespace Program

/-- **A program ends without a limit**, with this tally and result. -/
def EndsUnlimited (p : Program) (literals : List String) (c : Tally) (out : Except Error String) : Prop :=
  ∃ r, Stmt.unlimitedAll literals p initial c r ∧ out = result r

end Program

/-- **A limit counts tests, not rounds.** A program that ends without a limit gives the same result under a limit that
    is at least the number of its tests, those behind which a body was entered and those behind which none was; under
    any other limit it fails with it. What a limit lets through ends without one. Programs are the trees that the parser
    can build. -/
theorem limit_counts_tests (p : Program) (literals : List String) :
    (∀ c out, p.EndsUnlimited literals c out → ∀ l, p.run ⟨literals, l⟩ =
      if c.entered + c.declined ≤ l then out else .error (.tooManyIterations l)) ∧
    ∀ l, p.run ⟨literals, l⟩ ≠ .error (.tooManyIterations l) →
      ∃ c, p.EndsUnlimited literals c (p.run ⟨literals, l⟩) ∧ c.entered + c.declined ≤ l := by
  have hzero : initial.iterations = 0 := rfl
  constructor
  · rintro c out ⟨r, hrun, rfl⟩ l
    have hcut := Stmt.cutOff_all ⟨literals, l⟩ p
    rw [Program.run_eq_result]
    by_cases hle : c.tests ≤ l
    · have hwithin : Stmt.execAll ⟨literals, l⟩ p initial = r := hcut.within hrun (by rwa [hzero, Nat.zero_add])
      rw [show c.entered + c.declined = c.tests from rfl, if_pos hle]
      exact congrArg _ hwithin
    · have hbeyond : Stmt.execAll ⟨literals, l⟩ p initial = .error (.tooManyIterations l) := by
        apply hcut.beyond hrun (Nat.zero_le l)
        rw [hzero, Nat.zero_add]
        exact Nat.lt_of_not_le hle
      rw [show c.entered + c.declined = c.tests from rfl, if_neg hle]
      exact Program.result_eq_limit.mpr hbeyond
  · intro l hne
    obtain ⟨n, hcourse⟩ := Program.exists_course ⟨literals, l⟩ p
    have hspares : Spares (Stmt.execAll ⟨literals, l⟩ p initial) := by
      intro k hk
      have hrun : p.run ⟨literals, l⟩ = .error (.tooManyIterations k) := Program.result_eq_limit.mpr hk
      obtain ⟨-, rfl⟩ := (hcourse.tests.2 k).mp hrun
      exact hne hrun
    obtain ⟨c, hc, hle⟩ := (Stmt.cutOff_all ⟨literals, l⟩ p).ends (Nat.zero_le l) hspares
    rw [hzero, Nat.zero_add] at hle
    exact ⟨c, ⟨_, hc, rfl⟩, hle⟩

/-- A round of counting to three. -/
def countRound : Unlimited Bool :=
  .round [] (some (.binary .lt (.variable "i") (.intLiteral 3))) (some (.increment "i" .up false)) (return .normal)

/-- The machine behind `n` rounds of counting. -/
def behind (n : Nat) : Machine :=
  ⟨⟨[[]], [("i", .int (.ofNat n))]⟩, "", n⟩

/-- Counting to three enters the body three times and makes four tests. -/
theorem ends_countToThree : countToThree.EndsUnlimited [] ⟨3, 1⟩ (.ok "3") := by
  have hround : ∀ n, n < 3 →
      countRound (behind n) (⟨1, 0⟩ + (.none + (.none + .none))) (.ok (true, behind (n + 1))) := by
    intro n hn
    obtain rfl | rfl | rfl : n = 0 ∨ n = 1 ∨ n = 2 := by omega
    all_goals exact .next (.enters rfl) (.next ⟨rfl, rfl⟩ (.next ⟨rfl, rfl⟩ ⟨rfl, rfl⟩))
  have hlast : countRound (behind 3) (⟨0, 1⟩ + .none) (.ok (false, { behind 3 with iterations := 4 })) :=
    .next (.leaves rfl) ⟨rfl, rfl⟩
  have hrounds := Rounds.again (hround 0 (by decide)) (.again (hround 1 (by decide))
    (.again (hround 2 (by decide)) (.last hlast)))
  -- in front of the rounds the scope is entered and `i` is set, behind them the scope is left
  have hrun : Stmt.unlimitedAll [] countToThree initial (_ + _)
      (.ok (.normal, ⟨⟨[], [("i", .int 3)]⟩, "3", 4⟩)) :=
    .next (.next ⟨rfl, rfl⟩ (.next ⟨rfl, rfl⟩ (.next hrounds (.next ⟨rfl, rfl⟩ ⟨rfl, rfl⟩))))
      (.next (.next ⟨rfl, rfl⟩ ⟨rfl, rfl⟩) ⟨rfl, rfl⟩)
  exact ⟨_, hrun, rfl⟩

/-- So a limit of four lets it through, and a limit of three does not. -/
theorem counting_makes_a_test_more : countToThree.EndsUnlimited [] ⟨3, 1⟩ (.ok "3") ∧
    countToThree.run ⟨[], 4⟩ = .ok "3" ∧ countToThree.run ⟨[], 3⟩ = .error (.tooManyIterations 3) := by
  obtain ⟨hlimit, -⟩ := limit_counts_tests countToThree []
  have hends := ends_countToThree
  exact ⟨hends, hlimit _ _ hends 4, hlimit _ _ hends 3⟩

/-- **A limit allows the rounds that it says**, whatever their loops test besides. -/
def LimitAllowsRounds : Prop :=
  ∀ (p : Program) (literals : List String) (c : Tally) (out : Except Error String) (l : Nat),
    p.EndsUnlimited literals c out → c.entered ≤ l → ∀ k, p.run ⟨literals, l⟩ ≠ .error (.tooManyIterations k)

/-- **It does not**: three are too few for counting to three. -/
theorem not_limitAllowsRounds : ¬ LimitAllowsRounds := by
  intro h
  apply h countToThree [] ⟨3, 1⟩ (.ok "3") 3 ends_countToThree (Nat.le_refl 3) 3
  rfl

end Inlay
