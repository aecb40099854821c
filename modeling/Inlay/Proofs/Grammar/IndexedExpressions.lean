import Inlay.Proofs.Grammar.TokenAccess

/-!
# `Proofs.Grammar.IndexedExpressions` — expressions by index

The parsers for expressions, which look at tokens and go on by nothing but the access of `TokenAccess`. The operators
and the arguments of a call are loops that hold what they have read, where the rules of the grammar read what is left
and put it together behind.

Each parser follows its rule (`FollowRules`), one lemma for each of them. A call is behind another token or goes to a
parser that binds tighter, so `10 * (tokens.length - i)` calls, and for each parser the number of those that may come
before another token is read, are always enough. The parser and the rule need not be at one depth: how deep both may go
is free beyond that.
-/

namespace Inlay.Indexed

open Grammar (nextKind nextSymbol? kinds)

variable {tokens : List Token} {i level m n : Nat} {us : List TokenKind}

/-! ## The parsers -/

/-- The symbol that a kind is. -/
def symbolOf? : TokenKind → Option Symbol
  | .symbol s => some s
  | _ => none

/-- Whether a kind is a step up or down. -/
def isStep (k : TokenKind) : Bool :=
  k.isSymbol .plusPlus || k.isSymbol .minusMinus

/-- Reads a step up or down. -/
def readStep (tokens : List Token) : Parser Increment := do
  if (← advance tokens).kind.isSymbol .plusPlus then return .up
  else return .down

mutual

/-- An expression of any kind. -/
def expression (tokens : List Token) : Nat → Parser Expr
  | 0 => tooDeep
  | n + 1 => do
    let target ← ternary tokens n
    match (symbolOf? (← peek tokens).kind).bind CompoundOp.assignment? with
    | none => return target
    | some op =>
      match target with
      | .variable name =>
        let _ ← advance tokens
        let value ← expression tokens n
        return .assign name op value
      | _ => fail tokens .assignmentTarget

/-- The conditional form, or an expression that binds tighter. -/
def ternary (tokens : List Token) : Nat → Parser Expr
  | 0 => tooDeep
  | n + 1 => do
    let condition ← binary tokens n 0
    if ← matchKind tokens (.symbol .question) then
      let thenExpr ← expression tokens n
      let _ ← consume tokens (.symbol .colon) "':' in conditional expression"
      let elseExpr ← ternary tokens n
      return .ternary condition thenExpr elseExpr
    else return condition

/-- Operands joined by operators of `level` or tighter. -/
def binary (tokens : List Token) : Nat → Nat → Parser Expr
  | 0, _ => tooDeep
  | n + 1, level => do
    let left ← unary tokens n
    operators tokens n level left

/-- The loop over the operators of `level` or tighter behind the operand `left`. -/
def operators (tokens : List Token) : Nat → Nat → Expr → Parser Expr
  | 0, _, _ => tooDeep
  | n + 1, level, left => do
    match (symbolOf? (← peek tokens).kind).bind BinaryOp.ofSymbol? with
    | none => return left
    | some op =>
      if op.level < level then return left
      else
        let _ ← advance tokens
        let right ← binary tokens n (op.level + 1)
        operators tokens n level (.binary op left right)

/-- An operand with the operators in front of it. -/
def unary (tokens : List Token) : Nat → Parser Expr
  | 0 => tooDeep
  | n + 1 => do
    match (symbolOf? (← peek tokens).kind).bind UnaryOp.ofSymbol? with
    | some op =>
      let _ ← advance tokens
      let operand ← unary tokens n
      return .unary op operand
    | none =>
      if isStep (← peek tokens).kind then
        let step ← readStep tokens
        let name ← expectIdentifier tokens "variable after prefix increment"
        return .increment name step true
      else stepped tokens n

/-- An operand with a step behind it, if there is one. -/
def stepped (tokens : List Token) : Nat → Parser Expr
  | 0 => tooDeep
  | n + 1 => do
    let target ← primary tokens n
    if isStep (← peek tokens).kind then
      match target with
      | .variable name =>
        let step ← readStep tokens
        return .increment name step false
      | _ => fail tokens .incrementTarget
    else return target

/-- A literal, a variable, a call or an expression in parentheses. -/
def primary (tokens : List Token) : Nat → Parser Expr
  | 0 => tooDeep
  | n + 1 => do
    match (← peek tokens).kind with
    | .integer v =>
      let _ ← advance tokens
      return .intLiteral v
    | .float v =>
      let _ ← advance tokens
      return .floatLiteral v
    | .string v =>
      let _ ← advance tokens
      return .stringLiteral v
    | .keyword .trueWord =>
      let _ ← advance tokens
      return .boolLiteral true
    | .keyword .falseWord =>
      let _ ← advance tokens
      return .boolLiteral false
    | .identifier name =>
      let _ ← advance tokens
      if ← matchKind tokens (.symbol .leftParen) then
        let args ← arguments tokens n
        return .call name args
      else return .variable name
    | .symbol .leftParen =>
      let _ ← advance tokens
      let inner ← expression tokens n
      let _ ← consume tokens (.symbol .rightParen) "')' after expression"
      return inner
    | other => fail tokens (.unexpectedToken other)

/-- The arguments of a call behind its opening parenthesis. -/
def arguments (tokens : List Token) : Nat → Parser (List Expr)
  | 0 => tooDeep
  | n + 1 => do
    if ← matchKind tokens (.symbol .rightParen) then return []
    else moreArguments tokens n []

/-- The loop over the arguments of a call behind those that are read, `args`, up to the closing parenthesis. -/
def moreArguments (tokens : List Token) : Nat → List Expr → Parser (List Expr)
  | 0, _ => tooDeep
  | n + 1, args => do
    let arg ← expression tokens n
    if ← matchKind tokens (.symbol .comma) then moreArguments tokens n (args ++ [arg])
    else
      let _ ← consume tokens (.symbol .rightParen) "')' after arguments"
      return args ++ [arg]

end

/-! ## Next to the rules -/

theorem nextSymbol?_eq_symbolOf? (ts : List Token) : nextSymbol? ts = symbolOf? (nextKind ts) := by
  unfold nextSymbol?
  cases nextKind ts <;> rfl

/-- A symbol from a table is not the end of the source. -/
theorem ne_eof_of_bind {γ : Type} {table : Symbol → Option γ} {k : TokenKind} {x : γ}
    (h : (symbolOf? k).bind table = some x) : k ≠ .eof := by
  rintro rfl
  cases h

/-- A step is told from its symbol. -/
theorem isStep_iff (k : TokenKind) : isStep k = ((symbolOf? k).bind Increment.ofSymbol?).isSome := by
  cases k with
  | symbol s => cases s <;> rfl
  | _ => rfl

/-- A step that comes next is read. -/
theorem outcome_readStep {step : Increment} (hi : i < tokens.length)
    (h : (symbolOf? (nextKind (tokens.drop i))).bind Increment.ofSymbol? = some step) :
    outcome (readStep tokens) i = some (.ok (step, i + 1)) := by
  unfold readStep
  rw [outcome_bind_ok (outcome_advance hi (ne_eof_of_bind h)), kind_getElem hi]
  obtain ⟨s, hs, htable⟩ := Option.bind_eq_some_iff.mp h
  rw [← nextSymbol?_eq_symbolOf?] at hs
  rw [Grammar.nextKind_of_nextSymbol? hs]
  cases s <;> cases htable <;> rfl

/-- **What the parsers for expressions do**, `m` calls deep, next to the rules at a depth `n`, if both are enough for
    the tokens left. -/
structure FollowRules (tokens : List Token) (m n : Nat) : Prop where
  expression : ∀ i, i < tokens.length → 10 * (tokens.length - i) + 6 ≤ min m n →
    Follows tokens (i + 1) (outcome (expression tokens m) i) (Grammar.expression n (tokens.drop i))
  ternary : ∀ i, i < tokens.length → 10 * (tokens.length - i) + 5 ≤ min m n →
    Follows tokens (i + 1) (outcome (ternary tokens m) i) (Grammar.ternary n (tokens.drop i))
  binary : ∀ level i, i < tokens.length → 10 * (tokens.length - i) + 4 ≤ min m n →
    Follows tokens (i + 1) (outcome (binary tokens m level) i) (Grammar.binary n level (tokens.drop i))
  operators : ∀ level left i, i < tokens.length → 10 * (tokens.length - i) + 1 ≤ min m n →
    Follows tokens i (outcome (operators tokens m level left) i) (Grammar.binaryRest n level left (tokens.drop i))
  unary : ∀ i, i < tokens.length → 10 * (tokens.length - i) + 3 ≤ min m n →
    Follows tokens (i + 1) (outcome (unary tokens m) i) (Grammar.unary n (tokens.drop i))
  stepped : ∀ i, i < tokens.length → 10 * (tokens.length - i) + 2 ≤ min m n →
    Follows tokens (i + 1) (outcome (stepped tokens m) i) (Grammar.stepped n (tokens.drop i))
  primary : ∀ i, i < tokens.length → 10 * (tokens.length - i) + 1 ≤ min m n →
    Follows tokens (i + 1) (outcome (primary tokens m) i) (Grammar.primary n (tokens.drop i))
  arguments : ∀ i, i < tokens.length → 10 * (tokens.length - i) + 8 ≤ min m n →
    Follows tokens (i + 1) (outcome (arguments tokens m) i) (Grammar.arguments n (tokens.drop i))
  /-- The arguments that the loop reads stand behind those that were read. -/
  moreArguments : ∀ args i, i < tokens.length → 10 * (tokens.length - i) + 7 ≤ min m n →
    Follows tokens (i + 1) (outcome (moreArguments tokens m args) i)
      (behind args (Grammar.someArguments n (tokens.drop i)))

namespace FollowRules

variable (hts : kinds tokens = us ++ [.eof])

include hts

theorem expression_succ (ih : FollowRules tokens m n) (hi : i < tokens.length)
    (hn : 10 * (tokens.length - i) + 6 ≤ min (m + 1) (n + 1)) :
    Follows tokens (i + 1) (outcome (Indexed.expression tokens (m + 1)) i)
      (Grammar.expression (n + 1) (tokens.drop i)) := by
  rw [Indexed.expression, Grammar.expression]
  refine (ih.ternary i hi (by omega)).bind fun target j hij hj => .peek hj ?_
  dsimp only
  rw [kind_getElem hj, nextSymbol?_eq_symbolOf?]
  cases hop : (symbolOf? (nextKind (tokens.drop j))).bind CompoundOp.assignment? with
  | none => exact .done target hij hj
  | some op =>
      cases target with
      | «variable» name =>
          refine .advance hts hj (ne_eof_of_bind hop) fun hj' => ?_
          rw [List.tail_drop]
          exact (ih.expression _ hj' (by omega)).bind fun value k hjk hk => .done _ (by omega) hk
      | _ => exact .fail hj _

theorem ternary_succ (ih : FollowRules tokens m n) (hi : i < tokens.length)
    (hn : 10 * (tokens.length - i) + 5 ≤ min (m + 1) (n + 1)) :
    Follows tokens (i + 1) (outcome (Indexed.ternary tokens (m + 1)) i) (Grammar.ternary (n + 1) (tokens.drop i)) := by
  rw [Indexed.ternary, Grammar.ternary]
  refine (ih.binary 0 i hi (by omega)).bind fun condition j hij hj => .matchSymbol hts hj (fun hj' => ?_) ?_
  · rw [List.tail_drop]
    refine (ih.expression _ hj' (by omega)).bind fun thenExpr k hjk hk => .symbol hts hk fun hk' => ?_
    exact (ih.ternary _ hk' (by omega)).bind fun elseExpr l hkl hl => .done _ (by omega) hl
  · exact .done _ hij hj

omit hts in
theorem binary_succ (ih : FollowRules tokens m n) (hi : i < tokens.length)
    (hn : 10 * (tokens.length - i) + 4 ≤ min (m + 1) (n + 1)) :
    Follows tokens (i + 1) (outcome (Indexed.binary tokens (m + 1) level) i)
      (Grammar.binary (n + 1) level (tokens.drop i)) := by
  rw [Indexed.binary, Grammar.binary]
  exact (ih.unary i hi (by omega)).bind fun left j hij hj => (ih.operators level left j hj (by omega)).mono hij

theorem operators_succ {left : Expr} (ih : FollowRules tokens m n) (hi : i < tokens.length)
    (hn : 10 * (tokens.length - i) + 1 ≤ min (m + 1) (n + 1)) :
    Follows tokens i (outcome (Indexed.operators tokens (m + 1) level left) i)
      (Grammar.binaryRest (n + 1) level left (tokens.drop i)) := by
  rw [Indexed.operators, Grammar.binaryRest]
  refine .peek hi ?_
  unfold Grammar.operatorFrom?
  rw [kind_getElem hi, nextSymbol?_eq_symbolOf?]
  cases hop : (symbolOf? (nextKind (tokens.drop i))).bind BinaryOp.ofSymbol? with
  | none => exact .done _ (Nat.le_refl i) hi
  | some op =>
      dsimp only
      by_cases hlevel : op.level < level
      · rw [if_pos hlevel, if_neg (Nat.not_le.mpr hlevel)]
        exact .done _ (Nat.le_refl i) hi
      · rw [if_neg hlevel, if_pos (Nat.not_lt.mp hlevel)]
        refine .advance hts hi (ne_eof_of_bind hop) fun hi' => ?_
        dsimp only
        rw [List.tail_drop]
        refine (ih.binary _ _ hi' (by omega)).bind fun right j hij hj => ?_
        exact (ih.operators level _ j hj (by omega)).mono (by omega)

theorem unary_succ (ih : FollowRules tokens m n) (hi : i < tokens.length)
    (hn : 10 * (tokens.length - i) + 3 ≤ min (m + 1) (n + 1)) :
    Follows tokens (i + 1) (outcome (Indexed.unary tokens (m + 1)) i) (Grammar.unary (n + 1) (tokens.drop i)) := by
  rw [Indexed.unary, Grammar.unary]
  refine .peek hi ?_
  rw [kind_getElem hi, nextSymbol?_eq_symbolOf?]
  cases hop : (symbolOf? (nextKind (tokens.drop i))).bind UnaryOp.ofSymbol? with
  | some op =>
      refine .advance hts hi (ne_eof_of_bind hop) fun hi' => ?_
      dsimp only
      rw [List.tail_drop]
      exact (ih.unary _ hi' (by omega)).bind fun operand j hij hj => .done _ (by omega) hj
  | none =>
      refine .peek hi ?_
      rw [kind_getElem hi]
      cases hstep : (symbolOf? (nextKind (tokens.drop i))).bind Increment.ofSymbol? with
      | some step =>
          dsimp only
          rw [isStep_iff, hstep, if_pos Option.isSome_some, outcome_bind_ok (outcome_readStep hi hstep), List.tail_drop]
          have hi' := succ_lt_length hts hi (ne_eof_of_bind hstep)
          exact .identifier hts hi' fun name hi'' => .done _ (by omega) hi''
      | none =>
          dsimp only
          rw [isStep_iff, hstep, if_neg (by decide)]
          exact ih.stepped i hi (by omega)

theorem stepped_succ (ih : FollowRules tokens m n) (hi : i < tokens.length)
    (hn : 10 * (tokens.length - i) + 2 ≤ min (m + 1) (n + 1)) :
    Follows tokens (i + 1) (outcome (Indexed.stepped tokens (m + 1)) i) (Grammar.stepped (n + 1) (tokens.drop i)) := by
  rw [Indexed.stepped, Grammar.stepped]
  refine (ih.primary i hi (by omega)).bind fun target j hij hj => .peek hj ?_
  dsimp only
  rw [kind_getElem hj, nextSymbol?_eq_symbolOf?, isStep_iff]
  cases hstep : (symbolOf? (nextKind (tokens.drop j))).bind Increment.ofSymbol? with
  | none => exact .done target hij hj
  | some step =>
      cases target with
      | «variable» name =>
          dsimp only
          rw [if_pos Option.isSome_some, outcome_bind_ok (outcome_readStep hj hstep), List.tail_drop]
          exact .done _ (by omega) (succ_lt_length hts hj (ne_eof_of_bind hstep))
      | _ => exact .fail hj _

theorem primary_succ (ih : FollowRules tokens m n) (hi : i < tokens.length)
    (hn : 10 * (tokens.length - i) + 1 ≤ min (m + 1) (n + 1)) :
    Follows tokens (i + 1) (outcome (Indexed.primary tokens (m + 1)) i) (Grammar.primary (n + 1) (tokens.drop i)) := by
  rw [Indexed.primary, Grammar.primary]
  refine .peek hi ?_
  rw [kind_getElem hi]
  cases hkind : nextKind (tokens.drop i) with
  | integer v | float v | string v => exact .single hts _ hi (by simp [hkind])
  | keyword w =>
      cases w with
      | trueWord | falseWord => exact .single hts _ hi (by simp [hkind])
      | _ => exact .fail hi _
  | identifier name =>
      refine .advance hts hi (by simp [hkind]) fun hi' => ?_
      dsimp only
      rw [List.tail_drop]
      refine .matchSymbol hts hi' (fun hi'' => ?_) (.done _ (Nat.le_refl _) hi')
      rw [List.tail_drop]
      exact (ih.arguments _ hi'' (by omega)).bind fun args j hij hj => .done _ (by omega) hj
  | symbol s =>
      cases s with
      | leftParen =>
          refine .advance hts hi (by simp [hkind]) fun hi' => ?_
          dsimp only
          rw [List.tail_drop]
          refine (ih.expression _ hi' (by omega)).bind fun inner j hij hj => .symbol hts hj fun hj' => ?_
          exact .done _ (by omega) hj'
      | _ => exact .fail hi _
  | eof => exact .fail hi _

theorem arguments_succ (ih : FollowRules tokens m n) (hi : i < tokens.length)
    (hn : 10 * (tokens.length - i) + 8 ≤ min (m + 1) (n + 1)) :
    Follows tokens (i + 1) (outcome (Indexed.arguments tokens (m + 1)) i)
      (Grammar.arguments (n + 1) (tokens.drop i)) := by
  rw [Indexed.arguments, Grammar.arguments]
  refine .matchSymbol hts hi (fun hi' => ?_) ?_
  · rw [List.tail_drop]
    exact .done _ (Nat.le_refl _) hi'
  · rw [← behind_nil (Grammar.someArguments n (tokens.drop i))]
    exact ih.moreArguments [] i hi (by omega)

theorem moreArguments_succ {args : List Expr} (ih : FollowRules tokens m n) (hi : i < tokens.length)
    (hn : 10 * (tokens.length - i) + 7 ≤ min (m + 1) (n + 1)) :
    Follows tokens (i + 1) (outcome (Indexed.moreArguments tokens (m + 1) args) i)
      (behind args (Grammar.someArguments (n + 1) (tokens.drop i))) := by
  rw [Indexed.moreArguments, Grammar.someArguments, behind_bind]
  refine (ih.expression i hi (by omega)).bind fun arg j hij hj => ?_
  dsimp only
  rw [apply_ite (behind args), behind_cons, behind_bind, List.tail_drop]
  refine .matchSymbol hts hj (fun hj' => ?_) (.symbol hts hj fun hj' => .done _ (by omega) hj')
  exact (ih.moreArguments _ _ hj' (by omega)).mono (by omega)

end FollowRules

/-- **The parsers for expressions follow the rules** where both may go deep enough for the tokens left. -/
theorem followRules (hts : kinds tokens = us ++ [.eof]) (m n : Nat) : FollowRules tokens m n := by
  induction m generalizing n with
  | zero =>
      -- No call is allowed, and at least one token is left.
      constructor <;> intros <;> omega
  | succ m ih =>
      cases n with
      | zero => constructor <;> intros <;> omega
      | succ n =>
          have ih := ih n
          exact {
            expression := fun i => ih.expression_succ hts
            ternary := fun i => ih.ternary_succ hts
            binary := fun level i => ih.binary_succ
            operators := fun level left i => ih.operators_succ hts
            unary := fun i => ih.unary_succ hts
            stepped := fun i => ih.stepped_succ hts
            primary := fun i => ih.primary_succ hts
            arguments := fun i => ih.arguments_succ hts
            moreArguments := fun args i => ih.moreArguments_succ hts }

end Inlay.Indexed
