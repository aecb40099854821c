import Inlay.Proofs.Grammar.IndexedExpressions

/-!
# `Proofs.Grammar.IndexedStatements` — statements and programs by index

The parsers for statements, and the loop over all of them up to the end of the source. A declaration is told from an
expression by a look at the token behind the next one, the only place where a parser looks further ahead.

The rules of the grammar read blocks, branches and loops in the one rule for statements; here each has its parser, which
asks for its first word again. So such a parser follows the rule where that word comes next (`FollowSentenceRules`). The
parser for statements hands over to it a call deeper, while the rule stays where it is, so the induction on the depth
of the parser is for every depth of the rule.
-/

namespace Inlay.Indexed

open Grammar (nextKind kinds declarationWords declared?)

variable {α : Type} {tokens : List Token} {i m n : Nat} {us : List TokenKind}

/-! ## The parsers -/

/-- Whether a declaration comes next: a type word in front of a name. -/
def atDeclaration (tokens : List Token) : Parser Bool := do
  match (← peek tokens).kind with
  | .identifier word =>
    if declarationWords.contains word then
      match (← peekAt tokens 1).kind with
      | .identifier _ => return true
      | _ => return false
    else return false
  | _ => return false

/-- A declaration or an expression, without a semicolon. -/
def simple (tokens : List Token) (n : Nat) : Parser Simple := do
  if ← atDeclaration tokens then
    let _ ← advance tokens
    let name ← expectIdentifier tokens "variable name"
    if ← matchKind tokens (.symbol .assign) then
      let value ← expression tokens n
      return .declaration name (some value)
    else return .declaration name none
  else
    let e ← expression tokens n
    return .expression e

/-- A part that is missing if the symbol `s` comes next. -/
def optionalBefore (tokens : List Token) (s : Symbol) (part : Parser α) : Parser (Option α) := do
  if ← check tokens (.symbol s) then return none
  else
    let x ← part
    return some x

mutual

/-- A statement of any kind. -/
def statement (tokens : List Token) : Nat → Parser Stmt
  | 0 => tooDeep
  | n + 1 => do
    match (← peek tokens).kind with
    | .symbol .leftBrace => block tokens n
    | .keyword .ifWord => ifStatement tokens n
    | .keyword .whileWord => whileStatement tokens n
    | .keyword .forWord => forStatement tokens n
    | .keyword .breakWord =>
      let _ ← advance tokens
      let _ ← consume tokens (.symbol .semicolon) "';' after 'break'"
      return .break
    | .keyword .continueWord =>
      let _ ← advance tokens
      let _ ← consume tokens (.symbol .semicolon) "';' after 'continue'"
      return .continue
    | .symbol .semicolon =>
      let _ ← advance tokens
      return .empty
    | _ =>
      let s ← simple tokens n
      let _ ← consume tokens (.symbol .semicolon) "';' after statement"
      return .simple s

/-- A block. -/
def block (tokens : List Token) : Nat → Parser Stmt
  | 0 => tooDeep
  | n + 1 => do
    let _ ← consume tokens (.symbol .leftBrace) "'\x7b'"
    let body ← blockStatements tokens n []
    let _ ← consume tokens (.symbol .rightBrace) "'\x7d'"
    return .block body

/-- The loop over the statements of a block behind those that are read, `body`, up to the closing brace. -/
def blockStatements (tokens : List Token) : Nat → List Stmt → Parser (List Stmt)
  | 0, _ => tooDeep
  | n + 1, body => do
    if ← check tokens (.symbol .rightBrace) then return body
    else if ← isAtEnd tokens then fail tokens .unclosedBrace
    else
      let s ← statement tokens n
      blockStatements tokens n (body ++ [s])

/-- An `if` with its branches. -/
def ifStatement (tokens : List Token) : Nat → Parser Stmt
  | 0 => tooDeep
  | n + 1 => do
    let _ ← consume tokens (.keyword .ifWord) "'if'"
    let _ ← consume tokens (.symbol .leftParen) "'(' after 'if'"
    let condition ← expression tokens n
    let _ ← consume tokens (.symbol .rightParen) "')' after if condition"
    let thenBranch ← statement tokens n
    if ← matchKind tokens (.keyword .elseWord) then
      let elseBranch ← statement tokens n
      return .ifThenElse condition thenBranch elseBranch
    else return .ifThen condition thenBranch

/-- A `while` loop. -/
def whileStatement (tokens : List Token) : Nat → Parser Stmt
  | 0 => tooDeep
  | n + 1 => do
    let _ ← consume tokens (.keyword .whileWord) "'while'"
    let _ ← consume tokens (.symbol .leftParen) "'(' after 'while'"
    let condition ← expression tokens n
    let _ ← consume tokens (.symbol .rightParen) "')' after while condition"
    let body ← statement tokens n
    return .whileLoop condition body

/-- A `for` loop. -/
def forStatement (tokens : List Token) : Nat → Parser Stmt
  | 0 => tooDeep
  | n + 1 => do
    let _ ← consume tokens (.keyword .forWord) "'for'"
    let _ ← consume tokens (.symbol .leftParen) "'(' after 'for'"
    let init ← optionalBefore tokens .semicolon (simple tokens n)
    let _ ← consume tokens (.symbol .semicolon) "';' after for initializer"
    let condition ← optionalBefore tokens .semicolon (expression tokens n)
    let _ ← consume tokens (.symbol .semicolon) "';' after for condition"
    let step ← optionalBefore tokens .rightParen (expression tokens n)
    let _ ← consume tokens (.symbol .rightParen) "')' after for clauses"
    let body ← statement tokens n
    return .forLoop init condition step body

end

/-- The loop over statements behind those that are read, `p`, up to the end of the source. -/
def moreStatements (tokens : List Token) : Nat → Program → Parser Program
  | 0, _ => tooDeep
  | n + 1, p => do
    if ← isAtEnd tokens then return p
    else
      let s ← statement tokens n
      moreStatements tokens n (p ++ [s])

/-- A whole program. -/
def program (tokens : List Token) (n : Nat) : Parser Program :=
  moreStatements tokens n []

/-! ## Parts of statements next to the rules -/

section

variable (hts : kinds tokens = us ++ [.eof])

include hts

/-- Behind a word there is a token to look at. -/
theorem outcome_peekAt_one (hi : i < tokens.length) (hk : nextKind (tokens.drop i) ≠ .eof) :
    ∃ t, outcome (peekAt tokens 1) i = some (.ok (t, i)) ∧ t.kind = nextKind (tokens.drop (i + 1)) := by
  have hi' := succ_lt_length hts hi hk
  refine ⟨tokens[i + 1], ?_, kind_getElem hi'⟩
  unfold peekAt
  rw [outcome_bind_ok (outcome_get i), Nat.min_eq_left (by omega)]
  exact outcome_tokenAt hi' i

theorem outcome_atDeclaration (hi : i < tokens.length) :
    outcome (atDeclaration tokens) i = some (.ok ((declared? (tokens.drop i)).isSome, i)) := by
  unfold atDeclaration declared?
  rw [outcome_bind_ok (outcome_peek hi), kind_getElem hi, List.tail_drop]
  cases hword : nextKind (tokens.drop i) with
  | identifier word =>
      dsimp only
      obtain ⟨t, hpeek, hkind⟩ := outcome_peekAt_one hts hi (by simp [hword])
      by_cases hknown : declarationWords.contains word = true
      · rw [if_pos hknown, outcome_bind_ok hpeek, hkind]
        cases nextKind (tokens.drop (i + 1)) with
        | identifier name =>
            dsimp only
            rw [if_pos hknown]
            rfl
        | _ => rfl
      · rw [if_neg hknown]
        cases nextKind (tokens.drop (i + 1)) with
        | identifier name =>
            dsimp only
            rw [if_neg hknown]
            rfl
        | _ => rfl
  | _ => rfl

omit hts in
/-- What a declaration declares is the second of its tokens. -/
theorem declared?_eq_drop {name : String} {rest : List Token}
    (h : declared? (tokens.drop i) = some (name, rest)) : nextKind (tokens.drop i) ≠ .eof ∧
      nextKind (tokens.drop (i + 1)) = .identifier name ∧ rest = tokens.drop (i + 2) := by
  obtain ⟨word, -, hkinds⟩ := Grammar.declared?_eq_some h
  have hrest : rest = (tokens.drop i).tail.tail := by
    unfold declared? at h
    split at h
    · split at h
      · cases h
        rfl
      · cases h
    · cases h
  rw [hrest, List.tail_drop, List.tail_drop, Grammar.nextKind_of_kinds hkinds, ← List.tail_drop]
  exact ⟨by simp, Grammar.nextKind_of_kinds (Grammar.kinds_tail hkinds), rfl⟩

/-- **Declarations and expressions** are read by the rule. -/
theorem simple_follows (hi : i < tokens.length) (hn : 10 * (tokens.length - i) + 6 ≤ min m n) :
    Follows tokens (i + 1) (outcome (simple tokens m) i) (Grammar.simple n (tokens.drop i)) := by
  unfold simple Grammar.simple
  rw [outcome_bind_ok (outcome_atDeclaration hts hi)]
  cases hdeclared : declared? (tokens.drop i) with
  | none => exact ((followRules hts m n).expression i hi hn).bind fun e j hij hj => .done _ hij hj
  | some declaration =>
      obtain ⟨name, rest⟩ := declaration
      obtain ⟨hword, hname, rfl⟩ := declared?_eq_drop hdeclared
      refine .advance hts hi hword fun hi₁ => ?_
      have hi₂ := succ_lt_length hts hi₁ (by simp [hname])
      rw [outcome_bind_ok (outcome_expectIdentifier hi₁ hname _)]
      dsimp only
      refine .matchSymbol hts hi₂ (fun hi₃ => ?_) (.done _ (by omega) hi₂)
      rw [List.tail_drop]
      exact ((followRules hts m n).expression _ hi₃ (by omega)).bind fun value j hij hj => .done _ (by omega) hj

omit hts in
/-- A part that may be missing is read where the rule reads it. -/
theorem Follows.optionalBefore {s : Symbol} {part : Parser α}
    {rule : List Token → Grammar.Reading (α × List Token)} (hi : i < tokens.length)
    (hpart : Follows tokens i (outcome part i) (rule (tokens.drop i))) :
    Follows tokens i (outcome (Indexed.optionalBefore tokens s part) i)
      (Grammar.optionalBefore s rule (tokens.drop i)) := by
  unfold Indexed.optionalBefore Grammar.optionalBefore Grammar.nextIs
  rw [outcome_bind_ok (outcome_check hi rfl), ← sameSort_symbol]
  split
  · exact .done _ (Nat.le_refl i) hi
  · exact hpart.bind fun x j hij hj => .done _ hij hj

end

/-! ## Statements next to the rules -/

/-- **What the parsers for statements do**, `m` calls deep, next to the rules at a depth `n`, if both are enough for the
    tokens left. One rule reads all statements; the parsers for the longer ones follow it where their first token comes
    next. -/
structure FollowSentenceRules (tokens : List Token) (m n : Nat) : Prop where
  statement : ∀ i, i < tokens.length → 10 * (tokens.length - i) + 9 ≤ min m n →
    Follows tokens (i + 1) (outcome (statement tokens m) i) (Grammar.statement n (tokens.drop i))
  block : ∀ i, i < tokens.length → 10 * (tokens.length - i) + 8 ≤ min m n →
    nextKind (tokens.drop i) = .symbol .leftBrace →
    Follows tokens (i + 1) (outcome (block tokens m) i) (Grammar.statement n (tokens.drop i))
  ifStatement : ∀ i, i < tokens.length → 10 * (tokens.length - i) + 8 ≤ min m n →
    nextKind (tokens.drop i) = .keyword .ifWord →
    Follows tokens (i + 1) (outcome (ifStatement tokens m) i) (Grammar.statement n (tokens.drop i))
  whileStatement : ∀ i, i < tokens.length → 10 * (tokens.length - i) + 8 ≤ min m n →
    nextKind (tokens.drop i) = .keyword .whileWord →
    Follows tokens (i + 1) (outcome (whileStatement tokens m) i) (Grammar.statement n (tokens.drop i))
  forStatement : ∀ i, i < tokens.length → 10 * (tokens.length - i) + 8 ≤ min m n →
    nextKind (tokens.drop i) = .keyword .forWord →
    Follows tokens (i + 1) (outcome (forStatement tokens m) i) (Grammar.statement n (tokens.drop i))
  /-- The rule for the statements of a block reads the closing brace, too. -/
  blockStatements : ∀ body i, i < tokens.length → 10 * (tokens.length - i) + 10 ≤ min m n →
    Follows tokens (i + 1)
      (outcome (blockStatements tokens m body >>= fun body =>
        consume tokens (.symbol .rightBrace) "'\x7d'" >>= fun _ => pure (Stmt.block body)) i)
      (behind body (Grammar.blockBody n (tokens.drop i)) >>= fun (body, ts) => .ok (.block body, ts))

namespace FollowSentenceRules

variable (hts : kinds tokens = us ++ [.eof])

include hts

theorem statement_succ (ih : ∀ n, FollowSentenceRules tokens m n) (hi : i < tokens.length)
    (hn : 10 * (tokens.length - i) + 9 ≤ min (m + 1) (n + 1)) :
    Follows tokens (i + 1) (outcome (Indexed.statement tokens (m + 1)) i)
      (Grammar.statement (n + 1) (tokens.drop i)) := by
  have hsimple : Follows tokens (i + 1)
      (outcome (simple tokens m >>= fun s =>
        consume tokens (.symbol .semicolon) "';' after statement" >>= fun _ => pure (Stmt.simple s)) i)
      (Grammar.simple n (tokens.drop i) >>= fun r =>
        Grammar.symbol .semicolon "';' after statement" r.2 >>= fun ts => .ok (.simple r.1, ts)) :=
    (simple_follows hts hi (by omega)).bind fun s j hij hj => .symbol hts hj fun hj' => .done _ (by omega) hj'
  rw [Indexed.statement]
  refine .peek hi ?_
  rw [kind_getElem hi]
  cases hkind : nextKind (tokens.drop i) with
  | symbol s =>
      cases s with
      -- The parser for blocks is a call deeper, but the rule is still this one.
      | leftBrace => exact (ih _).block i hi (by omega) hkind
      | semicolon =>
          rw [Grammar.statement, hkind]
          exact .single hts _ hi (by simp [hkind])
      | _ =>
          rw [Grammar.statement, hkind]
          exact hsimple
  | keyword w =>
      cases w with
      | ifWord => exact (ih _).ifStatement i hi (by omega) hkind
      | whileWord => exact (ih _).whileStatement i hi (by omega) hkind
      | forWord => exact (ih _).forStatement i hi (by omega) hkind
      | breakWord | continueWord =>
          rw [Grammar.statement, hkind]
          refine .advance hts hi (by simp [hkind]) fun hi₁ => ?_
          dsimp only
          rw [List.tail_drop]
          exact .symbol hts hi₁ fun hi₂ => .done _ (by omega) hi₂
      | _ =>
          rw [Grammar.statement, hkind]
          exact hsimple
  | _ =>
      rw [Grammar.statement, hkind]
      exact hsimple

theorem block_succ (ih : ∀ n, FollowSentenceRules tokens m n) (hi : i < tokens.length)
    (hn : 10 * (tokens.length - i) + 8 ≤ min (m + 1) (n + 1)) (hkind : nextKind (tokens.drop i) = .symbol .leftBrace) :
    Follows tokens (i + 1) (outcome (Indexed.block tokens (m + 1)) i) (Grammar.statement (n + 1) (tokens.drop i)) := by
  rw [Indexed.block, Grammar.statement, hkind]
  refine .consume hts hi hkind rfl fun hi' => ?_
  dsimp only
  rw [List.tail_drop, ← behind_nil (Grammar.blockBody n (tokens.drop (i + 1)))]
  exact ((ih n).blockStatements [] _ hi' (by omega)).mono (by omega)

theorem ifStatement_succ (ih : ∀ n, FollowSentenceRules tokens m n) (hi : i < tokens.length)
    (hn : 10 * (tokens.length - i) + 8 ≤ min (m + 1) (n + 1)) (hkind : nextKind (tokens.drop i) = .keyword .ifWord) :
    Follows tokens (i + 1) (outcome (Indexed.ifStatement tokens (m + 1)) i)
      (Grammar.statement (n + 1) (tokens.drop i)) := by
  rw [Indexed.ifStatement, Grammar.statement, hkind]
  refine .consume hts hi hkind rfl fun hi' => ?_
  dsimp only
  rw [List.tail_drop]
  refine .symbol hts hi' fun hopen => ?_
  refine ((followRules hts m n).expression _ hopen (by omega)).bind fun condition j hij hj => ?_
  refine .symbol hts hj fun hclose => ?_
  refine ((ih n).statement _ hclose (by omega)).bind fun thenBranch k hjk hk => ?_
  dsimp only
  rw [← sameSort_keyword]
  refine .matchKind hts hk rfl (fun helse => ?_) (.done _ (by omega) hk)
  rw [List.tail_drop]
  exact ((ih n).statement _ helse (by omega)).bind fun elseBranch l hkl hl => .done _ (by omega) hl

theorem whileStatement_succ (ih : ∀ n, FollowSentenceRules tokens m n) (hi : i < tokens.length)
    (hn : 10 * (tokens.length - i) + 8 ≤ min (m + 1) (n + 1))
    (hkind : nextKind (tokens.drop i) = .keyword .whileWord) :
    Follows tokens (i + 1) (outcome (Indexed.whileStatement tokens (m + 1)) i)
      (Grammar.statement (n + 1) (tokens.drop i)) := by
  rw [Indexed.whileStatement, Grammar.statement, hkind]
  refine .consume hts hi hkind rfl fun hi' => ?_
  dsimp only
  rw [List.tail_drop]
  refine .symbol hts hi' fun hopen => ?_
  refine ((followRules hts m n).expression _ hopen (by omega)).bind fun condition j hij hj => ?_
  refine .symbol hts hj fun hclose => ?_
  exact ((ih n).statement _ hclose (by omega)).bind fun body k hjk hk => .done _ (by omega) hk

theorem forStatement_succ (ih : ∀ n, FollowSentenceRules tokens m n) (hi : i < tokens.length)
    (hn : 10 * (tokens.length - i) + 8 ≤ min (m + 1) (n + 1)) (hkind : nextKind (tokens.drop i) = .keyword .forWord) :
    Follows tokens (i + 1) (outcome (Indexed.forStatement tokens (m + 1)) i)
      (Grammar.statement (n + 1) (tokens.drop i)) := by
  have hexpression : ∀ j, j < tokens.length → i + 1 ≤ j →
      Follows tokens j (outcome (expression tokens m) j) (Grammar.expression n (tokens.drop j)) := fun j hj hij =>
    ((followRules hts m n).expression j hj (by omega)).mono (Nat.le_succ j)
  rw [Indexed.forStatement, Grammar.statement, hkind]
  refine .consume hts hi hkind rfl fun hi' => ?_
  dsimp only
  rw [List.tail_drop]
  refine .symbol hts hi' fun hopen => ?_
  have hinit := (simple_follows (m := m) (n := n) hts hopen (by omega)).mono (Nat.le_succ _)
  refine (Follows.optionalBefore hopen hinit).bind fun init j hij hj => .symbol hts hj fun hj' => ?_
  refine (Follows.optionalBefore hj' (hexpression _ hj' (by omega))).bind fun condition k hjk hk => ?_
  refine .symbol hts hk fun hk' => ?_
  refine (Follows.optionalBefore hk' (hexpression _ hk' (by omega))).bind fun step l hkl hl => ?_
  refine .symbol hts hl fun hl' => ?_
  exact ((ih n).statement _ hl' (by omega)).bind fun body p hlp hp => .done _ (by omega) hp

theorem blockStatements_succ {body : List Stmt} (ih : ∀ n, FollowSentenceRules tokens m n) (hi : i < tokens.length)
    (hn : 10 * (tokens.length - i) + 10 ≤ min (m + 1) (n + 1)) :
    Follows tokens (i + 1)
      (outcome (Indexed.blockStatements tokens (m + 1) body >>= fun body =>
        consume tokens (.symbol .rightBrace) "'\x7d'" >>= fun _ => pure (Stmt.block body)) i)
      (behind body (Grammar.blockBody (n + 1) (tokens.drop i)) >>= fun (body, ts) => .ok (.block body, ts)) := by
  have hcheck := outcome_check (k := .symbol .rightBrace) hi rfl
  rw [Indexed.blockStatements, bind_assoc, outcome_bind_ok hcheck, Grammar.blockBody]
  by_cases hclose : sameSort (nextKind (tokens.drop i)) (.symbol .rightBrace) = true
  · have hkind := eq_of_sameSort_symbol hclose
    have hi' := succ_lt_length hts hi (by simp [hkind])
    rw [if_pos hclose, outcome_bind_ok (outcome_pure body i), outcome_bind_ok (outcome_consume hi rfl hclose _), hkind,
      List.tail_drop]
    dsimp only
    rw [behind_done]
    exact .done _ (Nat.le_refl _) hi'
  · rw [if_neg hclose, bind_assoc, outcome_bind_ok (outcome_isAtEnd hi)]
    by_cases hend : (nextKind (tokens.drop i)).isEof = true
    · rw [if_pos hend, outcome_bind_error (outcome_fail hi _), isEof_iff.mp hend]
      exact .fault _
    · rw [if_neg hend, bind_assoc]
      split
      · next hkind => exact absurd (by rw [hkind]; rfl) hclose
      · next hkind => exact absurd (isEof_iff.mpr hkind) hend
      · rw [behind_bind, bind_assoc]
        refine ((ih n).statement i hi (by omega)).bind fun s j hij hj => ?_
        dsimp only
        rw [behind_cons]
        exact ((ih n).blockStatements _ j hj (by omega)).mono (by omega)

end FollowSentenceRules

/-- **The parsers for statements follow the rules** where both may go deep enough for the tokens left. -/
theorem followSentenceRules (hts : kinds tokens = us ++ [.eof]) (m n : Nat) : FollowSentenceRules tokens m n := by
  induction m generalizing n with
  | zero => constructor <;> intros <;> omega
  | succ m ih =>
      cases n with
      | zero => constructor <;> intros <;> omega
      | succ n =>
          exact {
            statement := fun i => FollowSentenceRules.statement_succ hts ih
            block := fun i => FollowSentenceRules.block_succ hts ih
            ifStatement := fun i => FollowSentenceRules.ifStatement_succ hts ih
            whileStatement := fun i => FollowSentenceRules.whileStatement_succ hts ih
            forStatement := fun i => FollowSentenceRules.forStatement_succ hts ih
            blockStatements := fun body i => FollowSentenceRules.blockStatements_succ hts ih }

/-- **The parser for programs follows the rule** where both may go deep enough for the tokens left. -/
theorem moreStatements_follows (hts : kinds tokens = us ++ [.eof]) (p : Program) (hi : i < tokens.length)
    (hn : 10 * (tokens.length - i) + 10 ≤ min m n) :
    Follows tokens i (outcome (moreStatements tokens m p) i) (behind p (Grammar.statements n (tokens.drop i))) := by
  induction m generalizing n i p with
  | zero => omega
  | succ m ih =>
      obtain ⟨n, rfl⟩ : ∃ n', n = n' + 1 := ⟨n - 1, by omega⟩
      rw [moreStatements, Grammar.statements, outcome_bind_ok (outcome_isAtEnd hi)]
      split
      · rw [behind_done]
        exact .done p (Nat.le_refl i) hi
      · rw [behind_bind]
        refine ((followSentenceRules hts m n).statement i hi (by omega)).bind fun s j hij hj => ?_
        dsimp only
        rw [behind_cons]
        exact (ih _ hj (by omega)).mono (by omega)

end Inlay.Indexed
