import Inlay.Proofs.Grammar.IndexedStatements

/-!
# `Proofs.Grammar.InsideTokens` — parsing ends and stays inside of the tokens

The parsers by index follow the rules of the grammar wherever both may go deep enough. From that, whatever the tokens
are in front of their only end: every parser ends from every token on, since ten calls for each token are as deep as it
goes; it takes no index that is none of the tokens; and where it succeeds it has read a token at least
(`KeepsInside`). Parsing a program comes to what the rules give, and when it succeeds, exactly the tokens in front of
the end are read (`parsing_stays_inside`).
-/

namespace Inlay.Indexed

open Grammar (Reading depthFor nextKind kinds)

variable {α : Type} {tokens : List Token} {i k lo m : Nat} {us : List TokenKind}

/-! ## What follows a rule -/

theorem Follows.of_error {out : Option (Except Halt (α × Nat))} {f : SyntaxFault}
    (h : Follows tokens lo out (.error f)) : out = some (.error (.fault f)) := by
  cases h
  rfl

/-- Where a parser stands that has succeeded is told from what its rule leaves. -/
theorem Follows.of_ok {out : Option (Except Halt (α × Nat))} {a : α} {rest : List Token}
    (h : Follows tokens lo out (.ok (a, rest))) :
    let j := tokens.length - rest.length
    lo ≤ j ∧ j < tokens.length ∧ rest = tokens.drop j ∧ out = some (.ok (a, j)) := by
  cases h with
  | @result x j from_lo inside =>
      have hplace : tokens.length - (tokens.drop j).length = j := by
        rw [List.length_drop]
        omega
      rw [hplace]
      exact ⟨from_lo, inside, rfl, rfl⟩

/-- The depth for all tokens is enough for those that are left, and some calls more. -/
theorem enough (hk : k ≤ 10) (hm : depthFor tokens ≤ m) (i : Nat) :
    10 * (tokens.length - i) + k ≤ min m (depthFor tokens) := by
  unfold depthFor at hm ⊢
  omega

/-! ## From each token on -/

/-- **A parser keeps inside of the tokens**: from each of them on it comes to a fault or to a result. So it ends, it
    takes no index that is none of the tokens, and a result leaves it behind another token, in front of one that is
    left. -/
def KeepsInside (tokens : List Token) (x : Nat → Parser α) : Prop :=
  ∀ i, i < tokens.length → (∃ f, ComesTo (depthFor tokens) x i (.error (.fault f))) ∨
    ∃ a j, ComesTo (depthFor tokens) x i (.ok (a, j)) ∧ i < j ∧ j < tokens.length

section

variable {x : Nat → Parser α} {rule : Nat → List Token → Reading (α × List Token)}

/-- What follows one reading at each depth that is enough, by a token at least, keeps inside. -/
theorem KeepsInside.of_reading (h : ∀ i, i < tokens.length → ∃ reading, ∀ m, depthFor tokens ≤ m →
    Follows tokens (i + 1) (outcome (x m) i) reading) : KeepsInside tokens x := by
  intro i hi
  obtain ⟨reading, hfollows⟩ := h i hi
  cases reading with
  | error f => exact .inl ⟨f, fun m hm => (hfollows m hm).of_error⟩
  | ok r =>
      obtain ⟨hread, hinside, -⟩ := (hfollows _ (Nat.le_refl _)).of_ok
      exact .inr ⟨r.1, _, fun m hm => (hfollows m hm).of_ok.2.2.2, hread, hinside⟩

/-- A parser that follows a rule by a token at least keeps inside. -/
theorem KeepsInside.of_follows (hk : k ≤ 10)
    (h : ∀ m n i, i < tokens.length → 10 * (tokens.length - i) + k ≤ min m n →
      Follows tokens (i + 1) (outcome (x m) i) (rule n (tokens.drop i))) : KeepsInside tokens x :=
  of_reading fun i hi => ⟨rule (depthFor tokens) (tokens.drop i), fun m hm => h m _ i hi (enough hk hm i)⟩

/-- A parser that starts with a certain token keeps inside if it follows a rule where that token comes next: elsewhere
    it reports the token. -/
theorem KeepsInside.of_consume {l : TokenKind} {what : String} {f : Nat → Token → Parser α} (hk : k ≤ 10)
    (hx : ∀ m, x (m + 1) = consume tokens l what >>= f m) (hl : sameSort .eof l = false)
    (hsort : ∀ {next}, sameSort next l = true → next = l)
    (h : ∀ m n i, i < tokens.length → 10 * (tokens.length - i) + k ≤ min m n → nextKind (tokens.drop i) = l →
      Follows tokens (i + 1) (outcome (x m) i) (rule n (tokens.drop i))) : KeepsInside tokens x := by
  refine of_reading fun i hi => ?_
  by_cases hnext : sameSort (nextKind (tokens.drop i)) l = true
  · exact ⟨rule (depthFor tokens) (tokens.drop i), fun m hm => h m _ i hi (enough hk hm i) (hsort hnext)⟩
  · refine ⟨.error (Grammar.unexpected what (tokens.drop i)), fun m hm => ?_⟩
    obtain ⟨m, rfl⟩ : ∃ m', m = m' + 1 := ⟨m - 1, by unfold depthFor at hm; omega⟩
    rw [hx, outcome_bind_error (outcome_consume_missing hi hl hnext what)]
    exact .fault _

end

/-- **The parsers for statements and expressions keep inside of the tokens.** -/
structure ParsersKeepInside (tokens : List Token) : Prop where
  statement : KeepsInside tokens (statement tokens)
  simple : KeepsInside tokens (simple tokens)
  block : KeepsInside tokens (block tokens)
  ifStatement : KeepsInside tokens (ifStatement tokens)
  whileStatement : KeepsInside tokens (whileStatement tokens)
  forStatement : KeepsInside tokens (forStatement tokens)
  expression : KeepsInside tokens (expression tokens)
  ternary : KeepsInside tokens (ternary tokens)
  binary : ∀ level, KeepsInside tokens fun m => binary tokens m level
  unary : KeepsInside tokens (unary tokens)
  stepped : KeepsInside tokens (stepped tokens)
  primary : KeepsInside tokens (primary tokens)
  arguments : KeepsInside tokens (arguments tokens)

theorem parsersKeepInside (hts : kinds tokens = us ++ [.eof]) : ParsersKeepInside tokens where
  statement := .of_follows (by decide) fun m n => (followSentenceRules hts m n).statement
  simple := .of_follows (by decide) fun _ _ _ => simple_follows hts
  block := .of_consume (by decide) (fun m => block.eq_2 tokens m) rfl eq_of_sameSort_symbol fun m n =>
    (followSentenceRules hts m n).block
  ifStatement := .of_consume (by decide) (fun m => ifStatement.eq_2 tokens m) rfl eq_of_sameSort_keyword fun m n =>
    (followSentenceRules hts m n).ifStatement
  whileStatement := .of_consume (by decide) (fun m => whileStatement.eq_2 tokens m) rfl eq_of_sameSort_keyword
    fun m n => (followSentenceRules hts m n).whileStatement
  forStatement := .of_consume (by decide) (fun m => forStatement.eq_2 tokens m) rfl eq_of_sameSort_keyword fun m n =>
    (followSentenceRules hts m n).forStatement
  expression := .of_follows (by decide) fun m n => (followRules hts m n).expression
  ternary := .of_follows (by decide) fun m n => (followRules hts m n).ternary
  binary level := .of_follows (by decide) fun m n => (followRules hts m n).binary level
  unary := .of_follows (by decide) fun m n => (followRules hts m n).unary
  stepped := .of_follows (by decide) fun m n => (followRules hts m n).stepped
  primary := .of_follows (by decide) fun m n => (followRules hts m n).primary
  arguments := .of_follows (by decide) fun m n => (followRules hts m n).arguments

/-! ## The whole source -/

/-- The end of the source comes next only behind all tokens in front of it. -/
theorem eq_length_of_eof (hts : kinds tokens = us ++ [.eof]) (hus : .eof ∉ us) (hi : i < tokens.length)
    (hend : nextKind (tokens.drop i) = .eof) : i = us.length := by
  have hlength := length_of_kinds hts
  refine Classical.byContradiction fun hne => hus ?_
  have hlt : i < us.length := by omega
  have hdrop : kinds (tokens.drop i) = us[i] :: (us.drop (i + 1) ++ [.eof]) := by
    unfold kinds at hts ⊢
    rw [List.map_drop, hts, List.drop_append_of_le_length (Nat.le_of_lt hlt), List.drop_eq_getElem_cons hlt]
    rfl
  rw [Grammar.nextKind_of_kinds hdrop] at hend
  exact hend ▸ List.getElem_mem hlt

/-- A program follows its rule. -/
theorem program_follows (hts : kinds tokens = us ++ [.eof]) (hm : depthFor tokens ≤ m) :
    Follows tokens 0 (outcome (program tokens m) 0) (Grammar.statements (depthFor tokens) tokens) := by
  have hlength := length_of_kinds hts
  have hfollows := moreStatements_follows hts [] (i := 0) (by omega) (enough (Nat.le_refl 10) hm 0)
  rwa [behind_nil, List.drop_zero] at hfollows

end Inlay.Indexed

namespace Inlay

open Indexed
open Grammar (depthFor kinds)

variable {tokens : List Token} {us : List TokenKind}

/-- **Parsing ends and stays inside of the tokens**, whatever they are in front of their only end. From each token on,
    every parser comes to a fault or to a result, which is one of a token at least. The parser for programs comes to
    what the rules give, and has read exactly the tokens in front of the end when it succeeds. -/
theorem parsing_stays_inside (hts : kinds tokens = us ++ [.eof]) (hus : .eof ∉ us) :
    ParsersKeepInside tokens ∧
    ComesTo (depthFor tokens) (program tokens) 0
      (((parseTokens tokens).map fun p => (p, us.length)).mapError .fault) := by
  refine ⟨parsersKeepInside hts, fun m hm => ?_⟩
  have hfollows := program_follows hts hm
  unfold parseTokens
  cases hread : Grammar.statements (depthFor tokens) tokens with
  | error f =>
      rw [hread] at hfollows
      exact hfollows.of_error
  | ok r =>
      rw [hread] at hfollows
      obtain ⟨p, rest⟩ := r
      obtain ⟨-, hinside, hrest, hout⟩ := hfollows.of_ok
      obtain ⟨hend, -⟩ := Grammar.statements_sound hread
      have hplace : tokens.length - rest.length = us.length := eq_length_of_eof hts hus hinside (hrest ▸ hend)
      rw [hout, hplace]
      rfl

/-- The tokens of `for (;;) x += f(1, -x); int y;`. -/
def loopTokens : List TokenKind :=
  [.keyword .forWord, .symbol .leftParen, .symbol .semicolon, .symbol .semicolon, .symbol .rightParen,
    .identifier "x", .symbol .plusAssign, .identifier "f", .symbol .leftParen, .integer 1, .symbol .comma,
    .symbol .minus, .identifier "x", .symbol .rightParen, .symbol .semicolon, .identifier "int", .identifier "y",
    .symbol .semicolon]

/-- All tokens of a loop and a declaration are read. If they break off in the middle of a call, the parser finds the end
    of the source in place of the parenthesis and stops there. -/
theorem open_call_is_reported :
    let whole : List Token := (loopTokens ++ [TokenKind.eof]).map fun k => ⟨k, "", {}⟩
    let broken : List Token := (loopTokens.take 10 ++ [TokenKind.eof]).map fun k => ⟨k, "", {}⟩
    let call : Expr := .call "f" [.intLiteral 1, .unary .neg (.variable "x")]
    ComesTo 200 (program whole) 0 (.ok ([
      .forLoop none none none (.simple (.expression (.assign "x" (some .add) call))),
      .simple (.declaration "y" none)], 18)) ∧
    ComesTo 120 (program broken) 0 (.error (.fault ⟨{}, .expected "')' after arguments" .eof⟩)) ∧
    KeepsInside broken (statement broken) := by
  intro whole broken call
  have hwhole : kinds whole = loopTokens ++ [.eof] := rfl
  have hbroken : kinds broken = loopTokens.take 10 ++ [.eof] := rfl
  have hloop : TokenKind.eof ∉ loopTokens := by simp [loopTokens]
  have htake : TokenKind.eof ∉ loopTokens.take 10 := fun h => hloop (List.mem_of_mem_take h)
  have hread : parseTokens whole = .ok [
      .forLoop none none none (.simple (.expression (.assign "x" (some .add) call))),
      .simple (.declaration "y" none)] := rfl
  have hfault : parseTokens broken = .error ⟨{}, .expected "')' after arguments" .eof⟩ := rfl
  obtain ⟨-, hprogram⟩ := parsing_stays_inside hwhole hloop
  obtain ⟨hparsers, hstops⟩ := parsing_stays_inside hbroken htake
  rw [hread] at hprogram
  rw [hfault] at hstops
  exact ⟨hprogram, hstops, hparsers.statement⟩

/-- Without a token for the end of the source there is none to look at. -/
example : outcome (program [] 1) 0 = some (.error .outside) := rfl

end Inlay
