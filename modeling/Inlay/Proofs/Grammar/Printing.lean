import Inlay.Proofs.Grammar.Completeness

/-!
# `Proofs.Grammar.Printing` — reading undoes printing

A printer for the trees of the template language. An expression is put in parentheses where its rank is looser than
the place it stands in, and nowhere else (`Expr.printIn`). What is printed is a phrase for the tree, no phrase for it
is shorter, and so it is read as the tree it was printed from.

A tree can hold one thing that no parentheses could tell: in front of an `else`, a statement that ends in an `if`
without one (`Stmt.elsesMatch`). Trees that were read never do, and all others are read
(`exists_parseTokens_eq_ok_iff`).
-/

namespace Inlay

open Grammar (Rank Form Phrase SimplePhrase Optionally Passage Sentence kinds declarationWords)

/-! ## The printer -/

/-- How tightly the expressions of a rank bind. No operator is of a level above nine: an operand in such a place binds
    like one behind an operator in front. -/
def Grammar.Rank.tightness : Rank → Nat
  | .expression => 0
  | .ternary => 1
  | .binary level => min (level + 2) 12
  | .unary => 12
  | .primary => 13

namespace Expr

/-- The tightest rank that an expression is of without parentheses. -/
def rank : Expr → Rank
  | assign _ _ _ => .expression
  | ternary _ _ _ => .ternary
  | binary op _ _ => .binary op.level
  | unary _ _ | increment _ _ _ => .unary
  | _ => .primary

/-- The tokens `us` of the expression `e` in a place of rank `r`: in parentheses if `e` is too loose for it. -/
def fenced (r : Rank) (e : Expr) (us : List TokenKind) : List TokenKind :=
  if e.rank.tightness < r.tightness then .symbol .leftParen :: (us ++ [.symbol .rightParen]) else us

mutual

/-- The tokens of an expression with the fewest parentheses. -/
def print : Expr → List TokenKind
  | intLiteral n => [.integer n]
  | floatLiteral x => [.float x]
  | stringLiteral s => [.string s]
  | boolLiteral b => [.keyword (if b then .trueWord else .falseWord)]
  | «variable» x => [.identifier x]
  | binary op l r =>
    fenced (.binary op.level) l (print l) ++ .symbol op.symbol :: fenced (.binary (op.level + 1)) r (print r)
  | unary op e => .symbol op.symbol :: fenced .unary e (print e)
  | assign x op v => .identifier x :: .symbol (CompoundOp.assignSymbol op) :: print v
  | increment x step inFront =>
    if inFront then [.symbol step.symbol, .identifier x] else [.identifier x, .symbol step.symbol]
  | ternary c a b =>
    fenced (.binary 0) c (print c) ++ .symbol .question :: (print a ++ .symbol .colon :: fenced .ternary b (print b))
  | call x args => .identifier x :: .symbol .leftParen :: (printAll args ++ [.symbol .rightParen])

/-- The tokens of arguments with commas between them. -/
def printAll : List Expr → List TokenKind
  | [] => []
  | [e] => print e
  | e :: e' :: es => print e ++ .symbol .comma :: printAll (e' :: es)

end

/-- The tokens of an expression in a place of rank `r`. -/
def printIn (r : Rank) (e : Expr) : List TokenKind :=
  fenced r e e.print

end Expr

/-- The tokens of a declaration or an expression, with `word` in front of what is declared. -/
def Simple.print (word : String) : Simple → List TokenKind
  | .expression e => e.print
  | .declaration x none => [.identifier word, .identifier x]
  | .declaration x (some e) => .identifier word :: .identifier x :: .symbol .assign :: e.print

namespace Stmt

mutual

/-- The tokens of a statement. -/
def print (word : String) : Stmt → List TokenKind
  | simple s => s.print word ++ [.symbol .semicolon]
  | block body => .symbol .leftBrace :: (printAll word body ++ [.symbol .rightBrace])
  | ifThen c s => .keyword .ifWord :: .symbol .leftParen :: (c.print ++ .symbol .rightParen :: print word s)
  | ifThenElse c s s' => .keyword .ifWord :: .symbol .leftParen ::
      (c.print ++ .symbol .rightParen :: (print word s ++ .keyword .elseWord :: print word s'))
  | whileLoop c s => .keyword .whileWord :: .symbol .leftParen :: (c.print ++ .symbol .rightParen :: print word s)
  | forLoop init c step s => .keyword .forWord :: .symbol .leftParen ::
      (init.elim [] (Simple.print word) ++ .symbol .semicolon :: (c.elim [] Expr.print ++ .symbol .semicolon ::
        (step.elim [] Expr.print ++ .symbol .rightParen :: print word s)))
  | «break» => [.keyword .breakWord, .symbol .semicolon]
  | «continue» => [.keyword .continueWord, .symbol .semicolon]
  | empty => [.symbol .semicolon]

/-- The tokens of statements in order. -/
def printAll (word : String) : List Stmt → List TokenKind
  | [] => []
  | s :: ss => print word s ++ printAll word ss

end

mutual

/-- Whether every `else` in a statement stands behind a statement that does not end in an `if` without one. -/
def elsesMatch : Stmt → Bool
  | ifThenElse _ s s' => !s.endsOpen && s.elsesMatch && s'.elsesMatch
  | block body => allElsesMatch body
  | ifThen _ s | whileLoop _ s | forLoop _ _ _ s => s.elsesMatch
  | _ => true

/-- Whether every `else` in statements does so. -/
def allElsesMatch : List Stmt → Bool
  | [] => true
  | s :: ss => s.elsesMatch && allElsesMatch ss

end

end Stmt

/-- The tokens of a program, with `word` in front of what is declared. -/
def Program.print (word : String) (p : Program) : List TokenKind :=
  Stmt.printAll word p

/-! ## What is printed is a phrase -/

variable {e : Expr} {r r' : Rank} {us : List TokenKind} {word : String}

namespace Grammar

theorem Rank.tightness_le (r : Rank) : r.tightness ≤ Rank.primary.tightness := by
  cases r <;> simp only [tightness] <;> omega

namespace Phrase

/-- **A phrase of a tight rank is one of every looser rank.** -/
theorem ofTighter (h : Phrase (.expr r e) us) (hr : ∀ level, r = .binary level → level ≤ 9)
    (hle : r'.tightness ≤ r.tightness) : Phrase (.expr r' e) us := by
  cases r with
  | expression => cases r' <;> simp only [Rank.tightness] at hle <;> first | exact h | omega
  | ternary =>
      cases r' with
      | expression => exact h.toExpression
      | ternary => exact h
      | _ => simp only [Rank.tightness] at hle; omega
  | binary level =>
      have hlevel := hr level rfl
      cases r' with
      | expression => exact h.toExpression
      | ternary => exact .ofBinary (h.loosen (Nat.zero_le level))
      | binary level' =>
          simp only [Rank.tightness] at hle
          exact h.loosen (by omega)
      | _ => simp only [Rank.tightness] at hle; omega
  | unary =>
      cases r' with
      | expression => exact h.toExpression
      | ternary => exact .ofBinary (.ofUnary 0 h)
      | binary level' => exact .ofUnary level' h
      | unary => exact h
      | primary => simp only [Rank.tightness] at hle; omega
  | primary =>
      cases r' with
      | expression => exact h.toExpression
      | ternary => exact .ofBinary (.ofUnary 0 (.ofPrimary h))
      | binary level' => exact .ofUnary level' (.ofPrimary h)
      | unary => exact .ofPrimary h
      | primary => exact h

end Phrase

end Grammar

namespace Expr

theorem level_le_of_rank {level : Nat} (h : e.rank = .binary level) : level ≤ 9 := by
  cases e with
  | binary op l r =>
      cases h
      exact op.level_le_nine
  | _ => cases h

/-- An expression that is a phrase of its rank is one of every rank, in parentheses if need be. -/
theorem phrase_fenced (h : Phrase (.expr e.rank e) us) (r : Rank) : Phrase (.expr r e) (e.fenced r us) := by
  unfold fenced
  split
  · exact (Phrase.parenthesized h.toExpression).ofTighter nofun r.tightness_le
  · next hle => exact h.ofTighter (fun _ => level_le_of_rank) (Nat.not_lt.mp hle)

mutual

theorem phrase_print : (e : Expr) → Phrase (.expr e.rank e) e.print
  | .intLiteral n => .integer n
  | .floatLiteral x => .float x
  | .stringLiteral s => .string s
  | .boolLiteral true => .trueWord
  | .boolLiteral false => .falseWord
  | .variable x => .name x
  | .binary op l r => .binary op (Nat.le_refl _) (phrase_fenced (phrase_print l) _) (phrase_fenced (phrase_print r) _)
  | .unary op e => .unary op (phrase_fenced (phrase_print e) _)
  | .assign x op v => .assign op (.ofBinary (.ofUnary 0 (.ofPrimary (.name x)))) (phrase_print v).toExpression
  | .increment x step true => .stepInFront x step
  | .increment x step false => .stepBehind step (.name x)
  | .ternary c a b =>
    .ternary (phrase_fenced (phrase_print c) _) (phrase_print a).toExpression (phrase_fenced (phrase_print b) _)
  | .call x [] => .emptyCall x
  | .call x (e :: es) => .call x (phrase_printAll (e :: es) (List.cons_ne_nil e es))

theorem phrase_printAll : (es : List Expr) → es ≠ [] → Phrase (.arguments es) (printAll es)
  | [e], _ => .lastArgument (phrase_print e).toExpression
  | e :: e' :: es, _ =>
    .argument (phrase_print e).toExpression (phrase_printAll (e' :: es) (List.cons_ne_nil e' es))

end

end Expr

theorem Simple.phrase_print (s : Simple) (known : word ∈ declarationWords) : SimplePhrase s (s.print word) := by
  cases s with
  | expression e => exact .expression e.phrase_print.toExpression
  | declaration x value =>
      cases value with
      | none => exact .declaration x known
      | some e => exact .initialized x known e.phrase_print.toExpression

/-- A part that may be missing is printed as nothing if it is. -/
theorem optionally_print {α : Type} {phrases : α → List TokenKind → Prop} {print : α → List TokenKind} (x : Option α)
    (h : ∀ y, phrases y (print y)) : Optionally phrases x (x.elim [] print) := by
  cases x with
  | none => exact .absent
  | some y => exact .present (h y)

namespace Stmt

mutual

theorem sentence_print (known : word ∈ declarationWords) :
    (s : Stmt) → s.elsesMatch = true → Sentence (.statement s) (s.print word)
  | simple s, _ => .simple (s.phrase_print known)
  | block body, h => .block (sentence_printAll known body h)
  | ifThen c s, h => .ifThen c.phrase_print.toExpression (sentence_print known s h)
  | ifThenElse c s s', h =>
    have hparts : (s.endsOpen = false ∧ s.elsesMatch = true) ∧ s'.elsesMatch = true := by
      simpa [elsesMatch] using h
    .ifThenElse c.phrase_print.toExpression (sentence_print known s hparts.1.2) hparts.1.1
      (sentence_print known s' hparts.2)
  | whileLoop c s, h => .whileLoop c.phrase_print.toExpression (sentence_print known s h)
  | forLoop init c step s, h =>
    .forLoop (optionally_print init fun s => s.phrase_print known)
      (optionally_print c fun e => e.phrase_print.toExpression)
      (optionally_print step fun e => e.phrase_print.toExpression) (sentence_print known s h)
  | «break», _ => .break
  | «continue», _ => .continue
  | empty, _ => .empty

theorem sentence_printAll (known : word ∈ declarationWords) :
    (ss : List Stmt) → allElsesMatch ss = true → Sentence (.statements ss) (printAll word ss)
  | [], _ => .nil
  | s :: ss, h =>
    have hparts : s.elsesMatch = true ∧ allElsesMatch ss = true := by
      simpa [allElsesMatch] using h
    .cons (sentence_print known s hparts.1) (sentence_printAll known ss hparts.2)

end

end Stmt

/-! ## No phrase is shorter -/

/-- The tokens of what a form stands for. -/
def Grammar.Form.print : Form → List TokenKind
  | .expr r e => e.printIn r
  | .arguments args => Expr.printAll args

namespace Expr

/-- A looser place never takes more tokens. -/
theorem length_fenced_le (hle : r'.tightness ≤ r.tightness) : (e.fenced r' us).length ≤ (e.fenced r us).length := by
  unfold fenced
  split
  · refine Nat.le_of_eq ?_
    rw [if_pos (by omega)]
  · split
    · simp only [List.length_cons, List.length_append]
      omega
    · exact Nat.le_refl _

theorem length_printIn_le (hle : r'.tightness ≤ r.tightness) : (e.printIn r').length ≤ (e.printIn r).length :=
  length_fenced_le hle

/-- In a place that is loose enough, there are no parentheses. -/
theorem printIn_eq (hle : r.tightness ≤ e.rank.tightness) : e.printIn r = e.print :=
  if_neg (Nat.not_lt.mpr hle)

theorem printIn_expression (e : Expr) : e.printIn .expression = e.print :=
  printIn_eq (Nat.zero_le _)

theorem length_printIn_le_add_two (r : Rank) (e : Expr) : (e.printIn r).length ≤ e.print.length + 2 := by
  unfold printIn fenced
  split
  · simp
  · omega

end Expr

/-- An expression in a place that is loose enough for it. -/
theorem Grammar.Form.length_print_le (hle : r.tightness ≤ e.rank.tightness) (h : e.print.length ≤ us.length) :
    (Form.expr r e).print.length ≤ us.length := by
  rw [Form.print, Expr.printIn_eq hle]
  exact h

/-- **No phrase is shorter** than what is printed. -/
theorem Grammar.Phrase.length_print_le {f : Form} (h : Phrase f us) : f.print.length ≤ us.length := by
  induction h with
  | integer | float | string | trueWord | falseWord | name | emptyCall => exact Nat.le_refl _
  | @call args us x arguments ih =>
      refine Form.length_print_le (Nat.le_refl _) ?_
      rw [Form.print] at ih
      simpa [Expr.print] using ih
  | @parenthesized e us _ ih =>
      have hle := Expr.length_printIn_le_add_two .primary e
      rw [Form.print, Expr.printIn_expression] at ih
      simp only [Form.print, List.length_cons, List.length_append, List.length_nil]
      omega
  | ofPrimary _ ih | ofBinary _ ih | ofTernary _ ih => exact Nat.le_trans (Expr.length_printIn_le (by decide)) ih
  | ofUnary level _ ih => exact Nat.le_trans (Expr.length_printIn_le (Nat.min_le_right _ _)) ih
  | stepBehind step target ih =>
      have hpos := target.length_pos
      refine Form.length_print_le (Nat.le_refl _) ?_
      simp [Expr.print]
      omega
  | stepInFront x step => exact Nat.le_refl _
  | unary op _ ih => exact Form.length_print_le (Nat.le_refl _) (Nat.succ_le_succ ih)
  | @binary level l r us vs op tight _ _ ihl ihr =>
      refine Form.length_print_le (by simp only [Expr.rank, Rank.tightness]; omega) ?_
      simp only [Expr.print, List.length_append, List.length_cons]
      exact Nat.add_le_add ihl (Nat.succ_le_succ ihr)
  | ternary _ _ _ ihc iha ihb =>
      refine Form.length_print_le (Nat.le_refl _) ?_
      rw [Form.print, Expr.printIn_expression] at iha
      simp only [Expr.print, List.length_append, List.length_cons]
      exact Nat.add_le_add ihc (Nat.succ_le_succ (Nat.add_le_add iha (Nat.succ_le_succ ihb)))
  | assign op target _ ih ihv =>
      have hpos := target.length_pos
      refine Form.length_print_le (Nat.le_refl _) ?_
      rw [Form.print, Expr.printIn_expression] at ihv
      simp only [Expr.print, List.length_append, List.length_cons]
      omega
  | @lastArgument e us _ ih =>
      rw [Form.print, Expr.printIn_expression] at ih
      exact ih
  | @argument e es us vs _ others ih ihs =>
      rw [Form.print, Expr.printIn_expression] at ih
      cases es with
      | nil => cases others
      | cons e' es =>
          simp only [Form.print, Expr.printAll, List.length_append, List.length_cons]
          exact Nat.add_le_add ih (Nat.succ_le_succ ihs)

theorem Grammar.Phrase.length_print_expression_le (h : Phrase (.expr .expression e) us) : e.print.length ≤ us.length := by
  have hle := h.length_print_le
  rwa [Form.print, Expr.printIn_expression] at hle

theorem Grammar.SimplePhrase.length_print_le {s : Simple} (h : SimplePhrase s us) (word : String) :
    (s.print word).length ≤ us.length := by
  cases h with
  | expression phrase => exact phrase.length_print_expression_le
  | declaration => exact Nat.le_refl _
  | initialized x known value => exact Nat.add_le_add_right value.length_print_expression_le 3

theorem Grammar.Optionally.length_print_le {α : Type} {phrases : α → List TokenKind → Prop} {x : Option α}
    (h : Optionally phrases x us) (print : α → List TokenKind)
    (hle : ∀ {y}, phrases y us → (print y).length ≤ us.length) : (x.elim [] print).length ≤ us.length := by
  cases h with
  | absent => exact Nat.le_refl _
  | present phrase => exact hle phrase

/-- The tokens of what a sentence stands for. -/
def Grammar.Passage.print (word : String) : Passage → List TokenKind
  | .statement s => s.print word
  | .statements ss => Stmt.printAll word ss

/-- Whether the `else`s of what a sentence stands for match. -/
def Grammar.Passage.elsesMatch : Passage → Bool
  | .statement s => s.elsesMatch
  | .statements ss => Stmt.allElsesMatch ss

/-- **No sentence is shorter** than what is printed. -/
theorem Grammar.Sentence.length_print_le {p : Passage} (h : Sentence p us) (word : String) :
    (p.print word).length ≤ us.length := by
  induction h with
  | simple phrase =>
      have hphrase := phrase.length_print_le word
      simp only [Passage.print, Stmt.print, List.length_append]
      omega
  | block _ ih =>
      simp only [Passage.print] at ih
      simp only [Passage.print, Stmt.print, List.length_append, List.length_cons]
      omega
  | ifThen condition _ ih | whileLoop condition _ ih =>
      have hcondition := condition.length_print_expression_le
      simp only [Passage.print] at ih
      simp only [Passage.print, Stmt.print, List.length_append, List.length_cons]
      omega
  | ifThenElse condition _ _ _ ih ih' =>
      have hcondition := condition.length_print_expression_le
      simp only [Passage.print] at ih ih'
      simp only [Passage.print, Stmt.print, List.length_append, List.length_cons]
      omega
  | forLoop initializer condition stepped _ ih =>
      have hinit := initializer.length_print_le (Simple.print word) fun phrase => phrase.length_print_le word
      have hcondition := condition.length_print_le Expr.print fun phrase => phrase.length_print_expression_le
      have hstep := stepped.length_print_le Expr.print fun phrase => phrase.length_print_expression_le
      simp only [Passage.print] at ih
      simp only [Passage.print, Stmt.print, List.length_append, List.length_cons]
      omega
  | «break» | «continue» | empty | nil => exact Nat.le_refl _
  | cons _ _ ih ih' =>
      simp only [Passage.print] at ih ih'
      simp only [Passage.print, Stmt.printAll, List.length_append]
      omega

/-- **What was read can be printed**: its `else`s match. -/
theorem Grammar.Sentence.elsesMatch {p : Passage} (h : Sentence p us) : p.elsesMatch = true := by
  induction h with
  | simple | «break» | «continue» | empty | nil => rfl
  | block _ ih | ifThen _ _ ih | whileLoop _ _ ih | forLoop _ _ _ _ ih => exact ih
  | ifThenElse _ _ closed _ ih ih' =>
      simp only [Passage.elsesMatch] at ih ih'
      simp [Passage.elsesMatch, Stmt.elsesMatch, closed, ih, ih']
  | cons _ _ ih ih' =>
      simp only [Passage.elsesMatch] at ih ih'
      simp [Passage.elsesMatch, Stmt.allElsesMatch, ih, ih']

/-! ## Reading what was printed -/

/-- **Reading undoes printing.** A program whose `else`s match is read from its printed tokens, whichever type word
    stands in its declarations. No tokens for it are fewer: all that can be left out of them are parentheses, and the
    printed ones have the fewest. Programs are the trees that the parser can build, up to their `else`s. -/
theorem parseTokens_print (known : word ∈ declarationWords) {p : Program} (h : Stmt.allElsesMatch p = true)
    {ts : List Token} (hts : kinds ts = p.print word ++ [.eof]) :
    parseTokens ts = .ok p ∧ ∀ {ts' us}, kinds ts' = us ++ [.eof] → parseTokens ts' = .ok p →
      (p.print word).length ≤ us.length := by
  refine ⟨(Stmt.sentence_printAll known p h).parseTokens_eq hts, fun hts' hread => ?_⟩
  obtain ⟨vs, xs, rfl, hsentence, -⟩ := Grammar.exists_sentence hread hts'
  rw [List.length_append]
  exact Nat.le_trans (hsentence.length_print_le word) (Nat.le_add_right _ _)

/-- The tokens of `if (a) { x = y - (b - c) * -d; } else int i = p ? q : r++;` are read as what they look like. -/
theorem difference_in_branch_survives :
    parseTokens ([.keyword .ifWord, .symbol .leftParen, .identifier "a", .symbol .rightParen, .symbol .leftBrace,
      .identifier "x", .symbol .assign, .identifier "y", .symbol .minus, .symbol .leftParen, .identifier "b",
      .symbol .minus, .identifier "c", .symbol .rightParen, .symbol .star, .symbol .minus, .identifier "d",
      .symbol .semicolon, .symbol .rightBrace, .keyword .elseWord, .identifier "int", .identifier "i", .symbol .assign,
      .identifier "p", .symbol .question, .identifier "q", .symbol .colon, .identifier "r", .symbol .plusPlus,
      .symbol .semicolon, .eof].map fun k => ⟨k, "", {}⟩) =
    .ok [.ifThenElse (.variable "a")
      (.block [.simple (.expression (.assign "x" none (.binary .sub (.variable "y")
        (.binary .mul (.binary .sub (.variable "b") (.variable "c")) (.unary .neg (.variable "d"))))))])
      (.simple (.declaration "i" (some (.ternary (.variable "p") (.variable "q") (.increment "r" .up false)))))] :=
  (parseTokens_print (show "int" ∈ declarationWords by decide) rfl rfl).1

/-- **The programs that are read from some tokens** are those whose `else`s match, so the condition asks nothing of a
    program that a source stands for. -/
theorem exists_parseTokens_eq_ok_iff {p : Program} :
    (∃ ts us, kinds ts = us ++ [.eof] ∧ parseTokens ts = .ok p) ↔ Stmt.allElsesMatch p = true := by
  constructor
  · rintro ⟨ts, us, hts, h⟩
    obtain ⟨vs, xs, -, hsentence, -⟩ := Grammar.exists_sentence h hts
    exact hsentence.elsesMatch
  · intro h
    have hts : kinds ((p.print "int" ++ [TokenKind.eof]).map fun k => ⟨k, "", {}⟩) = p.print "int" ++ [.eof] := by
      rw [kinds, List.map_map]
      exact List.map_id _
    exact ⟨_, _, hts, (Stmt.sentence_printAll (by decide) p h).parseTokens_eq hts⟩

end Inlay
