import Inlay.Template.Grammar.Statement

/-!
# `Proofs.Grammar.Phrase` — the grammar of the template language

The language as a relation between trees and lists of token kinds, without a reader in mind. Expressions come in
ranks, one for each way of forming them (`Rank`): a phrase of a tight rank is one of every looser rank, and only
parentheses lead back (`Phrase`). Statements need one condition beyond their parts (`Sentence`): in front of an `else`
no statement may end in an `if` that would take the `else` for its own (`Stmt.endsOpen`).

What a phrase can start with (`Phrase.exists_cons`) and which tokens would make it longer (`TokenKind.joins?`) is what
a reader that looks at the next token needs to know.
-/

namespace Inlay

/-- Whether the last part of a statement is an `if` without `else`. An `else` behind it would belong to that `if`. -/
def Stmt.endsOpen : Stmt → Bool
  | .ifThen _ _ => true
  | .ifThenElse _ _ elseBranch => elseBranch.endsOpen
  | .whileLoop _ body => body.endsOpen
  | .forLoop _ _ _ body => body.endsOpen
  | _ => false

/-! ## Symbols and what they stand for -/

theorem BinaryOp.symbol_of_ofSymbol? {s : Symbol} {op : BinaryOp} (h : ofSymbol? s = some op) : op.symbol = s := by
  cases s <;> cases h <;> rfl

theorem UnaryOp.symbol_of_ofSymbol? {s : Symbol} {op : UnaryOp} (h : ofSymbol? s = some op) : op.symbol = s := by
  cases s <;> cases h <;> rfl

theorem Increment.symbol_of_ofSymbol? {s : Symbol} {i : Increment} (h : ofSymbol? s = some i) : i.symbol = s := by
  cases s <;> cases h <;> rfl

theorem CompoundOp.assignSymbol_of_assignment? {s : Symbol} {op : Option CompoundOp} (h : assignment? s = some op) :
    assignSymbol op = s := by
  cases s <;> cases h <;> rfl

namespace Grammar

/-- The kinds of tokens. -/
def kinds (ts : List Token) : List TokenKind :=
  ts.map (·.kind)

/-! ## Expressions -/

/-- The ways of forming an expression, from the loosest to the tightest. -/
inductive Rank where
  | expression
  | ternary
  /-- Operators between two operands, of a level or tighter. -/
  | binary (level : Nat)
  | unary
  | primary
deriving DecidableEq, Repr

/-- What a phrase stands for: an expression of some rank, or one argument of a call or more. -/
inductive Form where
  | expr (r : Rank) (e : Expr)
  | arguments (args : List Expr)

/-- **The phrases for a form**, as the kinds of their tokens. -/
inductive Phrase : Form → List TokenKind → Prop where
  | integer (n : Int64) : Phrase (.expr .primary (.intLiteral n)) [.integer n]
  | float (x : Float) : Phrase (.expr .primary (.floatLiteral x)) [.float x]
  | string (s : String) : Phrase (.expr .primary (.stringLiteral s)) [.string s]
  | trueWord : Phrase (.expr .primary (.boolLiteral true)) [.keyword .trueWord]
  | falseWord : Phrase (.expr .primary (.boolLiteral false)) [.keyword .falseWord]
  | name (x : String) : Phrase (.expr .primary (.variable x)) [.identifier x]
  | emptyCall (name : String) :
      Phrase (.expr .primary (.call name [])) [.identifier name, .symbol .leftParen, .symbol .rightParen]
  | call {args us} (name : String) (arguments : Phrase (.arguments args) us) :
      Phrase (.expr .primary (.call name args))
        (.identifier name :: .symbol .leftParen :: (us ++ [.symbol .rightParen]))
  | parenthesized {e us} (inner : Phrase (.expr .expression e) us) :
      Phrase (.expr .primary e) (.symbol .leftParen :: (us ++ [.symbol .rightParen]))
  | ofPrimary {e us} (operand : Phrase (.expr .primary e) us) : Phrase (.expr .unary e) us
  | stepBehind {name us} (step : Increment) (target : Phrase (.expr .primary (.variable name)) us) :
      Phrase (.expr .unary (.increment name step false)) (us ++ [.symbol step.symbol])
  | stepInFront (name : String) (step : Increment) :
      Phrase (.expr .unary (.increment name step true)) [.symbol step.symbol, .identifier name]
  | unary {e us} (op : UnaryOp) (operand : Phrase (.expr .unary e) us) :
      Phrase (.expr .unary (.unary op e)) (.symbol op.symbol :: us)
  | ofUnary {e us} (level : Nat) (operand : Phrase (.expr .unary e) us) : Phrase (.expr (.binary level) e) us
  | binary {level l r us vs} (op : BinaryOp) (tight : level ≤ op.level)
      (left : Phrase (.expr (.binary op.level) l) us) (right : Phrase (.expr (.binary (op.level + 1)) r) vs) :
      Phrase (.expr (.binary level) (.binary op l r)) (us ++ .symbol op.symbol :: vs)
  | ofBinary {e us} (operand : Phrase (.expr (.binary 0) e) us) : Phrase (.expr .ternary e) us
  | ternary {c a b us vs ws} (condition : Phrase (.expr (.binary 0) c) us)
      (thenExpr : Phrase (.expr .expression a) vs) (elseExpr : Phrase (.expr .ternary b) ws) :
      Phrase (.expr .ternary (.ternary c a b)) (us ++ .symbol .question :: (vs ++ .symbol .colon :: ws))
  | ofTernary {e us} (operand : Phrase (.expr .ternary e) us) : Phrase (.expr .expression e) us
  | assign {name v us vs} (op : Option CompoundOp) (target : Phrase (.expr .ternary (.variable name)) us)
      (value : Phrase (.expr .expression v) vs) :
      Phrase (.expr .expression (.assign name op v)) (us ++ .symbol (CompoundOp.assignSymbol op) :: vs)
  | lastArgument {e us} (arg : Phrase (.expr .expression e) us) : Phrase (.arguments [e]) us
  | argument {e es us vs} (arg : Phrase (.expr .expression e) us) (others : Phrase (.arguments es) vs) :
      Phrase (.arguments (e :: es)) (us ++ .symbol .comma :: vs)

namespace Phrase

variable {e : Expr} {r : Rank} {us : List TokenKind} {level level' : Nat}

/-- Operators of a level are operators of every looser level. -/
theorem loosen (h : Phrase (.expr (.binary level) e) us) (hle : level' ≤ level) :
    Phrase (.expr (.binary level') e) us := by
  cases h with
  | ofUnary _ operand => exact .ofUnary _ operand
  | binary op tight left right => exact .binary op (Nat.le_trans hle tight) left right

/-- A phrase of any rank is an expression. -/
theorem toExpression (h : Phrase (.expr r e) us) : Phrase (.expr .expression e) us := by
  cases r with
  | expression => exact h
  | ternary => exact .ofTernary h
  | binary level => exact .ofTernary (.ofBinary (h.loosen (Nat.zero_le level)))
  | unary => exact .ofTernary (.ofBinary (.ofUnary 0 h))
  | primary => exact .ofTernary (.ofBinary (.ofUnary 0 (.ofPrimary h)))

end Phrase

/-! ## Statements -/

/-- The phrases for a declaration or an expression. Any of the type words may stand in front of a declared name. -/
inductive SimplePhrase : Simple → List TokenKind → Prop where
  | expression {e us} (phrase : Phrase (.expr .expression e) us) : SimplePhrase (.expression e) us
  | declaration {word : String} (name : String) (known : word ∈ declarationWords) :
      SimplePhrase (.declaration name none) [.identifier word, .identifier name]
  | initialized {word : String} {e us} (name : String) (known : word ∈ declarationWords)
      (value : Phrase (.expr .expression e) us) :
      SimplePhrase (.declaration name (some e)) (.identifier word :: .identifier name :: .symbol .assign :: us)

/-- The phrases for a part that may be missing. -/
inductive Optionally {α : Type} (phrases : α → List TokenKind → Prop) : Option α → List TokenKind → Prop where
  | absent : Optionally phrases none []
  | present {x us} (phrase : phrases x us) : Optionally phrases (some x) us

/-- What a sentence stands for: a statement, or statements in order. -/
inductive Passage where
  | statement (s : Stmt)
  | statements (ss : List Stmt)

/-- **The sentences for a passage**, as the kinds of their tokens. -/
inductive Sentence : Passage → List TokenKind → Prop where
  | simple {s us} (phrase : SimplePhrase s us) : Sentence (.statement (.simple s)) (us ++ [.symbol .semicolon])
  | block {body us} (inner : Sentence (.statements body) us) :
      Sentence (.statement (.block body)) (.symbol .leftBrace :: (us ++ [.symbol .rightBrace]))
  | ifThen {c s us vs} (condition : Phrase (.expr .expression c) us) (thenBranch : Sentence (.statement s) vs) :
      Sentence (.statement (.ifThen c s))
        (.keyword .ifWord :: .symbol .leftParen :: (us ++ .symbol .rightParen :: vs))
  | ifThenElse {c s s' us vs ws} (condition : Phrase (.expr .expression c) us)
      (thenBranch : Sentence (.statement s) vs) (closed : s.endsOpen = false) (elseBranch : Sentence (.statement s') ws) :
      Sentence (.statement (.ifThenElse c s s'))
        (.keyword .ifWord :: .symbol .leftParen ::
          (us ++ .symbol .rightParen :: (vs ++ .keyword .elseWord :: ws)))
  | whileLoop {c s us vs} (condition : Phrase (.expr .expression c) us) (body : Sentence (.statement s) vs) :
      Sentence (.statement (.whileLoop c s))
        (.keyword .whileWord :: .symbol .leftParen :: (us ++ .symbol .rightParen :: vs))
  | forLoop {init c step s us vs ws xs} (initializer : Optionally SimplePhrase init us)
      (condition : Optionally (fun e => Phrase (.expr .expression e)) c vs)
      (stepped : Optionally (fun e => Phrase (.expr .expression e)) step ws) (body : Sentence (.statement s) xs) :
      Sentence (.statement (.forLoop init c step s))
        (.keyword .forWord :: .symbol .leftParen :: (us ++ .symbol .semicolon ::
          (vs ++ .symbol .semicolon :: (ws ++ .symbol .rightParen :: xs))))
  | break : Sentence (.statement .break) [.keyword .breakWord, .symbol .semicolon]
  | continue : Sentence (.statement .continue) [.keyword .continueWord, .symbol .semicolon]
  | empty : Sentence (.statement .empty) [.symbol .semicolon]
  | nil : Sentence (.statements []) []
  | cons {s ss us vs} (first : Sentence (.statement s) us) (others : Sentence (.statements ss) vs) :
      Sentence (.statements (s :: ss)) (us ++ vs)

/-- **Sentences follow each other** without anything between. -/
theorem Sentence.append {ss ss' : List Stmt} {us vs : List TokenKind} (h : Sentence (.statements ss) us)
    (h' : Sentence (.statements ss') vs) : Sentence (.statements (ss ++ ss')) (us ++ vs) := by
  induction ss generalizing us with
  | nil =>
      cases h
      exact h'
  | cons s ss ih =>
      cases h with
      | cons first others =>
          rw [List.append_assoc]
          exact .cons first (ih others)

/-! ## How a phrase starts and goes on -/

/-- Whether an expression can start with a token. -/
def startsExpr : TokenKind → Bool
  | .integer _ | .float _ | .string _ | .identifier _ => true
  | .keyword w => w == .trueWord || w == .falseWord
  | .symbol s => s == .leftParen || (UnaryOp.ofSymbol? s).isSome || (Increment.ofSymbol? s).isSome
  | .eof => false

namespace Phrase

variable {f : Form} {us : List TokenKind}

/-- **A phrase starts** with a token that can start an expression. -/
theorem exists_cons (h : Phrase f us) : ∃ k ks, us = k :: ks ∧ startsExpr k = true := by
  induction h with
  | integer | float | string | trueWord | falseWord | name | emptyCall | call | parenthesized =>
      exact ⟨_, _, rfl, rfl⟩
  | ofPrimary _ ih | ofUnary _ _ ih | ofBinary _ ih | ofTernary _ ih | lastArgument _ ih => exact ih
  | stepInFront name step => exact ⟨_, _, rfl, by cases step <;> rfl⟩
  | unary op _ _ => exact ⟨_, _, rfl, by cases op <;> rfl⟩
  | stepBehind _ _ ih | binary _ _ _ _ ih _ | ternary _ _ _ ih _ _ | assign _ _ _ ih _ | argument _ _ ih _ =>
      obtain ⟨k, ks, rfl, hk⟩ := ih
      exact ⟨_, _, rfl, hk⟩

theorem length_pos (h : Phrase f us) : 0 < us.length := by
  obtain ⟨k, ks, rfl, -⟩ := h.exists_cons
  exact Nat.succ_pos _

/-- **A phrase is no declaration**: it does not start with two names. -/
theorem not_two_names (h : Phrase f us) {ks : List TokenKind} (hks : ∀ name ls, ks ≠ .identifier name :: ls)
    (word name : String) (ls : List TokenKind) : us ++ ks ≠ .identifier word :: .identifier name :: ls := by
  induction h generalizing ks ls with
  | integer | float | string | trueWord | falseWord | emptyCall | call | parenthesized | unary | stepInFront => simp
  | name => simpa using fun _ => hks name ls
  | ofPrimary _ ih | ofUnary _ _ ih | ofBinary _ ih | ofTernary _ ih | lastArgument _ ih => exact ih hks ls
  | stepBehind _ _ ih | binary _ _ _ _ ih _ | ternary _ _ _ ih _ _ | assign _ _ _ ih _ | argument _ _ ih _ =>
      rw [List.append_assoc]
      exact ih (by simp) ls

end Phrase

/-- Whether a statement can start with a token. -/
def startsStmt : TokenKind → Bool
  | .keyword w => w != .elseWord
  | .symbol s => s == .leftBrace || s == .semicolon || startsExpr (.symbol s)
  | .eof => false
  | _ => true

theorem startsStmt_of_startsExpr {k : TokenKind} (h : startsExpr k = true) : startsStmt k = true := by
  cases k with
  | keyword w =>
      cases w <;> first | rfl | cases h
  | symbol s => simp [startsStmt, h]
  | eof => cases h
  | _ => rfl

/-- **A declaration or an expression starts** with a token that can start an expression. -/
theorem SimplePhrase.exists_cons {s : Simple} {us : List TokenKind} (h : SimplePhrase s us) :
    ∃ k ks, us = k :: ks ∧ startsExpr k = true := by
  cases h with
  | expression phrase => exact phrase.exists_cons
  | declaration | initialized => exact ⟨_, _, rfl, rfl⟩

/-- **A statement starts** with a token that can start a statement. -/
theorem Sentence.exists_cons {s : Stmt} {us : List TokenKind} (h : Sentence (.statement s) us) :
    ∃ k ks, us = k :: ks ∧ startsStmt k = true := by
  cases h with
  | simple phrase =>
      obtain ⟨k, ks, rfl, hk⟩ := phrase.exists_cons
      exact ⟨_, _, rfl, startsStmt_of_startsExpr hk⟩
  | _ => exact ⟨_, _, rfl, rfl⟩

theorem Sentence.length_pos {s : Stmt} {us : List TokenKind} (h : Sentence (.statement s) us) : 0 < us.length := by
  obtain ⟨k, ks, rfl, -⟩ := h.exists_cons
  exact Nat.succ_pos _

/-! ## The end of a source -/

/-- The end of a source is no part of a phrase. -/
theorem Phrase.eof_not_mem {f : Form} {us : List TokenKind} (h : Phrase f us) : .eof ∉ us := by
  induction h <;> simp_all

theorem SimplePhrase.eof_not_mem {s : Simple} {us : List TokenKind} (h : SimplePhrase s us) : .eof ∉ us := by
  cases h with
  | expression phrase => exact phrase.eof_not_mem
  | declaration => simp
  | initialized x known value => simpa using value.eof_not_mem

theorem Optionally.eof_not_mem {α : Type} {phrases : α → List TokenKind → Prop} {x : Option α} {us : List TokenKind}
    (h : Optionally phrases x us) (hphrases : ∀ {y}, phrases y us → .eof ∉ us) : .eof ∉ us := by
  cases h with
  | absent => exact List.not_mem_nil
  | present phrase => exact hphrases phrase

/-- The end of a source is no part of a sentence. -/
theorem Sentence.eof_not_mem {p : Passage} {us : List TokenKind} (h : Sentence p us) : .eof ∉ us := by
  induction h with
  | simple phrase => simpa using phrase.eof_not_mem
  | forLoop initializer condition stepped _ ih =>
      have hinit := initializer.eof_not_mem SimplePhrase.eof_not_mem
      have hcondition := condition.eof_not_mem Phrase.eof_not_mem
      have hstep := stepped.eof_not_mem Phrase.eof_not_mem
      simp_all
  | ifThen condition | ifThenElse condition | whileLoop condition =>
      have hcondition := condition.eof_not_mem
      simp_all
  | _ => simp_all

/-! ## What makes a phrase longer -/

/-- How tight a phrase a token can make longer: the greater, the tighter. An opening parenthesis turns a name into a
    call, a step symbol belongs to the operand in front of it, an operator takes operands of its level, a question
    mark takes a condition and an assignment symbol a target. -/
def joins? : TokenKind → Option Nat
  | .symbol s =>
    if s = .leftParen then some 13
    else if (Increment.ofSymbol? s).isSome then some 12
    else match BinaryOp.ofSymbol? s with
      | some op => some (op.level + 2)
      | none => if s = .question then some 1 else if (CompoundOp.assignment? s).isSome then some 0 else none
  | _ => none

end Grammar

end Inlay
