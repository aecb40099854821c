import Inlay.Proofs.Fallible
import Inlay.Proofs.Grammar.Phrase

/-!
# `Proofs.Grammar.Soundness` — what is read is in the grammar

Every rule that succeeds has read a phrase for its result and left the tokens behind it (`Reads`). The rules call each
other, so the statement is proved for all of them together, by induction on the depth that they may spend: one lemma
for each rule takes the statement at the depth below it.

Rules that look ahead also say what they saw. Behind a phrase of operators there is no operator that it could have
taken, which is what makes the next operator's left operand one of the right level; and behind a statement that ends
in an `if` there is no `else`.
-/

namespace Inlay.Grammar

variable {α : Type} {n level : Nat} {ts rest : List Token} {e : Expr} {us : List TokenKind}

/-! ## Single tokens -/

theorem kinds_of_nextKind {k : TokenKind} (h : nextKind ts = k) (hk : k ≠ .eof) : kinds ts = k :: kinds ts.tail := by
  cases ts with
  | nil => exact absurd h.symm hk
  | cons t ts => exact congrArg (· :: kinds ts) h

theorem nextKind_of_isKeyword {w : Keyword} (h : (nextKind ts).isKeyword w = true) : nextKind ts = .keyword w := by
  unfold TokenKind.isKeyword at h
  split at h
  · next hkind => rw [hkind, of_decide_eq_true h]
  · cases h

theorem nextKind_of_nextSymbol? {s : Symbol} (h : nextSymbol? ts = some s) : nextKind ts = .symbol s := by
  unfold nextSymbol? at h
  split at h
  · next hkind => rw [hkind, Option.some.inj h]
  · cases h

theorem nextKind_of_nextIs {s : Symbol} (h : nextIs s ts = true) : nextKind ts = .symbol s := by
  unfold nextIs TokenKind.isSymbol at h
  split at h
  · next hkind => rw [hkind, of_decide_eq_true h]
  · cases h

/-- A symbol that comes next, found in a table. -/
theorem kinds_of_bind {β : Type} {table : Symbol → Option β} {x : β} (h : (nextSymbol? ts).bind table = some x) :
    ∃ s, table s = some x ∧ kinds ts = .symbol s :: kinds ts.tail := by
  obtain ⟨s, hs, htable⟩ := Option.bind_eq_some_iff.mp h
  exact ⟨s, htable, kinds_of_nextKind (nextKind_of_nextSymbol? hs) (by simp)⟩

theorem kinds_of_symbol {s : Symbol} {what : String} (h : symbol s what ts = .ok rest) :
    kinds ts = .symbol s :: kinds rest := by
  unfold symbol at h
  split at h
  · next hnext =>
    cases h
    exact kinds_of_nextKind (nextKind_of_nextIs hnext) (by simp)
  · cases h

theorem kinds_of_identifier {what name : String} (h : identifier what ts = .ok (name, rest)) :
    kinds ts = .identifier name :: kinds rest := by
  unfold identifier at h
  split at h
  · next hkind =>
    cases h
    exact kinds_of_nextKind hkind (by simp)
  · cases h

/-! ## The operator that comes next -/

theorem operatorFrom?_mono {level' : Nat} (hle : level' ≤ level) (h : operatorFrom? level' ts = none) :
    operatorFrom? level ts = none := by
  unfold operatorFrom? at h ⊢
  split
  · next op hop =>
    rw [hop] at h
    dsimp only at h
    split at h
    · cases h
    · next hlt => rw [if_neg (by omega)]
  · rfl

/-- Behind everything that binds tighter than all operators, no operator is tight enough. -/
theorem operatorFrom?_eleven (ts : List Token) : operatorFrom? 11 ts = none := by
  unfold operatorFrom?
  split
  · next op _ =>
    have := op.level_le_nine
    rw [if_neg (by omega)]
  · rfl

theorem operatorFrom?_eq_some {op : BinaryOp} (h : operatorFrom? level ts = some op) :
    level ≤ op.level ∧ kinds ts = .symbol op.symbol :: kinds ts.tail := by
  unfold operatorFrom? at h
  split at h
  · next op' hop =>
    split at h
    · next hle =>
      obtain ⟨s, hs, hkinds⟩ := kinds_of_bind hop
      obtain rfl := Option.some.inj h
      exact ⟨hle, BinaryOp.symbol_of_ofSymbol? hs ▸ hkinds⟩
    · cases h
  · cases h

/-- An operator that comes next but is not tight enough. -/
theorem level_lt_of_operatorFrom? {level' : Nat} {op : BinaryOp} (h : operatorFrom? level ts = some op)
    (hnone : operatorFrom? level' ts = none) : op.level < level' := by
  unfold operatorFrom? at h hnone
  split at h
  · next op' hop =>
    rw [hop] at hnone
    dsimp only at hnone
    split at h
    · obtain rfl := Option.some.inj h
      split at hnone
      · cases hnone
      · omega
    · cases h
  · cases h

/-! ## The rules for expressions -/

/-- **What the rules for expressions read** at a depth `n`. -/
structure Reads (n : Nat) : Prop where
  expression : ∀ {ts e rest}, expression n ts = .ok (e, rest) →
    ∃ us, kinds ts = us ++ kinds rest ∧ Phrase (.expr .expression e) us
  ternary : ∀ {ts e rest}, ternary n ts = .ok (e, rest) →
    ∃ us, kinds ts = us ++ kinds rest ∧ Phrase (.expr .ternary e) us
  binary : ∀ {level ts e rest}, binary n level ts = .ok (e, rest) → operatorFrom? level rest = none ∧
    ∃ us, kinds ts = us ++ kinds rest ∧ Phrase (.expr (.binary level) e) us
  /-- Behind a left operand of level `m`, no operator comes next that the operand could have taken. -/
  binaryRest : ∀ {level left ts e rest}, binaryRest n level left ts = .ok (e, rest) →
    ∀ {m ws}, level ≤ m → operatorFrom? (m + 1) ts = none → Phrase (.expr (.binary m) left) ws →
      operatorFrom? level rest = none ∧ ∃ us, kinds ts = us ++ kinds rest ∧ Phrase (.expr (.binary level) e) (ws ++ us)
  unary : ∀ {ts e rest}, unary n ts = .ok (e, rest) →
    ∃ us, kinds ts = us ++ kinds rest ∧ Phrase (.expr .unary e) us
  stepped : ∀ {ts e rest}, stepped n ts = .ok (e, rest) →
    ∃ us, kinds ts = us ++ kinds rest ∧ Phrase (.expr .unary e) us
  primary : ∀ {ts e rest}, primary n ts = .ok (e, rest) →
    ∃ us, kinds ts = us ++ kinds rest ∧ Phrase (.expr .primary e) us
  arguments : ∀ name {ts args rest}, arguments n ts = .ok (args, rest) → ∃ us, kinds ts = us ++ kinds rest ∧
    Phrase (.expr .primary (.call name args)) (.identifier name :: .symbol .leftParen :: us)
  someArguments : ∀ {ts args rest}, someArguments n ts = .ok (args, rest) →
    ∃ us, kinds ts = us ++ .symbol .rightParen :: kinds rest ∧ Phrase (.arguments args) us

namespace Reads

theorem expression_succ (ih : Reads n) (h : Grammar.expression (n + 1) ts = .ok (e, rest)) :
    ∃ us, kinds ts = us ++ kinds rest ∧ Phrase (.expr .expression e) us := by
  obtain ⟨⟨target, ts₁⟩, htarget, h⟩ := bind_eq_ok.mp h
  obtain ⟨us, hus, hphrase⟩ := ih.ternary htarget
  dsimp only at h
  split at h
  · cases h
    exact ⟨us, hus, .ofTernary hphrase⟩
  · next op hop =>
    obtain ⟨s, hs, hnext⟩ := kinds_of_bind hop
    split at h
    · obtain ⟨⟨value, ts₂⟩, hvalue, h⟩ := bind_eq_ok.mp h
      cases h
      obtain ⟨vs, hvs, hvalue⟩ := ih.expression hvalue
      refine ⟨_, ?_, .assign op hphrase hvalue⟩
      rw [hus, hnext, hvs, CompoundOp.assignSymbol_of_assignment? hs]
      simp
    · cases h

theorem ternary_succ (ih : Reads n) (h : Grammar.ternary (n + 1) ts = .ok (e, rest)) :
    ∃ us, kinds ts = us ++ kinds rest ∧ Phrase (.expr .ternary e) us := by
  obtain ⟨⟨condition, ts₁⟩, hcondition, h⟩ := bind_eq_ok.mp h
  obtain ⟨-, us, hus, hphrase⟩ := ih.binary hcondition
  dsimp only at h
  split at h
  · next hnext =>
    obtain ⟨⟨thenExpr, ts₂⟩, hthen, h⟩ := bind_eq_ok.mp h
    obtain ⟨ts₃, hcolon, h⟩ := bind_eq_ok.mp h
    obtain ⟨⟨elseExpr, ts₄⟩, helse, h⟩ := bind_eq_ok.mp h
    cases h
    obtain ⟨vs, hvs, hthen⟩ := ih.expression hthen
    obtain ⟨ws, hws, helse⟩ := ih.ternary helse
    refine ⟨_, ?_, .ternary hphrase hthen helse⟩
    rw [hus, kinds_of_nextKind (nextKind_of_nextIs hnext) (by simp), hvs, kinds_of_symbol hcolon, hws]
    simp
  · cases h
    exact ⟨us, hus, .ofBinary hphrase⟩

theorem binary_succ (ih : Reads n) (h : Grammar.binary (n + 1) level ts = .ok (e, rest)) :
    operatorFrom? level rest = none ∧ ∃ us, kinds ts = us ++ kinds rest ∧ Phrase (.expr (.binary level) e) us := by
  obtain ⟨⟨left, ts₁⟩, hleft, h⟩ := bind_eq_ok.mp h
  obtain ⟨us, hus, hphrase⟩ := ih.unary hleft
  -- an operand without operators is one of every level
  obtain ⟨hnone, vs, hvs, hall⟩ := ih.binaryRest h (m := level + 10) (Nat.le_add_right _ _)
    (operatorFrom?_mono (by omega) (operatorFrom?_eleven ts₁)) (.ofUnary _ hphrase)
  exact ⟨hnone, us ++ vs, by rw [hus, hvs, List.append_assoc], hall⟩

theorem binaryRest_succ {left : Expr} (ih : Reads n) (h : Grammar.binaryRest (n + 1) level left ts = .ok (e, rest))
    {m : Nat} {ws : List TokenKind} (hle : level ≤ m) (hnone : operatorFrom? (m + 1) ts = none)
    (hleft : Phrase (.expr (.binary m) left) ws) : operatorFrom? level rest = none ∧
      ∃ us, kinds ts = us ++ kinds rest ∧ Phrase (.expr (.binary level) e) (ws ++ us) := by
  unfold Grammar.binaryRest at h
  split at h
  · next hdone =>
    cases h
    exact ⟨hdone, [], rfl, by rw [List.append_nil]; exact hleft.loosen hle⟩
  · next op hop =>
    obtain ⟨⟨right, ts₁⟩, hright, h⟩ := bind_eq_ok.mp h
    obtain ⟨hlevel, hnext⟩ := operatorFrom?_eq_some hop
    obtain ⟨hafter, us, hus, hright⟩ := ih.binary hright
    -- the operator is no tighter than the operand on its left, or the operand would have taken it
    have hop_le : op.level ≤ m := Nat.le_of_lt_succ (level_lt_of_operatorFrom? hop hnone)
    have hjoined := Phrase.binary op (Nat.le_refl _) (hleft.loosen hop_le) hright
    obtain ⟨hnone', vs, hvs, hall⟩ := ih.binaryRest h hlevel hafter hjoined
    refine ⟨hnone', .symbol op.symbol :: us ++ vs, by rw [hnext, hus, hvs]; simp, ?_⟩
    simpa using hall

theorem unary_succ (ih : Reads n) (h : Grammar.unary (n + 1) ts = .ok (e, rest)) :
    ∃ us, kinds ts = us ++ kinds rest ∧ Phrase (.expr .unary e) us := by
  unfold Grammar.unary at h
  split at h
  · next op hop =>
    obtain ⟨s, hs, hnext⟩ := kinds_of_bind hop
    obtain ⟨⟨operand, ts₁⟩, hoperand, h⟩ := bind_eq_ok.mp h
    cases h
    obtain ⟨us, hus, hphrase⟩ := ih.unary hoperand
    exact ⟨_, by rw [hnext, hus, ← UnaryOp.symbol_of_ofSymbol? hs]; rfl, .unary op hphrase⟩
  · split at h
    · next step hstep =>
      obtain ⟨s, hs, hnext⟩ := kinds_of_bind hstep
      obtain ⟨⟨name, ts₁⟩, hname, h⟩ := bind_eq_ok.mp h
      cases h
      refine ⟨_, ?_, .stepInFront name step⟩
      rw [hnext, kinds_of_identifier hname, ← Increment.symbol_of_ofSymbol? hs]
      rfl
    · exact ih.stepped h

theorem stepped_succ (ih : Reads n) (h : Grammar.stepped (n + 1) ts = .ok (e, rest)) :
    ∃ us, kinds ts = us ++ kinds rest ∧ Phrase (.expr .unary e) us := by
  obtain ⟨⟨target, ts₁⟩, htarget, h⟩ := bind_eq_ok.mp h
  obtain ⟨us, hus, hphrase⟩ := ih.primary htarget
  dsimp only at h
  split at h
  · cases h
    exact ⟨us, hus, .ofPrimary hphrase⟩
  · next step hstep =>
    obtain ⟨s, hs, hnext⟩ := kinds_of_bind hstep
    split at h
    · cases h
      refine ⟨_, ?_, .stepBehind step hphrase⟩
      rw [hus, hnext, ← Increment.symbol_of_ofSymbol? hs]
      simp
    · cases h

theorem primary_succ (ih : Reads n) (h : Grammar.primary (n + 1) ts = .ok (e, rest)) :
    ∃ us, kinds ts = us ++ kinds rest ∧ Phrase (.expr .primary e) us := by
  unfold Grammar.primary at h
  split at h
  case h_1 v hkind => cases h; exact ⟨_, kinds_of_nextKind hkind (by simp), .integer v⟩
  case h_2 v hkind => cases h; exact ⟨_, kinds_of_nextKind hkind (by simp), .float v⟩
  case h_3 v hkind => cases h; exact ⟨_, kinds_of_nextKind hkind (by simp), .string v⟩
  case h_4 hkind => cases h; exact ⟨_, kinds_of_nextKind hkind (by simp), .trueWord⟩
  case h_5 hkind => cases h; exact ⟨_, kinds_of_nextKind hkind (by simp), .falseWord⟩
  -- a name is a call if a parenthesis stands behind it
  case h_6 name hkind =>
    have hfirst := kinds_of_nextKind hkind (by simp)
    split at h
    · next hparen =>
      have hsecond := kinds_of_nextKind (nextKind_of_nextIs hparen) (by simp)
      obtain ⟨⟨args, ts₁⟩, hargs, h⟩ := bind_eq_ok.mp h
      cases h
      obtain ⟨us, hus, hphrase⟩ := ih.arguments name hargs
      exact ⟨_, by rw [hfirst, hsecond, hus]; rfl, hphrase⟩
    · cases h
      exact ⟨_, hfirst, .name name⟩
  case h_7 hkind =>
    obtain ⟨⟨inner, ts₁⟩, hinner, h⟩ := bind_eq_ok.mp h
    obtain ⟨ts₂, hclose, h⟩ := bind_eq_ok.mp h
    cases h
    obtain ⟨us, hus, hphrase⟩ := ih.expression hinner
    refine ⟨_, ?_, .parenthesized hphrase⟩
    rw [kinds_of_nextKind hkind (by simp), hus, kinds_of_symbol hclose]
    simp
  case h_8 => cases h

theorem arguments_succ {args : List Expr} (ih : Reads n) (name : String)
    (h : Grammar.arguments (n + 1) ts = .ok (args, rest)) : ∃ us, kinds ts = us ++ kinds rest ∧
      Phrase (.expr .primary (.call name args)) (.identifier name :: .symbol .leftParen :: us) := by
  unfold Grammar.arguments at h
  split at h
  · next hclose =>
    cases h
    exact ⟨_, kinds_of_nextKind (nextKind_of_nextIs hclose) (by simp), .emptyCall name⟩
  · obtain ⟨us, hus, hphrase⟩ := ih.someArguments h
    exact ⟨us ++ [.symbol .rightParen], by rw [hus]; simp, .call name hphrase⟩

theorem someArguments_succ {args : List Expr} (ih : Reads n)
    (h : Grammar.someArguments (n + 1) ts = .ok (args, rest)) :
    ∃ us, kinds ts = us ++ .symbol .rightParen :: kinds rest ∧ Phrase (.arguments args) us := by
  obtain ⟨⟨arg, ts₁⟩, harg, h⟩ := bind_eq_ok.mp h
  obtain ⟨us, hus, hphrase⟩ := ih.expression harg
  dsimp only at h
  split at h
  · next hcomma =>
    obtain ⟨⟨others, ts₂⟩, hothers, h⟩ := bind_eq_ok.mp h
    cases h
    obtain ⟨vs, hvs, hothers⟩ := ih.someArguments hothers
    refine ⟨_, ?_, .argument hphrase hothers⟩
    rw [hus, kinds_of_nextKind (nextKind_of_nextIs hcomma) (by simp), hvs]
    simp
  · obtain ⟨ts₂, hclose, h⟩ := bind_eq_ok.mp h
    cases h
    exact ⟨us, by rw [hus, kinds_of_symbol hclose], .lastArgument hphrase⟩

end Reads

/-- **What the rules for expressions read** is a phrase, at every depth. -/
theorem reads (n : Nat) : Reads n := by
  induction n with
  | zero =>
      constructor <;> intros <;> contradiction
  | succ n ih =>
      exact {
        expression := ih.expression_succ
        ternary := ih.ternary_succ
        binary := ih.binary_succ
        binaryRest := ih.binaryRest_succ
        unary := ih.unary_succ
        stepped := ih.stepped_succ
        primary := ih.primary_succ
        arguments := fun name => ih.arguments_succ name
        someArguments := ih.someArguments_succ }

/-! ## The rules for statements -/

theorem declared?_eq_some {name : String} (h : declared? ts = some (name, rest)) :
    ∃ word ∈ declarationWords, kinds ts = .identifier word :: .identifier name :: kinds rest := by
  unfold declared? at h
  split at h
  · next word name' hword hname =>
    split at h
    · next hknown =>
      cases h
      refine ⟨word, List.contains_iff_mem.mp hknown, ?_⟩
      rw [kinds_of_nextKind hword (by simp), kinds_of_nextKind hname (by simp)]
    · cases h
  · cases h

theorem simple_sound {s : Simple} (h : simple n ts = .ok (s, rest)) :
    ∃ us, kinds ts = us ++ kinds rest ∧ SimplePhrase s us := by
  unfold simple at h
  split at h
  · next name ts₁ hdeclared =>
    obtain ⟨word, hknown, hfirst⟩ := declared?_eq_some hdeclared
    split at h
    · next hassign =>
      obtain ⟨⟨value, ts₂⟩, hvalue, h⟩ := bind_eq_ok.mp h
      cases h
      obtain ⟨us, hus, hphrase⟩ := (reads n).expression hvalue
      refine ⟨_, ?_, .initialized name hknown hphrase⟩
      rw [hfirst, kinds_of_nextKind (nextKind_of_nextIs hassign) (by simp), hus]
      simp
    · cases h
      exact ⟨_, hfirst, .declaration name hknown⟩
  · obtain ⟨⟨e, ts₁⟩, he, h⟩ := bind_eq_ok.mp h
    cases h
    obtain ⟨us, hus, hphrase⟩ := (reads n).expression he
    exact ⟨us, hus, .expression hphrase⟩

theorem optionalBefore_sound {phrases : α → List TokenKind → Prop} {part : List Token → Reading (α × List Token)}
    {s : Symbol} {x : Option α}
    (hpart : ∀ {ts x rest}, part ts = .ok (x, rest) → ∃ us, kinds ts = us ++ kinds rest ∧ phrases x us)
    (h : optionalBefore s part ts = .ok (x, rest)) :
    ∃ us, kinds ts = us ++ kinds rest ∧ Optionally phrases x us := by
  unfold optionalBefore at h
  split at h
  · cases h
    exact ⟨[], rfl, .absent⟩
  · obtain ⟨⟨y, ts₁⟩, hy, h⟩ := bind_eq_ok.mp h
    cases h
    obtain ⟨us, hus, hphrase⟩ := hpart hy
    exact ⟨us, hus, .present hphrase⟩

/-- **Tokens that were read as a statement**, up to `rest`: they are a sentence for it, and it left no `else` that it
    could have taken. -/
def ReadAs (ts : List Token) (s : Stmt) (rest : List Token) : Prop :=
  (s.endsOpen = true → (nextKind rest).isKeyword .elseWord = false) ∧
    ∃ us, kinds ts = us ++ kinds rest ∧ Sentence (.statement s) us

/-- **What the rules for statements read** at a depth `n`. -/
structure ReadsSentences (n : Nat) : Prop where
  statement : ∀ {ts s rest}, statement n ts = .ok (s, rest) → ReadAs ts s rest
  blockBody : ∀ {ts body rest}, blockBody n ts = .ok (body, rest) →
    ∃ us, kinds ts = us ++ .symbol .rightBrace :: kinds rest ∧ Sentence (.statements body) us

namespace ReadsSentences

variable {s : Stmt}

theorem block_succ (ih : ReadsSentences n) (hkind : nextKind ts = .symbol .leftBrace)
    (h : Grammar.statement (n + 1) ts = .ok (s, rest)) : ReadAs ts s rest := by
  rw [Grammar.statement, hkind] at h
  obtain ⟨⟨body, ts₁⟩, hbody, h⟩ := bind_eq_ok.mp h
  cases h
  obtain ⟨us, hus, hsentence⟩ := ih.blockBody hbody
  refine ⟨nofun, _, ?_, .block hsentence⟩
  rw [kinds_of_nextKind hkind (by simp), hus]
  simp

/-- Whether there is an `else` is decided behind the branch, so the branch says what it left there. -/
theorem if_succ (ih : ReadsSentences n) (hkind : nextKind ts = .keyword .ifWord)
    (h : Grammar.statement (n + 1) ts = .ok (s, rest)) : ReadAs ts s rest := by
  rw [Grammar.statement, hkind] at h
  obtain ⟨ts₁, hopen, h⟩ := bind_eq_ok.mp h
  obtain ⟨⟨condition, ts₂⟩, hcondition, h⟩ := bind_eq_ok.mp h
  obtain ⟨ts₃, hclose, h⟩ := bind_eq_ok.mp h
  obtain ⟨⟨thenBranch, ts₄⟩, hthen, h⟩ := bind_eq_ok.mp h
  obtain ⟨us, hus, hc⟩ := (reads n).expression hcondition
  obtain ⟨hopenThen, vs, hvs, hs⟩ := ih.statement hthen
  have hfirst := kinds_of_nextKind hkind (by simp)
  rw [kinds_of_symbol hopen, hus, kinds_of_symbol hclose, hvs] at hfirst
  dsimp only at h
  split at h
  · next helse =>
    obtain ⟨⟨elseBranch, ts₅⟩, hbranch, h⟩ := bind_eq_ok.mp h
    cases h
    obtain ⟨hopenElse, ws, hws, hs'⟩ := ih.statement hbranch
    -- an open branch would have taken the `else` for itself
    have hclosed : thenBranch.endsOpen = false := by
      refine Bool.eq_false_iff.mpr fun hopen => ?_
      rw [hopenThen hopen] at helse
      cases helse
    refine ⟨hopenElse, _, ?_, .ifThenElse hc hs hclosed hs'⟩
    rw [hfirst, kinds_of_nextKind (nextKind_of_isKeyword helse) (by simp), hws]
    simp
  · next helse =>
    cases h
    refine ⟨fun _ => Bool.eq_false_iff.mpr helse, _, ?_, .ifThen hc hs⟩
    rw [hfirst]
    simp

theorem while_succ (ih : ReadsSentences n) (hkind : nextKind ts = .keyword .whileWord)
    (h : Grammar.statement (n + 1) ts = .ok (s, rest)) : ReadAs ts s rest := by
  rw [Grammar.statement, hkind] at h
  obtain ⟨ts₁, hopen, h⟩ := bind_eq_ok.mp h
  obtain ⟨⟨condition, ts₂⟩, hcondition, h⟩ := bind_eq_ok.mp h
  obtain ⟨ts₃, hclose, h⟩ := bind_eq_ok.mp h
  obtain ⟨⟨body, ts₄⟩, hbody, h⟩ := bind_eq_ok.mp h
  cases h
  obtain ⟨us, hus, hc⟩ := (reads n).expression hcondition
  obtain ⟨hopenBody, vs, hvs, hs⟩ := ih.statement hbody
  refine ⟨hopenBody, _, ?_, .whileLoop hc hs⟩
  rw [kinds_of_nextKind hkind (by simp), kinds_of_symbol hopen, hus, kinds_of_symbol hclose, hvs]
  simp

/-- Each of the three parts of a `for` may be missing. -/
theorem for_succ (ih : ReadsSentences n) (hkind : nextKind ts = .keyword .forWord)
    (h : Grammar.statement (n + 1) ts = .ok (s, rest)) : ReadAs ts s rest := by
  rw [Grammar.statement, hkind] at h
  obtain ⟨ts₁, hopen, h⟩ := bind_eq_ok.mp h
  obtain ⟨⟨init, ts₂⟩, hinit, h⟩ := bind_eq_ok.mp h
  obtain ⟨ts₃, hsemicolon, h⟩ := bind_eq_ok.mp h
  obtain ⟨⟨condition, ts₄⟩, hcondition, h⟩ := bind_eq_ok.mp h
  obtain ⟨ts₅, hsemicolon', h⟩ := bind_eq_ok.mp h
  obtain ⟨⟨step, ts₆⟩, hstep, h⟩ := bind_eq_ok.mp h
  obtain ⟨ts₇, hclose, h⟩ := bind_eq_ok.mp h
  obtain ⟨⟨body, ts₈⟩, hbody, h⟩ := bind_eq_ok.mp h
  cases h
  obtain ⟨us, hus, hi⟩ := optionalBefore_sound simple_sound hinit
  obtain ⟨vs, hvs, hc⟩ := optionalBefore_sound (reads n).expression hcondition
  obtain ⟨ws, hws, ht⟩ := optionalBefore_sound (reads n).expression hstep
  obtain ⟨hopenBody, xs, hxs, hs⟩ := ih.statement hbody
  refine ⟨hopenBody, _, ?_, .forLoop hi hc ht hs⟩
  rw [kinds_of_nextKind hkind (by simp), kinds_of_symbol hopen, hus, kinds_of_symbol hsemicolon, hvs,
    kinds_of_symbol hsemicolon', hws, kinds_of_symbol hclose, hxs]
  simp

/-- A jump is a word in front of a semicolon. -/
theorem jump_succ {w : Keyword} {s' : Stmt} (hkind : nextKind ts = .keyword w)
    (hsentence : Sentence (.statement s') [.keyword w, .symbol .semicolon]) (hclosed : s'.endsOpen = false)
    {what : String} (h : (do let ts ← symbol .semicolon what ts.tail; .ok (s', ts)) = Except.ok (s, rest)) :
    ReadAs ts s rest := by
  obtain ⟨ts₁, hsemicolon, h⟩ := bind_eq_ok.mp h
  cases h
  refine ⟨fun hopen => absurd (hclosed.symm.trans hopen) (by decide), _, ?_, hsentence⟩
  rw [kinds_of_nextKind hkind (by simp), kinds_of_symbol hsemicolon]
  rfl

theorem statement_succ (ih : ReadsSentences n) (h : Grammar.statement (n + 1) ts = .ok (s, rest)) :
    ReadAs ts s rest := by
  have hread := h
  unfold Grammar.statement at h
  split at h
  case h_1 hkind => exact ih.block_succ hkind hread
  case h_2 hkind => exact ih.if_succ hkind hread
  case h_3 hkind => exact ih.while_succ hkind hread
  case h_4 hkind => exact ih.for_succ hkind hread
  case h_5 hkind => exact jump_succ hkind .break rfl h
  case h_6 hkind => exact jump_succ hkind .continue rfl h
  -- a semicolon alone
  case h_7 hkind =>
    cases h
    exact ⟨nofun, _, kinds_of_nextKind hkind (by simp), .empty⟩
  -- anything else is a declaration or an expression
  case h_8 =>
    obtain ⟨⟨s, ts₁⟩, hs, h⟩ := bind_eq_ok.mp h
    obtain ⟨ts₂, hsemicolon, h⟩ := bind_eq_ok.mp h
    cases h
    obtain ⟨us, hus, hphrase⟩ := simple_sound hs
    refine ⟨nofun, _, ?_, .simple hphrase⟩
    rw [hus, kinds_of_symbol hsemicolon]
    simp

theorem blockBody_succ {body : List Stmt} (ih : ReadsSentences n)
    (h : Grammar.blockBody (n + 1) ts = .ok (body, rest)) :
    ∃ us, kinds ts = us ++ .symbol .rightBrace :: kinds rest ∧ Sentence (.statements body) us := by
  unfold Grammar.blockBody at h
  split at h
  case h_1 hkind =>
    cases h
    exact ⟨[], kinds_of_nextKind hkind (by simp), .nil⟩
  case h_2 => cases h
  case h_3 =>
    obtain ⟨⟨first, ts₁⟩, hfirst, h⟩ := bind_eq_ok.mp h
    obtain ⟨⟨others, ts₂⟩, hothers, h⟩ := bind_eq_ok.mp h
    cases h
    obtain ⟨-, us, hus, hs⟩ := ih.statement hfirst
    obtain ⟨vs, hvs, hss⟩ := ih.blockBody hothers
    exact ⟨us ++ vs, by rw [hus, hvs, List.append_assoc], .cons hs hss⟩

end ReadsSentences

/-- **What the rules for statements read** is a sentence, at every depth. -/
theorem readsSentences (n : Nat) : ReadsSentences n := by
  induction n with
  | zero =>
      constructor <;> intros <;> contradiction
  | succ n ih => exact { statement := ih.statement_succ, blockBody := ih.blockBody_succ }

/-- **A program that can be read** is a sentence up to the end of the source. -/
theorem statements_sound {p : Program} (h : statements n ts = .ok (p, rest)) : nextKind rest = .eof ∧
    ∃ us, kinds ts = us ++ kinds rest ∧ Sentence (.statements p) us := by
  induction n generalizing ts p with
  | zero => cases h
  | succ n ih =>
      unfold statements at h
      split at h
      · next hend =>
        cases h
        refine ⟨?_, [], rfl, .nil⟩
        unfold TokenKind.isEof at hend
        split at hend
        · assumption
        · cases hend
      · obtain ⟨⟨first, ts₁⟩, hfirst, h⟩ := bind_eq_ok.mp h
        obtain ⟨⟨others, ts₂⟩, hothers, h⟩ := bind_eq_ok.mp h
        cases h
        obtain ⟨-, us, hus, hs⟩ := (readsSentences n).statement hfirst
        obtain ⟨hend, vs, hvs, hss⟩ := ih hothers
        exact ⟨hend, us ++ vs, by rw [hus, hvs, List.append_assoc], .cons hs hss⟩

end Inlay.Grammar
