import Inlay.Proofs.Grammar.Soundness

/-!
# `Proofs.Grammar.Completeness` — what is in the grammar is read

A rule that stands in front of a phrase for its form reads that phrase and nothing more (`Readable`), if the token
behind the phrase would not make it longer (`Ends`) and the depth is enough for its length. There is one lemma for
each way of forming a phrase. What a rule has to decide by the next token, it decides by how the phrase in front of it
starts; what it has to leave alone, it leaves because of `Ends`.

An operand of a level is read in the middle of a run of operators. So what is said about it is not that its rule is
done, but that the rule has come to the operand's end with the operand in hand.
-/

namespace Inlay.Grammar

variable {α β : Type} {n level r r' : Nat} {ts : List Token} {e : Expr} {k : TokenKind} {us vs ws : List TokenKind}

/-! ## The next token -/

theorem nextKind_of_kinds (h : kinds ts = k :: us) : nextKind ts = k := by
  cases ts with
  | nil => cases h
  | cons t ts => exact (List.cons.inj h).1

theorem kinds_tail (h : kinds ts = k :: us) : kinds ts.tail = us := by
  cases ts with
  | nil => cases h
  | cons t ts => exact (List.cons.inj h).2

theorem nextKind_eq_headD (ts : List Token) : nextKind ts = (kinds ts).headD .eof := by
  cases ts <;> rfl

theorem nextSymbol?_of_kinds {s : Symbol} (h : kinds ts = .symbol s :: us) : nextSymbol? ts = some s := by
  unfold nextSymbol?
  rw [nextKind_of_kinds h]

theorem nextIs_of_kinds {s : Symbol} (h : kinds ts = .symbol s :: us) : nextIs s ts = true := by
  unfold nextIs
  rw [nextKind_of_kinds h]
  exact decide_eq_true rfl

theorem not_nextIs_of_kinds {s : Symbol} (h : kinds ts = k :: us) (hk : k.isSymbol s = false) : ¬nextIs s ts = true := by
  unfold nextIs
  rw [nextKind_of_kinds h, hk]
  exact Bool.false_ne_true

/-! ## What a rule gives -/

/-- **A rule gives `x`** and leaves the tokens of the kinds `us`. -/
def Gives (reading : Reading (α × List Token)) (x : α) (us : List TokenKind) : Prop :=
  ∃ rest, kinds rest = us ∧ reading = .ok (x, rest)

theorem Gives.ok {x : α} (h : kinds ts = us) : Gives (.ok (x, ts)) x us :=
  ⟨ts, h, rfl⟩

theorem Gives.bind {reading : Reading (α × List Token)} {f : α × List Token → Reading (β × List Token)} {x : α} {y : β}
    (h : Gives reading x us) (hf : ∀ rest, kinds rest = us → Gives (f (x, rest)) y vs) :
    Gives (reading >>= f) y vs := by
  obtain ⟨rest, hrest, hreading⟩ := h
  rw [hreading]
  exact hf rest hrest

/-- A symbol that comes next is read. -/
theorem Gives.symbol {s : Symbol} {what : String} {f : List Token → Reading (β × List Token)} {y : β}
    (h : kinds ts = .symbol s :: us) (hf : ∀ rest, kinds rest = us → Gives (f rest) y vs) :
    Gives (Grammar.symbol s what ts >>= f) y vs := by
  unfold Grammar.symbol
  rw [if_pos (nextIs_of_kinds h)]
  exact hf _ (kinds_tail h)

/-- A name that comes next is read. -/
theorem Gives.identifier {what name : String} {f : String × List Token → Reading (β × List Token)} {y : β}
    (h : kinds ts = .identifier name :: us) (hf : ∀ rest, kinds rest = us → Gives (f (name, rest)) y vs) :
    Gives (Grammar.identifier what ts >>= f) y vs := by
  unfold Grammar.identifier
  rw [nextKind_of_kinds h]
  exact hf _ (kinds_tail h)

/-! ## Where a phrase ends -/

/-- **No phrase goes on** into `us` if it is of rank `r` or tighter. -/
def Ends (r : Nat) (us : List TokenKind) : Prop :=
  ∀ j, joins? (us.headD .eof) = some j → j < r

theorem Ends.mono (h : Ends r us) (hle : r ≤ r') : Ends r' us :=
  fun j hj => Nat.lt_of_lt_of_le (h j hj) hle

theorem ends_of_joins?_eq_none (h : joins? k = none) : Ends r (k :: us) :=
  fun _ hj => absurd (h ▸ hj) nofun

theorem ends_of_joins?_lt {j : Nat} (h : joins? k = some j) (hlt : j < r) : Ends r (k :: us) := by
  intro i hi
  obtain rfl : j = i := Option.some.inj (h ▸ hi)
  exact hlt

theorem joins?_operator (op : BinaryOp) : joins? (.symbol op.symbol) = some (op.level + 2) := by
  cases op <;> rfl

theorem joins?_step (step : Increment) : joins? (.symbol step.symbol) = some 12 := by
  cases step <;> rfl

theorem joins?_assign (op : Option CompoundOp) : joins? (.symbol (CompoundOp.assignSymbol op)) = some 0 := by
  rcases op with _ | op
  · rfl
  · cases op <;> rfl

/-- A symbol that phrases of rank `r` end in front of joins looser phrases only. -/
theorem Ends.lt {s : Symbol} {j : Nat} (h : Ends r (kinds ts)) (hs : nextSymbol? ts = some s)
    (hj : joins? (.symbol s) = some j) : j < r := by
  unfold Ends at h
  rw [← nextKind_eq_headD] at h
  unfold nextSymbol? at hs
  split at hs
  · next hkind =>
    obtain rfl := Option.some.inj hs
    exact h j (hkind ▸ hj)
  · cases hs

theorem Ends.operatorFrom? (h : Ends (level + 2) (kinds ts)) : Grammar.operatorFrom? level ts = none := by
  unfold Grammar.operatorFrom?
  split
  · next op hop =>
    obtain ⟨s, hs, htable⟩ := Option.bind_eq_some_iff.mp hop
    obtain rfl := BinaryOp.symbol_of_ofSymbol? htable
    have hlt := h.lt hs (joins?_operator op)
    rw [if_neg (by omega)]
  · rfl

theorem Ends.increment? (h : Ends 12 (kinds ts)) : (nextSymbol? ts).bind Increment.ofSymbol? = none := by
  refine Option.eq_none_iff_forall_ne_some.mpr fun step hstep => ?_
  obtain ⟨s, hs, htable⟩ := Option.bind_eq_some_iff.mp hstep
  obtain rfl := Increment.symbol_of_ofSymbol? htable
  exact absurd (h.lt hs (joins?_step step)) (Nat.lt_irrefl 12)

theorem Ends.assignment? (h : Ends 0 (kinds ts)) : (nextSymbol? ts).bind CompoundOp.assignment? = none := by
  refine Option.eq_none_iff_forall_ne_some.mpr fun op hop => ?_
  obtain ⟨s, hs, htable⟩ := Option.bind_eq_some_iff.mp hop
  obtain rfl := CompoundOp.assignSymbol_of_assignment? htable
  exact absurd (h.lt hs (joins?_assign op)) (Nat.lt_irrefl 0)

theorem Ends.nextIs {s : Symbol} {j : Nat} (h : Ends r (kinds ts)) (hj : joins? (.symbol s) = some j) (hle : r ≤ j) :
    Grammar.nextIs s ts = false := by
  refine Bool.eq_false_iff.mpr fun hnext => ?_
  have hs : nextSymbol? ts = some s := by
    unfold nextSymbol?
    rw [nextKind_of_nextIs hnext]
  exact Nat.not_lt.mpr hle (h.lt hs hj)

/-! ## How a phrase starts -/

theorem not_isSymbol_of_startsExpr {s : Symbol} (hk : startsExpr k = true) (hs : startsExpr (.symbol s) = false) :
    k.isSymbol s = false := by
  refine Bool.eq_false_iff.mpr fun h => ?_
  unfold TokenKind.isSymbol at h
  split at h
  · rw [of_decide_eq_true h, hs] at hk
    cases hk
  · cases h

/-- A phrase does not start with a symbol that no expression starts with. -/
theorem Phrase.nextIs_eq_false {f : Form} {s : Symbol} (h : Phrase f us) (hts : kinds ts = us ++ vs)
    (hs : startsExpr (.symbol s) = false) : ¬nextIs s ts = true := by
  obtain ⟨k, ks, rfl, hk⟩ := h.exists_cons
  exact not_nextIs_of_kinds hts (not_isSymbol_of_startsExpr hk hs)

/-- What stands for itself starts with no operator and no step. -/
theorem Phrase.unary_eq_stepped (h : Phrase (.expr .primary e) us) (hts : kinds ts = us ++ vs) :
    Grammar.unary (n + 1) ts = stepped n ts := by
  have hno : (nextSymbol? ts).bind UnaryOp.ofSymbol? = none ∧ (nextSymbol? ts).bind Increment.ofSymbol? = none := by
    unfold nextSymbol?
    cases h <;> rw [nextKind_of_kinds hts] <;> exact ⟨rfl, rfl⟩
  unfold Grammar.unary
  simp only [hno]

/-! ## Expressions -/

/-- **A phrase for a form can be read**: the rule for the form, in front of the phrase and with enough depth, gives
    what the form stands for and leaves what is behind. The rule for operators has only come to the end of the
    operand. -/
def Readable : Form → List TokenKind → Prop
  | .expr .expression e, us => ∀ n ts vs, 10 * us.length + 6 ≤ n → kinds ts = us ++ vs → Ends 0 vs →
      Gives (expression n ts) e vs
  | .expr .ternary e, us => ∀ n ts vs, 10 * us.length + 5 ≤ n → kinds ts = us ++ vs → Ends 1 vs →
      Gives (ternary n ts) e vs
  | .expr (.binary level) e, us => ∀ n ts vs k, 10 * us.length + 4 ≤ n → kinds ts = us ++ vs → k ≤ level →
      Ends 12 vs → Ends (level + 3) vs →
      ∃ m rest, n ≤ m + us.length ∧ kinds rest = vs ∧ binary n k ts = binaryRest m k e rest
  | .expr .unary e, us => ∀ n ts vs, 10 * us.length + 3 ≤ n → kinds ts = us ++ vs → Ends 12 vs →
      Gives (unary n ts) e vs
  | .expr .primary e, us => ∀ n ts vs, 10 * us.length + 1 ≤ n → kinds ts = us ++ vs → Ends 13 vs →
      Gives (primary n ts) e vs
  | .arguments args, us => ∀ n ts vs, 10 * us.length + 7 ≤ n → kinds ts = us ++ .symbol .rightParen :: vs →
      Gives (someArguments n ts) args vs

namespace Readable

variable {c a b l right v : Expr} {args : List Expr}

/-! ### What stands for itself -/

theorem ofKind (hk : ∀ n ts, nextKind ts = k → primary (n + 1) ts = .ok (e, ts.tail)) :
    Readable (.expr .primary e) [k] := by
  intro n ts vs hn hts _
  obtain ⟨m, rfl⟩ := Nat.exists_eq_add_one.mpr (Nat.zero_lt_of_lt hn)
  rw [hk m ts (nextKind_of_kinds hts)]
  exact .ok (kinds_tail hts)

theorem name (x : String) : Readable (.expr .primary (.variable x)) [.identifier x] := by
  intro n ts vs hn hts hends
  obtain ⟨m, rfl⟩ := Nat.exists_eq_add_one.mpr (Nat.zero_lt_of_lt hn)
  have htail : kinds ts.tail = vs := kinds_tail hts
  have hno := (htail ▸ hends).nextIs (s := .leftParen) rfl (Nat.le_refl _)
  unfold primary
  rw [nextKind_of_kinds hts]
  dsimp only
  rw [if_neg (Bool.eq_false_iff.mp hno)]
  exact .ok htail

theorem emptyCall (x : String) : Readable (.expr .primary (.call x []))
    [.identifier x, .symbol .leftParen, .symbol .rightParen] := by
  intro n ts vs hn hts _
  obtain ⟨m, rfl⟩ : ∃ m, n = m + 2 := ⟨n - 2, by simp at hn; omega⟩
  have hparen := kinds_tail hts
  unfold primary
  rw [nextKind_of_kinds hts]
  dsimp only
  rw [if_pos (nextIs_of_kinds hparen)]
  have hargs : Gives (arguments (m + 1) ts.tail.tail) [] vs := by
    unfold arguments
    rw [if_pos (nextIs_of_kinds (kinds_tail hparen))]
    exact .ok (kinds_tail (kinds_tail hparen))
  exact hargs.bind fun rest hrest => .ok hrest

theorem call (x : String) (phrase : Phrase (.arguments args) us) (h : Readable (.arguments args) us) :
    Readable (.expr .primary (.call x args))
      (.identifier x :: .symbol .leftParen :: (us ++ [.symbol .rightParen])) := by
  intro n ts vs hn hts _
  simp only [List.length_append, List.length_cons, List.length_nil] at hn
  simp only [List.cons_append, List.append_assoc, List.nil_append] at hts
  obtain ⟨m, rfl⟩ : ∃ m, n = m + 2 := ⟨n - 2, by omega⟩
  have hparen := kinds_tail hts
  have hargs := kinds_tail hparen
  unfold primary
  rw [nextKind_of_kinds hts]
  dsimp only
  rw [if_pos (nextIs_of_kinds hparen)]
  refine Gives.bind ?_ fun rest hrest => .ok hrest
  unfold arguments
  rw [if_neg (phrase.nextIs_eq_false hargs rfl)]
  exact h _ _ _ (by omega) hargs

theorem parenthesized (h : Readable (.expr .expression e) us) :
    Readable (.expr .primary e) (.symbol .leftParen :: (us ++ [.symbol .rightParen])) := by
  intro n ts vs hn hts _
  simp only [List.length_append, List.length_cons, List.length_nil] at hn
  simp only [List.cons_append, List.append_assoc, List.nil_append] at hts
  obtain ⟨m, rfl⟩ := Nat.exists_eq_add_one.mpr (Nat.zero_lt_of_lt hn)
  unfold primary
  rw [nextKind_of_kinds hts]
  refine (h _ _ _ (by omega) (kinds_tail hts) (ends_of_joins?_eq_none rfl)).bind fun rest hrest => ?_
  exact Gives.symbol hrest fun rest' hrest' => .ok hrest'

/-! ### Operators in front of an operand and steps -/

theorem ofPrimary (phrase : Phrase (.expr .primary e) us) (h : Readable (.expr .primary e) us) :
    Readable (.expr .unary e) us := by
  intro n ts vs hn hts hends
  obtain ⟨m, rfl⟩ : ∃ m, n = m + 2 := ⟨n - 2, by omega⟩
  rw [phrase.unary_eq_stepped hts]
  refine (h _ _ _ (by omega) hts (hends.mono (by omega))).bind fun rest hrest => ?_
  rw [← hrest] at hends
  simp only [hends.increment?]
  exact .ok hrest

theorem stepBehind {x : String} (step : Increment) (phrase : Phrase (.expr .primary (.variable x)) us)
    (h : Readable (.expr .primary (.variable x)) us) :
    Readable (.expr .unary (.increment x step false)) (us ++ [.symbol step.symbol]) := by
  intro n ts vs hn hts _
  simp only [List.length_append, List.length_cons, List.length_nil] at hn
  simp only [List.cons_append, List.append_assoc, List.nil_append] at hts
  obtain ⟨m, rfl⟩ : ∃ m, n = m + 2 := ⟨n - 2, by omega⟩
  rw [phrase.unary_eq_stepped hts]
  refine (h _ _ _ (by omega) hts (ends_of_joins?_lt (joins?_step step) (by omega))).bind fun rest hrest => ?_
  simp only [nextSymbol?_of_kinds hrest, Option.bind_some, Increment.ofSymbol?_symbol]
  exact .ok (kinds_tail hrest)

theorem stepInFront (x : String) (step : Increment) :
    Readable (.expr .unary (.increment x step true)) [.symbol step.symbol, .identifier x] := by
  intro n ts vs hn hts _
  obtain ⟨m, rfl⟩ := Nat.exists_eq_add_one.mpr (Nat.zero_lt_of_lt hn)
  unfold Grammar.unary
  rw [nextSymbol?_of_kinds hts]
  have hno : UnaryOp.ofSymbol? step.symbol = none := by cases step <;> rfl
  simp only [Option.bind_some, hno, Increment.ofSymbol?_symbol]
  exact Gives.identifier (kinds_tail hts) fun rest hrest => .ok hrest

theorem unary (op : UnaryOp) (h : Readable (.expr .unary e) us) :
    Readable (.expr .unary (.unary op e)) (.symbol op.symbol :: us) := by
  intro n ts vs hn hts hends
  rw [List.length_cons] at hn
  obtain ⟨m, rfl⟩ := Nat.exists_eq_add_one.mpr (Nat.zero_lt_of_lt hn)
  unfold Grammar.unary
  rw [nextSymbol?_of_kinds hts]
  simp only [Option.bind_some, UnaryOp.ofSymbol?_symbol]
  exact (h _ _ _ (by omega) (kinds_tail hts) hends).bind fun rest hrest => .ok hrest

/-! ### Operators between two operands -/

theorem ofUnary (level : Nat) (phrase : Phrase (.expr .unary e) us) (h : Readable (.expr .unary e) us) :
    Readable (.expr (.binary level) e) us := by
  intro n ts vs k hn hts _ hends _
  have hpos := phrase.length_pos
  obtain ⟨m, rfl⟩ := Nat.exists_eq_add_one.mpr (Nat.zero_lt_of_lt hn)
  obtain ⟨rest, hrest, hrun⟩ := h m _ _ (by omega) hts hends
  refine ⟨m, rest, by omega, hrest, ?_⟩
  unfold Grammar.binary
  rw [hrun]
  rfl

/-- **An operand is read to its end** if no operator behind it is tight enough. -/
theorem gives_binary (h : Readable (.expr (.binary level) e) us) (phrase : Phrase (.expr (.binary level) e) us)
    (hn : 10 * us.length + 4 ≤ n) (hts : kinds ts = us ++ vs) (htight : Ends 12 vs) (hends : Ends (level + 2) vs) :
    Gives (Grammar.binary n level ts) e vs := by
  have hpos := phrase.length_pos
  obtain ⟨m, rest, hm, rfl, hrun⟩ := h _ _ _ _ hn hts (Nat.le_refl _) htight (hends.mono (by omega))
  obtain ⟨m, rfl⟩ : ∃ m', m = m' + 1 := ⟨m - 1, by omega⟩
  rw [hrun]
  unfold Grammar.binaryRest
  rw [hends.operatorFrom?]
  exact .ok rfl

theorem binary {op : BinaryOp} (tight : level ≤ op.level) (phrase : Phrase (.expr (.binary (op.level + 1)) right) vs)
    (hleft : Readable (.expr (.binary op.level) l) us) (hright : Readable (.expr (.binary (op.level + 1)) right) vs) :
    Readable (.expr (.binary level) (.binary op l right)) (us ++ .symbol op.symbol :: vs) := by
  intro n ts ws k hn hts hk htight hends
  simp only [List.length_append, List.length_cons] at hn
  simp only [List.cons_append, List.append_assoc] at hts
  have hop := joins?_operator op
  have hle := op.level_le_nine
  obtain ⟨m, ts₁, hm, hts₁, hrun⟩ := hleft n _ _ k (by omega) hts (by omega)
    (ends_of_joins?_lt hop (by omega)) (ends_of_joins?_lt hop (by omega))
  obtain ⟨m, rfl⟩ : ∃ m', m = m' + 1 := ⟨m - 1, by omega⟩
  obtain ⟨ts₂, hts₂, hright⟩ := hright.gives_binary phrase (n := m) (by omega) (kinds_tail hts₁) htight
    (hends.mono (by omega))
  have hnext : operatorFrom? k ts₁ = some op := by
    unfold operatorFrom?
    rw [nextSymbol?_of_kinds hts₁, Option.bind_some, BinaryOp.ofSymbol?_symbol]
    exact if_pos (by omega)
  refine ⟨m, ts₂, by simp; omega, hts₂, ?_⟩
  rw [hrun]
  rw [binaryRest]
  simp only [hnext, hright]
  rfl

/-! ### The conditional form and assignments -/

theorem ofBinary (phrase : Phrase (.expr (.binary 0) e) us) (h : Readable (.expr (.binary 0) e) us) :
    Readable (.expr .ternary e) us := by
  intro n ts vs hn hts hends
  obtain ⟨m, rfl⟩ := Nat.exists_eq_add_one.mpr (Nat.zero_lt_of_lt hn)
  refine (h.gives_binary phrase (by omega) hts (hends.mono (by omega)) (hends.mono (by omega))).bind fun rest hrest => ?_
  have hno := (hrest ▸ hends).nextIs (s := .question) rfl (Nat.le_refl _)
  dsimp only
  rw [if_neg (Bool.eq_false_iff.mp hno)]
  exact .ok hrest

theorem ternary (phrase : Phrase (.expr (.binary 0) c) us) (hc : Readable (.expr (.binary 0) c) us)
    (ha : Readable (.expr .expression a) vs) (hb : Readable (.expr .ternary b) ws) :
    Readable (.expr .ternary (.ternary c a b)) (us ++ .symbol .question :: (vs ++ .symbol .colon :: ws)) := by
  intro n ts xs hn hts hends
  simp only [List.length_append, List.length_cons] at hn
  simp only [List.cons_append, List.append_assoc] at hts
  obtain ⟨m, rfl⟩ := Nat.exists_eq_add_one.mpr (Nat.zero_lt_of_lt hn)
  refine (hc.gives_binary phrase (by omega) hts (ends_of_joins?_lt (j := 1) rfl (by omega))
    (ends_of_joins?_lt (j := 1) rfl (by omega))).bind fun rest hrest => ?_
  dsimp only
  rw [if_pos (nextIs_of_kinds hrest)]
  refine (ha _ _ _ (by omega) (kinds_tail hrest) (ends_of_joins?_eq_none rfl)).bind fun rest₁ hrest₁ => ?_
  refine Gives.symbol hrest₁ fun rest₂ hrest₂ => ?_
  exact (hb _ _ _ (by omega) hrest₂ hends).bind fun rest₃ hrest₃ => .ok hrest₃

theorem ofTernary (h : Readable (.expr .ternary e) us) : Readable (.expr .expression e) us := by
  intro n ts vs hn hts hends
  obtain ⟨m, rfl⟩ := Nat.exists_eq_add_one.mpr (Nat.zero_lt_of_lt hn)
  refine (h _ _ _ (by omega) hts (hends.mono (by omega))).bind fun rest hrest => ?_
  rw [← hrest] at hends
  simp only [hends.assignment?]
  exact .ok hrest

theorem assign {x : String} (op : Option CompoundOp) (htarget : Readable (.expr .ternary (.variable x)) us)
    (hvalue : Readable (.expr .expression v) vs) :
    Readable (.expr .expression (.assign x op v)) (us ++ .symbol (CompoundOp.assignSymbol op) :: vs) := by
  intro n ts ws hn hts hends
  simp only [List.length_append, List.length_cons] at hn
  simp only [List.cons_append, List.append_assoc] at hts
  obtain ⟨m, rfl⟩ := Nat.exists_eq_add_one.mpr (Nat.zero_lt_of_lt hn)
  refine (htarget _ _ _ (by omega) hts (ends_of_joins?_lt (joins?_assign op) (by omega))).bind fun rest hrest => ?_
  simp only [nextSymbol?_of_kinds hrest, Option.bind_some, CompoundOp.assignment?_assignSymbol]
  exact (hvalue _ _ _ (by omega) (kinds_tail hrest) hends).bind fun rest₁ hrest₁ => .ok hrest₁

/-! ### Arguments -/

theorem lastArgument (h : Readable (.expr .expression e) us) : Readable (.arguments [e]) us := by
  intro n ts vs hn hts
  obtain ⟨m, rfl⟩ := Nat.exists_eq_add_one.mpr (Nat.zero_lt_of_lt hn)
  refine (h _ _ _ (by omega) hts (ends_of_joins?_eq_none rfl)).bind fun rest hrest => ?_
  dsimp only
  rw [if_neg (not_nextIs_of_kinds hrest rfl)]
  exact Gives.symbol hrest fun rest₁ hrest₁ => .ok hrest₁

theorem argument (h : Readable (.expr .expression e) us) (hs : Readable (.arguments args) vs) :
    Readable (.arguments (e :: args)) (us ++ .symbol .comma :: vs) := by
  intro n ts ws hn hts
  simp only [List.length_append, List.length_cons] at hn
  simp only [List.cons_append, List.append_assoc] at hts
  obtain ⟨m, rfl⟩ := Nat.exists_eq_add_one.mpr (Nat.zero_lt_of_lt hn)
  refine (h _ _ _ (by omega) hts (ends_of_joins?_eq_none rfl)).bind fun rest hrest => ?_
  dsimp only
  rw [if_pos (nextIs_of_kinds hrest)]
  exact (hs _ _ _ (by omega) (kinds_tail hrest)).bind fun rest₁ hrest₁ => .ok hrest₁

end Readable

/-- **Every phrase can be read.** -/
theorem Phrase.readable {f : Form} (h : Phrase f us) : Readable f us := by
  induction h with
  | integer | float | string | trueWord | falseWord =>
      refine .ofKind fun n ts hkind => ?_
      unfold primary
      rw [hkind]
  | name x => exact .name x
  | emptyCall x => exact .emptyCall x
  | call x arguments ih => exact .call x arguments ih
  | parenthesized _ ih => exact .parenthesized ih
  | ofPrimary operand ih => exact .ofPrimary operand ih
  | stepBehind step target ih => exact .stepBehind step target ih
  | stepInFront x step => exact .stepInFront x step
  | unary op _ ih => exact .unary op ih
  | ofUnary level operand ih => exact .ofUnary level operand ih
  | binary op tight _ right hleft hright => exact .binary tight right hleft hright
  | ofBinary operand ih => exact .ofBinary operand ih
  | ternary condition _ _ hc ha hb => exact .ternary condition hc ha hb
  | ofTernary _ ih => exact .ofTernary ih
  | assign op _ _ htarget hvalue => exact .assign op htarget hvalue
  | lastArgument _ ih => exact .lastArgument ih
  | argument _ _ harg hothers => exact .argument harg hothers

/-- **An expression is read** in front of a token that no phrase goes on with. -/
theorem Phrase.gives (h : Phrase (.expr .expression e) us) (hn : 10 * us.length + 6 ≤ n) (hts : kinds ts = us ++ k :: vs)
    (hk : joins? k = none) : Gives (expression n ts) e (k :: vs) :=
  h.readable n ts (k :: vs) hn hts (ends_of_joins?_eq_none hk)

/-- A condition is read in its parentheses. -/
theorem Phrase.gives_condition {f : Expr × List Token → List Token → Reading (β × List Token)} {y : β}
    {what what' : String}
    (h : Phrase (.expr .expression e) us) (hn : 10 * us.length + 6 ≤ n)
    (hts : kinds ts = .symbol .leftParen :: (us ++ .symbol .rightParen :: vs))
    (hf : ∀ rest rest', kinds rest' = vs → Gives (f (e, rest) rest') y ws) :
    Gives (do
      let ts ← Grammar.symbol .leftParen what ts
      let condition ← expression n ts
      let ts ← Grammar.symbol .rightParen what' condition.2
      f condition ts) y ws := by
  refine Gives.symbol hts fun ts₁ hts₁ => ?_
  refine (h.gives hn hts₁ rfl).bind fun ts₂ hts₂ => ?_
  exact Gives.symbol hts₂ (hf ts₂)

/-! ## Declarations and missing parts -/

theorem declared?_of_kinds {word name : String} (known : word ∈ declarationWords)
    (h : kinds ts = .identifier word :: .identifier name :: us) : declared? ts = some (name, ts.tail.tail) := by
  unfold declared?
  rw [nextKind_of_kinds h, nextKind_of_kinds (kinds_tail h)]
  exact if_pos (List.contains_iff_mem.mpr known)

/-- An expression in front of a symbol is no declaration. -/
theorem Phrase.declared?_eq_none {f : Form} {s : Symbol} (h : Phrase f us) (hts : kinds ts = us ++ .symbol s :: vs) :
    declared? ts = none := by
  unfold declared?
  split
  · next word name hword hname =>
    have hfirst := kinds_of_nextKind hword nofun
    rw [kinds_of_nextKind hname nofun, hts] at hfirst
    exact absurd hfirst (h.not_two_names (by simp) word name _)
  · rfl

theorem SimplePhrase.gives {s : Simple} (h : SimplePhrase s us) (hn : 10 * us.length + 6 ≤ n)
    (hts : kinds ts = us ++ .symbol .semicolon :: vs) : Gives (simple n ts) s (.symbol .semicolon :: vs) := by
  unfold simple
  cases h with
  | expression phrase =>
      rw [phrase.declared?_eq_none hts]
      exact (phrase.gives hn hts rfl).bind fun rest hrest => .ok hrest
  | declaration name known =>
      rw [declared?_of_kinds known hts]
      have htail := kinds_tail (kinds_tail hts)
      dsimp only
      rw [if_neg (not_nextIs_of_kinds htail rfl)]
      exact .ok htail
  | initialized name known value =>
      simp only [List.length_cons] at hn
      rw [declared?_of_kinds known hts]
      have htail := kinds_tail (kinds_tail hts)
      dsimp only
      rw [if_pos (nextIs_of_kinds htail)]
      exact (value.gives (by omega) (kinds_tail htail) rfl).bind fun rest hrest => .ok hrest

/-- **A part that may be missing is read**, given that it starts as an expression does and would be read. -/
theorem Optionally.gives {phrases : α → List TokenKind → Prop} {part : List Token → Reading (α × List Token)}
    {s : Symbol} {x : Option α} (h : Optionally phrases x us) (hs : startsExpr (.symbol s) = false)
    (hts : kinds ts = us ++ .symbol s :: vs) (hstarts : ∀ {y}, phrases y us → ∃ k ks, us = k :: ks ∧ startsExpr k = true)
    (hpart : ∀ {y}, phrases y us → Gives (part ts) y (.symbol s :: vs)) :
    Gives (optionalBefore s part ts) x (.symbol s :: vs) := by
  unfold optionalBefore
  cases h with
  | absent =>
      rw [if_pos (nextIs_of_kinds hts)]
      exact .ok hts
  | present phrase =>
      obtain ⟨k, ks, rfl, hk⟩ := hstarts phrase
      rw [if_neg (not_nextIs_of_kinds hts (not_isSymbol_of_startsExpr hk hs))]
      exact (hpart phrase).bind fun rest hrest => .ok hrest

/-! ## Statements -/

theorem SimplePhrase.startsExpr_nextKind {s : Simple} (h : SimplePhrase s us) (hts : kinds ts = us ++ vs) :
    startsExpr (nextKind ts) = true := by
  obtain ⟨k, ks, rfl, hk⟩ := h.exists_cons
  rw [nextKind_of_kinds hts]
  exact hk

theorem Sentence.startsStmt_nextKind {s : Stmt} (h : Sentence (.statement s) us) (hts : kinds ts = us ++ vs) :
    startsStmt (nextKind ts) = true := by
  obtain ⟨k, ks, rfl, hk⟩ := h.exists_cons
  rw [nextKind_of_kinds hts]
  exact hk

/-- **No statement starts with an `else`**, so none stands in front of statements. -/
theorem Sentence.not_else {ss : List Stmt} (h : Sentence (.statements ss) us)
    (hvs : (vs.headD .eof).isKeyword .elseWord = false) : ((us ++ vs).headD .eof).isKeyword .elseWord = false := by
  cases h with
  | nil => exact hvs
  | cons first others =>
      obtain ⟨k, ks, rfl, hk⟩ := first.exists_cons
      cases k with
      | keyword w =>
          cases w <;> first | rfl | cases hk
      | _ => rfl

/-- **A sentence for a passage can be read.** Behind a statement that ends in an `if`, no `else` may follow. -/
def ReadableSentence : Passage → List TokenKind → Prop
  | .statement s, us => ∀ n ts vs, 10 * us.length + 7 ≤ n → kinds ts = us ++ vs →
      (s.endsOpen = true → (vs.headD .eof).isKeyword .elseWord = false) → Gives (statement n ts) s vs
  | .statements ss, us => ∀ n ts vs, 10 * us.length + 8 ≤ n → kinds ts = us ++ .symbol .rightBrace :: vs →
      Gives (blockBody n ts) ss vs

namespace ReadableSentence

variable {c : Expr} {s s' : Stmt} {ss : List Stmt}

theorem simple {s : Simple} (phrase : SimplePhrase s us) :
    ReadableSentence (.statement (.simple s)) (us ++ [.symbol .semicolon]) := by
  intro n ts vs hn hts _
  simp only [List.length_append, List.length_cons, List.length_nil] at hn
  simp only [List.append_assoc, List.cons_append, List.nil_append] at hts
  obtain ⟨m, rfl⟩ := Nat.exists_eq_add_one.mpr (Nat.zero_lt_of_lt hn)
  have hk := phrase.startsExpr_nextKind hts
  unfold statement
  -- no other statement starts as an expression does
  generalize nextKind ts = k at hk ⊢
  split
  case h_8 =>
    refine (phrase.gives (by omega) hts).bind fun rest hrest => ?_
    exact Gives.symbol hrest fun rest₁ hrest₁ => .ok hrest₁
  all_goals cases hk

theorem block {body : List Stmt} (h : ReadableSentence (.statements body) us) :
    ReadableSentence (.statement (.block body)) (.symbol .leftBrace :: (us ++ [.symbol .rightBrace])) := by
  intro n ts vs hn hts _
  simp only [List.length_append, List.length_cons, List.length_nil] at hn
  simp only [List.append_assoc, List.cons_append, List.nil_append] at hts
  obtain ⟨m, rfl⟩ := Nat.exists_eq_add_one.mpr (Nat.zero_lt_of_lt hn)
  unfold statement
  rw [nextKind_of_kinds hts]
  exact (h _ _ _ (by omega) (kinds_tail hts)).bind fun rest hrest => .ok hrest

theorem ifThen (condition : Phrase (.expr .expression c) us) (h : ReadableSentence (.statement s) vs) :
    ReadableSentence (.statement (.ifThen c s))
      (.keyword .ifWord :: .symbol .leftParen :: (us ++ .symbol .rightParen :: vs)) := by
  intro n ts ws hn hts hopen
  simp only [List.length_append, List.length_cons] at hn
  simp only [List.append_assoc, List.cons_append] at hts
  obtain ⟨m, rfl⟩ := Nat.exists_eq_add_one.mpr (Nat.zero_lt_of_lt hn)
  unfold statement
  rw [nextKind_of_kinds hts]
  dsimp only
  refine condition.gives_condition (n := m) (by omega) (kinds_tail hts) fun _ ts₁ hts₁ => ?_
  refine (h _ _ _ (by omega) hts₁ fun _ => hopen rfl).bind fun ts₂ hts₂ => ?_
  have hno : (nextKind ts₂).isKeyword .elseWord = false := by
    rw [nextKind_eq_headD, hts₂]
    exact hopen rfl
  dsimp only
  rw [if_neg (Bool.eq_false_iff.mp hno)]
  exact .ok hts₂

theorem ifThenElse (condition : Phrase (.expr .expression c) us) (h : ReadableSentence (.statement s) vs)
    (closed : s.endsOpen = false) (h' : ReadableSentence (.statement s') ws) :
    ReadableSentence (.statement (.ifThenElse c s s')) (.keyword .ifWord :: .symbol .leftParen ::
      (us ++ .symbol .rightParen :: (vs ++ .keyword .elseWord :: ws))) := by
  intro n ts xs hn hts hopen
  simp only [List.length_append, List.length_cons] at hn
  simp only [List.append_assoc, List.cons_append] at hts
  obtain ⟨m, rfl⟩ := Nat.exists_eq_add_one.mpr (Nat.zero_lt_of_lt hn)
  unfold statement
  rw [nextKind_of_kinds hts]
  dsimp only
  refine condition.gives_condition (n := m) (by omega) (kinds_tail hts) fun _ ts₁ hts₁ => ?_
  -- the branch does not end in an `if`, so it leaves the `else` alone
  refine (h _ _ _ (by omega) hts₁ fun hc => absurd (closed ▸ hc) Bool.false_ne_true).bind fun ts₂ hts₂ => ?_
  dsimp only
  rw [if_pos (by rw [nextKind_of_kinds hts₂]; rfl)]
  exact (h' _ _ _ (by omega) (kinds_tail hts₂) hopen).bind fun ts₃ hts₃ => .ok hts₃

theorem whileLoop (condition : Phrase (.expr .expression c) us) (h : ReadableSentence (.statement s) vs) :
    ReadableSentence (.statement (.whileLoop c s))
      (.keyword .whileWord :: .symbol .leftParen :: (us ++ .symbol .rightParen :: vs)) := by
  intro n ts ws hn hts hopen
  simp only [List.length_append, List.length_cons] at hn
  simp only [List.append_assoc, List.cons_append] at hts
  obtain ⟨m, rfl⟩ := Nat.exists_eq_add_one.mpr (Nat.zero_lt_of_lt hn)
  unfold statement
  rw [nextKind_of_kinds hts]
  dsimp only
  refine condition.gives_condition (n := m) (by omega) (kinds_tail hts) fun _ ts₁ hts₁ => ?_
  exact (h _ _ _ (by omega) hts₁ hopen).bind fun ts₂ hts₂ => .ok hts₂

theorem forLoop {init : Option Simple} {condition step : Option Expr} {us₁ us₂ us₃ : List TokenKind}
    (hinit : Optionally SimplePhrase init us₁)
    (hcondition : Optionally (fun e => Phrase (.expr .expression e)) condition us₂)
    (hstep : Optionally (fun e => Phrase (.expr .expression e)) step us₃) (h : ReadableSentence (.statement s) vs) :
    ReadableSentence (.statement (.forLoop init condition step s))
      (.keyword .forWord :: .symbol .leftParen :: (us₁ ++ .symbol .semicolon ::
        (us₂ ++ .symbol .semicolon :: (us₃ ++ .symbol .rightParen :: vs)))) := by
  intro n ts ws hn hts hopen
  simp only [List.length_append, List.length_cons] at hn
  simp only [List.append_assoc, List.cons_append] at hts
  obtain ⟨m, rfl⟩ := Nat.exists_eq_add_one.mpr (Nat.zero_lt_of_lt hn)
  unfold statement
  rw [nextKind_of_kinds hts]
  refine Gives.symbol (kinds_tail hts) fun ts₁ hts₁ => ?_
  refine (hinit.gives rfl hts₁ SimplePhrase.exists_cons fun phrase => phrase.gives (by omega) hts₁).bind
    fun ts₂ hts₂ => ?_
  refine Gives.symbol hts₂ fun ts₃ hts₃ => ?_
  refine (hcondition.gives rfl hts₃ Phrase.exists_cons fun phrase => phrase.gives (by omega) hts₃ rfl).bind
    fun ts₄ hts₄ => ?_
  refine Gives.symbol hts₄ fun ts₅ hts₅ => ?_
  refine (hstep.gives rfl hts₅ Phrase.exists_cons fun phrase => phrase.gives (by omega) hts₅ rfl).bind
    fun ts₆ hts₆ => ?_
  refine Gives.symbol hts₆ fun ts₇ hts₇ => ?_
  exact (h _ _ _ (by omega) hts₇ hopen).bind fun ts₈ hts₈ => .ok hts₈

/-- A statement that is one token and a semicolon. -/
theorem beforeSemicolon (what : String) (hk : ∀ n ts, nextKind ts = k → statement (n + 1) ts =
      (Grammar.symbol .semicolon what ts.tail >>= fun ts => .ok (s, ts))) :
    ReadableSentence (.statement s) [k, .symbol .semicolon] := by
  intro n ts vs hn hts _
  obtain ⟨m, rfl⟩ := Nat.exists_eq_add_one.mpr (Nat.zero_lt_of_lt hn)
  rw [hk m ts (nextKind_of_kinds hts)]
  exact Gives.symbol (kinds_tail hts) fun ts₁ hts₁ => .ok hts₁

theorem empty : ReadableSentence (.statement .empty) [.symbol .semicolon] := by
  intro n ts vs hn hts _
  obtain ⟨m, rfl⟩ := Nat.exists_eq_add_one.mpr (Nat.zero_lt_of_lt hn)
  unfold statement
  rw [nextKind_of_kinds hts]
  exact .ok (kinds_tail hts)

theorem nil : ReadableSentence (.statements []) [] := by
  intro n ts vs hn hts
  obtain ⟨m, rfl⟩ := Nat.exists_eq_add_one.mpr (Nat.zero_lt_of_lt hn)
  unfold blockBody
  rw [nextKind_of_kinds hts]
  exact .ok (kinds_tail hts)

theorem cons (first : Sentence (.statement s) us) (others : Sentence (.statements ss) vs)
    (h : ReadableSentence (.statement s) us) (h' : ReadableSentence (.statements ss) vs) :
    ReadableSentence (.statements (s :: ss)) (us ++ vs) := by
  intro n ts ws hn hts
  rw [List.length_append] at hn
  rw [List.append_assoc] at hts
  have hpos := first.length_pos
  obtain ⟨m, rfl⟩ := Nat.exists_eq_add_one.mpr (Nat.zero_lt_of_lt hn)
  have hk := first.startsStmt_nextKind hts
  unfold blockBody
  -- neither a closing brace nor the end starts a statement
  generalize nextKind ts = k at hk ⊢
  split
  case h_1 => cases hk
  case h_2 => cases hk
  case h_3 =>
    refine (h _ _ _ (by omega) hts fun _ => others.not_else rfl).bind fun rest hrest => ?_
    exact (h' _ _ _ (by omega) hrest).bind fun rest₁ hrest₁ => .ok hrest₁

end ReadableSentence

/-- **Every sentence can be read.** -/
theorem Sentence.readable {p : Passage} (h : Sentence p us) : ReadableSentence p us := by
  induction h with
  | simple phrase => exact .simple phrase
  | block _ ih => exact .block ih
  | ifThen condition _ ih => exact .ifThen condition ih
  | ifThenElse condition _ closed _ ih ih' => exact .ifThenElse condition ih closed ih'
  | whileLoop condition _ ih => exact .whileLoop condition ih
  | forLoop initializer condition stepped _ ih => exact .forLoop initializer condition stepped ih
  | «break» =>
      refine .beforeSemicolon "';' after 'break'" fun n ts hkind => ?_
      unfold statement
      rw [hkind]
  | «continue» =>
      refine .beforeSemicolon "';' after 'continue'" fun n ts hkind => ?_
      unfold statement
      rw [hkind]
  | empty => exact .empty
  | nil => exact .nil
  | cons first others ih ih' => exact .cons first others ih ih'

/-! ## Programs -/

/-- **A sentence at the end of a source is read to the end.** -/
theorem Sentence.gives_statements {p : Program} (h : Sentence (.statements p) us) (hn : 10 * us.length + 8 ≤ n)
    (hts : kinds ts = us ++ vs) (hend : vs.headD .eof = .eof) : Gives (statements n ts) p vs := by
  induction p generalizing us n ts with
  | nil =>
      cases h
      obtain ⟨m, rfl⟩ := Nat.exists_eq_add_one.mpr (Nat.zero_lt_of_lt hn)
      have hkind : nextKind ts = .eof := by rw [nextKind_eq_headD, hts]; exact hend
      unfold statements
      rw [hkind]
      exact .ok hts
  | cons s ss ih =>
      cases h with
      | @cons _ _ us₁ us₂ first others =>
          rw [List.length_append] at hn
          rw [List.append_assoc] at hts
          have hpos := first.length_pos
          obtain ⟨m, rfl⟩ := Nat.exists_eq_add_one.mpr (Nat.zero_lt_of_lt hn)
          have hno : (nextKind ts).isEof = false := by
            have hk := first.startsStmt_nextKind hts
            generalize nextKind ts = k at hk ⊢
            cases k <;> first | rfl | cases hk
          unfold statements
          rw [hno]
          refine (first.readable _ _ _ (by omega) hts fun _ => others.not_else (by rw [hend]; rfl)).bind fun rest hrest => ?_
          exact (ih others (by omega) hrest).bind fun rest₁ hrest₁ => .ok hrest₁

/-- **A sentence in front of the end of a source is read as its program.** -/
theorem Sentence.parseTokens_eq {p : Program} (h : Sentence (.statements p) us) (hts : kinds ts = us ++ .eof :: vs) :
    parseTokens ts = .ok p := by
  have hlength : ts.length = us.length + (vs.length + 1) := by
    have := congrArg List.length hts
    simpa [kinds] using this
  obtain ⟨rest, -, hrun⟩ := h.gives_statements (n := depthFor ts) (by unfold depthFor; omega) hts rfl
  unfold parseTokens
  rw [hrun]
  rfl

/-- **The end of a source** is where two readings of it meet: what is in front of an end that is the only one. -/
theorem eq_of_append_end (h : us ++ [.eof] = vs ++ ws) (hvs : .eof ∉ vs) (hend : ws.headD .eof = .eof) :
    ∃ xs, us = vs ++ xs ∧ (.eof ∉ us → xs = []) := by
  rcases List.append_eq_append_iff.mp h with ⟨as, rfl, has⟩ | ⟨xs, rfl, hxs⟩
  · cases as with
    | nil => exact ⟨[], by rw [List.append_nil, List.append_nil], fun _ => rfl⟩
    | cons a as =>
        obtain ⟨rfl, -⟩ := List.cons.inj has
        exact absurd (List.mem_append_right us List.mem_cons_self) hvs
  · refine ⟨xs, rfl, fun hmem => ?_⟩
    cases xs with
    | nil => rfl
    | cons x xs =>
        rw [hxs] at hend
        exact absurd (List.mem_append_right vs (hend ▸ List.mem_cons_self)) hmem

/-- A program that was read is a sentence at the start of its source. -/
theorem exists_sentence {p : Program} (h : parseTokens ts = .ok p) (hts : kinds ts = us ++ [.eof]) :
    ∃ vs xs, us = vs ++ xs ∧ Sentence (.statements p) vs ∧ (.eof ∉ us → xs = []) := by
  obtain ⟨⟨p', rest⟩, hread, rfl⟩ := map_eq_ok.mp h
  obtain ⟨hend, vs, hvs, hsentence⟩ := statements_sound hread
  rw [nextKind_eq_headD] at hend
  obtain ⟨xs, hxs, hnil⟩ := eq_of_append_end (hts.symm.trans hvs) hsentence.eof_not_mem hend
  exact ⟨vs, xs, hxs, hsentence, hnil⟩

/-- **Tokens with their only end behind them are read as a program** exactly if they are a sentence for it. -/
theorem parseTokens_eq_ok {p : Program} (hts : kinds ts = us ++ [.eof]) (hus : .eof ∉ us) :
    parseTokens ts = .ok p ↔ Sentence (.statements p) us := by
  constructor
  · intro h
    obtain ⟨vs, xs, rfl, hsentence, hnil⟩ := exists_sentence h hts
    rwa [hnil hus, List.append_nil]
  · exact fun h => h.parseTokens_eq hts

end Inlay.Grammar
