import Inlay.Proofs.Grammar.Completeness

/-!
# `Proofs.Grammar.TokenAccess` — tokens by their index

A parser that keeps its place as an index into a list of tokens can go wrong where the rules of the grammar, which are
handed the tokens that are left, cannot: it may take an index behind the last token or in front of the first, and it
may go on for ever. Here every index is checked, and a parser that takes one that is none of the tokens stops `outside`.
How deep it may call itself is a number, and a parser for which that is too deep has no outcome. So it ends if it has
the same outcome from some depth on (`ComesTo`).

What a parser does at an index is compared with what a rule does on the tokens from there on (`Follows`): both give the
same result and stand at the same token behind it, or both report the same fault. A comparison goes through the two of
them side by side, one step of the parser after the other.
-/

namespace Inlay.Indexed

open Grammar (Reading nextKind nextIs faultAt kinds)

variable {α β : Type} {tokens : List Token} {i j lo lo' : Nat} {us : List TokenKind}

/-! ## Parsers -/

/-- Why a parser stops before its end. -/
inductive Halt where
  /-- It takes an index that is none of the tokens. -/
  | outside
  /-- It reports a fault. -/
  | fault (f : SyntaxFault)

/-- A parser: it keeps the index of the next token, may stop, and need not have an outcome. -/
abbrev Parser :=
  StateT Nat (ExceptT Halt Option)

/-- Calls that go deeper than they may. -/
def tooDeep : Parser α :=
  fun _ => ExceptT.mk none

/-- The outcome of a parser from an index on, with the index behind what it has read. -/
def outcome (x : Parser α) (i : Nat) : Option (Except Halt (α × Nat)) :=
  (x.run i).run

/-- **A parser comes to** `out` from an index on: that is its outcome however deep it may call itself, from `depth`
    on. -/
def ComesTo (depth : Nat) (x : Nat → Parser α) (i : Nat) (out : Except Halt (α × Nat)) : Prop :=
  ∀ n, depth ≤ n → outcome (x n) i = some out

/-- The token at an index. -/
def tokenAt (tokens : List Token) (i : Nat) : Parser Token :=
  match tokens[i]? with
  | some t => pure t
  | none => throw .outside

/-- The token in front of an index. -/
def tokenBefore (tokens : List Token) : Nat → Parser Token
  | 0 => throw .outside
  | i + 1 => tokenAt tokens i

/-- The next token. -/
def peek (tokens : List Token) : Parser Token := do
  tokenAt tokens (← get)

/-- The token `offset` behind the next one, or the last token if there are not so many. -/
def peekAt (tokens : List Token) (offset : Nat) : Parser Token := do
  tokenAt tokens (min ((← get) + offset) (tokens.length - 1))

/-- Whether the end of the source comes next. -/
def isAtEnd (tokens : List Token) : Parser Bool := do
  return (← peek tokens).kind.isEof

/-- Goes on by a token, but not behind the end of the source, and gives the token that is then the last one read. -/
def advance (tokens : List Token) : Parser Token := do
  unless ← isAtEnd tokens do
    modify (· + 1)
  tokenBefore tokens (← get)

/-- Whether two kinds are of one sort, whatever number, text or name they carry. -/
def sameSort : TokenKind → TokenKind → Bool
  | .integer _, .integer _ | .float _, .float _ | .string _, .string _ | .identifier _, .identifier _ => true
  | .keyword v, .keyword w => v == w
  | .symbol s, .symbol t => s == t
  | .eof, .eof => true
  | _, _ => false

/-- Whether a token of the sort of `k` comes next. The end of the source is none. -/
def check (tokens : List Token) (k : TokenKind) : Parser Bool := do
  if ← isAtEnd tokens then return false
  else return sameSort (← peek tokens).kind k

/-- Reads a token of the sort of `k` if it comes next, and tells whether it did. -/
def matchKind (tokens : List Token) (k : TokenKind) : Parser Bool := do
  if ← check tokens k then
    let _ ← advance tokens
    return true
  else return false

/-- Reports a fault at the next token. -/
def fail (tokens : List Token) (cause : SyntaxCause) : Parser α := do
  throw (.fault ⟨(← peek tokens).position, cause⟩)

/-- Reads a token of the sort of `k`, called `what` when it is missing. -/
def consume (tokens : List Token) (k : TokenKind) (what : String) : Parser Token := do
  if ← check tokens k then advance tokens
  else fail tokens (.expected what (← peek tokens).kind)

/-- Reads a name, called `what` when it is missing. -/
def expectIdentifier (tokens : List Token) (what : String) : Parser String := do
  match (← peek tokens).kind with
  | .identifier name =>
    let _ ← advance tokens
    return name
  | other => fail tokens (.expected what other)

/-! ## Steps -/

theorem outcome_pure (x : α) (i : Nat) : outcome (pure x) i = some (.ok (x, i)) := rfl

/-- **A step that gives a result** hands it to what follows, with the index behind it. -/
theorem outcome_bind_ok {x : Parser α} {a : α} (h : outcome x i = some (.ok (a, j))) (f : α → Parser β) :
    outcome (x >>= f) i = outcome (f a) j := by
  unfold outcome at h ⊢
  rw [StateT.run_bind, ExceptT.run_bind, h]
  rfl

/-- **A step that stops** is the last one. -/
theorem outcome_bind_error {x : Parser α} {halt : Halt} (h : outcome x i = some (.error halt)) (f : α → Parser β) :
    outcome (x >>= f) i = some (.error halt) := by
  unfold outcome at h ⊢
  rw [StateT.run_bind, ExceptT.run_bind, h]
  rfl

theorem outcome_tokenAt (hi : i < tokens.length) (j : Nat) :
    outcome (tokenAt tokens i) j = some (.ok (tokens[i], j)) := by
  unfold tokenAt
  rw [List.getElem?_eq_getElem hi]
  rfl

theorem outcome_get (i : Nat) : outcome get i = some (.ok (i, i)) := rfl

theorem outcome_peek (hi : i < tokens.length) : outcome (peek tokens) i = some (.ok (tokens[i], i)) := by
  unfold peek
  rw [outcome_bind_ok (outcome_get i), outcome_tokenAt hi]

/-- The kind of the token at an index is that of the first token from there on. -/
theorem kind_getElem (hi : i < tokens.length) : tokens[i].kind = nextKind (tokens.drop i) := by
  rw [List.drop_eq_getElem_cons hi]
  rfl

theorem outcome_isAtEnd (hi : i < tokens.length) :
    outcome (isAtEnd tokens) i = some (.ok ((nextKind (tokens.drop i)).isEof, i)) := by
  unfold isAtEnd
  rw [outcome_bind_ok (outcome_peek hi), kind_getElem hi]
  rfl

theorem isEof_iff {k : TokenKind} : k.isEof = true ↔ k = .eof := by
  cases k <;> simp [TokenKind.isEof]

/-- What is not the end of the source is read, and is the token that is given. -/
theorem outcome_advance (hi : i < tokens.length) (hk : nextKind (tokens.drop i) ≠ .eof) :
    outcome (advance tokens) i = some (.ok (tokens[i], i + 1)) := by
  unfold advance
  rw [outcome_bind_ok (outcome_isAtEnd hi), Bool.eq_false_iff.mpr (mt isEof_iff.mp hk)]
  exact outcome_tokenAt hi (i + 1)

theorem sameSort_self (k : TokenKind) : sameSort k k = true := by
  cases k <;> simp [sameSort]

/-- A kind of another sort than the end of the source is not that end. -/
theorem ne_eof_of_sameSort {k l : TokenKind} (hk : sameSort .eof k = false) (h : sameSort l k = true) : l ≠ .eof := by
  rintro rfl
  rw [hk] at h
  cases h

theorem outcome_check {k : TokenKind} (hi : i < tokens.length) (hk : sameSort .eof k = false) :
    outcome (check tokens k) i = some (.ok (sameSort (nextKind (tokens.drop i)) k, i)) := by
  unfold check
  rw [outcome_bind_ok (outcome_isAtEnd hi)]
  cases hkind : nextKind (tokens.drop i) with
  | eof => rw [hk]; rfl
  | _ =>
    simp only [TokenKind.isEof, Bool.false_eq_true, if_false]
    rw [outcome_bind_ok (outcome_peek hi), kind_getElem hi, hkind]
    rfl

theorem faultAt_drop (hi : i < tokens.length) (cause : SyntaxCause) :
    faultAt (tokens.drop i) cause = ⟨tokens[i].position, cause⟩ := by
  rw [List.drop_eq_getElem_cons hi]
  rfl

theorem outcome_fail (hi : i < tokens.length) (cause : SyntaxCause) :
    outcome (fail (α := α) tokens cause) i = some (.error (.fault (faultAt (tokens.drop i) cause))) := by
  unfold fail
  rw [outcome_bind_ok (outcome_peek hi), faultAt_drop hi]
  rfl

/-- A token of the right sort is read. -/
theorem outcome_consume {k : TokenKind} (hi : i < tokens.length) (hk : sameSort .eof k = false)
    (hnext : sameSort (nextKind (tokens.drop i)) k = true) (what : String) :
    outcome (consume tokens k what) i = some (.ok (tokens[i], i + 1)) := by
  unfold consume
  rw [outcome_bind_ok (outcome_check hi hk), if_pos hnext]
  exact outcome_advance hi (ne_eof_of_sameSort hk hnext)

/-- A token of another sort is reported. -/
theorem outcome_consume_missing {k : TokenKind} (hi : i < tokens.length) (hk : sameSort .eof k = false)
    (hnext : ¬sameSort (nextKind (tokens.drop i)) k = true) (what : String) :
    outcome (consume tokens k what) i =
      some (.error (.fault (Grammar.unexpected what (tokens.drop i)))) := by
  unfold consume Grammar.unexpected
  rw [outcome_bind_ok (outcome_check hi hk), if_neg hnext, outcome_bind_ok (outcome_peek hi), kind_getElem hi,
    outcome_fail hi]

theorem outcome_expectIdentifier {name : String} (hi : i < tokens.length)
    (hname : nextKind (tokens.drop i) = .identifier name) (what : String) :
    outcome (expectIdentifier tokens what) i = some (.ok (name, i + 1)) := by
  unfold expectIdentifier
  rw [outcome_bind_ok (outcome_peek hi), kind_getElem hi, hname]
  exact outcome_bind_ok (outcome_advance hi (by simp [hname])) _

/-! ## Next to the rules -/

theorem sameSort_symbol (k : TokenKind) (s : Symbol) : sameSort k (.symbol s) = k.isSymbol s := by
  cases k <;> rfl

theorem eq_of_sameSort_symbol {k : TokenKind} {s : Symbol} (h : sameSort k (.symbol s) = true) : k = .symbol s := by
  cases k with
  | symbol t => rw [of_decide_eq_true h]
  | _ => cases h

theorem eq_of_sameSort_keyword {k : TokenKind} {w : Keyword} (h : sameSort k (.keyword w) = true) :
    k = .keyword w := by
  cases k with
  | keyword v => rw [of_decide_eq_true h]
  | _ => cases h

theorem sameSort_keyword (k : TokenKind) (w : Keyword) : sameSort k (.keyword w) = k.isKeyword w := by
  cases k <;> rfl

theorem length_of_kinds (hts : kinds tokens = us ++ [.eof]) : tokens.length = us.length + 1 := by
  have hlength := congrArg List.length hts
  simpa [kinds] using hlength

/-- Behind a token that is not the end of the source there is another one. -/
theorem succ_lt_length (hts : kinds tokens = us ++ [.eof]) (hi : i < tokens.length)
    (hk : nextKind (tokens.drop i) ≠ .eof) : i + 1 < tokens.length := by
  have hlength := length_of_kinds hts
  refine Classical.byContradiction fun hlast => hk ?_
  obtain rfl : i = us.length := by omega
  have hdrop : kinds (tokens.drop us.length) = [.eof] := by
    unfold kinds at hts ⊢
    rw [List.map_drop, hts, List.drop_left]
  exact Grammar.nextKind_of_kinds hdrop

/-- What a rule gives that reads a list, with the elements `xs` in front. -/
def behind (xs : List α) (rule : Reading (List α × List Token)) : Reading (List α × List Token) :=
  rule.map fun (ys, ts) => (xs ++ ys, ts)

theorem behind_nil (rule : Reading (List α × List Token)) : behind [] rule = rule := by
  cases rule <;> rfl

theorem behind_done (xs : List α) (ts : List Token) : behind xs (.ok ([], ts)) = .ok (xs, ts) :=
  congrArg (fun l => Except.ok (l, ts)) (List.append_nil xs)

theorem behind_bind (xs : List α) (rule : Reading β) (g : β → Reading (List α × List Token)) :
    behind xs (rule >>= g) = rule >>= fun y => behind xs (g y) := by
  cases rule <;> rfl

/-- The first element that a rule reads is the last one of those in front of the others. -/
theorem behind_cons (xs : List α) (x : α) (rule : Reading (List α × List Token)) :
    behind xs (rule >>= fun (ys, ts) => .ok (x :: ys, ts)) = behind (xs ++ [x]) rule := by
  cases rule with
  | error f => rfl
  | ok r => exact congrArg (fun l => Except.ok (l, r.2)) (List.append_cons xs x r.1)

/-- **A parser follows a rule**: it has come to what the rule gives, at an index from `lo` on that is one of a token
    that the rule leaves, or it reports the fault of the rule. -/
inductive Follows (tokens : List Token) (lo : Nat) :
    Option (Except Halt (α × Nat)) → Reading (α × List Token) → Prop where
  | result (x : α) {j : Nat} (from_lo : lo ≤ j) (inside : j < tokens.length) :
      Follows tokens lo (some (.ok (x, j))) (.ok (x, tokens.drop j))
  | fault (f : SyntaxFault) : Follows tokens lo (some (.error (.fault f))) (.error f)

namespace Follows

variable {rule : Reading (α × List Token)} {rule' : Reading (β × List Token)}

theorem mono {out : Option (Except Halt (α × Nat))} (h : Follows tokens lo out rule) (hle : lo' ≤ lo) :
    Follows tokens lo' out rule := by
  cases h with
  | result x from_lo inside => exact .result x (Nat.le_trans hle from_lo) inside
  | fault f => exact .fault f

theorem done (x : α) (hlo : lo ≤ i) (hi : i < tokens.length) :
    Follows tokens lo (outcome (pure x) i) (.ok (x, tokens.drop i)) :=
  .result x hlo hi

theorem fail (hi : i < tokens.length) (cause : SyntaxCause) :
    Follows tokens lo (outcome (Indexed.fail (α := α) tokens cause) i) (.error (faultAt (tokens.drop i) cause)) := by
  rw [outcome_fail hi]
  exact .fault _

/-- **One after the other**: what follows a parser follows what follows its rule. -/
theorem bind {x : Parser α} {f : α → Parser β} {g : α × List Token → Reading (β × List Token)}
    (h : Follows tokens lo (outcome x i) rule)
    (hf : ∀ a j, lo ≤ j → j < tokens.length → Follows tokens lo' (outcome (f a) j) (g (a, tokens.drop j))) :
    Follows tokens lo' (outcome (x >>= f) i) (rule >>= g) := by
  generalize hout : outcome x i = out at h
  cases h with
  | result a from_lo inside =>
      rw [outcome_bind_ok hout]
      exact hf a _ from_lo inside
  | fault fault =>
      rw [outcome_bind_error hout]
      exact .fault fault

/-- To look at the next token leaves the place. -/
theorem peek {f : Token → Parser β} (hi : i < tokens.length) (hf : Follows tokens lo (outcome (f tokens[i]) i) rule') :
    Follows tokens lo (outcome (Indexed.peek tokens >>= f) i) rule' := by
  rw [outcome_bind_ok (outcome_peek hi)]
  exact hf

variable (hts : kinds tokens = us ++ [.eof])

include hts

/-- A token that is not the end of the source is read. -/
theorem advance {f : Token → Parser β} (hi : i < tokens.length) (hk : nextKind (tokens.drop i) ≠ .eof)
    (hf : i + 1 < tokens.length → Follows tokens lo (outcome (f tokens[i]) (i + 1)) rule') :
    Follows tokens lo (outcome (Indexed.advance tokens >>= f) i) rule' := by
  rw [outcome_bind_ok (outcome_advance hi hk)]
  exact hf (succ_lt_length hts hi hk)

/-- A token that stands for itself. -/
theorem single (x : β) (hi : i < tokens.length) (hk : nextKind (tokens.drop i) ≠ .eof) :
    Follows tokens (i + 1) (outcome (Indexed.advance tokens >>= fun _ => pure x) i)
      (.ok (x, (tokens.drop i).tail)) := by
  refine advance hts hi hk fun hi' => ?_
  rw [List.tail_drop]
  exact .done x (Nat.le_refl _) hi'

/-- Whether a token of some sort comes next decides how both go on. -/
theorem matchKind {f : Bool → Parser β} {k : TokenKind} {other : Reading (β × List Token)} (hi : i < tokens.length)
    (hk : sameSort .eof k = false)
    (hnext : i + 1 < tokens.length → Follows tokens lo (outcome (f true) (i + 1)) rule')
    (hnot : Follows tokens lo (outcome (f false) i) other) :
    Follows tokens lo (outcome (Indexed.matchKind tokens k >>= f) i)
      (if sameSort (nextKind (tokens.drop i)) k then rule' else other) := by
  have hcheck := outcome_check hi hk
  by_cases hsort : sameSort (nextKind (tokens.drop i)) k = true
  · have hend := ne_eof_of_sameSort hk hsort
    have hmatch : outcome (Indexed.matchKind tokens k) i = some (.ok (true, i + 1)) := by
      unfold Indexed.matchKind
      rw [outcome_bind_ok hcheck, if_pos hsort, outcome_bind_ok (outcome_advance hi hend)]
      rfl
    rw [if_pos hsort, outcome_bind_ok hmatch]
    exact hnext (succ_lt_length hts hi hend)
  · have hmatch : outcome (Indexed.matchKind tokens k) i = some (.ok (false, i)) := by
      unfold Indexed.matchKind
      rw [outcome_bind_ok hcheck, if_neg hsort]
      rfl
    rw [if_neg hsort, outcome_bind_ok hmatch]
    exact hnot

theorem matchSymbol {f : Bool → Parser β} {s : Symbol} {other : Reading (β × List Token)} (hi : i < tokens.length)
    (hnext : i + 1 < tokens.length → Follows tokens lo (outcome (f true) (i + 1)) rule')
    (hnot : Follows tokens lo (outcome (f false) i) other) :
    Follows tokens lo (outcome (Indexed.matchKind tokens (.symbol s) >>= f) i)
      (if nextIs s (tokens.drop i) then rule' else other) := by
  unfold Grammar.nextIs
  rw [← sameSort_symbol]
  exact matchKind hts hi rfl hnext hnot

/-- The token that comes next is read where it is asked for. -/
theorem consume {f : Token → Parser β} {k : TokenKind} {what : String} (hi : i < tokens.length)
    (hnext : nextKind (tokens.drop i) = k) (hk : sameSort .eof k = false)
    (hf : i + 1 < tokens.length → Follows tokens lo (outcome (f tokens[i]) (i + 1)) rule') :
    Follows tokens lo (outcome (Indexed.consume tokens k what >>= f) i) rule' := by
  have hsort : sameSort (nextKind (tokens.drop i)) k = true := by rw [hnext, sameSort_self]
  rw [outcome_bind_ok (outcome_consume hi hk hsort what)]
  exact hf (succ_lt_length hts hi (ne_eof_of_sameSort hk hsort))

/-- A symbol is read where the rule reads it. -/
theorem symbol {f : Token → Parser β} {s : Symbol} {what : String} {g : List Token → Reading (β × List Token)}
    (hi : i < tokens.length) (hf : i + 1 < tokens.length →
      Follows tokens lo (outcome (f tokens[i]) (i + 1)) (g (tokens.drop (i + 1)))) :
    Follows tokens lo (outcome (Indexed.consume tokens (.symbol s) what >>= f) i)
      (Grammar.symbol s what (tokens.drop i) >>= g) := by
  unfold Grammar.symbol Grammar.nextIs
  rw [← sameSort_symbol]
  by_cases hsort : sameSort (nextKind (tokens.drop i)) (.symbol s) = true
  · rw [if_pos hsort, outcome_bind_ok (outcome_consume hi rfl hsort what), List.tail_drop]
    exact hf (succ_lt_length hts hi (ne_eof_of_sameSort rfl hsort))
  · rw [if_neg hsort, outcome_bind_error (outcome_consume_missing hi rfl hsort what)]
    exact .fault _

/-- A name is read where the rule reads it. -/
theorem identifier {f : String → Parser β} {what : String} {g : String × List Token → Reading (β × List Token)}
    (hi : i < tokens.length) (hf : ∀ name, i + 1 < tokens.length →
      Follows tokens lo (outcome (f name) (i + 1)) (g (name, tokens.drop (i + 1)))) :
    Follows tokens lo (outcome (expectIdentifier tokens what >>= f) i)
      (Grammar.identifier what (tokens.drop i) >>= g) := by
  unfold Grammar.identifier
  cases hkind : nextKind (tokens.drop i) with
  | identifier name =>
      rw [outcome_bind_ok (outcome_expectIdentifier hi hkind what), List.tail_drop]
      exact hf name (succ_lt_length hts hi (by simp [hkind]))
  | _ =>
      have hmissing : outcome (expectIdentifier tokens what) i =
          some (.error (.fault (Grammar.unexpected what (tokens.drop i)))) := by
        unfold expectIdentifier Grammar.unexpected
        rw [outcome_bind_ok (outcome_peek hi), kind_getElem hi, hkind]
        exact outcome_fail hi _
      rw [outcome_bind_error hmissing]
      exact .fault _

end Follows

end Inlay.Indexed
