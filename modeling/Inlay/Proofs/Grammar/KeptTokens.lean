import Inlay.Proofs.Grammar.Printing

/-!
# `Proofs.Grammar.KeptTokens` — a program is all of its tokens

What a program is read from and what it is printed as differ in two things only: in parentheses, of which the printer
writes the fewest, and in the type words of declarations, which the trees do not keep. Without the parentheses
(`bare`) and with one word in place of all type words (`retype`) the two lists of tokens are the same, in the same
order.

A type word is told from a name by the name behind it, so whether a token is one can depend on what stands behind a
phrase. `Keeps` says of some tokens that they are kept with given ones behind them; the lemmas follow the grammar.
-/

namespace Inlay

open Grammar (Rank Form Phrase SimplePhrase Optionally Passage Sentence kinds declarationWords)

namespace Grammar

variable {k : TokenKind} {us vs ks printed printed' : List TokenKind} {e : Expr} {word : String}

/-! ## Parentheses and type words -/

/-- Whether a token is a parenthesis. -/
def isParen (k : TokenKind) : Bool :=
  k.isSymbol .leftParen || k.isSymbol .rightParen

/-- The tokens other than parentheses. -/
def bare (us : List TokenKind) : List TokenKind :=
  us.filter fun k => !isParen k

/-- Whether a token is a name. -/
def isName : TokenKind → Bool
  | .identifier _ => true
  | _ => false

/-- Whether a token is one of the type words. -/
def isTypeWord : TokenKind → Bool
  | .identifier w => declarationWords.contains w
  | _ => false

/-- The tokens with `word` in place of each type word that stands in front of a name. In what can be read, two names
    in a row are a declaration. -/
def retype (word : String) : List TokenKind → List TokenKind
  | k :: k' :: ks => (if isTypeWord k && isName k' then .identifier word else k) :: retype word (k' :: ks)
  | ks => ks

theorem bare_append (us vs : List TokenKind) : bare (us ++ vs) = bare us ++ bare vs :=
  List.filter_append us vs

theorem bare_cons_append (k : TokenKind) (us : List TokenKind) : bare (k :: us) = bare [k] ++ bare us :=
  bare_append [k] us

/-- Parentheses around an expression are none of its tokens. -/
theorem bare_printIn (r : Rank) (e : Expr) : bare (e.printIn r) = bare e.print := by
  unfold Expr.printIn Expr.fenced
  split
  · show bare (e.print ++ [_]) = _
    rw [bare_append]
    exact List.append_nil _
  · rfl

/-- What is no name is no type word. -/
theorem retype_cons (h : isName k = false) : retype word (k :: ks) = k :: retype word ks := by
  have htype : isTypeWord k = false := by
    cases k <;> first | rfl | cases h
  cases ks with
  | nil => rfl
  | cons k' ks => simp [retype, htype]

/-- Without a name behind it, a token is no type word. -/
theorem retype_cons_of_head (h : isName (ks.headD .eof) = false) : retype word (k :: ks) = k :: retype word ks := by
  cases ks with
  | nil => rfl
  | cons k' ks =>
      have hk' : isName k' = false := h
      simp [retype, hk']

/-- A type word in front of a name is replaced. -/
theorem retype_declaration {w x : String} (known : w ∈ declarationWords) :
    retype word (.identifier w :: .identifier x :: ks) = .identifier word :: retype word (.identifier x :: ks) := by
  have htype : isTypeWord (.identifier w) = true := List.contains_iff_mem.mpr known
  rw [retype, htype]
  rfl

/-! ## Tokens that are kept -/

/-- **Some tokens are kept** in front of `ks`: they are the `printed` ones, but for parentheses and type words. -/
def Keeps (word : String) (us printed ks : List TokenKind) : Prop :=
  bare (retype word (us ++ ks)) = bare printed ++ bare (retype word ks)

namespace Keeps

theorem nil : Keeps word [] [] ks := rfl

/-- A token other than a name is kept. -/
theorem cons (h : isName k = false) (hus : Keeps word us printed ks) : Keeps word (k :: us) (k :: printed) ks := by
  unfold Keeps at hus ⊢
  rw [List.cons_append, retype_cons h, bare_cons_append, hus, bare_cons_append k printed, List.append_assoc]

/-- A name is kept if no name follows. -/
theorem name (x : String) (h : isName (ks.headD .eof) = false) : Keeps word [.identifier x] [.identifier x] ks := by
  unfold Keeps
  rw [List.singleton_append, retype_cons_of_head h]
  rfl

/-- A name in front of a token other than a name is kept. -/
theorem name_cons (x : String) (h : isName k = false) (hus : Keeps word (k :: us) printed ks) :
    Keeps word (.identifier x :: k :: us) (.identifier x :: printed) ks := by
  have hhead : isName ((k :: us ++ ks).headD .eof) = false := h
  unfold Keeps at hus ⊢
  rw [List.cons_append, retype_cons_of_head hhead, bare_cons_append, hus, bare_cons_append _ printed,
    List.append_assoc]

/-- A type word in front of a name becomes the one word. -/
theorem typeWord {w x : String} (known : w ∈ declarationWords)
    (hus : Keeps word (.identifier x :: us) printed ks) :
    Keeps word (.identifier w :: .identifier x :: us) (.identifier word :: printed) ks := by
  unfold Keeps at hus ⊢
  rw [List.cons_append, List.cons_append, retype_declaration known, bare_cons_append, ← List.cons_append, hus,
    bare_cons_append _ printed, List.append_assoc]

theorem append (hus : Keeps word us printed (vs ++ ks)) (hvs : Keeps word vs printed' ks) :
    Keeps word (us ++ vs) (printed ++ printed') ks := by
  unfold Keeps at hus hvs ⊢
  rw [List.append_assoc, hus, hvs, bare_append, List.append_assoc]

/-- Parentheses that were written are none of the tokens of what they hold. -/
theorem parenthesized (hus : Keeps word us printed (.symbol .rightParen :: ks)) :
    Keeps word (.symbol .leftParen :: (us ++ [.symbol .rightParen])) printed ks := by
  have hclosed := (hus.append (cons rfl nil)).cons (k := .symbol .leftParen) rfl
  unfold Keeps at hclosed ⊢
  rw [hclosed, bare_cons_append, bare_append printed]
  show bare printed ++ [] ++ _ = _
  rw [List.append_nil]

/-- Parentheses that are printed are none of the tokens of what they hold. -/
theorem printIn (r : Rank) (hus : Keeps word us e.print ks) : Keeps word us (e.printIn r) ks := by
  unfold Keeps at hus ⊢
  rw [bare_printIn, hus]

theorem print {r : Rank} (hus : Keeps word us (e.printIn r) ks) : Keeps word us e.print ks := by
  unfold Keeps at hus ⊢
  rw [← bare_printIn r, hus]

end Keeps

/-! ## The tokens of a program -/

/-- **The tokens of a phrase are kept.** What stands behind it must not start with a name, or the last name of the
    phrase could be a type word. -/
theorem Phrase.keeps {f : Form} (h : Phrase f us) (hks : isName (ks.headD .eof) = false) :
    Keeps word us f.print ks := by
  induction h generalizing ks with
  | integer | float | string | trueWord | falseWord => exact .cons rfl .nil
  | name x => exact .name x hks
  | emptyCall x => exact .name_cons x rfl (.cons rfl (.cons rfl .nil))
  | call x _ ih => exact .printIn _ (.name_cons x rfl (.cons rfl (.append (ih rfl) (.cons rfl .nil))))
  | parenthesized _ ih => exact .printIn _ (.parenthesized (.print (ih rfl)))
  | ofPrimary _ ih | ofUnary _ _ ih | ofBinary _ ih | ofTernary _ ih => exact .printIn _ (.print (ih hks))
  | stepBehind step _ ih => exact .append (.print (ih rfl)) (.cons rfl .nil)
  | stepInFront x step => exact .cons rfl (.name x hks)
  | unary op _ ih => exact .printIn _ (.cons rfl (ih hks))
  | binary op _ _ _ ihl ihr => exact .printIn _ (.append (ihl rfl) (.cons rfl (ihr hks)))
  | ternary _ _ _ ihc iha ihb =>
      exact .printIn _ (.append (ihc rfl) (.cons rfl (.append (.print (iha rfl)) (.cons rfl (ihb hks)))))
  | assign op _ _ ih ihv => exact .printIn _ (.append (.print (ih rfl)) (.cons rfl (.print (ihv hks))))
  | lastArgument _ ih => exact .print (ih hks)
  | @argument e es us vs _ others ih ihs =>
      cases es with
      | nil => cases others
      | cons e' es => exact .append (.print (ih rfl)) (.cons rfl (ihs hks))

theorem SimplePhrase.keeps {s : Simple} (h : SimplePhrase s us) (hks : isName (ks.headD .eof) = false) :
    Keeps word us (s.print word) ks := by
  cases h with
  | expression phrase => exact .print (phrase.keeps hks)
  | declaration x known => exact .typeWord known (.name x hks)
  | initialized x known value => exact .typeWord known (.name_cons x rfl (.cons rfl (.print (value.keeps hks))))

theorem Optionally.keeps {α : Type} {phrases : α → List TokenKind → Prop} {x : Option α} {print : α → List TokenKind}
    (h : Optionally phrases x us) (hphrases : ∀ {y}, phrases y us → Keeps word us (print y) ks) :
    Keeps word us (x.elim [] print) ks := by
  cases h with
  | absent => exact .nil
  | present phrase => exact hphrases phrase

/-- **The tokens of a sentence are kept.** A sentence ends with a semicolon or a brace, so anything may follow. -/
theorem Sentence.keeps {p : Passage} (h : Sentence p us) (ks : List TokenKind) : Keeps word us (p.print word) ks := by
  induction h generalizing ks with
  | @simple s us phrase =>
      have hphrase : Keeps word us (s.print word) (.symbol .semicolon :: ks) := phrase.keeps rfl
      exact hphrase.append (.cons rfl .nil)
  | block _ ih => exact .cons rfl (.append (ih _) (.cons rfl .nil))
  | ifThen condition _ ih | whileLoop condition _ ih =>
      exact .cons rfl (.cons rfl (.append (.print (condition.keeps rfl)) (.cons rfl (ih ks))))
  | ifThenElse condition _ _ _ ih ih' =>
      exact .cons rfl (.cons rfl (.append (.print (condition.keeps rfl))
        (.cons rfl (.append (ih _) (.cons rfl (ih' ks))))))
  | forLoop initializer condition stepped _ ih =>
      refine .cons rfl (.cons rfl (.append ?_ (.cons rfl (.append ?_ (.cons rfl (.append ?_ (.cons rfl (ih ks))))))))
      · exact initializer.keeps fun phrase => phrase.keeps rfl
      · exact condition.keeps fun phrase => (phrase.keeps rfl).print
      · exact stepped.keeps fun phrase => (phrase.keeps rfl).print
  | «break» | «continue» => exact .cons rfl (.cons rfl .nil)
  | empty => exact .cons rfl .nil
  | nil => exact .nil
  | cons _ _ ih ih' => exact .append (ih _) (ih' ks)

end Grammar

variable {us : List TokenKind} {word : String}

/-- **Nothing is dropped, invented or reordered.** Tokens with their only end behind them that are read as a program
    are the tokens that it is printed as, but for parentheses and for the type words, in whose place stands `word`. -/
theorem bare_tokens_eq_print {ts : List Token} {p : Program} (hts : kinds ts = us ++ [.eof]) (hus : .eof ∉ us)
    (h : parseTokens ts = .ok p) :
    Grammar.bare (Grammar.retype word us) = Grammar.bare (p.print word) := by
  have hsentence := (Grammar.parseTokens_eq_ok hts hus).mp h
  have hkept : Grammar.Keeps word us (p.print word) [] := hsentence.keeps []
  unfold Grammar.Keeps at hkept
  rw [List.append_nil] at hkept
  rw [hkept]
  exact List.append_nil _

/-- The tokens of `float x = ((a)); (x)++; int(x);`, in which `int` is the name of a function. -/
def spareParens : List TokenKind :=
  [.identifier "float", .identifier "x", .symbol .assign, .symbol .leftParen, .symbol .leftParen, .identifier "a",
    .symbol .rightParen, .symbol .rightParen, .symbol .semicolon, .symbol .leftParen, .identifier "x",
    .symbol .rightParen, .symbol .plusPlus, .symbol .semicolon, .identifier "int", .symbol .leftParen,
    .identifier "x", .symbol .rightParen, .symbol .semicolon]

/-- **A call of a type word is no declaration**: of the two type words, the one in front of a name is replaced. -/
theorem call_of_type_word_is_kept :
    let ts : List Token := (spareParens ++ [TokenKind.eof]).map fun k => ⟨k, "", {}⟩
    let p : Program := [.simple (.declaration "x" (some (.variable "a"))),
      .simple (.expression (.increment "x" .up false)), .simple (.expression (.call "int" [.variable "x"]))]
    kinds ts = spareParens ++ [.eof] ∧ TokenKind.eof ∉ spareParens ∧ parseTokens ts = .ok p ∧
      Grammar.bare (p.print "var") = [.identifier "var", .identifier "x", .symbol .assign, .identifier "a",
        .symbol .semicolon, .identifier "x", .symbol .plusPlus, .symbol .semicolon, .identifier "int",
        .identifier "x", .symbol .semicolon] := by
  intro ts p
  have hts : kinds ts = spareParens ++ [.eof] := rfl
  have hus : TokenKind.eof ∉ spareParens := by simp [spareParens]
  have hread : parseTokens ts = .ok p := rfl
  have hkept : Grammar.bare (Grammar.retype "var" spareParens) = Grammar.bare (p.print "var") :=
    bare_tokens_eq_print hts hus hread
  refine ⟨hts, hus, hread, ?_⟩
  rw [← hkept]
  rfl

end Inlay
