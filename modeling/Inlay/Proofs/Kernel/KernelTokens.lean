import Inlay.Kernel.Extraction
import Inlay.Proofs.Text.Classes

/-!
# `Proofs.Kernel.KernelTokens` — the tokens of a kernel's text

What the device compiler reads is a row of tokens: words, numbers, marks, quoted literals and directives, the longest
that the text allows, with blanks and comments between them (`kernelTokens`). A newline ends a line comment, a
directive and an unclosed literal; otherwise it is a blank like others. So a text that starts none of these is read
alike on one line and on many (`kernelTokens_flatten`).

The reader goes from character to character, and the tokens that it has read stay as they are (`foldl_step`). Hence
tokens are found piece by piece: a piece is read in its own way, whatever stands behind it (`Reads`), if it ends with a
blank, with a mark that nothing prolongs, or with a word or a number that something else follows.
-/

namespace Inlay

/-- What the text of a kernel is made of. -/
inductive KernelToken where
  /-- A word. -/
  | name (text : String)
  /-- A number, with the letters that belong to it. -/
  | number (text : String)
  /-- A mark of one or more signs. -/
  | mark (text : String)
  /-- A text or a character in quotes, the quotes included. -/
  | literal (text : String)
  /-- A directive, up to the end of its line. -/
  | directive (text : String)
deriving DecidableEq, Repr

namespace KernelToken

/-- What the reader is in the middle of, with the characters of the token so far. -/
inductive Mode where
  /-- Between two tokens. -/
  | between
  /-- In a word. -/
  | name (text : List Char)
  /-- In a number. -/
  | number (text : List Char)
  /-- In a mark. -/
  | mark (text : List Char)
  /-- Between quotes, perhaps right behind a backslash. -/
  | literal (quote : Char) (escaped : Bool) (text : List Char)
  /-- Behind the second quote. -/
  | closed (text : List Char)
  /-- In a comment that ends with its line. -/
  | lineComment
  /-- In a comment between marks, perhaps right behind a star. -/
  | blockComment (star : Bool)
  /-- In a directive. -/
  | directive (text : List Char)
deriving DecidableEq, Repr

/-- The marks of more than one sign. -/
def longMarks : List (List Char) :=
  ["++", "--", "->", "<<", ">>", "<=", ">=", "==", "!=", "&&", "||", "+=", "-=", "*=", "/=", "%=", "&=", "|=", "^=",
    "<<=", ">>="].map String.toList

namespace Mode

/-- What starts with a character. -/
def opening (c : Char) : Mode :=
  if isAsciiBlank c then .between
  else if c.isDigit then .number [c]
  else if isAsciiWord c then .name [c]
  else if c == '"' || c == '\'' then .literal c false [c]
  else if c == '#' then .directive [c]
  else .mark [c]

/-- Whether a sign belongs to the number before it, as the sign of its exponent. -/
def signsExponent (text : List Char) (c : Char) : Bool :=
  (c == '+' || c == '-') && text.getLast?.any ['e', 'E', 'p', 'P'].contains

/-- How the reader goes on if a further character belongs to what it is in. -/
def next : Mode → Char → Option Mode
  | .between, _ => none
  | .name t, c => if isAsciiWord c then some (.name (t ++ [c])) else none
  | .number t, c => if isAsciiWord c || c == '.' || signsExponent t c then some (.number (t ++ [c])) else none
  | .mark t, c =>
    if t ++ [c] ∈ longMarks then some (.mark (t ++ [c]))
    else if t ++ [c] = ['/', '/'] then some .lineComment
    else if t ++ [c] = ['/', '*'] then some (.blockComment false)
    else if t = ['.'] ∧ c.isDigit then some (.number (t ++ [c]))
    else none
  | .literal quote escaped t, c =>
    if c == '\n' then none
    else if c == quote && !escaped then some (.closed (t ++ [c]))
    else some (.literal quote (c == '\\' && !escaped) (t ++ [c]))
  | .closed _, _ => none
  | .lineComment, c => if c == '\n' then none else some .lineComment
  | .blockComment star, c => if star && c == '/' then some .between else some (.blockComment (c == '*'))
  | .directive t, c => if c == '\n' then none else some (.directive (t ++ [c]))

/-- The token that ends here. -/
def token? : Mode → Option KernelToken
  | .name t => some (.name (String.ofList t))
  | .number t => some (.number (String.ofList t))
  | .mark t => some (.mark (String.ofList t))
  | .literal _ _ t | .closed t => some (.literal (String.ofList t))
  | .directive t => some (.directive (String.ofList t))
  | .between | .lineComment | .blockComment _ => none

end Mode

/-- What has been read of a text. -/
structure Reading where
  /-- What the reader is in. -/
  mode : Mode
  /-- The tokens before that. -/
  tokens : List KernelToken

namespace Reading

/-- At the start of a text. -/
def start : Reading := ⟨.between, []⟩

/-- One further character. -/
def step (r : Reading) (c : Char) : Reading :=
  match r.mode.next c with
  | some m => ⟨m, r.tokens⟩
  | none => ⟨Mode.opening c, r.tokens ++ r.mode.token?.toList⟩

/-- A whole text. -/
def ofText (s : List Char) : Reading :=
  s.foldl step start

/-- The tokens if the text ends here. -/
def finish (r : Reading) : List KernelToken :=
  r.tokens ++ r.mode.token?.toList

end Reading

end KernelToken

open KernelToken

/-- **The tokens of a kernel's text.** -/
def kernelTokens (s : List Char) : List KernelToken :=
  (Reading.ofText s).finish

example : kernelTokens "x+=1.e-3f; // halved\n".toList =
    [.name "x", .mark "+=", .number "1.e-3f", .mark ";"] := by decide

variable {s t e word : List Char} {m : Mode} {c : Char} {r : Reading} {a b out : List KernelToken}

/-! ## Tokens stay -/

namespace KernelToken

theorem step_of_next_eq_none (h : r.mode.next c = none) :
    r.step c = ⟨Mode.opening c, r.tokens ++ r.mode.token?.toList⟩ := by
  unfold Reading.step
  rw [h]

theorem step_of_next_eq_some (h : r.mode.next c = some m) : r.step c = ⟨m, r.tokens⟩ := by
  unfold Reading.step
  rw [h]

/-- One character adds its tokens behind those that have been read. -/
theorem step_append (m : Mode) (out a : List KernelToken) (c : Char) :
    Reading.step ⟨m, out ++ a⟩ c = ⟨(Reading.step ⟨m, a⟩ c).mode, out ++ (Reading.step ⟨m, a⟩ c).tokens⟩ := by
  cases h : m.next c with
  | none =>
      rw [step_of_next_eq_none (r := ⟨m, out ++ a⟩) h, step_of_next_eq_none (r := ⟨m, a⟩) h]
      simp only [List.append_assoc]
  | some m' =>
      rw [step_of_next_eq_some (r := ⟨m, out ++ a⟩) h, step_of_next_eq_some (r := ⟨m, a⟩) h]

/-- **So does a text.** -/
theorem foldl_step (s : List Char) (m : Mode) (out a : List KernelToken) :
    s.foldl Reading.step ⟨m, out ++ a⟩ =
      ⟨(s.foldl Reading.step ⟨m, a⟩).mode, out ++ (s.foldl Reading.step ⟨m, a⟩).tokens⟩ := by
  induction s generalizing m a with
  | nil => rfl
  | cons c s ih =>
      rw [List.foldl_cons, step_append, ih]
      rfl

end KernelToken

/-- **A text is cut where its next character does not belong to what the reader is in.** -/
theorem kernelTokens_append_cons (hc : (Reading.ofText s).mode.next c = none) (t : List Char) :
    kernelTokens (s ++ c :: t) = kernelTokens s ++ kernelTokens (c :: t) := by
  have hstart : Reading.start.step c = ⟨Mode.opening c, []⟩ := step_of_next_eq_none rfl
  have hstep : (Reading.ofText s).step c = ⟨Mode.opening c, kernelTokens s ++ []⟩ := by
    rw [List.append_nil]
    exact step_of_next_eq_none hc
  show (Reading.ofText (s ++ c :: t)).finish = kernelTokens s ++ (Reading.ofText (c :: t)).finish
  unfold Reading.ofText at hstep ⊢
  rw [List.foldl_append, List.foldl_cons, List.foldl_cons, hstart, hstep, foldl_step]
  simp only [Reading.finish, List.append_assoc]

/-! ## Pieces of a text -/

/-- The marks that are read for themselves, whatever stands around them. -/
def breakMarks : List Char :=
  ['(', ')', '[', ']', '\x7b', '\x7d', ',', ';']

/-- Blanks and those marks. -/
def isBreak (c : Char) : Bool :=
  isAsciiBlank c || breakMarks.contains c

theorem isBreak_iff : isBreak c = true ↔ isAsciiBlank c = true ∨ c ∈ breakMarks := by
  rw [isBreak, Bool.or_eq_true, List.contains_iff_mem]

theorem not_isAsciiWord_of_isBreak (h : isBreak c = true) : isAsciiWord c = false := by
  rcases isBreak_iff.mp h with hblank | hmark
  · exact not_isAsciiWord_of_isAsciiBlank hblank
  · have hall : breakMarks.all (!isAsciiWord ·) = true := rfl
    simpa using List.all_eq_true.mp hall c hmark

/-- Nothing goes on behind them. -/
theorem next_opening_of_isBreak (hc : isBreak c = true) (d : Char) : (Mode.opening c).next d = none := by
  rcases isBreak_iff.mp hc with hblank | hmark
  · rw [Mode.opening, if_pos hblank]
    rfl
  · have hall : breakMarks.all (fun b => Mode.opening b == .mark [b]) = true := rfl
    have hopen : Mode.opening c = .mark [c] := by simpa using List.all_eq_true.mp hall c hmark
    rw [hopen]
    simp only [breakMarks, List.mem_cons, List.not_mem_nil, or_false] at hmark
    rcases hmark with rfl | rfl | rfl | rfl | rfl | rfl | rfl | rfl <;> simp [Mode.next, longMarks]

/-- Whether a text ends with a break, and not inside of something that the break belongs to. -/
def endsWithBreak (s : List Char) : Bool :=
  s.getLast?.any fun c => isBreak c && (Reading.ofText s).mode == Mode.opening c

/-- **A piece is read as its tokens**, whatever stands behind it. -/
def Reads (s : List Char) (tokens : List KernelToken) : Prop :=
  ∀ t, kernelTokens (s ++ t) = tokens ++ kernelTokens t

namespace Reads

theorem nil : Reads [] [] := fun _ => rfl

theorem append (hs : Reads s a) (ht : Reads t b) : Reads (s ++ t) (a ++ b) := by
  intro u
  rw [List.append_assoc, hs, ht, List.append_assoc]

/-- Nothing but the piece. -/
theorem kernelTokens_eq (h : Reads s a) : kernelTokens s = a := by
  have hs := h []
  rwa [List.append_nil, show kernelTokens [] = [] from rfl, List.append_nil] at hs

theorem flatMap {α : Type} {f : α → List Char} {g : α → List KernelToken} {xs : List α}
    (h : ∀ x ∈ xs, Reads (f x) (g x)) : Reads (xs.flatMap f) (xs.flatMap g) := by
  induction xs with
  | nil => exact nil
  | cons x xs ih =>
      obtain ⟨hx, hxs⟩ := List.forall_mem_cons.mp h
      rw [List.flatMap_cons, List.flatMap_cons]
      exact hx.append (ih hxs)

/-- **A piece that ends with a break** is read in its own way. -/
theorem of_break (hs : kernelTokens s = a) (hend : endsWithBreak s = true) : Reads s a := by
  obtain ⟨c, -, hc⟩ := (Option.any_eq_true _ _).mp hend
  obtain ⟨hbreak, hmode⟩ := Bool.and_eq_true_iff.mp hc
  rw [beq_iff_eq] at hmode
  intro t
  cases t with
  | nil =>
      rw [List.append_nil, hs]
      exact (List.append_nil a).symm
  | cons d t =>
      have hnext : (Reading.ofText s).mode.next d = none := by
        rw [hmode]
        exact next_opening_of_isBreak hbreak d
      rw [kernelTokens_append_cons hnext, hs]

end Reads

/-! ## Words and numbers -/

namespace KernelToken

/-- What takes a letter takes a word. -/
theorem foldl_word (mode : List Char → Mode)
    (hmode : ∀ t c, isAsciiWord c = true → (mode t).next c = some (mode (t ++ [c])))
    (hword : ∀ c ∈ word, isAsciiWord c = true) (t : List Char) :
    word.foldl Reading.step ⟨mode t, a⟩ = ⟨mode (t ++ word), a⟩ := by
  induction word generalizing t with
  | nil => rw [List.append_nil, List.foldl_nil]
  | cons c word ih =>
      obtain ⟨hc, hrest⟩ := List.forall_mem_cons.mp hword
      rw [List.foldl_cons, step_of_next_eq_some (hmode t c hc), ih hrest, List.append_assoc, List.singleton_append]

/-- The start of the token included. -/
theorem ofText_word (mode : List Char → Mode)
    (hmode : ∀ t c, isAsciiWord c = true → (mode t).next c = some (mode (t ++ [c])))
    (hopen : Mode.opening c = mode [c]) (hword : ∀ c ∈ word, isAsciiWord c = true) :
    Reading.ofText (c :: word) = ⟨mode (c :: word), []⟩ := by
  have hstart : Reading.start.step c = ⟨mode [c], []⟩ := by
    rw [← hopen]
    exact step_of_next_eq_none rfl
  rw [Reading.ofText, List.foldl_cons, hstart, foldl_word mode hmode hword]
  rfl

end KernelToken

namespace Reads

/-- One token, which ends where something else starts. -/
theorem of_token (hs : Reading.ofText s = ⟨m, []⟩) (he : Reads (c :: e) b) (hc : m.next c = none) :
    Reads (s ++ c :: e) (m.token?.toList ++ b) := by
  have htokens : kernelTokens s = m.token?.toList := by
    rw [kernelTokens, hs]
    rfl
  intro t
  rw [List.append_assoc, List.cons_append, kernelTokens_append_cons (by rw [hs]; exact hc), htokens,
    ← List.cons_append, he, List.append_assoc]

/-- **A name** in front of something else. -/
theorem name {x : String} (hx : isIdentifier x.toList = true) (he : Reads e b)
    (hbreak : e.head?.any isBreak = true) : Reads (x.toList ++ e) (.name x :: b) := by
  cases hchars : x.toList with
  | nil =>
    rw [hchars] at hx
    cases hx
  | cons c word =>
    cases e with
    | nil => cases hbreak
    | cons d e =>
      rw [hchars] at hx
      obtain ⟨hc, hrest⟩ := List.forall_mem_cons.mp fun y hy => isAsciiWord_of_mem_identifier hx (c := y) hy
      have hdigit : c.isDigit = false := by simpa using (isIdentifier_iff.mp hx).2
      have hopen : Mode.opening c = .name [c] := by
        simp [Mode.opening, not_isAsciiBlank_of_isAsciiWord hc, hdigit, hc]
      have hname := ofText_word .name (fun t c h => by simp [Mode.next, h]) hopen hrest
      have htoken : x = String.ofList (c :: word) := by rw [← hchars, String.ofList_toList]
      rw [htoken]
      refine of_token hname he ?_
      simp [Mode.next, not_isAsciiWord_of_isBreak hbreak]

/-- **A number** in front of something else. -/
theorem number {x : String} (hdigit : x.toList.head?.any Char.isDigit = true)
    (hword : ∀ c ∈ x.toList, isAsciiWord c = true) (he : Reads e b) (hbreak : e.head?.any isBreak = true) :
    Reads (x.toList ++ e) (.number x :: b) := by
  cases hchars : x.toList with
  | nil =>
    rw [hchars] at hdigit
    cases hdigit
  | cons c word =>
    cases e with
    | nil => cases hbreak
    | cons d e =>
      rw [hchars] at hdigit hword
      obtain ⟨hc, hrest⟩ := List.forall_mem_cons.mp hword
      have hopen : Mode.opening c = .number [c] := by
        have hstart : c.isDigit = true := hdigit
        simp [Mode.opening, not_isAsciiBlank_of_isAsciiWord hc, hstart]
      have hnumber := ofText_word .number (fun t c h => by simp [Mode.next, h]) hopen hrest
      have htoken : x = String.ofList (c :: word) := by rw [← hchars, String.ofList_toList]
      have hd : isBreak d = true := hbreak
      have hdot : d ≠ '.' := ne_of_class hd rfl
      have hplus : d ≠ '+' := ne_of_class hd rfl
      have hminus : d ≠ '-' := ne_of_class hd rfl
      rw [htoken]
      refine of_token hnumber he ?_
      simp [Mode.next, Mode.signsExponent, not_isAsciiWord_of_isBreak hd, hdot, hplus, hminus]

/-- **Names with something between them**, and something else behind the last. -/
theorem intercalate {sep : List Char} {α : Type} {f : α → List Char} {g : α → List KernelToken}
    (hsep : Reads sep a) (hsepBreak : sep.head?.any isBreak = true) (he : Reads e b)
    (hbreak : e.head?.any isBreak = true)
    (hf : ∀ x e b, Reads e b → e.head?.any isBreak = true → Reads (f x ++ e) (g x ++ b)) (xs : List α) :
    Reads (sep.intercalate (xs.map f) ++ e) (a.intercalate (xs.map g) ++ b) := by
  induction xs with
  | nil => exact he
  | cons x xs ih =>
    cases xs with
    | nil =>
      simp only [List.map_cons, List.map_nil, List.intercalate_singleton]
      exact hf x e b he hbreak
    | cons y ys =>
      simp only [List.map_cons, List.intercalate_cons_cons, List.append_assoc] at ih ⊢
      refine hf x _ _ (hsep.append ih) ?_
      cases sep with
      | nil => cases hsepBreak
      | cons d sep => exact hsepBreak

end Reads

/-! ## On one line -/

/-- A character that starts no literal, comment or directive. -/
def isSimple (c : Char) : Bool :=
  c != '/' && c != '#' && c != '"' && c != '\''

namespace KernelToken

/-- In nothing that ends with its line. -/
def Mode.Plain : Mode → Prop
  | .between | .name _ | .number _ => True
  | .mark t => t ≠ ['/']
  | _ => False

theorem isSimple_iff : isSimple c = true ↔ c ≠ '/' ∧ c ≠ '#' ∧ c ≠ '"' ∧ c ≠ '\'' := by
  simp [isSimple, and_assoc]

theorem plain_opening (hc : isSimple c = true) : (Mode.opening c).Plain := by
  obtain ⟨hslash, hhash, hdouble, hsingle⟩ := isSimple_iff.mp hc
  unfold Mode.opening
  by_cases hblank : isAsciiBlank c = true
  · simp [hblank, Mode.Plain]
  by_cases hdigit : c.isDigit = true
  · simp [hblank, hdigit, Mode.Plain]
  by_cases hword : isAsciiWord c = true
  · simp [hblank, hdigit, hword, Mode.Plain]
  · simp [hblank, hdigit, hword, hslash, hhash, hdouble, hsingle, Mode.Plain]

/-- Nor does it start a comment behind another mark than a slash. -/
theorem plain_next_mark {t : List Char} (ht : t ≠ ['/']) (hc : isSimple c = true)
    (h : (Mode.mark t).next c = some m) : m.Plain := by
  have hslash : c ≠ '/' := (isSimple_iff.mp hc).1
  have hline : t ++ [c] ≠ ['/', '/'] := fun heq => ht (List.append_inj_left' heq rfl)
  have hblock : t ++ [c] ≠ ['/', '*'] := fun heq => ht (List.append_inj_left' heq rfl)
  have hshort : t ++ [c] ≠ ['/'] := by
    intro heq
    have hlast := congrArg List.getLast? heq
    rw [List.getLast?_concat] at hlast
    exact hslash (Option.some.inj hlast)
  unfold Mode.next at h
  simp only [hline, hblock, if_false] at h
  by_cases hmark : t ++ [c] ∈ longMarks
  · rw [if_pos hmark, Option.some.injEq] at h
    rw [← h]
    exact hshort
  · rw [if_neg hmark, Option.ite_none_right_eq_some, Option.some.injEq] at h
    rw [← h.2]
    trivial

/-- A simple character leaves it so. -/
theorem plain_step (hr : r.mode.Plain) (hc : isSimple c = true) : (r.step c).mode.Plain := by
  cases h : r.mode.next c with
  | none =>
      rw [step_of_next_eq_none h]
      exact plain_opening hc
  | some m =>
      rw [step_of_next_eq_some h]
      cases hmode : r.mode with
      | between => simp [hmode, Mode.next] at h
      | name t =>
          simp only [hmode, Mode.next, Option.ite_none_right_eq_some, Option.some.injEq] at h
          simp [← h.2, Mode.Plain]
      | number t =>
          simp only [hmode, Mode.next, Option.ite_none_right_eq_some, Option.some.injEq] at h
          simp [← h.2, Mode.Plain]
      | mark t =>
          rw [hmode] at hr h
          exact plain_next_mark hr hc h
      | _ => simp [hmode, Mode.Plain] at hr

/-- The blanks that end a line are like others. -/
theorem next_eq_none_of_isAsciiBlank (hm : m.Plain) (hc : isAsciiBlank c = true) : m.next c = none := by
  have hword := not_isAsciiWord_of_isAsciiBlank hc
  cases m with
  | between => rfl
  | name t => simp [Mode.next, hword]
  | number t =>
      have hdot : c ≠ '.' := ne_of_class hc rfl
      have hplus : c ≠ '+' := ne_of_class hc rfl
      have hminus : c ≠ '-' := ne_of_class hc rfl
      simp [Mode.next, Mode.signsExponent, hword, hdot, hplus, hminus]
  | mark t =>
      have hlast : ∀ u ∈ ['/', '/'] :: ['/', '*'] :: longMarks, t ++ [c] ≠ u := by
        rintro u hu rfl
        have hall : ∀ u ∈ ['/', '/'] :: ['/', '*'] :: longMarks, u.getLast?.all (!isAsciiBlank ·) = true := by decide
        have hblank := hall _ hu
        simp [hc] at hblank
      obtain ⟨hline, hblock, hlong⟩ : _ ∧ _ ∧ _ := by simpa only [List.forall_mem_cons] using hlast
      have hdigit : c.isDigit = false := by
        simp [isAsciiWord, Char.isAlphanum] at hword
        exact hword.1.2
      have hmark : t ++ [c] ∉ longMarks := fun hmem => hlong _ hmem rfl
      simp [Mode.next, hline, hblock, hmark, hdigit]
  | _ => simp [Mode.Plain] at hm

theorem step_of_isAsciiBlank (hr : r.mode.Plain) (hc : isAsciiBlank c = true) :
    r.step c = ⟨.between, r.finish⟩ := by
  rw [step_of_next_eq_none (next_eq_none_of_isAsciiBlank hr hc), Mode.opening, if_pos hc]
  rfl

end KernelToken

/-- **A text of simple characters is read alike on one line and on many.** -/
theorem kernelTokens_flatten (h : ∀ c ∈ s, isSimple c = true) :
    kernelTokens (Extraction.flatten s) = kernelTokens s := by
  -- along the text, the reader is in nothing that a newline would end
  have hfold : ∀ r : Reading, r.mode.Plain →
      (Extraction.flatten s).foldl Reading.step r = s.foldl Reading.step r := by
    induction s with
    | nil => exact fun _ _ => rfl
    | cons c s ih =>
        obtain ⟨hc, hs⟩ := List.forall_mem_cons.mp h
        intro r hr
        have hhead : r.step (if c = '\n' ∨ c = '\r' then ' ' else c) = r.step c := by
          by_cases hend : c = '\n' ∨ c = '\r'
          · have hblank : isAsciiBlank c = true := by rcases hend with rfl | rfl <;> rfl
            rw [if_pos hend, step_of_isAsciiBlank hr rfl, step_of_isAsciiBlank hr hblank]
          · rw [if_neg hend]
        rw [Extraction.flatten, List.map_cons, List.foldl_cons, List.foldl_cons, hhead]
        exact ih hs _ (plain_step hr hc)
  unfold kernelTokens Reading.ofText
  rw [hfold Reading.start trivial]

end Inlay
