import Inlay.Text.Literal
import Inlay.Kernel.Parameter

/-!
# `Inlay.Kernel.Extraction` — finding the blocks of a source

The source is read from left to right in units: literals, words and single characters. A word that is the
introducer opens a block, which must then be well formed. The result keeps all of the source, as blocks with the
text in front of each and the text behind the last one, so putting something else in place of the blocks is only
a matter of joining.
-/

namespace Inlay

/-! ## The parts of a block -/

/-- What is missing from a block that is not well formed. -/
inductive BlockFlaw where
  | name | list | listEnd | body | bodyEnd
deriving DecidableEq, Repr

/-- The wording of each flaw. -/
def BlockFlaw.message : BlockFlaw → String
  | name => "expected function name"
  | list => "expected '(' after function name"
  | listEnd => "unterminated parameter list"
  | body => "expected '\x7b' after parameter list"
  | bodyEnd => "unterminated block body, expected '\x7d'"

/-- Whether a character ends a parameter list, rightly or not. -/
def endsList (c : Char) : Bool :=
  c == ')' || c == '{' || c == '}' || c == ';'

/-- The blanks and the semicolon behind a body, and the text behind them. Without a semicolon the blanks stay. -/
def cutEnding (s : List Char) : List Char × List Char :=
  match s.dropWhile isLineBlank with
  | ';' :: rest => (s.takeWhile isLineBlank ++ [';'], rest)
  | _ => ([], s)

/-- Cuts a block from the text `s` behind its introducer. -/
def BlockText.cut (introducer s : List Char) : Except BlockFlaw (BlockText × List Char) :=
  let beforeName := s.takeWhile isAsciiBlank
  let s := s.dropWhile isAsciiBlank
  let name := s.takeWhile isAsciiWord
  if name.isEmpty || name.head?.any Char.isDigit then .error .name
  else
    let s := s.dropWhile isAsciiWord
    let beforeList := s.takeWhile isAsciiBlank
    match s.dropWhile isAsciiBlank with
    | '(' :: s =>
      let list := s.takeWhile fun c => !endsList c
      match s.dropWhile fun c => !endsList c with
      | ')' :: s =>
        let beforeBody := s.takeWhile isAsciiBlank
        match s.dropWhile isAsciiBlank with
        | '{' :: s =>
          let body := s.takeWhile (· ≠ '}')
          match s.dropWhile (· ≠ '}') with
          | _ :: s =>
            let (ending, rest) := cutEnding s
            .ok (⟨introducer, beforeName, name, beforeList, list, beforeBody, body, ending⟩, rest)
          | [] => .error .bodyEnd
        | _ => .error .body
      | _ => .error .listEnd
    | _ => .error .list

theorem cutEnding_append (s : List Char) : (cutEnding s).1 ++ (cutEnding s).2 = s := by
  unfold cutEnding
  split
  · next rest h =>
    have hs := List.takeWhile_append_dropWhile (p := isLineBlank) (l := s)
    rw [h] at hs
    simpa using hs
  · rfl

/-- A block and the text behind it are the text that it was cut from. -/
theorem BlockText.chars_append_of_cut {introducer s rest : List Char} {t : BlockText}
    (h : BlockText.cut introducer s = .ok (t, rest)) : t.chars ++ rest = introducer ++ s := by
  unfold BlockText.cut at h
  dsimp only at h
  split at h
  · simp at h
  split at h
  · next s₁ h₁ =>
    split at h
    · next s₂ h₂ =>
      split at h
      · next s₃ h₃ =>
        split at h
        · next c s₄ h₄ =>
          simp only [Except.ok.injEq, Prod.mk.injEq] at h
          obtain ⟨rfl, rfl⟩ := h
          have hc : c = '}' := by
            have := List.head?_dropWhile_not (fun c => decide (c ≠ '}')) s₃
            simp_all
          subst hc
          have e₀ := List.takeWhile_append_dropWhile (p := isAsciiBlank) (l := s)
          have e₁ := List.takeWhile_append_dropWhile (p := isAsciiWord) (l := s.dropWhile isAsciiBlank)
          have e₂ := List.takeWhile_append_dropWhile (p := isAsciiBlank)
            (l := (s.dropWhile isAsciiBlank).dropWhile isAsciiWord)
          have e₃ := List.takeWhile_append_dropWhile (p := fun c => !endsList c) (l := s₁)
          have e₄ := List.takeWhile_append_dropWhile (p := isAsciiBlank) (l := s₂)
          have e₅ := List.takeWhile_append_dropWhile (p := fun c => decide (c ≠ '}')) (l := s₃)
          have e₆ := cutEnding_append s₄
          rw [h₁] at e₂
          rw [h₂] at e₃
          rw [h₃] at e₄
          rw [h₄] at e₅
          simp only [chars, header, opening, List.append_assoc, List.cons_append, List.nil_append]
          rw [e₆, e₅, e₄, e₃, e₂, e₁, e₀]
        · simp at h
      · simp at h
    · simp at h
  · simp at h

/-! ## Extraction -/

/-- A source taken apart at its blocks. -/
structure Extraction where
  /-- Each block with the text in front of it, back to the block before. -/
  cuts : List (List Char × Block)
  /-- The text behind the last block. -/
  rest : List Char
deriving DecidableEq, Repr

namespace Extraction

/-- The blocks in order. -/
def blocks (e : Extraction) : List Block :=
  e.cuts.map (·.2)

/-- The warnings about all blocks, in order. -/
def warnings (e : Extraction) : List String :=
  e.blocks.flatMap Block.warnings

/-- The source that was taken apart. -/
def source (e : Extraction) : List Char :=
  (e.cuts.flatMap fun (before, b) => before ++ b.text.chars) ++ e.rest

/-- The extraction of a source with `text` in front. -/
def prepend (text : List Char) (e : Extraction) : Extraction :=
  match e.cuts with
  | [] => { e with rest := text ++ e.rest }
  | (before, b) :: others => { e with cuts := (text ++ before, b) :: others }

/-- A text in one line. -/
def flatten (text : List Char) : List Char :=
  text.map fun c => if c = '\n' ∨ c = '\r' then ' ' else c

/-- What a block becomes: a text in one line, and as many newlines as the block had. -/
def inPlaceOf (b : Block) (text : List Char) : List Char :=
  flatten text ++ List.replicate b.spanLines '\n'

/-- Cuts put together again, with a text in place of each block; blocks without one leave only newlines. -/
def join : List (List Char × Block) → List (List Char) → List Char
  | [], _ => []
  | (before, b) :: cuts, texts =>
    before ++ inPlaceOf b (texts.headD []) ++ join cuts texts.tail

/-- The source with the blocks replaced in order. Every line behind a block keeps its number. -/
def splice (e : Extraction) (texts : List String) : String :=
  String.ofList (join e.cuts (texts.map String.toList) ++ e.rest)

/-- The source without its blocks. -/
def stripped (e : Extraction) : String :=
  e.splice []

end Extraction

/-- The first unit of the text `c :: s`, and the rest. -/
def firstUnit (c : Char) (s : List Char) : List Char × List Char :=
  match c, s with
  | '@', '"' :: s => ('@' :: '"' :: (spanVerbatim s).1, (spanVerbatim s).2)
  | c, s =>
    if c = '"' ∨ c = '\'' then (c :: (spanQuoted c s).1, (spanQuoted c s).2)
    else if isAsciiWord c then (c :: s.takeWhile isAsciiWord, s.dropWhile isAsciiWord)
    else ([c], s)

theorem firstUnit_append (c : Char) (s : List Char) :
    (firstUnit c s).1 ++ (firstUnit c s).2 = c :: s := by
  unfold firstUnit
  split
  · simp [spanVerbatim_append]
  · split
    · simp [spanQuoted_append]
    · split <;> simp

theorem length_firstUnit_le (c : Char) (s : List Char) : (firstUnit c s).2.length ≤ s.length := by
  unfold firstUnit
  split
  · exact Nat.le_succ_of_le (length_spanVerbatim_le _)
  · split
    · exact length_spanQuoted_le _ _
    · split
      · exact (List.dropWhile_sublist _).length_le
      · exact Nat.le_refl _

theorem length_le_of_cut {introducer s rest : List Char} {t : BlockText}
    (h : BlockText.cut introducer s = .ok (t, rest)) : rest.length ≤ s.length := by
  have e := congrArg List.length (BlockText.chars_append_of_cut h)
  have hi : introducer.length ≤ t.chars.length := by
    have ht : t.introducer = introducer := by
      unfold BlockText.cut at h
      dsimp only at h
      repeat' split at h
      all_goals simp at h
      rw [← h.1]
    simp only [BlockText.chars, BlockText.header, BlockText.opening, ht, List.length_append]
    omega
  simp only [List.length_append] at e
  omega

/-- What is looked for: the word that opens a block, and how wide addresses are. -/
structure BlockFinder where
  introducer : String
  width : PointerWidth

namespace BlockFinder

/-- The extraction of a text that starts at `p`. The first block that is not well formed is a fault: of its parts
    at the introducer, of its parameters where they stand. -/
def extractFrom (f : BlockFinder) (p : Position) : List Char → Except Error Extraction
  | [] => .ok ⟨[], []⟩
  | c :: s =>
    let unit := (firstUnit c s).1
    if isAsciiWord c && unit == f.introducer.toList then
      match _cut : BlockText.cut unit (firstUnit c s).2 with
      | .error flaw => .error (.malformedBlock p.line flaw.message)
      | .ok (t, rest) => do
        let params ← Param.readList f.width (String.ofList t.name) (p.advance t.opening) t.list
        let others ← extractFrom f (p.advance t.chars) rest
        .ok { others with cuts := ([], ⟨p, t, params⟩) :: others.cuts }
    else
      (extractFrom f (p.advance unit) (firstUnit c s).2).map (Extraction.prepend unit)
termination_by s => s.length
decreasing_by
  · have := length_le_of_cut _cut
    have := length_firstUnit_le c s
    simp only [List.length_cons]
    omega
  · have := length_firstUnit_le c s
    simp only [List.length_cons]
    omega

/-- Takes a source without comments apart at its blocks. -/
def extract (f : BlockFinder) (source : String) : Except Error Extraction :=
  f.extractFrom {} source.toList

end BlockFinder

end Inlay
