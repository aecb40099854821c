import Mathlib
import Inlay.Proofs.Kernel.Layout
import Inlay.Proofs.Text.Slices

/-!
# `Proofs.Kernel.Tiling` — blocks and the text between them

A block that is found stands between two texts: its place, its lines and the character in front of it are read off
the first one, the end of its span off the second (`Block.Between`). Along the text the spans come in order, none
reaches into the next one, and together with what is between them they are the text (`Tiles`).

Both are read off `TakenApart`, with what is done so far in front. What one block adds to that text keeps two things:
it leads to the position where the next block is looked for, and it does not end inside of a word.
-/

namespace Inlay

variable {f : BlockFinder} {p : Position} {s rest before behind : List Char} {t : BlockText} {e : Extraction}
  {cuts : List (List Char × Block)} {b : Block}

/-! ## The span of one block -/

namespace BlockText

/-- A block ends with its brace or its semicolon, and so not with a part of a word. -/
theorem Written.getLast? (h : t.Written behind) : ∀ c ∈ t.chars.getLast?, isAsciiWord c = false := by
  have hending := h.ending
  intro c hc
  generalize hend : t.ending = ending at hending
  cases hending with
  | semicolon blank =>
      rw [chars, hend, ← List.cons_append, ← List.append_assoc, List.getLast?_concat] at hc
      exact Option.some.inj hc ▸ rfl
  | absent other =>
      rw [chars, hend, List.getLast?_concat] at hc
      exact Option.some.inj hc ▸ rfl

/-- No part of a block in front of its body holds an opening brace. -/
theorem Written.takeWhile_brace (h : t.Written behind) (word : ∀ c ∈ t.introducer, isAsciiWord c = true) :
    t.chars.takeWhile (· ≠ '{') = t.header := by
  have hheader : ∀ c ∈ t.header, decide (c ≠ '{') = true := by
    intro c hc
    simp only [header, opening, List.mem_append, List.mem_cons, List.not_mem_nil, or_false] at hc
    rcases hc with (((((hc | hc) | hc) | hc) | rfl) | hc) | rfl | hc
    · exact decide_eq_true (ne_of_class (word c hc) rfl)
    · exact decide_eq_true (ne_of_class (h.beforeName c hc) rfl)
    · exact decide_eq_true (ne_of_class (isAsciiWord_of_mem_identifier h.name hc) rfl)
    · exact decide_eq_true (ne_of_class (h.beforeList c hc) rfl)
    · rfl
    · exact decide_eq_true (ne_of_class (p := endsList) rfl (h.list c hc)).symm
    · rfl
    · exact decide_eq_true (ne_of_class (h.beforeBody c hc) rfl)
  rw [chars, List.append_assoc]
  refine takeWhile_run hheader fun c hc => ?_
  exact Option.some.inj hc ▸ rfl

end BlockText

/-- **A block between two texts**: how it is written there, and what is reported about its place. -/
structure Block.Between (introducer : String) (b : Block) (before behind : List Char) : Prop where
  /-- Its span starts with the first byte behind the one text. -/
  start : b.start = byteLength before
  /-- Its span ends with its last byte. -/
  stop : b.stop = byteLength (before ++ b.text.chars)
  /-- It does not start inside of a word: the character in front of it is no part of one, and neither is a byte of
      a longer character. -/
  apart : ∀ c ∈ before.getLast?, isAsciiWord c = false
  /-- It starts with the introducer. -/
  opens : b.text.introducer = introducer.toList
  /-- There is a blank behind the introducer. -/
  separated : b.text.beforeName ≠ []
  /-- Its parts are those of a block in front of the other text. -/
  written : b.text.Written behind
  /-- Its line is that of the introducer. -/
  startLine : b.startLine = newlines before + 1
  /-- The lines of its header end in front of its first opening brace. -/
  headerLines : b.headerLines = newlines (b.text.chars.takeWhile (· ≠ '{'))
  /-- The lines of its span are those of its text. -/
  spanLines : b.spanLines = newlines b.text.chars

/-! ## All spans -/

/-- Where the spans of blocks in a text start and end, and where the text ends. -/
def borders (text : List Char) (blocks : List Block) : List Nat :=
  (blocks.flatMap fun b => [b.start, b.stop]) ++ [byteLength text]

/-- **Blocks that tile a text** together with what is between them. -/
structure Tiles (introducer : String) (text : List Char) (blocks : List Block) : Prop where
  /-- They come in order, and no two have a byte in common. -/
  ordered : blocks.Pairwise fun b b' => b.start < b'.start ∧ b.stop ≤ b'.start
  /-- The span of each is a part of the text that starts and ends at characters, and holds the block. -/
  span : ∀ b ∈ blocks, b.start < b.stop ∧ b.stop ≤ byteLength text ∧
    slice? text b.start b.stop = some b.text.chars
  /-- Each of them stands between the two texts around it. -/
  between : ∀ b ∈ blocks, ∃ before behind, text = before ++ (b.text.chars ++ behind) ∧
    b.Between introducer before behind
  /-- The spans and the gaps put together are the text. -/
  complete : ∃ parts, slices? text 0 (borders text blocks) = some parts ∧ parts.flatten = text

/-! ## What is done so far -/

/-- **The text in front of a place** leads there, and does not end inside of a word. -/
structure InFront (front : List Char) (p : Position) : Prop where
  position : p = ({} : Position).advance front
  apart : ∀ c ∈ front.getLast?, isAsciiWord c = false

namespace InFront

variable {front gap : List Char}

theorem start : InFront [] {} :=
  ⟨rfl, fun _ hc => nomatch hc⟩

theorem offset (h : InFront front p) : p.offset = byteLength front := by
  rw [h.position, (advance_offset_line {} front).1]
  exact Nat.zero_add _

theorem line (h : InFront front p) : p.line = newlines front + 1 := by
  rw [h.position, (advance_offset_line {} front).2]
  exact Nat.add_comm _ _

theorem append (h : InFront front p) {u : List Char} (hu : ∀ c ∈ u.getLast?, isAsciiWord c = false) :
    InFront (front ++ u) (p.advance u) :=
  ⟨by rw [h.position, Position.advance_append], forall_getLast?_append h.apart hu⟩

/-- A gap in front of a block does not end inside of a word, since the introducer is a word of its own. -/
theorem append_gap (h : InFront front p) (passes : Passes f.introducer.toList gap (t.chars ++ s))
    (word : t.introducer ≠ [] ∧ ∀ c ∈ t.introducer, isAsciiWord c = true) :
    InFront (front ++ gap) (p.advance gap) := by
  obtain ⟨hne, hall⟩ := word
  obtain ⟨c, u, hi⟩ := List.exists_cons_of_ne_nil hne
  simp only [BlockText.chars, BlockText.header, BlockText.opening, hi, List.append_assoc, List.cons_append] at passes
  exact h.append (passes.getLast? (hall c (hi ▸ List.mem_cons_self)))

/-- A block behind a text takes the place behind it to its own end. -/
theorem between (h : InFront front p) {params : List Param} (opens : t.introducer = f.introducer.toList)
    (word : ∀ c ∈ t.introducer, isAsciiWord c = true) (separated : t.beforeName ≠ []) (written : t.Written behind) :
    Block.Between f.introducer ⟨p, t, params⟩ front behind where
  start := h.offset
  stop := by rw [Block.stop, Block.start, Block.length, h.offset, byteLength_append]
  apart := h.apart
  opens := opens
  separated := separated
  written := written
  startLine := h.line
  headerLines := by rw [written.takeWhile_brace word]; rfl
  spanLines := rfl

end InFront

/-! ## The text that was taken apart -/

namespace TakenApart

variable {front : List Char}

/-- **Every block that is taken out stands between two texts.** -/
theorem between (h : TakenApart f p s cuts rest) (done : InFront front p) (hb : b ∈ cuts.map (·.2)) :
    ∃ before behind, s = before ++ (b.text.chars ++ behind) ∧ b.Between f.introducer (front ++ before) behind := by
  induction h generalizing front with
  | rest => cases hb
  | @block p gap s rest t params cuts passes opens word separated written list others ih =>
      have hgap := done.append_gap passes word
      rw [List.map_cons, List.mem_cons] at hb
      rcases hb with rfl | hb
      · exact ⟨gap, s, rfl, hgap.between opens word.2 separated written⟩
      · -- one of the others, with this block in front of it
        obtain ⟨before, behind, htext, hbetween⟩ := ih (hgap.append written.getLast?) hb
        refine ⟨gap ++ (t.chars ++ before), behind, ?_, ?_⟩
        · rw [htext]
          simp only [List.append_assoc]
        · simpa only [List.append_assoc] using hbetween

/-- **The blocks come in order.** All others start behind the first one. -/
theorem ordered (h : TakenApart f p s cuts rest) (done : InFront front p) :
    (cuts.map (·.2)).Pairwise fun b b' => b.start < b'.start ∧ b.stop ≤ b'.start := by
  induction h generalizing front with
  | rest => exact .nil
  | @block p gap s rest t params cuts passes opens word separated written list others ih =>
      have hgap := done.append_gap passes word
      have hblock := hgap.append written.getLast?
      refine .cons (fun b' hb' => ?_) (ih hblock)
      obtain ⟨before, behind, -, hbetween⟩ := others.between hblock hb'
      have hpos : byteLength t.chars ≠ 0 := fun hzero => t.chars_ne_nil (byteLength_eq_zero hzero)
      have hstart := hbetween.start
      simp only [byteLength_append] at hstart
      have hoffset := hgap.offset
      rw [byteLength_append] at hoffset
      show (p.advance gap).offset < b'.start ∧ (p.advance gap).offset + byteLength t.chars ≤ b'.start
      omega

/-- **Spans and gaps are the text** behind what is done. -/
theorem complete (h : TakenApart f p s cuts rest) (done : InFront front p) :
    ∃ parts, slices? (front ++ s) (byteLength front) (borders (front ++ s) (cuts.map (·.2))) = some parts ∧
      parts.flatten = s := by
  induction h generalizing front with
  | @rest p s passes =>
      have hslice := slice?_append front s []
      rw [List.append_nil] at hslice
      exact ⟨[s], slices?_cons hslice rfl, List.append_nil s⟩
  | @block p gap s rest t params cuts passes opens word separated written list others ih =>
      have hgap := done.append_gap passes word
      obtain ⟨parts, hparts, hflatten⟩ := ih (hgap.append written.getLast?)
      refine ⟨gap :: t.chars :: parts, ?_, by rw [List.flatten_cons, List.flatten_cons, hflatten]⟩
      have htext : front ++ gap ++ t.chars ++ s = front ++ (gap ++ (t.chars ++ s)) := by
        simp only [List.append_assoc]
      have hborders : borders (front ++ (gap ++ (t.chars ++ s)))
          (((gap, (⟨p.advance gap, t, params⟩ : Block)) :: cuts).map (·.2)) =
          byteLength (front ++ gap) :: byteLength (front ++ gap ++ t.chars) ::
            borders (front ++ (gap ++ (t.chars ++ s))) (cuts.map (·.2)) := by
        simp only [borders, List.map_cons, List.flatMap_cons, List.cons_append, List.nil_append, Block.start,
          Block.stop, Block.length, hgap.offset, byteLength_append _ t.chars]
      rw [htext] at hparts
      rw [hborders]
      refine slices?_cons (slice?_append front gap (t.chars ++ s)) (slices?_cons ?_ hparts)
      rw [← List.append_assoc]
      exact slice?_append (front ++ gap) t.chars s

end TakenApart

/-- **Extraction reports blocks and loses no text.** The blocks that are found in a text tile it. -/
theorem BlockFinder.tiles_of_extract {source : String} (h : f.extract source = .ok e) :
    e.source = source.toList ∧ Tiles f.introducer source.toList e.blocks := by
  have happart := takenApart_of_extractFrom h
  have hbetween : ∀ b ∈ e.blocks, ∃ before behind, source.toList = before ++ (b.text.chars ++ behind) ∧
      b.Between f.introducer before behind := fun b hb => happart.between .start hb
  refine ⟨(laidOut_extractFrom h).1, happart.ordered .start, ?_, hbetween, happart.complete .start⟩
  intro b hb
  obtain ⟨before, behind, htext, hb⟩ := hbetween b hb
  have hpos : byteLength b.text.chars ≠ 0 := fun hzero => b.text.chars_ne_nil (byteLength_eq_zero hzero)
  have hstart := hb.start
  have hstop := hb.stop
  rw [byteLength_append] at hstop
  refine ⟨by omega, ?_, ?_⟩
  · rw [htext, byteLength_append, byteLength_append]
    omega
  · rw [htext, hb.start, hb.stop]
    exact slice?_append before b.text.chars behind

/-! ## Splicing at the spans -/

/-- A text with its blocks replaced, from byte `start` on: what stands in front of the span of a block is copied, its
    replacement comes in its place, and copying goes on behind the span. -/
def spliceAt? (text : List Char) (start : Nat) : List Block → List (List Char) → Option (List Char)
  | [], _ => slice? text start (byteLength text)
  | b :: blocks, texts => do
    let gap ← slice? text start b.start
    let others ← spliceAt? text b.stop blocks texts.tail
    some (gap ++ Extraction.inPlaceOf b (texts.headD []) ++ others)

theorem spliceAt?_cons {text gap others : List Char} {start : Nat} {blocks : List Block} {texts : List (List Char)}
    (hgap : slice? text start b.start = some gap) (hothers : spliceAt? text b.stop blocks texts.tail = some others) :
    spliceAt? text start (b :: blocks) texts =
      some (gap ++ Extraction.inPlaceOf b (texts.headD []) ++ others) := by
  rw [spliceAt?, hgap]
  show (spliceAt? text b.stop blocks texts.tail >>= fun others => some _) = _
  rw [hothers]
  rfl

/-- **Joining what was taken apart is splicing at the spans**, behind what is done. -/
theorem TakenApart.spliceAt?_eq {front : List Char} (h : TakenApart f p s cuts rest) (done : InFront front p)
    (texts : List (List Char)) : spliceAt? (front ++ s) (byteLength front) (cuts.map (·.2)) texts =
      some (Extraction.join cuts texts ++ rest) := by
  induction h generalizing front texts with
  | @rest p s passes =>
      have hslice := slice?_append front s []
      rw [List.append_nil] at hslice
      exact hslice
  | @block p gap s rest t params cuts passes opens word separated written list others ih =>
      have hgap := done.append_gap passes word
      have hblock := hgap.append written.getLast?
      have hothers := ih hblock texts.tail
      have htext : front ++ gap ++ t.chars ++ s = front ++ (gap ++ (t.chars ++ s)) := by
        simp only [List.append_assoc]
      have hstop : (⟨p.advance gap, t, params⟩ : Block).stop = byteLength (front ++ gap ++ t.chars) := by
        rw [Block.stop, Block.start, Block.length, hgap.offset, byteLength_append _ t.chars]
      rw [htext, ← hstop] at hothers
      have hslice := slice?_append front gap (t.chars ++ s)
      rw [← hgap.offset] at hslice
      rw [Extraction.join, List.append_assoc _ _ rest]
      exact spliceAt?_cons hslice hothers

/-- **Splicing copies slices of the source**, and puts the texts in place of the spans. -/
theorem BlockFinder.spliceAt?_eq {source : String} (h : f.extract source = .ok e) (texts : List String) :
    spliceAt? source.toList 0 e.blocks (texts.map String.toList) = some (e.splice texts).toList := by
  rw [Extraction.splice, String.toList_ofList]
  exact (takenApart_of_extractFrom h).spliceAt?_eq .start (texts.map String.toList)

/-- Two blocks right behind each other, and a literal with the introducer in front of them. -/
def adjacentBlocks : String :=
  "x='asm';asm\nf(int a)\n\x7bé\n\x7d \t;asm g()\x7b\x7d \n"

/-- **Both blocks are found in their places**: the first one ends with its semicolon, where the second one starts. -/
theorem adjacent_blocks_tile : ∃ e, BlockFinder.extract ⟨"asm", .bits64⟩ adjacentBlocks = .ok e ∧
    e.blocks.map (fun b => (b.start, b.stop)) = [(8, 29), (29, 38)] ∧
    Tiles "asm" adjacentBlocks.toList e.blocks := by
  have hrun : (BlockFinder.extract ⟨"asm", .bits64⟩ adjacentBlocks).map
      (fun e => e.blocks.map fun b => (b.start, b.stop)) = .ok [(8, 29), (29, 38)] := by
    cbv
  obtain ⟨e, hextract, hspans⟩ := map_eq_ok.mp hrun
  exact ⟨e, hextract, hspans, (BlockFinder.tiles_of_extract hextract).2⟩

end Inlay
