import Inlay.Proofs.Kernel.Layout

/-!
# `Proofs.Kernel.Splice` — putting texts in place of blocks keeps the lines

What stands in place of a block is one line and the newlines of the block, so that a compiler that reads the result
reports the lines of the source. `Spliced` reads the two texts side by side, block by block. From what one block
does (`getElem?_sourceLines_replace`) it follows by induction what all of them do: the lines clear of all blocks
stay, whatever the texts are and however many of them (`keepsLines_splice`).
-/

namespace Inlay

/-- A block has a byte in the range from `lo` up to `hi`. -/
def Block.Meets (b : Block) (lo hi : Nat) : Prop :=
  ∃ offset, b.start ≤ offset ∧ offset < b.stop ∧ lo ≤ offset ∧ offset < hi

/-! ## Two texts side by side -/

/-- **A text with its blocks replaced.** The two texts start at `p`. What is no block stands in both, complete and in
    order; in place of a block there is its text, or none, in one line, and as many newlines as the block has. -/
inductive Spliced : Position → List Block → List (List Char) → List Char → List Char → Prop where
  /-- Behind the last block the texts agree. -/
  | rest {p : Position} {texts : List (List Char)} {s : List Char} : Spliced p [] texts s s
  /-- They agree up to the next block. -/
  | block {p : Position} {gap t s out : List Char} {b : Block} {blocks : List Block} {texts : List (List Char)}
      (position : b.position = p.advance gap) (inPlace : t = Extraction.flatten (texts.headD []))
      (oneLine : '\n' ∉ t) (noReturn : '\r' ∉ t)
      (others : Spliced (b.position.advance b.text.chars) blocks texts.tail s out) :
      Spliced p (b :: blocks) texts (gap ++ (b.text.chars ++ s))
        (gap ++ (t ++ List.replicate b.spanLines '\n' ++ out))

namespace Spliced

variable {p : Position} {blocks : List Block} {texts : List (List Char)} {s out line : List Char} {k : Nat}

/-- **No newline is lost or added.** -/
theorem newlines_eq (h : Spliced p blocks texts s out) : newlines out = newlines s := by
  induction h with
  | rest => rfl
  | block position inPlace oneLine noReturn others ih =>
      simp only [newlines_append, newlines_eq_zero.mpr oneLine, newlines_replicate, ih]
      rw [Nat.zero_add]
      rfl

/-- **A line clear of all blocks stays.** The induction is on the blocks, with `front` for what is done: each step
    replaces one block and leaves the lines clear of it, and the newlines in front of the others. -/
theorem getElem?_sourceLines (h : Spliced p blocks texts s out) (front : List Char) (hp : p.line = newlines front + 1)
    (hclear : ∀ b ∈ blocks, ClearOf (b.startLine - 1) (b.startLine - 1 + b.spanLines) k line)
    (hline : (sourceLines (front ++ s))[k]? = some line) : (sourceLines (front ++ out))[k]? = some line := by
  induction h generalizing front with
  | rest => exact hline
  | @block p gap t s out b blocks texts position inPlace oneLine noReturn others ih =>
      have hstart : b.startLine = newlines (front ++ gap) + 1 := by
        rw [Block.startLine, position, (advance_offset_line p gap).2, hp, newlines_append]
        omega
      -- first this block alone, with the rest of the source behind it
      have hb := hclear b List.mem_cons_self
      rw [hstart, Nat.add_sub_cancel, Block.spanLines, ← newlines_append] at hb
      have hone : (sourceLines ((front ++ gap) ++ (t ++ List.replicate b.spanLines '\n' ++ s)))[k]? = some line := by
        refine getElem?_sourceLines_replace oneLine ?_ hb
        rw [List.append_assoc]
        exact hline
      -- then the others, behind what is now in front of them
      have hothers := ih (front ++ gap ++ (t ++ List.replicate b.spanLines '\n')) ?_
        (fun b' hb' => hclear b' (List.mem_cons_of_mem b hb')) (by rw [List.append_assoc]; exact hone)
      · simpa only [List.append_assoc] using hothers
      · show (b.position.advance b.text.chars).line = _
        rw [(advance_offset_line b.position b.text.chars).2, newlines_append, newlines_append t,
          newlines_eq_zero.mpr oneLine, newlines_replicate]
        show b.startLine + b.spanLines = _
        omega

end Spliced

/-! ## Splicing -/

namespace Extraction

variable {cuts : List (List Char × Block)} {p : Position} {e : Extraction}

theorem not_mem_flatten {c : Char} (hc : c = '\n' ∨ c = '\r') (t : List Char) : c ∉ flatten t := by
  intro hmem
  obtain ⟨d, -, hd⟩ := List.mem_map.mp hmem
  by_cases h : d = '\n' ∨ d = '\r'
  · rw [if_pos h] at hd
    subst hd
    revert hc
    decide
  · rw [if_neg h] at hd
    subst hd
    exact h hc

/-- **Joining replaces each block**, by its text if it has one. -/
theorem spliced_join {introducer : List Char} (h : LaidOut introducer p cuts) (texts : List (List Char))
    (rest : List Char) : Spliced p (cuts.map (·.2)) texts (textOf cuts rest) (join cuts texts ++ rest) := by
  induction h generalizing texts with
  | nil => exact .rest
  | @cons p before b cuts position opens bounded others ih =>
      have hjoin : join ((before, b) :: cuts) texts ++ rest =
          before ++ (flatten (texts.headD []) ++ List.replicate b.spanLines '\n' ++ (join cuts texts.tail ++ rest)) := by
        simp only [join, inPlaceOf, List.append_assoc]
      rw [textOf_cons, hjoin]
      exact .block position rfl (not_mem_flatten (Or.inl rfl) _) (not_mem_flatten (Or.inr rfl) _) (ih texts.tail)

end Extraction

/-- **A text that keeps the lines of a source** in which blocks were replaced by texts. -/
structure KeepsLines (source : List Char) (blocks : List Block) (texts : List String) (out : List Char) : Prop where
  /-- It has as many newlines. -/
  newlines : newlines out = newlines source
  /-- Every line without a byte of a block is the line of the same number. -/
  line : ∀ k line, (sourceLines source)[k]? = some line →
    (∀ b ∈ blocks,
      ¬ b.Meets (byteLength (beforeLine source k)) (byteLength (beforeLine source k) + byteLength line)) →
    (sourceLines out)[k]? = some line
  /-- The text outside of the blocks is complete and in order, around the texts. -/
  outside : Spliced {} blocks (texts.map String.toList) source out

/-- A line without a byte of a block is clear of the lines of the block. -/
theorem BlockFinder.clearOf_of_not_meets {f : BlockFinder} {source : String} {e : Extraction} {b : Block} {k : Nat}
    {line : List Char} (h : f.extract source = .ok e) (hb : b ∈ e.blocks)
    (hline : (sourceLines source.toList)[k]? = some line)
    (hmeets : ¬ b.Meets (byteLength (beforeLine source.toList k))
      (byteLength (beforeLine source.toList k) + byteLength line)) :
    ClearOf (b.startLine - 1) (b.startLine - 1 + b.spanLines) k line := by
  obtain ⟨before, behind, htext, hstart, hstartLine, -, hbounded⟩ := exists_split_of_extract h hb
  rw [htext] at hline hmeets
  rw [hstartLine, Nat.add_sub_cancel, Block.spanLines, ← newlines_append]
  refine clearOf_of_disjoint b.text.chars_ne_nil hbounded.head_ne_newline hbounded.getLast_ne_newline hline ?_
  rintro offset hle hlt ⟨hlo, hhi⟩
  refine hmeets ⟨offset, by rw [hstart]; exact hle, ?_, hlo, hhi⟩
  rw [Block.stop, Block.length, hstart]
  exact hlt

/-- **Splicing keeps the lines**, with any texts. -/
theorem BlockFinder.keepsLines_splice {f : BlockFinder} {source : String} {e : Extraction}
    (h : f.extract source = .ok e) (texts : List String) :
    KeepsLines source.toList e.blocks texts (e.splice texts).toList := by
  obtain ⟨hsource, hlaid⟩ := laidOut_extractFrom h
  have hspliced : Spliced {} e.blocks (texts.map String.toList) source.toList (e.splice texts).toList := by
    have := Extraction.spliced_join hlaid (texts.map String.toList) e.rest
    rw [Extraction.splice, String.toList_ofList, ← hsource]
    exact this
  refine ⟨hspliced.newlines_eq, fun k line hline hmeets => ?_, hspliced⟩
  exact hspliced.getElem?_sourceLines [] rfl (fun b hb => clearOf_of_not_meets h hb hline (hmeets b hb)) hline

end Inlay
