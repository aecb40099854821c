import Inlay.Proofs.Kernel.Layout

/-!
# `Proofs.Kernel.BodyLines` — the lines of a body on the lines of the source

The assembler sees the lines of a body and counts them from one; what is reported to the user is a line of the
source. The number is composed of three: the line of the introducer, the newlines in front of the brace, and the
line of the body. Here they are shown to add up, for every block that the finder takes out of a text: line `i` of
the body starts at a byte that stands on line `sourceLine i` (`Numbered`, `numbered_of_extract`).
-/

namespace Inlay

/-- A text stands in another one at an offset in bytes. -/
def StandsAt (x text : List Char) (offset : Nat) : Prop :=
  ∃ before behind, text = before ++ (x ++ behind) ∧ byteLength before = offset

namespace Block

variable {b : Block} {text raw before behind : List Char} {line : String} {i k : Nat}

/-! ## Where a line of the body starts -/

/-- The part of a block in front of line `i` of its body, counted from one. -/
def beforeBodyLine (b : Block) (i : Nat) : List Char :=
  b.text.header ++ '{' :: beforeLine b.text.body (i - 1)

/-- Bytes in front of line `i` of the body. -/
def bodyLineOffset (b : Block) (i : Nat) : Nat :=
  b.start + byteLength (b.beforeBodyLine i)

/-- The lines of a body are the lines of its text, without what is cut from their ends. -/
theorem prefix_of_bodyLines (h : b.bodyLines[k]? = some line) :
    ∃ raw, (sourceLines b.text.body)[k]? = some raw ∧ line.toList <+: raw := by
  unfold bodyLines at h
  rw [List.getElem?_map] at h
  obtain ⟨raw, hraw, rfl⟩ := Option.map_eq_some_iff.mp h
  refine ⟨raw, hraw, ?_⟩
  rw [String.toList_ofList]
  -- what is dropped from the front of the reversed line is dropped from the end of the line
  have hsuffix := List.dropWhile_suffix (l := raw.reverse) (· == '\r')
  rw [← List.reverse_prefix, List.reverse_reverse] at hsuffix
  exact hsuffix

/-- **A line of the body splits its block.** The newlines in front of it are those of the header and those of the
    lines before. -/
theorem exists_split_of_bodyLine (h : (sourceLines b.text.body)[i - 1]? = some raw) :
    newlines (b.beforeBodyLine i) = b.headerLines + (i - 1) ∧
      ∃ rest, rest ≠ [] ∧ b.text.chars = b.beforeBodyLine i ++ (raw ++ rest) := by
  obtain ⟨hnew, rest, hbody, -⟩ := eq_beforeLine_append h
  constructor
  · rw [beforeBodyLine, newlines_append, newlines_cons_of_ne (by decide), hnew]
    rfl
  · refine ⟨rest ++ '}' :: b.text.ending, by simp, ?_⟩
    rw [BlockText.chars, beforeBodyLine]
    conv => lhs; rw [hbody]
    simp only [List.append_assoc, List.cons_append]

/-! ## Line numbers of a block -/

/-- **A line of the body on its line of the source.** -/
structure BodyLineAt (b : Block) (text : List Char) (i : Nat) (line : String) : Prop where
  /-- The line starts inside the block. -/
  inside : b.bodyLineOffset i < b.stop
  /-- It stands at the offset where it starts. -/
  stands : StandsAt line.toList text (b.bodyLineOffset i)
  /-- That offset is on the line that is reported. -/
  number : lineAt text (b.bodyLineOffset i) = b.sourceLine i
  /-- So the line is a part of the line that is reported. -/
  part : ∃ whole, (sourceLines text)[b.sourceLine i - 1]? = some whole ∧ line.toList <:+: whole

/-- **The numbers of a block are those of the text** that it stands in, as are the numbers of the lines of its
    body. -/
structure Numbered (introducer : String) (text : List Char) (b : Block) : Prop where
  /-- The block stands where it says. -/
  stands : StandsAt b.text.chars text b.start
  /-- It starts with the introducer. -/
  opens : introducer.toList <+: b.text.chars
  /-- Its line is the line of the introducer. -/
  line : lineAt text b.start = b.startLine
  /-- Its body is numbered as the source is. -/
  body : ∀ i line, 1 ≤ i → b.bodyLines[i - 1]? = some line → b.BodyLineAt text i line

/-- The lines of the body of a block that stands behind `before`, as far as it is counted. -/
theorem bodyLineAt_of_split (htext : text = before ++ (b.text.chars ++ behind))
    (hstart : b.start = byteLength before) (hline : b.startLine = newlines before + 1)
    (hi : b.bodyLines[i - 1]? = some line) : b.BodyLineAt text i line := by
  obtain ⟨raw, hraw, returns, hreturns⟩ := prefix_of_bodyLines hi
  obtain ⟨hnew, rest, hrest, hchars⟩ := exists_split_of_bodyLine hraw
  -- the line splits the text as it splits the block
  have hsplit : text = (before ++ b.beforeBodyLine i) ++ (raw ++ (rest ++ behind)) := by
    rw [htext, hchars]
    simp only [List.append_assoc]
  have hoffset : byteLength (before ++ b.beforeBodyLine i) = b.bodyLineOffset i := by
    rw [byteLength_append, bodyLineOffset, hstart]
  have hnumber : newlines (before ++ b.beforeBodyLine i) + 1 = b.sourceLine i := by
    rw [newlines_append, hnew, sourceLine, hline]
    omega
  refine ⟨?_, ⟨_, returns ++ (rest ++ behind), ?_, hoffset⟩, ?_, ?_⟩
  · have hpos : byteLength rest ≠ 0 := fun hzero => hrest (byteLength_eq_zero hzero)
    rw [stop, length, hchars, byteLength_append, byteLength_append, bodyLineOffset]
    omega
  · rw [hsplit, ← hreturns, List.append_assoc line.toList]
  · rw [hsplit, ← hoffset, lineAt_append, hnumber]
  · have hone : '\n' ∉ raw := not_mem_of_mem_sourceLines (List.mem_of_getElem? hraw)
    obtain ⟨whole, hwhole, hinfix⟩ := exists_line_infix hone (before ++ b.beforeBodyLine i) (rest ++ behind)
    refine ⟨whole, ?_, (show line.toList <+: raw from ⟨returns, hreturns⟩).isInfix.trans hinfix⟩
    rw [hsplit, ← hnumber, Nat.add_sub_cancel, hwhole]

end Block

/-- **Every block that is found is numbered by its text.** -/
theorem BlockFinder.numbered_of_extract {f : BlockFinder} {source : String} {e : Extraction} {b : Block}
    (h : f.extract source = .ok e) (hb : b ∈ e.blocks) : b.Numbered f.introducer source.toList := by
  obtain ⟨before, behind, htext, hstart, hline, hopens, -⟩ := exists_split_of_extract h hb
  refine ⟨⟨before, behind, htext, hstart.symm⟩, ?_, ?_, ?_⟩
  · simp only [BlockText.chars, BlockText.header, BlockText.opening, hopens, List.append_assoc]
    exact List.prefix_append _ _
  · rw [htext, hstart, lineAt_append, hline]
  · intro i line _ hi
    exact Block.bodyLineAt_of_split htext hstart hline hi

end Inlay
