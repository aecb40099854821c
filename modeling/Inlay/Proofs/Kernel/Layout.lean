import Inlay.Proofs.Kernel.TakenApart
import Inlay.Proofs.Text.Lines

/-!
# `Proofs.Kernel.Layout` — an extraction keeps all of its source

An extraction is the source cut at its blocks. This module says what that means for every source that the finder
takes apart: the parts put together are the source, every block has the position that the text in front of it leads
to (`LaidOut`), and a block starts with its introducer and ends with its brace or its semicolon, so neither with a
newline (`BlockText.Bounded`). Every statement about the place of a block goes through `exists_split`.
-/

namespace Inlay

/-! ## The text of a block -/

namespace BlockText

variable {introducer s rest : List Char} {t : BlockText}

/-- **How a block starts and ends**: with a word, and with its brace or a semicolon. -/
structure Bounded (t : BlockText) : Prop where
  introducer : ∃ c word, t.introducer = c :: word ∧ isAsciiWord c = true
  ending : t.ending = [] ∨ ∃ blanks, t.ending = blanks ++ [';']

theorem Written.bounded {behind : List Char} (h : t.Written behind) (hne : t.introducer ≠ [])
    (hword : ∀ c ∈ t.introducer, isAsciiWord c = true) : t.Bounded := by
  constructor
  · obtain ⟨c, word, hc⟩ := List.exists_cons_of_ne_nil hne
    exact ⟨c, word, hc, hword c (hc ▸ List.mem_cons_self)⟩
  · have hending := h.ending
    generalize t.ending = ending at hending ⊢
    cases hending with
    | semicolon blank => exact Or.inr ⟨_, rfl⟩
    | absent other => exact Or.inl rfl

theorem chars_ne_nil (t : BlockText) : t.chars ≠ [] := by
  simp [chars]

theorem Bounded.head_ne_newline (h : t.Bounded) : ∀ c ∈ t.chars.head?, c ≠ '\n' := by
  obtain ⟨d, word, hword, hd⟩ := h.introducer
  rintro c hc rfl
  simp only [chars, header, opening, hword, List.cons_append, List.head?_cons, Option.mem_def,
    Option.some.injEq] at hc
  subst hc
  revert hd
  decide

theorem Bounded.getLast_ne_newline (h : t.Bounded) : ∀ c ∈ t.chars.getLast?, c ≠ '\n' := by
  rintro c hc rfl
  rcases h.ending with hnone | ⟨blanks, hsemi⟩
  · rw [chars, hnone, List.getLast?_concat] at hc
    cases hc
  · rw [chars, hsemi, ← List.cons_append, ← List.append_assoc, List.getLast?_concat] at hc
    cases hc

end BlockText

/-! ## Laid out cuts -/

namespace Extraction

variable {cuts : List (List Char × Block)} {before text rest : List Char} {b : Block} {p : Position}
  {e : Extraction}

/-- **Cuts of a text that starts at `p`**: every block has the position that what stands in front of it leads to,
    and opens with the introducer. -/
inductive LaidOut (introducer : List Char) : Position → List (List Char × Block) → Prop where
  | nil {p : Position} : LaidOut introducer p []
  | cons {p : Position} {before : List Char} {b : Block} {cuts : List (List Char × Block)}
      (position : b.position = p.advance before) (opens : b.text.introducer = introducer)
      (bounded : b.text.Bounded) (others : LaidOut introducer (b.position.advance b.text.chars) cuts) :
      LaidOut introducer p ((before, b) :: cuts)

/-- The text of cuts, and of what stands behind them. -/
def textOf (cuts : List (List Char × Block)) (rest : List Char) : List Char :=
  (cuts.flatMap fun (before, b) => before ++ b.text.chars) ++ rest

theorem source_eq_textOf (e : Extraction) : e.source = textOf e.cuts e.rest := rfl

@[simp] theorem textOf_nil : textOf [] rest = rest := rfl

@[simp] theorem textOf_cons : textOf ((before, b) :: cuts) rest = before ++ (b.text.chars ++ textOf cuts rest) := by
  simp [textOf]

/-- A block of laid out cuts splits their text: what stands in front of the block leads to its position. -/
theorem LaidOut.exists_split {introducer : List Char} (h : LaidOut introducer p cuts)
    (hb : b ∈ cuts.map (·.2)) (rest : List Char) :
    ∃ before behind, textOf cuts rest = before ++ (b.text.chars ++ behind) ∧ b.position = p.advance before ∧
      b.text.introducer = introducer ∧ b.text.Bounded := by
  induction h with
  | nil => cases hb
  | @cons p before b' cuts position opens bounded others ih =>
      rw [List.map_cons, List.mem_cons] at hb
      rcases hb with rfl | hb
      · exact ⟨before, textOf cuts rest, textOf_cons, position, opens, bounded⟩
      · obtain ⟨front, behind, htext, hposition, hopens, hbounded⟩ := ih hb
        refine ⟨before ++ (b'.text.chars ++ front), behind, ?_, ?_, hopens, hbounded⟩
        · rw [textOf_cons, htext]
          simp only [List.append_assoc]
        · rw [hposition, position, Position.advance_append, Position.advance_append]

end Extraction

/-! ## The finder lays out its blocks -/

open Extraction

variable {f : BlockFinder} {p : Position} {s rest : List Char} {cuts : List (List Char × Block)} {e : Extraction}

theorem TakenApart.laidOut (h : TakenApart f p s cuts rest) :
    textOf cuts rest = s ∧ LaidOut f.introducer.toList p cuts := by
  induction h with
  | rest passes => exact ⟨rfl, .nil⟩
  | block passes opens word separated written list others ih =>
      obtain ⟨hsource, hlaid⟩ := ih
      exact ⟨by rw [textOf_cons, hsource], .cons rfl opens (written.bounded word.1 word.2) hlaid⟩

namespace BlockFinder

/-- **Extraction loses nothing and counts right.** -/
theorem laidOut_extractFrom (h : f.extractFrom p s = .ok e) :
    e.source = s ∧ LaidOut f.introducer.toList p e.cuts :=
  (takenApart_of_extractFrom h).laidOut

/-- **A block stands where it says**: its offset counts the bytes in front of it and its line the newlines. -/
theorem exists_split_of_extract {source : String} {b : Block} (h : f.extract source = .ok e) (hb : b ∈ e.blocks) :
    ∃ before behind, source.toList = before ++ (b.text.chars ++ behind) ∧ b.start = byteLength before ∧
      b.startLine = newlines before + 1 ∧ b.text.introducer = f.introducer.toList ∧ b.text.Bounded := by
  obtain ⟨hsource, hlaid⟩ := laidOut_extractFrom h
  obtain ⟨before, behind, htext, hposition, hopens, hbounded⟩ := hlaid.exists_split hb e.rest
  obtain ⟨hoffset, hline⟩ := advance_offset_line {} before
  refine ⟨before, behind, ?_, ?_, ?_, hopens, hbounded⟩
  · rw [← hsource, source_eq_textOf, htext]
  · rw [Block.start, hposition, hoffset]
    exact Nat.zero_add _
  · rw [Block.startLine, hposition, hline]
    exact Nat.add_comm _ _

end BlockFinder

end Inlay
