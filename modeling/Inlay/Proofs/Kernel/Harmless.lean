import Inlay.Proofs.Kernel.TakenApart

/-!
# `Proofs.Kernel.Harmless` — texts that can go in place of blocks

What is put in place of a block comes next to texts of any kind: an at sign, a literal that was never closed, another
block. A text is harmless there if it starts with a part of a word, as the block did, ends outside of one, opens no
literal and does not have the introducer among its words (`Harmless`).

The units in front of a block see of it only that a word starts there, so they stay as they are (`Passes.alike`). With
a harmless text in place of every block the scan therefore passes all of the source, and there is no block left in it
(`BlockFinder.extract_splice`).
-/

namespace Inlay

open Extraction

variable {f : BlockFinder} {p : Position} {word s rest behind text : List Char} {cuts : List (List Char × Block)}
  {e : Extraction} {b : Block}

/-- **A text that can go in place of a block.** -/
structure Harmless (word text : List Char) : Prop where
  /-- It starts with a part of a word. -/
  head : ∃ c s, text = c :: s ∧ isAsciiWord c = true
  /-- It does not end with one. -/
  last : ∀ c ∈ text.getLast?, isAsciiWord c = false
  /-- It opens no literal. -/
  inert : ∀ c ∈ text, isInert c = true
  /-- It does not have the word among its words. -/
  words : word ∉ asciiWords text

namespace Harmless

/-- In one line it is as harmless, since a newline is as little a part of a word as the blank in its place. -/
theorem flatten (h : Harmless word text) : Harmless word (flatten text) := by
  have hkeep : ∀ c, isAsciiWord c = true → (if c = '\n' ∨ c = '\r' then ' ' else c) = c := by
    intro c hc
    exact if_neg (not_or.mpr ⟨ne_of_class hc rfl, ne_of_class hc rfl⟩)
  have hword : ∀ c, isAsciiWord (if c = '\n' ∨ c = '\r' then ' ' else c) = isAsciiWord c := by
    intro c
    by_cases hc : c = '\n' ∨ c = '\r'
    · rw [if_pos hc]
      rcases hc with rfl | rfl <;> rfl
    · rw [if_neg hc]
  constructor
  · obtain ⟨c, s, rfl, hc⟩ := h.head
    exact ⟨c, Extraction.flatten s, by rw [Extraction.flatten, List.map_cons, hkeep c hc]; rfl, hc⟩
  · intro c hc
    rw [Extraction.flatten, List.getLast?_map] at hc
    obtain ⟨d, hd, rfl⟩ := Option.map_eq_some_iff.mp hc
    rw [hword]
    exact h.last d hd
  · intro c hc
    obtain ⟨d, hd, rfl⟩ := List.mem_map.mp hc
    by_cases hline : d = '\n' ∨ d = '\r'
    · rw [if_pos hline]
      rfl
    · rw [if_neg hline]
      exact h.inert d hd
  · have hwords : asciiWords (Extraction.flatten text) = asciiWords text := by
      refine wordsBy_map (fun c => by rw [hword]) (fun c hc => hkeep c ?_) text
      simpa using hc
    rw [hwords]
    exact h.words

/-- Newlines behind it do no harm. -/
theorem append_newlines (h : Harmless word text) (n : Nat) : Harmless word (text ++ List.replicate n '\n') := by
  have hnewline : ∀ c ∈ List.replicate n '\n', c = '\n' := fun c => List.eq_of_mem_replicate
  constructor
  · obtain ⟨c, s, rfl, hc⟩ := h.head
    exact ⟨c, s ++ List.replicate n '\n', rfl, hc⟩
  · refine forall_getLast?_append h.last fun c hc => ?_
    rw [hnewline c (List.mem_of_getLast? hc)]
    rfl
  · intro c hc
    rcases List.mem_append.mp hc with hc | hc
    · exact h.inert c hc
    · rw [hnewline c hc]
      rfl
  · have hwords : asciiWords (text ++ List.replicate n '\n') = asciiWords text := by
      refine wordsBy_append_right text fun c hc => ?_
      rw [hnewline c hc]
      rfl
    rw [hwords]
    exact h.words

/-- **The scan passes a harmless text** in front of anything. -/
theorem passes (h : Harmless word text) (behind : List Char) : Passes word text behind :=
  .of_inert h.inert h.last h.words behind

end Harmless

/-- **A source with a harmless text in place of every block is passed.** The induction is on the blocks: what stands in
    front of a block is passed in front of its text as well, and the text in front of all that is left. -/
theorem TakenApart.passes_join {texts : List (List Char)} (h : TakenApart f p s cuts rest)
    (hlength : texts.length = cuts.length) (hharmless : ∀ t ∈ texts, Harmless f.introducer.toList t) :
    Passes f.introducer.toList (join cuts texts ++ rest) [] := by
  induction h generalizing texts with
  | rest passes =>
      obtain rfl := List.length_eq_zero_iff.mp hlength
      exact passes
  | @block p gap s rest t params cuts passes opens word separated written list others ih =>
      obtain ⟨text, texts, rfl⟩ := List.exists_cons_of_length_eq_add_one hlength
      have hothers := ih (Nat.succ.inj hlength) fun t ht => hharmless t (List.mem_cons_of_mem text ht)
      have htext := ((hharmless text List.mem_cons_self).flatten).append_newlines (newlines t.chars)
      -- both the block and its text start with a part of a word
      obtain ⟨d, v, hd, hdword⟩ := htext.head
      obtain ⟨hne, hall⟩ := word
      obtain ⟨c, u, hc⟩ := List.exists_cons_of_ne_nil hne
      have hgap : Passes f.introducer.toList gap
          (flatten text ++ List.replicate (newlines t.chars) '\n' ++ (join cuts texts ++ rest)) := by
        simp only [BlockText.chars, BlockText.header, BlockText.opening, hc, List.append_assoc,
          List.cons_append] at passes
        rw [hd]
        exact passes.alike (Or.inr ⟨hall c (hc ▸ List.mem_cons_self), hdword⟩) _
      have hjoin : join ((gap, (⟨p.advance gap, t, params⟩ : Block)) :: cuts) (text :: texts) ++ rest =
          gap ++ (flatten text ++ List.replicate (newlines t.chars) '\n' ++ (join cuts texts ++ rest)) := by
        simp only [join, inPlaceOf, List.headD_cons, List.tail_cons, List.append_assoc]
        rfl
      rw [← List.append_nil (flatten text ++ _ ++ _)] at hgap
      rw [hjoin]
      exact hgap.append ((htext.passes _).append hothers)

/-- **No block is left** if every block of a source was replaced by a harmless text. -/
theorem BlockFinder.extract_splice {source : String} (h : f.extract source = .ok e) {texts : List String}
    (hlength : texts.length = e.blocks.length)
    (hharmless : ∀ t ∈ texts, Harmless f.introducer.toList t.toList) :
    f.extract (e.splice texts) = .ok ⟨[], (e.splice texts).toList⟩ := by
  have hlength' : (texts.map String.toList).length = e.cuts.length := by
    rw [List.length_map, hlength, blocks, List.length_map]
  have hharmless' : ∀ t ∈ texts.map String.toList, Harmless f.introducer.toList t := by
    intro t ht
    obtain ⟨u, hu, rfl⟩ := List.mem_map.mp ht
    exact hharmless u hu
  have hpasses := (takenApart_of_extractFrom h).passes_join hlength' hharmless'
  refine extractFrom_eq_ok.mpr ?_
  rw [splice, String.toList_ofList]
  exact .rest hpasses

end Inlay
