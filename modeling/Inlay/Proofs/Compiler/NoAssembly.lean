import Mathlib
import Inlay.Proofs.Compiler.LineNumbers
import Inlay.Proofs.Kernel.DummyText
import Inlay.Proofs.Kernel.Harmless
import Inlay.Proofs.Kernel.Tiling

/-!
# `Proofs.Compiler.NoAssembly` — the device compiler never sees assembly

The device compiler receives the source with a dummy in place of each block. Every dummy is harmless where it stands
unless the introducer is one of its words, so the finder takes what is received for a source without blocks: nothing
of a block is left, none was put together from what stood around the blocks, and no literal was opened or closed.
-/

namespace Inlay

variable {f : BlockFinder} {source : String} {e : Extraction} {b : Block} {word : List Char}

/-- The name of a block that was found is an identifier. -/
theorem isIdentifier_name_of_extract (h : f.extract source = .ok e) (hb : b ∈ e.blocks) :
    isIdentifier b.name.toList = true := by
  obtain ⟨before, behind, -, hbetween⟩ := (BlockFinder.takenApart_of_extractFrom h).between .start hb
  rw [Block.name, String.toList_ofList]
  exact hbetween.written.name

/-- **A dummy is harmless** for every word but its own. -/
theorem Dummy.harmless_text {d : Dummy} (hname : isIdentifier d.name.toList = true)
    (hwords : word ∉ asciiWords d.text.toList) : Harmless word d.text.toList := by
  obtain ⟨inside, htext, -⟩ := d.exists_text
  constructor
  · exact ⟨'_', _, htext, rfl⟩
  · intro c hc
    rw [htext, ← List.cons_append, ← List.append_assoc, ← List.cons_append, ← List.append_assoc,
      List.getLast?_concat] at hc
    exact Option.some.inj hc ▸ rfl
  · exact isInert_text hname
  · exact hwords

/-- **The device compiler never sees assembly.** There is no block in what it receives, if the introducer is a word of
    no dummy. The name of a block is a word of its dummy. -/
theorem device_source_has_no_block {σ δ P : Type} {t : Toolchain σ δ P} {c : Compiler σ δ P} {text : String}
    (h : (c.deviceSource t source).1 = .ok text)
    (hwords : ∀ e, frontEnd c.options source = .ok e →
      ∀ a ∈ (assembleBlocks t.pool c.options.parallel t.assembler e.blocks c.assembler).1,
      c.options.introducer.toList ∉ asciiWords (a.dummy c.options.dummyStyle).text.toList) :
    c.options.finder.extract text = .ok ⟨[], text.toList⟩ := by
  obtain ⟨e, hfront, -, rfl⟩ := deviceSource_eq_ok.mp h
  obtain ⟨expanded, -, hextract⟩ := frontEnd_eq_ok.mp hfront
  refine BlockFinder.extract_splice hextract ?_ ?_
  · rw [List.length_map, length_assembleBlocks]
  · intro text htext
    obtain ⟨a, ha, rfl⟩ := List.mem_map.mp htext
    have hname : isIdentifier (a.dummy c.options.dummyStyle).name.toList = true :=
      isIdentifier_name_of_extract hextract (block_mem_of_mem_assembleBlocks ha)
    exact Dummy.harmless_text hname (hwords e hfront a ha)

/-- Standard options, but with a capital letter in front of blocks that dummies are not written with. -/
def capitalIntroducer : Options :=
  { Options.standard with introducer := "G" }

/-- An at sign and a literal with the introducer in front of two blocks, and nothing between these. -/
def besideLiteral : String :=
  "\"G\"@G f(int p)\x7b\n\x7dG g()\x7b\x7d"

/-- **No block is left of the two**, and none is made of the literal or the at sign. -/
theorem no_block_left_of_two : ∃ text,
    (Compiler.deviceSource emptyToolchain besideLiteral ⟨capitalIntroducer, (), (), .empty⟩).1 = .ok text ∧
      capitalIntroducer.finder.extract text = .ok ⟨[], text.toList⟩ := by
  have hrun : (frontEnd capitalIntroducer besideLiteral).map (fun e => e.blocks.map Block.name) = .ok ["f", "g"] := by
    cbv
  obtain ⟨e, hfront, hnames⟩ := map_eq_ok.mp hrun
  have hassembled : failedFunctions
      (assembleBlocks emptyToolchain.pool true emptyToolchain.assembler e.blocks ()).1 = [] := by
    obtain ⟨b₁, others, hblocks, -, hothers⟩ := List.map_eq_cons_iff.mp hnames
    obtain ⟨b₂, rfl, -⟩ := List.map_eq_singleton_iff.mp hothers
    rw [hblocks]
    rfl
  have htext := (deviceSource_eq_ok (t := emptyToolchain) (c := ⟨capitalIntroducer, (), (), .empty⟩)).mpr
    ⟨e, hfront, hassembled, rfl⟩
  refine ⟨_, htext, device_source_has_no_block htext ?_⟩
  intro e' hfront' a ha
  obtain rfl : e = e' := Except.ok.inj (hfront.symm.trans hfront')
  -- a dummy has a capital letter behind F in its name only
  have hname : a.block.name ∈ ["f", "g"] := by
    rw [← hnames]
    exact List.mem_map_of_mem (block_mem_of_mem_assembleBlocks ha)
  have hforeign : ∃ c ∈ capitalIntroducer.introducer.toList, isDummyChar c = false := ⟨'G', by decide, by decide⟩
  have hboth : a.block.name = "f" ∨ a.block.name = "g" := by simpa using hname
  refine Dummy.not_mem_asciiWords_text ?_ ?_ hforeign
  · show isIdentifier a.block.name.toList = true
    rcases hboth with hname | hname <;> rw [hname] <;> decide
  · show capitalIntroducer.introducer.toList ≠ a.block.name.toList
    rcases hboth with hname | hname <;> rw [hname] <;> decide

end Inlay
