import Mathlib
import Inlay.Proofs.Compiler.Preparation
import Inlay.Proofs.Kernel.BodyLines
import Inlay.Proofs.Kernel.Splice
import Inlay.Proofs.Text.Stripping

/-!
# `Proofs.Compiler.LineNumbers` — every part of the compiler counts the same lines

Two compilers report lines to the user: the assembler, which sees the body of one block, and the device, which sees
the source with dummies in place of the blocks. Both numbers are lines of the source that the user wrote, or of its
expansion if it has tags. For the assembler the number is computed (`diagnostics_name_source_lines`); for the device
the lines stay where they are (`device_source_keeps_lines`).
-/

namespace Inlay

variable {o : Options} {source : String} {e : Extraction}

/-! ## Lines that the assembler reports -/

/-- A line of a body is what is left of its line of the source with comments. -/
theorem bodyLine_sublist_source {b : Block} {i : Nat} {line : String}
    (h : b.BodyLineAt (stripComments source.toList) i line) :
    ∃ original, (sourceLines source.toList)[b.sourceLine i - 1]? = some original ∧ line.toList.Sublist original := by
  obtain ⟨whole, hwhole, hinfix⟩ := h.part
  have hlines := stripped_lines_sublist source.toList
  obtain ⟨hlt, hget⟩ := List.getElem?_eq_some_iff.mp hwhole
  have hlt' : b.sourceLine i - 1 < (sourceLines source.toList).length := hlines.length_eq ▸ hlt
  refine ⟨_, List.getElem?_eq_getElem hlt', hinfix.sublist.trans ?_⟩
  rw [← hget]
  exact hlines.get hlt hlt'

/-- **Messages of the assembler name the lines of the source.** Let a source have no tags. Taking its comments out
    keeps its lines and deletes only in them; every block that is found and every line of its body start at bytes
    on the lines that are computed for them; and a message about a line of a body is logged with that number. -/
theorem diagnostics_name_source_lines (htags : ¬ ['[', '['] <:+: source.toList) (h : frontEnd o source = .ok e) :
    (sourceLines (stripComments source.toList)).length = (sourceLines source.toList).length ∧
      List.Forall₂ List.Sublist (sourceLines (stripComments source.toList)) (sourceLines source.toList) ∧
      (∀ b ∈ e.blocks, b.Numbered o.introducer (stripComments source.toList) ∧
        ∀ i line, 1 ≤ i → b.bodyLines[i - 1]? = some line → ∃ original,
          (sourceLines source.toList)[b.sourceLine i - 1]? = some original ∧ line.toList.Sublist original) ∧
      ∀ (σ : Type) (pool : Pool σ) (assemble : Assembler σ) (s : σ),
        ∀ a ∈ (assembleBlocks pool o.parallel assemble e.blocks s).1,
        a.block ∈ e.blocks ∧ ∀ d ∈ a.output.diagnostics, ∀ i, d.line = some i →
          ⟨d.level, .assemble, s!"{a.block.name}:{a.block.sourceLine i}: {d.message}"⟩ ∈
            (prepare pool o assemble source s).1.log := by
  obtain ⟨expanded, hexpand, hextract⟩ := frontEnd_eq_ok.mp h
  rw [expand_of_no_tag o.iterationLimit htags] at hexpand
  cases hexpand
  refine ⟨?_, stripped_lines_sublist source.toList, ?_, ?_⟩
  · rw [length_sourceLines, length_sourceLines, newlines_stripComments]
  · intro b hb
    have hnumbered := BlockFinder.numbered_of_extract hextract hb
    rw [String.toList_ofList] at hnumbered
    exact ⟨hnumbered, fun i line hi hline => bodyLine_sublist_source (hnumbered.body i line hi hline)⟩
  · intro σ pool assemble s a ha
    refine ⟨block_mem_of_mem_assembleBlocks ha, fun d hd i hi => ?_⟩
    rw [← diagnosticEntry_of_line hi]
    exact diagnosticEntry_mem_log h ha hd

/-- Standard options, but with a short word in front of blocks. -/
def shortIntroducer : Options :=
  { Options.standard with introducer := "a" }

/-- A comment over two lines, and a block with its brace on a line of its own. -/
def commented : String :=
  "/*\n*/a f ()\n\x7b x\n \x7d"

/-- An assembler that has something to say about the second line of every body. -/
def rejectSecond : Assembler Unit :=
  fun _ s => (⟨[], 0, 0, "", [⟨some 2, "bad", .error⟩], false⟩, s)

/-- **The second line of the body is line four**, with a newline from a comment and one from the header. -/
theorem second_body_line_is_line_four :
    ¬ ['[', '['] <:+: commented.toList ∧ ∃ e b, frontEnd shortIntroducer commented = .ok e ∧ b ∈ e.blocks ∧
      lineAt (stripComments commented.toList) (b.bodyLineOffset 2) = 4 ∧
      ⟨.error, .assemble, "f:4: bad"⟩ ∈ (prepare oneWorker shortIntroducer rejectSecond commented ()).1.log := by
  have hchars : commented.toList =
      ['/', '*', '\n', '*', '/', 'a', ' ', 'f', ' ', '(', ')', '\n', '\x7b', ' ', 'x', '\n', ' ', '\x7d'] := by
    cbv
  have htags : ¬ ['[', '['] <:+: commented.toList := by
    rw [hchars]
    decide
  have hrun : (frontEnd shortIntroducer commented).map
      (fun e => e.blocks.map fun b => (b.name, b.sourceLine 2, b.bodyLines)) = .ok [("f", 4, [" x", " "])] := by
    cbv
  obtain ⟨e, he, hblocks⟩ := map_eq_ok.mp hrun
  obtain ⟨b, hb, hvalues⟩ := List.map_eq_singleton_iff.mp hblocks
  simp only [Prod.mk.injEq] at hvalues
  obtain ⟨hname, hline, hbody⟩ := hvalues
  obtain ⟨-, -, hnumbered, hlog⟩ := diagnostics_name_source_lines htags he
  have hmem : b ∈ e.blocks := hb ▸ List.mem_singleton_self b
  refine ⟨htags, e, b, he, hmem, ?_, ?_⟩
  · rw [((hnumbered b hmem).1.body 2 " " (by decide) (by rw [hbody]; rfl)).number, hline]
  · have hassembled : (assembleBlocks oneWorker shortIntroducer.parallel rejectSecond e.blocks ()).1 =
        [⟨b, (rejectSecond b.bodyLines ()).1⟩] := by
      rw [hb]
      rfl
    obtain ⟨-, hentry⟩ := hlog Unit oneWorker rejectSecond () _ (hassembled ▸ List.mem_singleton_self _)
    have hlogged := hentry ⟨some 2, "bad", .error⟩ List.mem_cons_self 2 rfl
    have hmessage : ∀ (name message : String) (k : Nat), name = "f" → k = 4 → message = "bad" →
        s!"{name}:{k}: {message}" = "f:4: bad" := by
      rintro _ _ _ rfl rfl rfl
      cbv
    rw [hmessage _ _ _ hname hline rfl] at hlogged
    exact hlogged

/-! ## Lines that the device reports -/

/-- **The source for the device keeps every line on its number.** So does a source in which any texts were put in
    place of its blocks, be they fewer or more than the blocks and with whatever newlines. -/
theorem device_source_keeps_lines :
    (∀ (f : BlockFinder) (source : String) (e : Extraction), f.extract source = .ok e →
      ∀ texts : List String, KeepsLines source.toList e.blocks texts (e.splice texts).toList) ∧
    ∀ (σ δ P : Type) (t : Toolchain σ δ P) (c : Compiler σ δ P) (source text : String),
      (c.deviceSource t source).1 = .ok text →
        ∃ expanded e dummies, expand c.options.iterationLimit source = .ok expanded ∧
          frontEnd c.options source = .ok e ∧ dummies.length = e.blocks.length ∧
          KeepsLines (stripComments expanded.toList) e.blocks dummies text.toList := by
  refine ⟨fun f source e h texts => BlockFinder.keepsLines_splice h texts, ?_⟩
  intro σ δ P t c source text h
  obtain ⟨e, hfront, -, rfl⟩ := deviceSource_eq_ok.mp h
  obtain ⟨expanded, hexpand, hextract⟩ := frontEnd_eq_ok.mp hfront
  have hkeeps := BlockFinder.keepsLines_splice hextract
    ((assembleBlocks t.pool c.options.parallel t.assembler e.blocks c.assembler).1.map fun a =>
      (a.dummy c.options.dummyStyle).text)
  rw [String.toList_ofList] at hkeeps
  refine ⟨expanded, e, _, hexpand, hfront, ?_, hkeeps⟩
  rw [List.length_map, length_assembleBlocks]

/-- Two blocks, of which the second one starts on the last line of the first one, and a line behind them. -/
def twoBlocks : String :=
  "a f()\x7b\n\x7d a g()\x7b\x7dx\ny"

/-- A toolchain that assembles every body to nothing and builds nothing. -/
def emptyToolchain : Toolchain Unit Unit Unit where
  assembler := fun _ s => (⟨[], 0, 0, "", [], true⟩, s)
  device :=
    { compileSource := fun _ d => (⟨none, false, ""⟩, d)
      binary := fun _ _ => .ok []
      loadBinaries := fun _ d => (.ok (), d)
      finish := fun _ d => (.ok (), d) }

/-- A compiler that has compiled nothing. -/
def freshCompiler : Compiler Unit Unit Unit :=
  ⟨shortIntroducer, (), (), .empty⟩

/-- **The line behind two blocks stays line three**, with the dummies in their places, and with three texts of which
    one has a newline and the last one has no block. -/
theorem line_behind_two_blocks_stays :
    ∃ e text, shortIntroducer.finder.extract twoBlocks = .ok e ∧
      (freshCompiler.deviceSource emptyToolchain twoBlocks).1 = .ok text ∧
      (sourceLines text.toList)[2]? = some ['y'] ∧
      (sourceLines (e.splice ["1\n2", "3", "4"]).toList)[2]? = some ['y'] := by
  have hrun : (shortIntroducer.finder.extract twoBlocks).map
      (fun e => e.blocks.map fun b => (b.start, b.stop)) = .ok [(0, 8), (9, 16)] := by
    cbv
  obtain ⟨e, hextract, hspans⟩ := map_eq_ok.mp hrun
  have hstripped : stripComments twoBlocks.toList = twoBlocks.toList := by cbv
  have hexpand : expand shortIntroducer.iterationLimit twoBlocks = .ok twoBlocks := by cbv
  have hfront : frontEnd shortIntroducer twoBlocks = .ok e :=
    frontEnd_eq_ok.mpr ⟨twoBlocks, hexpand, by rw [hstripped, String.ofList_toList]; exact hextract⟩
  -- the last line starts behind both blocks
  have hline : (sourceLines twoBlocks.toList)[2]? = some ['y'] := by cbv
  have hfree : ∀ b ∈ e.blocks, ¬ b.Meets (byteLength (beforeLine twoBlocks.toList 2))
      (byteLength (beforeLine twoBlocks.toList 2) + byteLength ['y']) := by
    have hbefore : byteLength (beforeLine twoBlocks.toList 2) = 18 := by cbv
    rintro b hb ⟨offset, -, hstop, hlo, -⟩
    have hmem := List.mem_map_of_mem (f := fun b : Block => (b.start, b.stop)) hb
    rw [hspans] at hmem
    simp only [List.mem_cons, Prod.mk.injEq, List.not_mem_nil, or_false] at hmem
    omega
  have hassembled : failedFunctions
      (assembleBlocks emptyToolchain.pool true emptyToolchain.assembler e.blocks ()).1 = [] := by
    obtain ⟨b₁, others, hblocks, -, hothers⟩ := List.map_eq_cons_iff.mp hspans
    obtain ⟨b₂, rfl, -⟩ := List.map_eq_singleton_iff.mp hothers
    rw [hblocks]
    rfl
  obtain ⟨hsplice, hdevice⟩ := device_source_keeps_lines
  have htext := (deviceSource_eq_ok (t := emptyToolchain) (c := freshCompiler)).mpr ⟨e, hfront, hassembled, rfl⟩
  obtain ⟨expanded, e', dummies, hexpand', hfront', -, hkeeps⟩ :=
    hdevice Unit Unit Unit emptyToolchain freshCompiler twoBlocks _ htext
  obtain rfl : twoBlocks = expanded := Except.ok.inj (hexpand.symm.trans hexpand')
  obtain rfl : e = e' := Except.ok.inj (hfront.symm.trans hfront')
  rw [hstripped] at hkeeps
  exact ⟨e, _, hextract, htext, hkeeps.line 2 _ hline hfree, (hsplice _ _ e hextract _).line 2 _ hline hfree⟩

end Inlay
