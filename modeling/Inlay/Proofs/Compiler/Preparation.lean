import Inlay.Proofs.Compiler.Workers
import Inlay.Proofs.Fallible
import Inlay.Proofs.Text.Doubled
import Inlay.Compiler.Compilation

/-!
# `Proofs.Compiler.Preparation` — what happens in front of the device

What a front end that succeeds was made of (`frontEnd_eq_ok`), what the log says then in any case
(`entries_prefix_log`), and what a source that is ready for the device consists of (`prepare_eq_ok`). Statements
about whole compilations cite these and open neither definition.
-/

namespace Inlay

variable {o : Options} {source : String} {e : Extraction}

/-! ## Expansion without tags -/

/-- **A source without tags** is its own expansion. -/
theorem expand_of_no_tag (limit : Nat) (h : ¬ ['[', '['] <:+: source.toList) : expand limit source = .ok source := by
  unfold expand
  rw [cutAtDouble?_eq_none.mpr h, Option.isNone_none, if_pos rfl]

/-! ## The front end -/

theorem frontEnd_eq_ok : frontEnd o source = .ok e ↔ ∃ expanded, expand o.iterationLimit source = .ok expanded ∧
    o.finder.extract (String.ofList (stripComments expanded.toList)) = .ok e :=
  bind_eq_ok

/-! ## Preparation -/

section

variable {σ : Type} {pool : Pool σ} {assemble : Assembler σ} {s : σ}

/-- **The log reports the blocks**, and then the assembler, whether the blocks could be assembled or not. -/
theorem entries_prefix_log (h : frontEnd o source = .ok e) :
    extractionEntries e ++ (assembleBlocks pool o.parallel assemble e.blocks s).1.flatMap Assembled.entries <+:
      (prepare pool o assemble source s).1.log := by
  unfold prepare
  rw [h]
  dsimp only
  split
  · exact List.prefix_append _ _
  · exact List.prefix_refl _

/-- **A source is ready** if the front end succeeds and every block can be assembled, and then it is the source with
    dummies in place of its blocks. -/
theorem prepare_eq_ok {prepared : Prepared} : (prepare pool o assemble source s).1.result = .ok prepared ↔
    ∃ e, frontEnd o source = .ok e ∧
      failedFunctions (assembleBlocks pool o.parallel assemble e.blocks s).1 = [] ∧
      prepared = ⟨(assembleBlocks pool o.parallel assemble e.blocks s).1,
        e.splice ((assembleBlocks pool o.parallel assemble e.blocks s).1.map fun a =>
          (a.dummy o.dummyStyle).text)⟩ := by
  unfold prepare
  constructor
  · intro h
    cases hfront : frontEnd o source with
    | error err =>
        rw [hfront] at h
        cases h
    | ok e =>
        rw [hfront] at h
        dsimp only at h
        split at h
        · next hnone =>
          cases h
          exact ⟨e, rfl, hnone, rfl⟩
        · cases h
  · rintro ⟨e, hfront, hnone, rfl⟩
    rw [hfront]
    dsimp only
    rw [hnone]

/-- **What the device would receive** is the source with dummies in place of its blocks. -/
theorem deviceSource_eq_ok {δ P : Type} {t : Toolchain σ δ P} {c : Compiler σ δ P} {text : String} :
    (c.deviceSource t source).1 = .ok text ↔ ∃ e, frontEnd c.options source = .ok e ∧
      failedFunctions (assembleBlocks t.pool c.options.parallel t.assembler e.blocks c.assembler).1 = [] ∧
      text = e.splice ((assembleBlocks t.pool c.options.parallel t.assembler e.blocks c.assembler).1.map fun a =>
        (a.dummy c.options.dummyStyle).text) := by
  constructor
  · intro h
    obtain ⟨prepared, hprepared, rfl⟩ := map_eq_ok.mp h
    obtain ⟨e, hfront, hnone, rfl⟩ := prepare_eq_ok.mp hprepared
    exact ⟨e, hfront, hnone, rfl⟩
  · rintro ⟨e, hfront, hnone, rfl⟩
    exact map_eq_ok.mpr ⟨_, prepare_eq_ok.mpr ⟨e, hfront, hnone, rfl⟩, rfl⟩

/-- A message about a line is logged with the name of the function and the line of the source. -/
theorem diagnosticEntry_of_line {a : Assembled} {d : Diagnostic} {i : Nat} (hi : d.line = some i) :
    a.diagnosticEntry d = ⟨d.level, .assemble, s!"{a.block.name}:{a.block.sourceLine i}: {d.message}"⟩ := by
  rw [Assembled.diagnosticEntry, hi]

/-- **Every message of the assembler is logged.** -/
theorem diagnosticEntry_mem_log (h : frontEnd o source = .ok e) {a : Assembled} {d : Diagnostic}
    (ha : a ∈ (assembleBlocks pool o.parallel assemble e.blocks s).1) (hd : d ∈ a.output.diagnostics) :
    a.diagnosticEntry d ∈ (prepare pool o assemble source s).1.log := by
  refine (entries_prefix_log h).subset (List.mem_append_right _ (List.mem_flatMap.mpr ⟨a, ha, ?_⟩))
  unfold Assembled.entries
  exact List.mem_append_left _ (List.mem_append_left _ (List.mem_map_of_mem hd))

end

end Inlay
