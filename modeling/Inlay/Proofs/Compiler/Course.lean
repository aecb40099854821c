import Inlay.Proofs.Compiler.Preparation

/-!
# `Proofs.Compiler.Course` — all the ways through a compilation

A compilation has eight exits in front of its end and two ends. Each is written down once, with what was logged up to
it, what it reports or makes, and the compiler that it leaves: `Fails` for the exits and `Finishes` for the ends.
`compile` takes exactly one of them (`fails_or_finishes`), and the one that it takes says what it gives
(`Fails.compile_eq`, `Finishes.compile_eq`). Statements about whole compilations go by cases on these two and open no
definition of a stage.
-/

namespace Inlay

variable {σ δ P : Type}

/-! ## In front of the device -/

section

variable {pool : Pool σ} {o : Options} {assemble : Assembler σ} {source : String} {s : σ} {e : Extraction}

theorem prepare_of_frontEnd_error {err : Error} (h : frontEnd o source = .error err) :
    prepare pool o assemble source s = (⟨[], .error err⟩, s) := by
  rw [prepare, h]

theorem prepare_of_failed (h : frontEnd o source = .ok e)
    (hfailed : failedFunctions (assembleBlocks pool o.parallel assemble e.blocks s).1 ≠ []) :
    prepare pool o assemble source s =
      (⟨extractionEntries e ++ (assembleBlocks pool o.parallel assemble e.blocks s).1.flatMap Assembled.entries,
        .error (.assemblyFailed (failedFunctions (assembleBlocks pool o.parallel assemble e.blocks s).1))⟩,
        (assembleBlocks pool o.parallel assemble e.blocks s).2) := by
  rw [prepare, h]
  dsimp only
  split
  · next hnone => exact absurd hnone hfailed
  · rfl

theorem prepare_of_assembled (h : frontEnd o source = .ok e)
    (hnone : failedFunctions (assembleBlocks pool o.parallel assemble e.blocks s).1 = []) :
    prepare pool o assemble source s =
      (⟨extractionEntries e ++ (assembleBlocks pool o.parallel assemble e.blocks s).1.flatMap Assembled.entries ++
          (assembleBlocks pool o.parallel assemble e.blocks s).1.flatMap Assembled.dummyEntries,
        .ok ⟨(assembleBlocks pool o.parallel assemble e.blocks s).1,
          e.splice ((assembleBlocks pool o.parallel assemble e.blocks s).1.map fun a => (a.dummy o.dummyStyle).text)⟩⟩,
        (assembleBlocks pool o.parallel assemble e.blocks s).2) := by
  rw [prepare, h]
  dsimp only
  rw [hnone]

end

namespace Compiler

/-! ## What the stages give

All of it is a function of the extraction `e` and of the compiler in front of the compilation. -/

section

variable (t : Toolchain σ δ P) (e : Extraction) (c : Compiler σ δ P)

/-- The blocks with what the assembler makes of them. -/
def assembled : List Assembled :=
  (assembleBlocks t.pool c.options.parallel t.assembler e.blocks c.assembler).1

/-- The compiler behind the assembler. -/
def afterAssembly : Compiler σ δ P :=
  { c with assembler := (assembleBlocks t.pool c.options.parallel t.assembler e.blocks c.assembler).2 }

/-- The source for the device, with dummies in place of the blocks. -/
def deviceText : String :=
  e.splice ((c.assembled t e).map fun a => (a.dummy c.options.dummyStyle).text)

/-- The answer to the build of the source for the device. -/
def answer : BuildAnswer P :=
  (c.cache.build t.device (c.deviceText t e) c.device).1

/-- The compiler behind the build. -/
def afterBuild : Compiler σ δ P :=
  { c.afterAssembly t e with
    device := (c.cache.build t.device (c.deviceText t e) c.device).2.1
    cache := (c.cache.build t.device (c.deviceText t e) c.device).2.2 }

/-- The report on patching a binary with the code of the blocks. -/
def report (raw : Bytes) : PatchReport :=
  c.options.anchor.patch raw ((c.assembled t e).map Assembled.patch)

/-- What is logged up to the end of the assembly. -/
def assemblyEntries : Log :=
  extractionEntries e ++ (c.assembled t e).flatMap Assembled.entries

/-- What is logged up to the build. -/
def readyEntries : Log :=
  c.assemblyEntries t e ++ (c.assembled t e).flatMap Assembled.dummyEntries ++
    [buildEntry t.digest (c.deviceText t e) (c.answer t e)]

/-- What is logged up to the end of a build that gives a program. -/
def builtEntries : Log :=
  c.readyEntries t e ++ reportEntries (c.answer t e).build

end

/-! ## How far a compilation comes -/

section

variable (t : Toolchain σ δ P) (source : String) (c : Compiler σ δ P) (e : Extraction) (program : P) (raw : Bytes)

/-- **A source is ready for the device**: it is taken apart, and every block is assembled. -/
structure Ready : Prop where
  front : frontEnd c.options source = .ok e
  assembled : failedFunctions (c.assembled t e) = []

/-- **The build gives a program.** -/
structure Builds : Prop extends Ready t source c e where
  build : (c.answer t e).build.program? = some program

/-- **The binary of the program is read out.** -/
structure Reads : Prop extends Builds t source c e program where
  binary : t.device.binary program (c.afterBuild t e).device = .ok raw

end

variable {t : Toolchain σ δ P} {source : String} {c c' : Compiler σ δ P} {e : Extraction} {program : P} {raw : Bytes}
  {log : Log} {err : Error} {stage : Stage} {output : Output P}

/-- **The exits**: the stage of a failure, what was logged in front of it, the error, and the compiler that is left. -/
inductive Fails (t : Toolchain σ δ P) (source : String) (c : Compiler σ δ P) :
    Stage → Log → Error → Compiler σ δ P → Prop where
  /-- The tags cannot be expanded. -/
  | expansion {err : Error} (expansion : expand c.options.iterationLimit source = .error err) :
      Fails t source c .template [] err c
  /-- The expanded source cannot be taken apart. -/
  | extraction {expanded : String} {err : Error} (expansion : expand c.options.iterationLimit source = .ok expanded)
      (extraction : c.options.finder.extract (String.ofList (stripComments expanded.toList)) = .error err) :
      Fails t source c .extract [] err c
  /-- Some blocks cannot be assembled. All of them were tried. -/
  | assembly {e : Extraction} (front : frontEnd c.options source = .ok e)
      (failed : failedFunctions (c.assembled t e) ≠ []) :
      Fails t source c .assemble (c.assemblyEntries t e) (.assemblyFailed (failedFunctions (c.assembled t e)))
        (c.afterAssembly t e)
  /-- The build gives no program. -/
  | build {e : Extraction} (ready : c.Ready t source e) (unbuilt : (c.answer t e).build.program? = none) :
      Fails t source c .build (c.readyEntries t e) (.deviceBuildFailed (c.answer t e).build.log) (c.afterBuild t e)
  /-- The binary cannot be read out. -/
  | readOut {e : Extraction} {program : P} {err : Error} (built : c.Builds t source e program)
      (unread : t.device.binary program (c.afterBuild t e).device = .error err) :
      Fails t source c .build (c.builtEntries t e) err (c.afterBuild t e)
  /-- The patched binary cannot be loaded. -/
  | load {e : Extraction} {program : P} {raw : Bytes} {err : Error} {d : δ} (read : c.Reads t source e program raw)
      (blocks : e.blocks ≠ [])
      (unloaded : t.device.loadBinaries [(c.report t e raw).binary] (c.afterBuild t e).device = (.error err, d)) :
      Fails t source c .build (c.builtEntries t e ++ patchEntries (c.report t e raw)) err
        { c.afterBuild t e with device := d }
  /-- The patched program cannot be finished. -/
  | finish {e : Extraction} {program patched : P} {raw : Bytes} {err : Error} {d d' : δ}
      (read : c.Reads t source e program raw) (blocks : e.blocks ≠ [])
      (loaded : t.device.loadBinaries [(c.report t e raw).binary] (c.afterBuild t e).device = (.ok patched, d))
      (unfinished : t.device.finish patched d = (.error err, d')) :
      Fails t source c .build (c.builtEntries t e ++ patchEntries (c.report t e raw)) err
        { c.afterBuild t e with device := d' }

/-- **The ends**: what was logged, what was made, and the compiler that is left. -/
inductive Finishes (t : Toolchain σ δ P) (source : String) (c : Compiler σ δ P) :
    Log → Output P → Compiler σ δ P → Prop where
  /-- There is nothing to patch. -/
  | withoutBlocks {e : Extraction} {program : P} {raw : Bytes} (read : c.Reads t source e program raw)
      (blocks : e.blocks = []) :
      Finishes t source c (c.builtEntries t e) ⟨program, raw, []⟩
        { c.afterBuild t e with cache := (c.afterBuild t e).cache.record raw raw }
  /-- The program of the patched binary is finished. -/
  | withBlocks {e : Extraction} {program patched : P} {raw : Bytes} {d d' : δ}
      (read : c.Reads t source e program raw) (blocks : e.blocks ≠ [])
      (loaded : t.device.loadBinaries [(c.report t e raw).binary] (c.afterBuild t e).device = (.ok patched, d))
      (finished : t.device.finish patched d = (.ok (), d')) :
      Finishes t source c (c.builtEntries t e ++ patchEntries (c.report t e raw))
        ⟨patched, (c.report t e raw).binary, c.assembled t e⟩
        { c.afterBuild t e with
          device := d'
          cache := (c.afterBuild t e).cache.record raw (c.report t e raw).binary }

/-! ## Stage by stage -/

theorem assembled_eq_nil : c.assembled t e = [] ↔ e.blocks = [] := by
  rw [← List.length_eq_zero_iff, ← List.length_eq_zero_iff, assembled, length_assembleBlocks]

theorem prepare_of_ready (h : c.Ready t source e) :
    c.prepare t source =
      (⟨c.assemblyEntries t e ++ (c.assembled t e).flatMap Assembled.dummyEntries,
        .ok ⟨c.assembled t e, c.deviceText t e⟩⟩, c.afterAssembly t e) := by
  rw [Compiler.prepare, prepare_of_assembled h.front h.assembled]
  rfl

theorem run_of_ready (h : c.Ready t source e) :
    c.run t source =
      (⟨c.assemblyEntries t e ++ (c.assembled t e).flatMap Assembled.dummyEntries ++
          ((c.afterAssembly t e).runDevice t ⟨c.assembled t e, c.deviceText t e⟩).1.log,
        ((c.afterAssembly t e).runDevice t ⟨c.assembled t e, c.deviceText t e⟩).1.result⟩,
        ((c.afterAssembly t e).runDevice t ⟨c.assembled t e, c.deviceText t e⟩).2) := by
  rw [run, prepare_of_ready h]

theorem build_of_unbuilt (h : (c.answer t e).build.program? = none) :
    (c.afterAssembly t e).build t (c.deviceText t e) =
      (⟨[buildEntry t.digest (c.deviceText t e) (c.answer t e)], .error (.deviceBuildFailed (c.answer t e).build.log)⟩,
        c.afterBuild t e) := by
  unfold Compiler.build
  dsimp only
  split
  · next hprogram => exact absurd (h.symm.trans hprogram) (by simp)
  · rfl

theorem build_of_built (h : (c.answer t e).build.program? = some program) :
    (c.afterAssembly t e).build t (c.deviceText t e) =
      (⟨buildEntry t.digest (c.deviceText t e) (c.answer t e) :: reportEntries (c.answer t e).build, .ok program⟩,
        c.afterBuild t e) := by
  unfold Compiler.build
  dsimp only
  split
  · next hprogram =>
    obtain rfl := Option.some.inj (h.symm.trans hprogram)
    rfl
  · next hprogram => exact absurd (h.symm.trans hprogram) (by simp)

/-- Behind the readout, the rest of a compilation is that of patching. -/
theorem runDevice_of_read (h : c.Reads t source e program raw) :
    (c.afterAssembly t e).runDevice t ⟨c.assembled t e, c.deviceText t e⟩ =
      (⟨buildEntry t.digest (c.deviceText t e) (c.answer t e) :: reportEntries (c.answer t e).build ++
          ((c.afterBuild t e).patch t (c.assembled t e) program raw).1.log,
        ((c.afterBuild t e).patch t (c.assembled t e) program raw).1.result⟩,
        ((c.afterBuild t e).patch t (c.assembled t e) program raw).2) := by
  unfold runDevice
  rw [build_of_built h.build]
  dsimp only
  rw [h.binary]

section

variable {binary : Bytes} {patched : P} {d d' : δ}

theorem load_of_unloaded (h : t.device.loadBinaries [binary] c.device = (.error err, d)) :
    c.load t binary = (.error err, { c with device := d }) := by
  rw [load, h]

theorem load_of_loaded (h : t.device.loadBinaries [binary] c.device = (.ok patched, d)) :
    c.load t binary =
      ((t.device.finish patched d).1.map fun _ => patched, { c with device := (t.device.finish patched d).2 }) := by
  rw [load, h]

theorem load_of_unfinished (h : t.device.loadBinaries [binary] c.device = (.ok patched, d))
    (hfinish : t.device.finish patched d = (.error err, d')) :
    c.load t binary = (.error err, { c with device := d' }) := by
  rw [load_of_loaded h, hfinish]
  rfl

theorem load_of_finished (h : t.device.loadBinaries [binary] c.device = (.ok patched, d))
    (hfinish : t.device.finish patched d = (.ok (), d')) :
    c.load t binary = (.ok patched, { c with device := d' }) := by
  rw [load_of_loaded h, hfinish]
  rfl

end

/-- With blocks, patching is loading the patched binary. -/
theorem patch_of_blocks (h : e.blocks ≠ []) :
    (c.afterBuild t e).patch t (c.assembled t e) program raw =
      match (c.afterBuild t e).load t (c.report t e raw).binary with
      | (.error err, c') => (⟨patchEntries (c.report t e raw), .error err⟩, c')
      | (.ok patched, c') =>
        (⟨patchEntries (c.report t e raw), .ok ⟨patched, (c.report t e raw).binary, c.assembled t e⟩⟩,
          { c' with cache := c'.cache.record raw (c.report t e raw).binary }) := by
  unfold Compiler.patch
  rw [if_neg fun hempty => h (assembled_eq_nil.mp (List.isEmpty_iff.mp hempty))]
  rfl

/-! ## The whole -/

/-- **A compilation that takes an exit** logs the error behind what was logged up to it, and makes nothing. -/
theorem Fails.compile_eq (h : c.Fails t source stage log err c') :
    c.compile t source = (⟨log ++ [.ofError err], none⟩, c') := by
  have hrun : c.run t source = (⟨log, .error err⟩, c') := by
    cases h with
    | expansion hexpand =>
        have hfront : frontEnd c.options source = .error err := by rw [frontEnd, hexpand]; rfl
        rw [run, Compiler.prepare, prepare_of_frontEnd_error hfront]
    | extraction hexpand hextract =>
        have hfront : frontEnd c.options source = .error err := by rw [frontEnd, hexpand]; exact hextract
        rw [run, Compiler.prepare, prepare_of_frontEnd_error hfront]
    | assembly hfront hfailed =>
        rw [run, Compiler.prepare, prepare_of_failed hfront hfailed]
        rfl
    | build hready hunbuilt =>
        rw [run_of_ready hready, runDevice, build_of_unbuilt hunbuilt]
        rfl
    | readOut hbuilt hunread =>
        rw [run_of_ready hbuilt.toReady, runDevice, build_of_built hbuilt.build]
        dsimp only
        rw [hunread]
        simp [builtEntries, readyEntries]
    | load hread hblocks hunloaded =>
        rw [run_of_ready hread.toReady, runDevice_of_read hread, patch_of_blocks hblocks, load_of_unloaded hunloaded]
        simp [builtEntries, readyEntries]
    | finish hread hblocks hloaded hunfinished =>
        rw [run_of_ready hread.toReady, runDevice_of_read hread, patch_of_blocks hblocks,
          load_of_unfinished hloaded hunfinished]
        simp [builtEntries, readyEntries]
  rw [compile, hrun]

/-- **A compilation that comes to an end** logs no error of its own, and gives what was made. -/
theorem Finishes.compile_eq (h : c.Finishes t source log output c') :
    c.compile t source = (⟨log, some output⟩, c') := by
  have hrun : c.run t source = (⟨log, .ok output⟩, c') := by
    cases h with
    | withoutBlocks hread hblocks =>
        rw [run_of_ready hread.toReady, runDevice_of_read hread, Compiler.patch, assembled_eq_nil.mpr hblocks]
        simp [builtEntries, readyEntries, assembled_eq_nil.mpr hblocks]
    | withBlocks hread hblocks hloaded hfinished =>
        rw [run_of_ready hread.toReady, runDevice_of_read hread, patch_of_blocks hblocks,
          load_of_finished hloaded hfinished]
        simp [builtEntries, readyEntries]
  rw [compile, hrun]

/-- **Every compilation takes an exit or comes to an end.** -/
theorem fails_or_finishes (t : Toolchain σ δ P) (source : String) (c : Compiler σ δ P) :
    (∃ stage log err c', c.Fails t source stage log err c') ∨ ∃ log output c', c.Finishes t source log output c' := by
  cases hexpand : expand c.options.iterationLimit source with
  | error err => exact Or.inl ⟨_, _, _, _, .expansion hexpand⟩
  | ok expanded =>
  cases hextract : c.options.finder.extract (String.ofList (stripComments expanded.toList)) with
  | error err => exact Or.inl ⟨_, _, _, _, .extraction hexpand hextract⟩
  | ok e =>
  have hfront : frontEnd c.options source = .ok e := frontEnd_eq_ok.mpr ⟨expanded, hexpand, hextract⟩
  by_cases hfailed : failedFunctions (c.assembled t e) = []
  case neg => exact Or.inl ⟨_, _, _, _, .assembly hfront hfailed⟩
  have hready : c.Ready t source e := ⟨hfront, hfailed⟩
  cases hprogram : (c.answer t e).build.program? with
  | none => exact Or.inl ⟨_, _, _, _, .build hready hprogram⟩
  | some program =>
  have hbuilds : c.Builds t source e program := ⟨hready, hprogram⟩
  cases hbinary : t.device.binary program (c.afterBuild t e).device with
  | error err => exact Or.inl ⟨_, _, _, _, .readOut hbuilds hbinary⟩
  | ok raw =>
  have hreads : c.Reads t source e program raw := ⟨hbuilds, hbinary⟩
  by_cases hblocks : e.blocks = []
  case pos => exact Or.inr ⟨_, _, _, .withoutBlocks hreads hblocks⟩
  cases hload : t.device.loadBinaries [(c.report t e raw).binary] (c.afterBuild t e).device with
  | mk loaded d =>
  cases loaded with
  | error err => exact Or.inl ⟨_, _, _, _, .load hreads hblocks hload⟩
  | ok patched =>
  cases hfinish : t.device.finish patched d with
  | mk finished d' =>
  cases finished with
  | error err => exact Or.inl ⟨_, _, _, _, .finish hreads hblocks hload hfinish⟩
  | ok _ => exact Or.inr ⟨_, _, _, .withBlocks hreads hblocks hload hfinish⟩

end Compiler

end Inlay
