import Mathlib
import Inlay.Proofs.Compiler.Course

/-!
# `Proofs.Compiler.Verdict` — the log and the success of a compilation agree

The log of a compilation holds an error exactly if the compilation fails (`success_iff_no_errors`), and then the error
that ended it is the last entry, under its own stage. For this the toolchain has to report honestly: the assembler
speaks of errors only in bodies that it rejects (`Assembler.Candid`), and the failures of the device are its own
(`Device.Candid`).

Two facts carry the proof. No stage that was passed logs an error: this is read off the entries of each stage. And every
error with which a stage ends a compilation is fatal and belongs to that stage (`Error.Ends`), which for the front end
is an induction over the source.
-/

namespace Inlay

variable {σ δ P : Type}

/-! ## Errors and their stages -/

/-- **An error ends a compilation at a stage.** -/
def Error.Ends (stage : Stage) (err : Error) : Prop :=
  err.stage = stage ∧ err.severity = .fatal

theorem LogEntry.ofError_of_ends {stage : Stage} {err : Error} (h : err.Ends stage) :
    LogEntry.ofError err = .error stage err.message := by
  obtain ⟨rfl, hfatal⟩ := h
  rw [LogEntry.ofError, hfatal]
  rfl

section

variable {err : Error} {stage : Stage}

theorem ends_of_listed {α : Type} {text : String} {x : Except SyntaxFault α} (h : listed text x = .error err) :
    err.Ends .template := by
  obtain ⟨fault, -, rfl⟩ := mapError_eq_error.mp h
  exact ⟨rfl, rfl⟩

/-- **Tags that cannot be expanded** are a matter of the template. -/
theorem ends_of_expand {limit : Nat} {source : String} (h : expand limit source = .error err) :
    err.Ends .template := by
  unfold expand at h
  split at h
  · cases h
  · rcases bind_eq_error.mp h with hsegments | ⟨parts, -, h⟩
    · exact ends_of_listed hsegments
    · rcases bind_eq_error.mp h with hprogram | ⟨program, -, h⟩
      · exact ends_of_listed hprogram
      · obtain ⟨cause, -, rfl⟩ := mapError_eq_error.mp h
        exact ⟨rfl, rfl⟩

namespace Param

theorem ends_of_split {piece : List Char} (h : split piece = .error err) : err.Ends .extract := by
  unfold split at h
  split at h
  · cases h
  · split at h
    · cases h
      exact ⟨rfl, rfl⟩
    · dsimp only at h
      split at h <;> cases h

theorem ends_of_read {width : PointerWidth} {function : String} {p : Position} {index : Nat} {piece : List Char}
    (h : read width function p index piece = .error err) : err.Ends .extract := by
  unfold read at h
  dsimp only at h
  split at h
  · cases h
    exact ⟨rfl, rfl⟩
  · rcases bind_eq_error.mp h with hsplit | ⟨⟨declaredType, given⟩, -, h⟩
    · exact ends_of_split hsplit
    · dsimp only at h
      split at h
      · cases h
      · cases h
        exact ⟨rfl, rfl⟩

theorem ends_of_readAll {width : PointerWidth} {function : String} {p : Position} {index : Nat}
    {others : List (List Char)} (h : readAll width function p index others = .error err) : err.Ends .extract := by
  induction others generalizing p index with
  | nil => cases h
  | cons piece others ih =>
      rcases bind_eq_error.mp h with hread | ⟨param, -, h⟩
      · exact ends_of_read hread
      · rcases bind_eq_error.mp h with hothers | ⟨params, -, h⟩
        · exact ih hothers
        · cases h

theorem ends_of_readList {width : PointerWidth} {function : String} {p : Position} {list : List Char}
    (h : readList width function p list = .error err) : err.Ends .extract := by
  unfold readList at h
  dsimp only at h
  split at h
  · cases h
  · exact ends_of_readAll h

end Param

/-- **A source that cannot be taken apart** is a matter of extraction, at whatever block it fails. -/
theorem BlockFinder.ends_of_extractFrom {f : BlockFinder} {p : Position} {s : List Char}
    (h : f.extractFrom p s = .error err) : err.Ends .extract := by
  fun_induction extractFrom f p s with
  | case1 p => cases h
  | case2 p c s unit hunit flaw hcut =>
      cases h
      exact ⟨rfl, rfl⟩
  | case3 p c s unit hunit t rest hcut ih =>
      rcases bind_eq_error.mp h with hparams | ⟨params, -, h⟩
      · exact Param.ends_of_readList hparams
      · rcases bind_eq_error.mp h with hothers | ⟨others, -, h⟩
        · exact ih hothers
        · cases h
  | case4 p c s unit hunit ih => exact ih (map_eq_error.mp h)

end

/-! ## Honest toolchains -/

/-- **An assembler speaks of errors only in bodies that it rejects.** -/
def Assembler.Candid (assemble : Assembler σ) : Prop :=
  ∀ lines s, (assemble lines s).1.ok = true → ∀ d ∈ (assemble lines s).1.diagnostics, d.level ≠ .error

/-- **The failures of a device are its own.** -/
structure Device.Candid (device : Device δ P) : Prop where
  binary : ∀ program d err, device.binary program d = .error err → ∃ message, err = .deviceFault message
  loadBinaries : ∀ binaries d err d', device.loadBinaries binaries d = (.error err, d') →
    ∃ message, err = .deviceFault message
  finish : ∀ program d err d', device.finish program d = (.error err, d') → ∃ message, err = .deviceFault message

/-! ## What the stages log -/

namespace Log

theorem hasErrors_append (log log' : Log) : hasErrors (log ++ log') = (log.hasErrors || log'.hasErrors) :=
  List.any_append

theorem hasErrors_eq_false {log : Log} : log.hasErrors = false ↔ ∀ entry ∈ log, entry.level ≠ .error := by
  simp [hasErrors]

theorem hasErrors_flatMap_eq_false {α : Type} {l : List α} {f : α → Log} (h : ∀ a ∈ l, (f a).hasErrors = false) :
    hasErrors (l.flatMap f) = false := by
  rw [hasErrors_eq_false]
  intro entry hentry
  obtain ⟨a, ha, hentry⟩ := List.mem_flatMap.mp hentry
  exact hasErrors_eq_false.mp (h a ha) entry hentry

end Log

theorem hasErrors_extractionEntries (e : Extraction) : (extractionEntries e).hasErrors = false := by
  rw [extractionEntries, Log.hasErrors_append, Bool.or_eq_false_iff]
  refine ⟨Log.hasErrors_eq_false.mpr fun entry hentry => ?_, rfl⟩
  obtain ⟨warning, -, rfl⟩ := List.mem_map.mp hentry
  exact nofun

theorem Assembled.level_diagnosticEntry (a : Assembled) (d : Diagnostic) : (a.diagnosticEntry d).level = d.level := by
  unfold diagnosticEntry
  cases d.line <;> rfl

/-- **A block without messages of errors** logs none. -/
theorem Assembled.hasErrors_entries {a : Assembled} (h : ∀ d ∈ a.output.diagnostics, d.level ≠ .error) :
    a.entries.hasErrors = false := by
  rw [entries, Log.hasErrors_append, Log.hasErrors_append, Bool.or_eq_false_iff, Bool.or_eq_false_iff]
  refine ⟨⟨Log.hasErrors_eq_false.mpr fun entry hentry => ?_, ?_⟩, ?_⟩
  · obtain ⟨d, hd, rfl⟩ := List.mem_map.mp hentry
    rw [level_diagnosticEntry]
    exact h d hd
  · split <;> rfl
  · split <;> rfl

theorem Assembled.hasErrors_dummyEntries (a : Assembled) : a.dummyEntries.hasErrors = false := by
  unfold dummyEntries
  split <;> rfl

theorem hasErrors_reportEntries (build : DeviceBuild P) : (reportEntries build).hasErrors = false := by
  unfold reportEntries
  split <;> rfl

/-- **No outcome of patching is an error.** -/
theorem hasErrors_patchEntries (report : PatchReport) : (patchEntries report).hasErrors = false := by
  rw [patchEntries, Log.hasErrors_append, Bool.or_eq_false_iff]
  refine ⟨Log.hasErrors_eq_false.mpr fun entry hentry => ?_, rfl⟩
  obtain ⟨warning, -, rfl⟩ := List.mem_map.mp hentry
  exact nofun

namespace Compiler

variable {t : Toolchain σ δ P} {source : String} {c c' : Compiler σ δ P} {e : Extraction} {log : Log} {err : Error}
  {stage : Stage} {output : Output P}

theorem Ready.ok_of_mem (h : c.Ready t source e) {a : Assembled} (ha : a ∈ c.assembled t e) : a.output.ok = true := by
  have hnone := h.assembled
  rw [failedFunctions, List.map_eq_nil_iff, List.filter_eq_nil_iff] at hnone
  simpa using hnone a ha

/-- **No error is logged up to the end of a build** of a source that an honest assembler accepts. -/
theorem Ready.hasErrors_builtEntries (hassembler : t.assembler.Candid) (h : c.Ready t source e) :
    (c.builtEntries t e).hasErrors = false := by
  have hentries : ∀ a ∈ c.assembled t e, a.entries.hasErrors = false := by
    intro a ha
    obtain ⟨s', houtput⟩ := output_of_mem_assembleBlocks ha
    have hok := h.ok_of_mem ha
    rw [houtput] at hok
    exact Assembled.hasErrors_entries (houtput ▸ hassembler _ _ hok)
  rw [builtEntries, readyEntries, assemblyEntries, Log.hasErrors_append, Log.hasErrors_append, Log.hasErrors_append,
    Log.hasErrors_append, hasErrors_extractionEntries, Log.hasErrors_flatMap_eq_false hentries,
    Log.hasErrors_flatMap_eq_false fun a _ => a.hasErrors_dummyEntries, hasErrors_reportEntries]
  rfl

/-- **A compilation that goes through logs no error.** -/
theorem Finishes.hasErrors (hassembler : t.assembler.Candid) (h : c.Finishes t source log output c') :
    log.hasErrors = false := by
  cases h with
  | withoutBlocks read _ => exact read.toReady.hasErrors_builtEntries hassembler
  | withBlocks read _ _ _ =>
      rw [Log.hasErrors_append, read.toReady.hasErrors_builtEntries hassembler, hasErrors_patchEntries]
      rfl

/-! ## The error that ends a compilation -/

/-- **The error of an exit belongs to its stage**, and is fatal. -/
theorem Fails.ends (hdevice : t.device.Candid) (h : c.Fails t source stage log err c') : err.Ends stage := by
  have hfault : (∃ message, err = .deviceFault message) → err.Ends .build := by
    rintro ⟨message, rfl⟩
    exact ⟨rfl, rfl⟩
  cases h with
  | expansion hexpand => exact ends_of_expand hexpand
  | extraction _ hextract => exact BlockFinder.ends_of_extractFrom hextract
  | assembly _ _ => exact ⟨rfl, rfl⟩
  | build _ _ => exact ⟨rfl, rfl⟩
  | readOut _ hunread => exact hfault (hdevice.binary _ _ _ hunread)
  | load _ _ hunloaded => exact hfault (hdevice.loadBinaries _ _ _ _ hunloaded)
  | finish _ _ _ hunfinished => exact hfault (hdevice.finish _ _ _ _ hunfinished)

/-- **Assembly is what failed** if and only if the source is taken apart and a block of it is rejected, and then the
    error names the blocks that are. -/
theorem Fails.eq_assemblyFailed (hdevice : t.device.Candid) (h : c.Fails t source stage log err c')
    (names : List String) : err = .assemblyFailed names ↔
      ∃ e, frontEnd c.options source = .ok e ∧ names = failedFunctions (c.assembled t e) ∧ names ≠ [] := by
  constructor
  · rintro rfl
    have hstage : Stage.assemble = stage := (h.ends hdevice).1
    subst hstage
    cases h with
    | assembly front failed => exact ⟨_, front, rfl, failed⟩
  · rintro ⟨e, hfront, rfl, hfailed⟩
    have hready : ∀ e', ¬ c.Ready t source e' := by
      intro e' ready
      obtain rfl : e = e' := Except.ok.inj (hfront.symm.trans ready.front)
      exact hfailed ready.assembled
    obtain ⟨expanded, hexpand, hextract⟩ := frontEnd_eq_ok.mp hfront
    cases h with
    | expansion hexpand' => cases hexpand.symm.trans hexpand'
    | extraction hexpand' hextract' =>
        obtain rfl := Except.ok.inj (hexpand.symm.trans hexpand')
        cases hextract.symm.trans hextract'
    | assembly hfront' _ =>
        obtain rfl := Except.ok.inj (hfront.symm.trans hfront')
        rfl
    | build ready _ => exact absurd ready (hready _)
    | readOut built _ => exact absurd built.toReady (hready _)
    | load read _ _ => exact absurd read.toReady (hready _)
    | finish read _ _ _ => exact absurd read.toReady (hready _)

/-- **The log tells the truth about success.** Take an honest toolchain and a compiler in any state. A compilation goes
    through exactly if its log has no error and there is something that it made. One that fails takes one of the exits,
    and its log is what was logged up to that exit, and behind it one more entry: the error, under the stage that it
    belongs to. The error is that blocks could not be assembled exactly if the source is taken apart and some block of
    it is rejected; all blocks were assembled then, and the error names those that are rejected, in order. -/
theorem success_iff_no_errors (hassembler : t.assembler.Candid) (hdevice : t.device.Candid) (c : Compiler σ δ P)
    (source : String) :
    ((c.compile t source).1.success = true ↔
        (c.compile t source).1.log.hasErrors = false ∧ (c.compile t source).1.output.isSome = true) ∧
      ((c.compile t source).1.success = false → ∃ stage front err,
        c.Fails t source stage front err (c.compile t source).2 ∧
          (c.compile t source).1.log = front ++ [.error err.stage err.message] ∧ err.stage = stage ∧
          ∀ names, err = .assemblyFailed names ↔ ∃ e, frontEnd c.options source = .ok e ∧
            (c.assembled t e).map (·.block) = e.blocks ∧
            names = ((c.assembled t e).filter fun a => !a.output.ok).map (·.block.name) ∧ names ≠ []) := by
  rcases fails_or_finishes t source c with ⟨stage, log, err, c', h⟩ | ⟨log, output, c', h⟩
  · have hends := h.ends hdevice
    have hlog : log ++ [LogEntry.ofError err] = log ++ [.error err.stage err.message] := by
      rw [LogEntry.ofError_of_ends hends, hends.1]
    rw [h.compile_eq]
    refine ⟨?_, fun _ => ⟨stage, log, err, h, hlog, hends.1, fun names => ?_⟩⟩
    · constructor
      · intro hsuccess
        cases hsuccess
      · rintro ⟨-, hsome⟩
        cases hsome
    · rw [h.eq_assemblyFailed hdevice]
      constructor
      · rintro ⟨e, hfront, hnames, hsome⟩
        exact ⟨e, hfront, map_block_assembleBlocks t.pool _ t.assembler e.blocks c.assembler, hnames, hsome⟩
      · rintro ⟨e, hfront, -, hnames, hsome⟩
        exact ⟨e, hfront, hnames, hsome⟩
  · rw [h.compile_eq]
    refine ⟨iff_of_true rfl ⟨h.hasErrors hassembler, rfl⟩, ?_⟩
    intro hfailed
    cases hfailed

/-- A toolchain that assembles every body without a line `bad` to two bytes, and whose device cannot read out, load or
    finish anything. -/
def pickyToolchain : Toolchain Unit Unit Unit where
  assembler := fun lines s =>
    (if lines.contains "bad" then ⟨[], 0, 0, "", [⟨none, "no such instruction", .error⟩], false⟩
      else ⟨[1, 2], 0, 0, "", [], true⟩, s)
  device :=
    { compileSource := fun _ d => (⟨none, false, ""⟩, d)
      binary := fun _ _ => .error (.deviceFault "no device")
      loadBinaries := fun _ d => (.error (.deviceFault "no device"), d)
      finish := fun _ d => (.error (.deviceFault "no device"), d) }

/-- A compiler with this toolchain that has compiled nothing. -/
def pickyCompiler : Compiler Unit Unit Unit :=
  ⟨.standard, (), (), .empty⟩

theorem candid_pickyAssembler : pickyToolchain.assembler.Candid := by
  intro lines s hok d hd
  show d.level ≠ .error
  unfold pickyToolchain at hok hd
  dsimp only at hok hd
  split at hok
  · cases hok
  · next hgood =>
    rw [if_neg hgood] at hd
    cases hd

theorem candid_pickyDevice : pickyToolchain.device.Candid where
  binary := fun _ _ _ h => ⟨_, (Except.error.inj h).symm⟩
  loadBinaries := fun _ _ _ _ h => ⟨_, (Except.error.inj (Prod.mk.inj h).1).symm⟩
  finish := fun _ _ _ _ h => ⟨_, (Except.error.inj (Prod.mk.inj h).1).symm⟩

/-- A source with a block that is assembled between two that are rejected. -/
def mixedSource : String :=
  "__asm4GCN f()\x7bbad\x7d__asm4GCN g()\x7b\x7d__asm4GCN h()\x7bbad\x7d"

/-- The source taken apart. -/
def mixedExtraction : Extraction :=
  let block (p : Position) (name : Char) (body : List Char) : Block :=
    ⟨p, ⟨"__asm4GCN".toList, [' '], [name], [], [], [], body, []⟩, []⟩
  ⟨[([], block ⟨0, 1, 1⟩ 'f' "bad".toList), ([], block ⟨18, 1, 19⟩ 'g' []), ([], block ⟨33, 1, 34⟩ 'h' "bad".toList)],
    []⟩

/-- **Only the blocks that are rejected are named**, though the one between them is assembled as well. -/
theorem rejected_blocks_are_named :
    pickyToolchain.assembler.Candid ∧ pickyToolchain.device.Candid ∧
      (pickyCompiler.compile pickyToolchain mixedSource).1.success = false ∧
      ∃ front, (pickyCompiler.compile pickyToolchain mixedSource).1.log =
        front ++ [.error .assemble "Assembly failed for: f, h"] := by
  have hfront : frontEnd .standard mixedSource = .ok mixedExtraction := by cbv
  have hnames : failedFunctions (pickyCompiler.assembled pickyToolchain mixedExtraction) = ["f", "h"] := by cbv
  obtain ⟨-, hlast⟩ := success_iff_no_errors candid_pickyAssembler candid_pickyDevice pickyCompiler mixedSource
  have hfailed : (pickyCompiler.compile pickyToolchain mixedSource).1.success = false := by
    have hsome : failedFunctions (pickyCompiler.assembled pickyToolchain mixedExtraction) ≠ [] := by
      rw [hnames]
      exact List.cons_ne_nil _ _
    rw [(Fails.assembly hfront hsome).compile_eq]
    rfl
  obtain ⟨stage, front, err, -, hlog, -, hassembly⟩ := hlast hfailed
  obtain rfl : err = .assemblyFailed ["f", "h"] := (hassembly ["f", "h"]).mpr
    ⟨mixedExtraction, hfront, map_block_assembleBlocks _ _ _ _ _, hnames.symm, List.cons_ne_nil _ _⟩
  exact ⟨candid_pickyAssembler, candid_pickyDevice, hfailed, front, hlog⟩

end Compiler

end Inlay
