import Mathlib
import Inlay.Proofs.Compiler.Course
import Inlay.Proofs.Compiler.RememberedBuilds
import Inlay.Proofs.Patch.Run

/-!
# `Proofs.Compiler.LastBinaries` — the binaries that a compiler shows

A compiler keeps two binaries, one in front of patching and one behind it. They are written at the two ends of a
compilation and nowhere else, both at once. So a compilation that fails leaves them alone, one that goes through
leaves a pair of which the second one is the first one patched, and at any time there are two of the same length or
none (`binaries_of_compile`).

It follows that the first one is the binary of the last compilation that went through, and not that of the last build
(`raw_is_of_last_finished`): a build whose patched binary cannot be loaded is not shown (`not_rawTracksBuilds`).
-/

namespace Inlay

variable {σ δ P : Type}

/-! ## What one compilation does -/

/-- **Binaries that belong together**: none, or two of the same length. -/
def BuildCache.Paired (c : BuildCache P) : Prop :=
  c.raw.map List.length = c.patched.map List.length

/-- A build leaves the binaries alone. -/
theorem BuildCache.binaries_build (device : Device δ P) (source : String) (d : δ) (c : BuildCache P) :
    (c.build device source d).2.2.raw = c.raw ∧ (c.build device source d).2.2.patched = c.patched := by
  unfold BuildCache.build
  cases c.lookup? source <;> exact ⟨rfl, rfl⟩

namespace Compiler

variable {t : Toolchain σ δ P} {source : String} {c c' : Compiler σ δ P} {log : Log} {err : Error} {stage : Stage}
  {output : Output P}

theorem binaries_afterBuild (t : Toolchain σ δ P) (e : Extraction) (c : Compiler σ δ P) :
    (c.afterBuild t e).cache.raw = c.cache.raw ∧ (c.afterBuild t e).cache.patched = c.cache.patched :=
  BuildCache.binaries_build t.device (c.deviceText t e) c.device c.cache

/-- **A failure leaves the binaries alone.** -/
theorem Fails.binaries (h : c.Fails t source stage log err c') :
    c'.cache.raw = c.cache.raw ∧ c'.cache.patched = c.cache.patched := by
  cases h with
  | expansion _ => exact ⟨rfl, rfl⟩
  | extraction _ _ => exact ⟨rfl, rfl⟩
  | assembly _ _ => exact ⟨rfl, rfl⟩
  | build _ _ => exact binaries_afterBuild t _ c
  | readOut _ _ => exact binaries_afterBuild t _ c
  | load _ _ _ => exact binaries_afterBuild t _ c
  | finish _ _ _ _ => exact binaries_afterBuild t _ c

/-- The device made a program of a binary, finished it, and was left in the state `d'`. -/
def Loads (device : Device δ P) (binary : Bytes) (program : P) (d' : δ) : Prop :=
  ∃ d₀ d, device.loadBinaries [binary] d₀ = (.ok program, d) ∧ device.finish program d = (.ok (), d')

/-- **A pair is left by a compilation that goes through**: the binary that was read out, and the same one with the code
    of the blocks, of which the device made the program. -/
structure Records (t : Toolchain σ δ P) (source : String) (c : Compiler σ δ P) (output : Output P) (raw : Bytes)
    (c' : Compiler σ δ P) : Prop where
  first : c'.cache.raw = some raw
  second : c'.cache.patched = some output.binary
  /-- The blocks are all those of the source, with what the assembler made of them. -/
  blocks : ∃ e, frontEnd c.options source = .ok e ∧ output.blocks = c.assembled t e
  binary : output.binary = (c.options.anchor.patch raw (output.blocks.map Assembled.patch)).binary
  program : output.blocks ≠ [] → Loads t.device output.binary output.program c'.device

theorem Finishes.exists_records (h : c.Finishes t source log output c') :
    ∃ raw, c.Records t source output raw c' := by
  cases h with
  | @withoutBlocks e program raw hread hblocks =>
      refine ⟨raw, rfl, rfl, ⟨e, hread.front, (assembled_eq_nil.mpr hblocks).symm⟩, rfl, ?_⟩
      intro hsome
      exact absurd rfl hsome
  | @withBlocks e program patched raw d d' hread hblocks hloaded hfinished =>
      exact ⟨raw, rfl, rfl, ⟨e, hread.front, rfl⟩, rfl, fun _ => ⟨_, d, hloaded, hfinished⟩⟩

theorem Records.paired {raw : Bytes} (h : c.Records t source output raw c') : c'.cache.Paired := by
  rw [BuildCache.Paired, h.first, h.second, h.binary, Option.map_some, Option.map_some, Anchor.length_binary_patch]

/-! ## Sources that do not come to the device -/

/-- **A source does not come to the device**: its tags cannot be expanded or what they give cannot be taken apart, or a
    block of it cannot be assembled. -/
def StopsInFront (t : Toolchain σ δ P) (source : String) (c : Compiler σ δ P) : Prop :=
  (∃ err, frontEnd c.options source = .error err) ∨
    ∃ e, frontEnd c.options source = .ok e ∧ ∃ a ∈ c.assembled t e, a.output.ok = false

theorem failedFunctions_ne_nil {assembled : List Assembled} :
    failedFunctions assembled ≠ [] ↔ ∃ a ∈ assembled, a.output.ok = false := by
  rw [failedFunctions, Ne, List.map_eq_nil_iff, List.filter_eq_nil_iff]
  simp

/-- Which device there is makes no difference then, and only the assembler changes its state. -/
theorem StopsInFront.exists_fails (h : c.StopsInFront t source) :
    ∃ stage log err s, ∀ device, c.Fails { t with device } source stage log err { c with assembler := s } := by
  rcases h with ⟨err, hfront⟩ | ⟨e, hfront, hfailed⟩
  · cases hexpand : expand c.options.iterationLimit source with
    | error err' => exact ⟨_, _, _, c.assembler, fun _ => .expansion hexpand⟩
    | ok expanded =>
        rw [frontEnd, hexpand] at hfront
        exact ⟨_, _, _, c.assembler, fun _ => .extraction hexpand hfront⟩
  · have hnames : failedFunctions (c.assembled t e) ≠ [] := failedFunctions_ne_nil.mpr hfailed
    -- nothing that the failure says mentions the device
    exact ⟨.assemble, c.assemblyEntries t e, .assemblyFailed (failedFunctions (c.assembled t e)),
      (assembleBlocks t.pool c.options.parallel t.assembler e.blocks c.assembler).2, fun _ => .assembly hfront hnames⟩

/-! ## Any calls -/

/-- **The states that a compiler comes into**, through calls in any order from the time that it is made. -/
inductive Reachable (t : Toolchain σ δ P) : Compiler σ δ P → Prop where
  | new {o : Options} {s : σ} {d : δ} {c : Compiler σ δ P} (made : new o s d = .ok c) : Reachable t c
  | compile {c : Compiler σ δ P} (source : String) (before : Reachable t c) : Reachable t (c.compile t source).2
  | deviceSource {c : Compiler σ δ P} (source : String) (before : Reachable t c) :
      Reachable t (c.deviceSource t source).2
  | invalidate {c : Compiler σ δ P} (before : Reachable t c) : Reachable t c.invalidate

/-- **One compilation keeps the binaries together.** -/
theorem paired_compile (hc : c.cache.Paired) (source : String) : (c.compile t source).2.cache.Paired := by
  rcases fails_or_finishes t source c with ⟨stage, log, err, c', h⟩ | ⟨log, output, c', h⟩
  · obtain ⟨hraw, hpatched⟩ := h.binaries
    rw [h.compile_eq, BuildCache.Paired, hraw, hpatched]
    exact hc
  · obtain ⟨raw, hrecords⟩ := h.exists_records
    rw [h.compile_eq]
    exact hrecords.paired

/-- **The binaries always belong together.** -/
theorem Reachable.paired (h : Reachable t c) : c.cache.Paired := by
  induction h with
  | new made =>
      obtain rfl := new_eq_ok made
      rfl
  | compile source _ ih => exact paired_compile ih source
  | deviceSource source _ ih => exact ih
  | invalidate _ ih => exact ih

/-- **A failure leaves the binaries alone, and a success leaves a pair.** Take a compiler in any state that it comes
    into. Its binaries are none or two of the same length. A compilation that fails leaves both as they are; one that
    does not come to the device fails, leaves all that is remembered and the state of the device as they are, and would
    be the same with any other device. A compilation that goes through leaves the binary that was read out, and with it
    the binary that it makes, which is the one that was read out with the code of the blocks; if there are blocks, the
    program that it makes is the one that the device made of exactly these bytes and finished. -/
theorem binaries_of_compile (h : Reachable t c) (source : String) :
    c.cache.Paired ∧
      ((c.compile t source).1.success = false →
        (c.compile t source).2.cache.raw = c.cache.raw ∧ (c.compile t source).2.cache.patched = c.cache.patched) ∧
      (c.StopsInFront t source →
        (c.compile t source).1.success = false ∧ (c.compile t source).2.cache = c.cache ∧
          (c.compile t source).2.device = c.device ∧
          ∀ device, c.compile { t with device } source = c.compile t source) ∧
      ((c.compile t source).1.success = true →
        ∃ output raw, (c.compile t source).1.output = some output ∧
          c.Records t source output raw (c.compile t source).2) := by
  refine ⟨h.paired, ?_, ?_, ?_⟩
  · intro hfailed
    rcases fails_or_finishes t source c with ⟨stage, log, err, c', h⟩ | ⟨log, output, c', h⟩
    · rw [h.compile_eq]
      exact h.binaries
    · rw [h.compile_eq] at hfailed
      cases hfailed
  · intro hstops
    obtain ⟨stage, log, err, s, hfails⟩ := hstops.exists_fails
    have hcompile : c.compile t source = (⟨log ++ [.ofError err], none⟩, { c with assembler := s }) :=
      (hfails t.device).compile_eq
    rw [hcompile]
    exact ⟨rfl, rfl, rfl, fun device => (hfails device).compile_eq⟩
  · intro hsuccess
    rcases fails_or_finishes t source c with ⟨stage, log, err, c', h⟩ | ⟨log, output, c', h⟩
    · rw [h.compile_eq] at hsuccess
      cases hsuccess
    · obtain ⟨raw, hrecords⟩ := h.exists_records
      rw [h.compile_eq]
      exact ⟨output, raw, rfl, hrecords⟩

/-- The code of a dummy, and two bytes behind it. -/
def dummyBinary : Bytes :=
  [0xFF, 0x02, 0x00, 0x7E, 0x19, 0x2B, 0x3A, 0x4C, 0xFF, 0x02, 0x00, 0x00]

/-- A toolchain that assembles every body to two bytes and builds the code of one dummy from every source. What was
    patched can be loaded or not. -/
def dummyToolchain (loads : Bool) : Toolchain Unit Unit Bytes where
  assembler := fun _ s => (⟨[1, 2], 0, 0, "", [], true⟩, s)
  device :=
    { compileSource := fun _ d => (⟨some dummyBinary, true, ""⟩, d)
      binary := fun program _ => .ok program
      loadBinaries := fun binaries d =>
        (if loads then .ok binaries.flatten else .error (.deviceFault "cannot load"), d)
      finish := fun _ d => (.ok (), d) }

/-- A compiler that has compiled nothing. -/
def standardCompiler : Compiler Unit Unit Bytes :=
  ⟨.standard, (), (), .empty⟩

/-- A source that is one block. -/
def blockSource : String :=
  "__asm4GCN f()\x7b\x7d"

/-- The source taken apart. -/
def blockExtraction : Extraction :=
  ⟨[([], ⟨{}, ⟨"__asm4GCN".toList, [' '], ['f'], [], [], [], [], []⟩, []⟩)], []⟩

theorem frontEnd_blockSource : frontEnd .standard blockSource = .ok blockExtraction := by
  cbv

/-- The binary of the block's dummy is read out, whether it can be loaded again or not. -/
theorem reads_blockSource (loads : Bool) :
    standardCompiler.Reads (dummyToolchain loads) blockSource blockExtraction dummyBinary dummyBinary :=
  ⟨⟨⟨frontEnd_blockSource, rfl⟩, rfl⟩, rfl⟩

/-- **A failure behind a success**: the two bytes of the block stand at the start of the patched binary, and stay there
    when the next source ends behind its introducer. -/
theorem binaries_stay_behind_success : ∃ c : Compiler Unit Unit Bytes, Reachable (dummyToolchain true) c ∧
    c.StopsInFront (dummyToolchain true) "__asm4GCN" ∧
    (standardCompiler.compile (dummyToolchain true) blockSource).1.success = true ∧
    (c.compile (dummyToolchain true) "__asm4GCN").1.success = false ∧
    (c.compile (dummyToolchain true) "__asm4GCN").2.cache.raw = some dummyBinary ∧
    (c.compile (dummyToolchain true) "__asm4GCN").2.cache.patched = some (1 :: 2 :: dummyBinary.drop 2) := by
  have hfinishes := Finishes.withBlocks (reads_blockSource true) (List.cons_ne_nil _ _) rfl rfl
  have hcompile := hfinishes.compile_eq
  have hsuccess : (standardCompiler.compile (dummyToolchain true) blockSource).1.success = true := by
    rw [hcompile]
    rfl
  have hnew : (Compiler.new .standard () () : Except Error (Compiler Unit Unit Bytes)) = .ok standardCompiler := rfl
  have hbehind := (Reachable.new (t := dummyToolchain true) hnew).compile blockSource
  obtain ⟨-, -, -, hrecorded⟩ := binaries_of_compile (.new hnew) blockSource
  obtain ⟨output, raw, houtput, hrecords⟩ := hrecorded hsuccess
  have hraw : (standardCompiler.compile (dummyToolchain true) blockSource).2.cache.raw = some dummyBinary := by
    rw [hcompile]
    rfl
  have hpatched : (standardCompiler.compile (dummyToolchain true) blockSource).2.cache.patched =
      some (1 :: 2 :: dummyBinary.drop 2) := by
    obtain rfl : dummyBinary = raw := Option.some.inj (hraw.symm.trans hrecords.first)
    rw [hcompile] at houtput
    cases houtput
    rw [hrecords.second, hrecords.binary]
    decide
  have hstops : (standardCompiler.compile (dummyToolchain true) blockSource).2.StopsInFront (dummyToolchain true)
      "__asm4GCN" := by
    rw [hcompile]
    refine Or.inl ⟨.malformedBlock 1 "expected function name", ?_⟩
    show frontEnd .standard "__asm4GCN" = _
    cbv
  obtain ⟨-, hkept, hstopped, -⟩ := binaries_of_compile hbehind "__asm4GCN"
  have hfailed := (hstopped hstops).1
  obtain ⟨hsame, hsame'⟩ := hkept hfailed
  exact ⟨_, hbehind, hstops, hsuccess, hfailed, hsame.trans hraw, hsame'.trans hpatched⟩

/-! ## Builds that are not shown -/

/-- What the device gives for the binary of the program that a compilation builds, if it comes to a program. -/
def readOut? (t : Toolchain σ δ P) (source : String) (c : Compiler σ δ P) : Option (Except Error Bytes) :=
  match frontEnd c.options source with
  | .error _ => none
  | .ok e =>
    if failedFunctions (c.assembled t e) = [] then
      (c.answer t e).build.program?.map fun program => t.device.binary program (c.afterBuild t e).device
    else none

/-- A build that gave a program. -/
structure Reading where
  /-- The binary of the program, or why it could not be read out. -/
  binary : Except Error Bytes
  /-- Whether the compilation went through. -/
  finished : Bool

/-- The build of a compilation, if it gave a program. -/
def reading? (t : Toolchain σ δ P) (source : String) (c : Compiler σ δ P) : Option Reading :=
  (c.readOut? t source).map fun binary => ⟨binary, (c.compile t source).1.success⟩

/-- The builds of a call. -/
def callReadings (t : Toolchain σ δ P) (c : Compiler σ δ P) : Call → List Reading
  | .compile source => (c.reading? t source).toList
  | .invalidate => []

/-- All builds of calls that gave a program, in order. -/
def readings (t : Toolchain σ δ P) (c : Compiler σ δ P) : List Call → List Reading
  | [] => []
  | call :: calls => c.callReadings t call ++ readings t (c.afterCall t call) calls

/-- The binary of the last of these builds whose compilation went through. -/
def lastFinished? (rs : List Reading) : Option Bytes :=
  (rs.filter (·.finished)).getLast?.bind (·.binary.toOption)

theorem readings_concat (calls : List Call) (call : Call) :
    readings t c (calls ++ [call]) = readings t c calls ++ (c.after t calls).callReadings t call := by
  induction calls generalizing c with
  | nil => simp [readings, after]
  | cons first calls ih => simp only [List.cons_append, readings, ih, List.append_assoc, after, List.foldl_cons]

theorem after_concat (calls : List Call) (call : Call) :
    c.after t (calls ++ [call]) = (c.after t calls).afterCall t call :=
  List.foldl_append

theorem lastFinished?_concat_finished (rs : List Reading) (raw : Bytes) :
    lastFinished? (rs ++ [⟨.ok raw, true⟩]) = some raw := by
  simp [lastFinished?, Except.toOption]

theorem lastFinished?_concat_unfinished (rs : List Reading) {r : Reading} (h : r.finished = false) :
    lastFinished? (rs ++ [r]) = lastFinished? rs := by
  simp [lastFinished?, h]

theorem Builds.readOut?_eq {e : Extraction} {program : P} (h : c.Builds t source e program) :
    c.readOut? t source = some (t.device.binary program (c.afterBuild t e).device) := by
  unfold readOut?
  rw [h.front]
  dsimp only
  rw [if_pos h.assembled, h.build, Option.map_some]

/-- **A compilation that goes through** read out the binary that is shown. -/
theorem Finishes.reading?_eq (h : c.Finishes t source log output c') :
    ∃ raw, c'.cache.raw = some raw ∧ c.reading? t source = some ⟨.ok raw, true⟩ := by
  have hreads : ∃ e program raw, c.Reads t source e program raw ∧ c'.cache.raw = some raw := by
    cases h with
    | withoutBlocks read _ => exact ⟨_, _, _, read, rfl⟩
    | withBlocks read _ _ _ => exact ⟨_, _, _, read, rfl⟩
  obtain ⟨e, program, raw, read, hraw⟩ := hreads
  refine ⟨raw, hraw, ?_⟩
  rw [reading?, read.readOut?_eq, read.binary, h.compile_eq]
  rfl

/-- **What is shown after a call**, in terms of the builds so far. -/
theorem raw_afterCall (rs : List Reading) (hc : c.cache.raw = lastFinished? rs) (call : Call) :
    (c.afterCall t call).cache.raw = lastFinished? (rs ++ c.callReadings t call) := by
  cases call with
  | invalidate =>
      rw [callReadings, List.append_nil]
      exact hc
  | compile source =>
      rcases fails_or_finishes t source c with ⟨stage, log, err, c', h⟩ | ⟨log, output, c', h⟩
      · have hraw : (c.afterCall t (.compile source)).cache.raw = c.cache.raw := by
          rw [afterCall, h.compile_eq]
          exact h.binaries.1
        rw [hraw, hc, callReadings]
        cases hreading : c.reading? t source with
        | none => rw [Option.toList_none, List.append_nil]
        | some r =>
            have hunfinished : r.finished = false := by
              obtain ⟨binary, -, rfl⟩ := Option.map_eq_some_iff.mp hreading
              show (c.compile t source).1.success = false
              rw [h.compile_eq]
              rfl
            exact (lastFinished?_concat_unfinished rs hunfinished).symm
      · obtain ⟨raw, hraw, hreading⟩ := h.reading?_eq
        rw [afterCall, h.compile_eq, callReadings, hreading, hraw]
        exact (lastFinished?_concat_finished rs raw).symm

/-- **What is shown after any calls** is the binary of the last build whose compilation went through. -/
theorem raw_after (hc : c.cache.raw = none) (calls : List Call) :
    (c.after t calls).cache.raw = lastFinished? (readings t c calls) := by
  induction calls using List.reverseRecOn with
  | nil => exact hc
  | append_singleton calls call ih =>
      rw [after_concat, readings_concat]
      exact raw_afterCall _ ih call

/-- **The first binary is that of the last compilation that went through.** So after the last build whose binary was
    read out, this binary is shown exactly when its compilation went through as well, or when the last one before it
    that did had the same binary. -/
theorem raw_is_of_last_finished {o : Options} {s : σ} {d : δ} (hc : new o s d = .ok c) (calls : List Call) :
    (c.after t calls).cache.raw = lastFinished? (readings t c calls) ∧
      ∀ front r raw, readings t c calls = front ++ [r] → r.binary = .ok raw →
        ((c.after t calls).cache.raw = some raw ↔ r.finished = true ∨ lastFinished? front = some raw) := by
  obtain rfl := new_eq_ok hc
  have hraw := raw_after (t := t) (c := ⟨o, s, d, .empty⟩) rfl calls
  refine ⟨hraw, ?_⟩
  rintro front ⟨_, finished⟩ raw hreadings rfl
  rw [hraw, hreadings]
  cases finished with
  | true => simp [lastFinished?_concat_finished]
  | false => simp [lastFinished?_concat_unfinished]

/-- **What is said of the first binary**: whenever the binary of the last build was read out, it is shown, whatever
    came behind the readout. -/
def RawTracksBuilds (t : Toolchain σ δ P) (c : Compiler σ δ P) : Prop :=
  ∀ calls r raw, (readings t c calls).getLast? = some r → r.binary = .ok raw → (c.after t calls).cache.raw = some raw

/-- The build of the block gives a program and a binary, and the compilation goes on to load what was patched. -/
theorem readings_blockSource :
    readings (dummyToolchain false) standardCompiler [.compile blockSource] = [⟨.ok dummyBinary, false⟩] := by
  have hreads := reads_blockSource false
  have hfails := Fails.load hreads (List.cons_ne_nil _ _) rfl
  rw [readings, callReadings, reading?, hreads.readOut?_eq, hreads.binary, hfails.compile_eq]
  rfl

/-- **A binary that cannot be loaded again is not shown**, though it is that of the last build. -/
theorem unloaded_binary_is_not_shown :
    (new .standard () () : Except Error (Compiler Unit Unit Bytes)) = .ok standardCompiler ∧
      readings (dummyToolchain false) standardCompiler [.compile blockSource] = [] ++ [⟨.ok dummyBinary, false⟩] ∧
      (standardCompiler.after (dummyToolchain false) [.compile blockSource]).cache.raw ≠ some dummyBinary := by
  have hnew : (new .standard () () : Except Error (Compiler Unit Unit Bytes)) = .ok standardCompiler := rfl
  obtain ⟨-, hlast⟩ := raw_is_of_last_finished (t := dummyToolchain false) hnew [.compile blockSource]
  refine ⟨hnew, readings_blockSource, fun hshown => ?_⟩
  rcases (hlast [] _ dummyBinary readings_blockSource rfl).mp hshown with hfinished | hbefore
  · cases hfinished
  · cases hbefore

/-- **What is said of the first binary fails** of a compiler whose first patched binary cannot be loaded: the binary of
    its only build was read out, and none is shown. -/
theorem not_rawTracksBuilds : ¬ RawTracksBuilds (dummyToolchain false) standardCompiler := by
  intro htracks
  have hlast : (readings (dummyToolchain false) standardCompiler [.compile blockSource]).getLast? =
      some ⟨.ok dummyBinary, false⟩ := by
    rw [readings_blockSource]
    rfl
  have hshown := htracks [.compile blockSource] _ dummyBinary hlast rfl
  rw [raw_after rfl, readings_blockSource] at hshown
  cases hshown

end Compiler

end Inlay
