import Inlay.Proofs.Compiler.Preparation

/-!
# `Proofs.Compiler.RememberedBuilds` — a remembered build is as good as a new one

A compiler keeps the last build of the device over every call, also over calls that fail behind it. For a toolchain
whose answers depend only on what it is asked (`Toolchain.Stateless`) nobody can tell: after any calls a compilation
makes and reports what a new compiler would make and report, up to the mark behind the entry about the device source
(`compile_eq_compile_new`).

The invariant is `Faithful`: what the cache remembers of a source is what the device makes of it. Every call keeps
it, because only a build writes the slot, and it writes what the device said. A part of a compilation is then a
function of the options and the source alone, apart from the mark of the build.
-/

namespace Inlay

variable {σ δ P : Type}

/-! ## Answers that depend only on the question -/

/-- What the device answers does not depend on its state, which may still change. -/
structure Device.Stateless (device : Device δ P) : Prop where
  compileSource : ∀ source d d', (device.compileSource source d).1 = (device.compileSource source d').1
  binary : ∀ program d d', device.binary program d = device.binary program d'
  loadBinaries : ∀ binaries d d', (device.loadBinaries binaries d).1 = (device.loadBinaries binaries d').1
  finish : ∀ program d d', (device.finish program d).1 = (device.finish program d').1

/-- The answers of the assembler and of the device depend only on what they are asked. -/
structure Toolchain.Stateless (t : Toolchain σ δ P) : Prop where
  assembler : t.assembler.Stateless
  device : t.device.Stateless

/-! ## Faithful caches -/

namespace BuildCache

variable {device : Device δ P} {c : BuildCache P} {source : String}

/-- **What is remembered of a source is what the device makes of it**, in whatever state it is asked. -/
def Faithful (device : Device δ P) (c : BuildCache P) : Prop :=
  ∀ r, c.slot = some r → ∀ d, (device.compileSource r.source d).1.settled = r.build

theorem faithful_empty : (empty : BuildCache P).Faithful device :=
  fun _ h => by cases h

theorem Faithful.invalidate : (c.invalidate).Faithful device :=
  fun _ h => by cases h

theorem Faithful.record {raw patched : Bytes} (hc : c.Faithful device) : (c.record raw patched).Faithful device :=
  hc

/-- The remembered build of a source is that of a slot with this source. -/
theorem slot_of_lookup? {b : DeviceBuild P} (h : c.lookup? source = some b) : c.slot = some ⟨source, b⟩ := by
  unfold lookup? at h
  split at h
  · next r hr =>
    split at h
    · next hsource =>
      cases h
      rw [hr, ← hsource]
    · cases h
  · cases h

/-- A build is what the device makes of the source, remembered or not. -/
theorem Faithful.build_eq (hc : c.Faithful device) (hdevice : device.Stateless) (d d' : δ) :
    (c.build device source d).1.build = (device.compileSource source d').1.settled := by
  unfold BuildCache.build
  cases h : c.lookup? source with
  | some b => exact (hc _ (slot_of_lookup? h) d').symm
  | none => exact congrArg DeviceBuild.settled (hdevice.compileSource source d d')

/-- **One build keeps the cache faithful.** -/
theorem Faithful.build (hc : c.Faithful device) (hdevice : device.Stateless) (d : δ) :
    (c.build device source d).2.2.Faithful device := by
  unfold BuildCache.build
  cases h : c.lookup? source with
  | some b => exact hc
  | none =>
      -- the slot now holds what the device just said
      intro r hr d'
      cases hr
      exact congrArg DeviceBuild.settled (hdevice.compileSource source d' d)

theorem not_cached_of_empty (d : δ) : ((empty : BuildCache P).build device source d).1.cached = false :=
  rfl

end BuildCache

/-! ## The parts of a compilation -/

namespace Compiler

variable {t : Toolchain σ δ P} {c c' : Compiler σ δ P} {source : String}

/-- What is remembered of a source is what the device makes of it. -/
abbrev Faithful (t : Toolchain σ δ P) (c : Compiler σ δ P) : Prop :=
  c.cache.Faithful t.device

/-- What a build logs and gives, when the device or the cache gave this answer. -/
def builtBy (digest : Digest) (source : String) (answer : BuildAnswer P) : Logged P :=
  match answer.build.program? with
  | some program => ⟨buildEntry digest source answer :: reportEntries answer.build, .ok program⟩
  | none => ⟨[buildEntry digest source answer], .error (.deviceBuildFailed answer.build.log)⟩

theorem build_eq : c.build t source =
    (builtBy t.digest source (c.cache.build t.device source c.device).1,
      { c with
        device := (c.cache.build t.device source c.device).2.1
        cache := (c.cache.build t.device source c.device).2.2 }) := by
  unfold build builtBy
  dsimp only
  cases (c.cache.build t.device source c.device).1.build.program? <;> rfl

/-- Loading changes only the state of the device. -/
theorem load_snd (binary : Bytes) :
    (c.load t binary).2.options = c.options ∧ (c.load t binary).2.cache = c.cache := by
  unfold load
  split <;> exact ⟨rfl, rfl⟩

/-- Patching changes the state of the device and remembers binaries at most. -/
theorem patch_snd (assembled : List Assembled) (program : P) (raw : Bytes) :
    (c.patch t assembled program raw).2.options = c.options ∧
      (c.patch t assembled program raw).2.cache.slot = c.cache.slot := by
  unfold patch
  split
  · exact ⟨rfl, rfl⟩
  · dsimp only
    have hload := load_snd (t := t) (c := c) (c.options.anchor.patch raw (assembled.map Assembled.patch)).binary
    generalize c.load t (c.options.anchor.patch raw (assembled.map Assembled.patch)).binary = loaded at hload ⊢
    obtain ⟨x, d⟩ := loaded
    obtain ⟨hoptions, hcache⟩ := hload
    have hslot : d.cache.slot = c.cache.slot := congrArg BuildCache.slot hcache
    cases x <;> exact ⟨hoptions, hslot⟩

/-! ## One call keeps the cache faithful -/

theorem Faithful.runDevice (ht : t.Stateless) (hc : c.Faithful t) (prepared : Prepared) :
    (c.runDevice t prepared).2.options = c.options ∧ (c.runDevice t prepared).2.Faithful t := by
  have hbuild : (c.build t prepared.deviceSource).2.options = c.options ∧
      (c.build t prepared.deviceSource).2.Faithful t := by
    rw [build_eq]
    exact ⟨rfl, BuildCache.Faithful.build hc ht.device c.device⟩
  unfold Compiler.runDevice
  -- what the build gave and the compiler behind it are all that the rest looks at
  generalize c.build t prepared.deviceSource = built at hbuild ⊢
  obtain ⟨⟨log, result⟩, d⟩ := built
  cases result with
  | error e => exact hbuild
  | ok program =>
      dsimp only
      split
      · exact hbuild
      · next raw hraw =>
        obtain ⟨hoptions, hslot⟩ := patch_snd (t := t) (c := d) prepared.assembled program raw
        exact ⟨hoptions.trans hbuild.1, fun r hr => hbuild.2 r (hslot ▸ hr)⟩

/-- **One compilation keeps the cache faithful**, at whatever stage it ends. -/
theorem Faithful.compile (ht : t.Stateless) (hc : c.Faithful t) (source : String) :
    (c.compile t source).2.options = c.options ∧ (c.compile t source).2.Faithful t := by
  have hrun : (c.run t source).2.options = c.options ∧ (c.run t source).2.Faithful t := by
    have hprepare : (c.prepare t source).2.options = c.options ∧ (c.prepare t source).2.Faithful t := ⟨rfl, hc⟩
    unfold run
    generalize c.prepare t source = ready at hprepare ⊢
    obtain ⟨⟨log, result⟩, d⟩ := ready
    cases result with
    | error e => exact hprepare
    | ok prepared =>
        obtain ⟨hoptions, hfaithful⟩ := Faithful.runDevice ht hprepare.2 prepared
        exact ⟨hoptions.trans hprepare.1, hfaithful⟩
  unfold Compiler.compile
  generalize c.run t source = done at hrun ⊢
  obtain ⟨⟨log, result⟩, d⟩ := done
  cases result <;> exact hrun

/-! ## The mark of a remembered build -/

end Compiler

/-- The entry about the source for the device, when the device was asked. -/
def sourceEntry (digest : Digest) (text : String) : LogEntry :=
  .info .build s!"device source {digest.fingerprint text} ({text.utf8ByteSize} bytes)"

/-- An entry with the mark of a remembered build. -/
def LogEntry.marked (e : LogEntry) : LogEntry :=
  { e with message := e.message ++ ", cached" }

/-- **The logs agree**, except that the first one may have the mark of a remembered build. -/
def Log.SameButMark (digest : Digest) (log log' : Log) : Prop :=
  log = log' ∨ ∃ front text back,
    log' = front ++ sourceEntry digest text :: back ∧ log = front ++ (sourceEntry digest text).marked :: back

theorem buildEntry_eq (digest : Digest) (text : String) (answer : BuildAnswer P) :
    buildEntry digest text answer =
      if answer.cached then (sourceEntry digest text).marked else sourceEntry digest text := by
  unfold buildEntry
  cases answer.cached with
  | true => rfl
  | false => exact congrArg (LogEntry.mk .info .build) (String.append_empty)

namespace Log.SameButMark

variable {digest : Digest} {log log' : Log}

theorem refl (log : Log) : SameButMark digest log log :=
  Or.inl rfl

theorem append_left (h : SameButMark digest log log') (front : Log) :
    SameButMark digest (front ++ log) (front ++ log') := by
  rcases h with rfl | ⟨front', text, back, rfl, rfl⟩
  · exact refl _
  · exact Or.inr ⟨front ++ front', text, back, by simp, by simp⟩

theorem append_right (h : SameButMark digest log log') (back : Log) :
    SameButMark digest (log ++ back) (log' ++ back) := by
  rcases h with rfl | ⟨front, text, back', rfl, rfl⟩
  · exact refl _
  · exact Or.inr ⟨front, text, back' ++ back, by simp, by simp⟩

end Log.SameButMark

/-- **The same came of two parts of compilations**, and they logged the same, up to the mark. -/
structure Logged.SameButMark {α : Type} (digest : Digest) (x y : Logged α) : Prop where
  result : x.result = y.result
  log : Log.SameButMark digest x.log y.log

namespace Compiler

variable {t : Toolchain σ δ P} {c c' : Compiler σ δ P} {source : String}

/-! ## Two compilers with the same options -/

/-- Answers with the same build differ at most by the mark. -/
theorem builtBy_sameButMark (digest : Digest) {x y : BuildAnswer P} (hbuild : x.build = y.build)
    (hy : y.cached = false) : (builtBy digest source x).SameButMark digest (builtBy digest source y) := by
  have hentry : ∀ back,
      Log.SameButMark digest (buildEntry digest source x :: back) (buildEntry digest source y :: back) := by
    intro back
    rw [buildEntry_eq, buildEntry_eq, hy]
    cases x.cached with
    | true => exact Or.inr ⟨[], source, back, rfl, rfl⟩
    | false => exact .refl _
  unfold builtBy
  rw [hbuild]
  split
  · exact ⟨rfl, hentry _⟩
  · exact ⟨rfl, hentry _⟩

theorem prepare_congr (ht : t.Stateless) (ho : c.options = c'.options) (source : String) :
    (c.prepare t source).1 = (c'.prepare t source).1 := by
  show (Inlay.prepare t.pool c.options t.assembler source c.assembler).1 = _
  rw [← ht.assembler.prepare_eq t.pool t.pool c.options c.options.parallel source c.assembler c'.assembler, ho]
  rfl

theorem load_congr (ht : t.Stateless) (c c' : Compiler σ δ P) (binary : Bytes) :
    (c.load t binary).1 = (c'.load t binary).1 := by
  have hload := ht.device.loadBinaries [binary] c.device c'.device
  unfold load
  generalize t.device.loadBinaries [binary] c.device = loaded at hload ⊢
  generalize t.device.loadBinaries [binary] c'.device = loaded' at hload ⊢
  obtain ⟨x, d⟩ := loaded
  obtain ⟨y, d'⟩ := loaded'
  obtain rfl : x = y := hload
  cases x with
  | error e => rfl
  | ok program => exact congrArg (Except.map fun _ => program) (ht.device.finish program d d')

theorem patch_congr (ht : t.Stateless) (ho : c.options = c'.options) (assembled : List Assembled) (program : P)
    (raw : Bytes) : (c.patch t assembled program raw).1 = (c'.patch t assembled program raw).1 := by
  unfold patch
  rw [ho]
  split
  · rfl
  · dsimp only
    have hload := load_congr ht c c' (c'.options.anchor.patch raw (assembled.map Assembled.patch)).binary
    generalize c.load t _ = loaded at hload ⊢
    generalize c'.load t _ = loaded' at hload ⊢
    obtain ⟨x, d⟩ := loaded
    obtain ⟨y, d'⟩ := loaded'
    obtain rfl : x = y := hload
    cases x <;> rfl

/-- **The device side** of a compilation is that of a compiler that remembers nothing, up to the mark. -/
theorem runDevice_sameButMark (ht : t.Stateless) (ho : c.options = c'.options) (hc : c.Faithful t)
    (hnew : c'.cache = .empty) (prepared : Prepared) :
    (c.runDevice t prepared).1.SameButMark t.digest (c'.runDevice t prepared).1 := by
  have hbuild : (c.build t prepared.deviceSource).1.SameButMark t.digest (c'.build t prepared.deviceSource).1 := by
    rw [build_eq, build_eq, hnew]
    -- both builds are what the device makes of the source, and the second compiler had none to remember
    refine builtBy_sameButMark t.digest ?_ (BuildCache.not_cached_of_empty _)
    rw [BuildCache.Faithful.build_eq hc ht.device c.device c.device,
      BuildCache.faithful_empty.build_eq ht.device c'.device c.device]
  have hoptions : (c.build t prepared.deviceSource).2.options = (c'.build t prepared.deviceSource).2.options := by
    rw [build_eq, build_eq]
    exact ho
  unfold Compiler.runDevice
  generalize c.build t prepared.deviceSource = built at hbuild hoptions ⊢
  generalize c'.build t prepared.deviceSource = built' at hbuild hoptions ⊢
  obtain ⟨⟨log, result⟩, d⟩ := built
  obtain ⟨⟨log', result'⟩, d'⟩ := built'
  obtain ⟨rfl : result = result', hlog⟩ := hbuild
  cases result with
  | error e => exact ⟨rfl, hlog⟩
  | ok program =>
      dsimp only
      rw [ht.device.binary program d.device d'.device]
      split
      · exact ⟨rfl, hlog⟩
      · next raw _ =>
        rw [patch_congr ht hoptions prepared.assembled program raw]
        exact ⟨rfl, hlog.append_right _⟩

/-- **A compilation** is that of a compiler that remembers nothing, up to the mark. -/
theorem compile_sameButMark (ht : t.Stateless) (ho : c.options = c'.options) (hc : c.Faithful t)
    (hnew : c'.cache = .empty) (source : String) :
    (c.compile t source).1.output = (c'.compile t source).1.output ∧
      Log.SameButMark t.digest (c.compile t source).1.log (c'.compile t source).1.log := by
  have hrun : (c.run t source).1.SameButMark t.digest (c'.run t source).1 := by
    have hprepare := prepare_congr ht ho source
    have hstate : (c.prepare t source).2.options = (c'.prepare t source).2.options ∧
        (c.prepare t source).2.Faithful t ∧ (c'.prepare t source).2.cache = .empty := ⟨ho, hc, hnew⟩
    unfold run
    generalize c.prepare t source = ready at hprepare hstate ⊢
    generalize c'.prepare t source = ready' at hprepare hstate ⊢
    obtain ⟨⟨log, result⟩, d⟩ := ready
    obtain ⟨_, d'⟩ := ready'
    cases hprepare
    cases result with
    -- in front of the device, nothing depends on the cache
    | error e => exact ⟨rfl, .refl _⟩
    | ok prepared =>
        have hdevice := runDevice_sameButMark ht hstate.1 hstate.2.1 hstate.2.2 prepared
        exact ⟨hdevice.result, hdevice.log.append_left log⟩
  unfold compile
  generalize c.run t source = done at hrun ⊢
  generalize c'.run t source = done' at hrun ⊢
  obtain ⟨⟨log, result⟩, d⟩ := done
  obtain ⟨⟨log', result'⟩, d'⟩ := done'
  obtain ⟨rfl : result = result', hlog⟩ := hrun
  cases result with
  | error e => exact ⟨rfl, hlog.append_right _⟩
  | ok output => exact ⟨rfl, hlog⟩

/-! ## Any calls -/

/-- A call that can change what a compiler remembers of its builds. -/
inductive Call where
  | compile (source : String)
  | invalidate
deriving DecidableEq, Repr

/-- A compiler after a call. -/
def afterCall (t : Toolchain σ δ P) (c : Compiler σ δ P) : Call → Compiler σ δ P
  | .compile source => (c.compile t source).2
  | .invalidate => c.invalidate

/-- A compiler after calls. -/
def after (t : Toolchain σ δ P) (c : Compiler σ δ P) (calls : List Call) : Compiler σ δ P :=
  calls.foldl (afterCall t) c

/-- **Any calls keep the cache faithful** and change no option. -/
theorem Faithful.after (ht : t.Stateless) (hc : c.Faithful t) (calls : List Call) :
    (c.after t calls).options = c.options ∧ (c.after t calls).Faithful t := by
  induction calls generalizing c with
  | nil => exact ⟨rfl, hc⟩
  | cons call calls ih =>
      have hcall : (c.afterCall t call).options = c.options ∧ (c.afterCall t call).Faithful t := by
        cases call with
        | compile source => exact Faithful.compile ht hc source
        | invalidate => exact ⟨rfl, BuildCache.Faithful.invalidate⟩
      obtain ⟨hoptions, hfaithful⟩ := ih hcall.2
      exact ⟨hoptions.trans hcall.1, hfaithful⟩

/-- A new compiler has the options that it was given, and remembers nothing. -/
theorem new_eq_ok {o : Options} {s : σ} {d : δ} (h : new o s d = .ok c) : c = ⟨o, s, d, .empty⟩ := by
  obtain ⟨-, -, hc⟩ := bind_eq_ok.mp h
  exact (Except.ok.inj hc).symm

/-- **The cache is invisible.** Take a toolchain whose answers depend only on what it is asked, and a compiler that
    was made and then called in any way, with sources that fail at any stage among them. What it makes of the next
    source, whether that is a success, and what it logs, is what a compiler just made with the same options would
    make, report and log, except that the entry about the source for the device may be marked as remembered. -/
theorem compile_eq_compile_new {o : Options} {s s' : σ} {d d' : δ} {fresh : Compiler σ δ P} (ht : t.Stateless)
    (hc : new o s d = .ok c) (hfresh : new o s' d' = .ok fresh) (calls : List Call) (source : String) :
    ((c.after t calls).compile t source).1.success = (fresh.compile t source).1.success ∧
      ((c.after t calls).compile t source).1.output = (fresh.compile t source).1.output ∧
      Log.SameButMark t.digest ((c.after t calls).compile t source).1.log (fresh.compile t source).1.log := by
  obtain rfl := new_eq_ok hc
  obtain rfl := new_eq_ok hfresh
  obtain ⟨hoptions, hfaithful⟩ := Faithful.after (c := ⟨o, s, d, .empty⟩) ht BuildCache.faithful_empty calls
  have hsame : (after t ⟨o, s, d, .empty⟩ calls).options = (⟨o, s', d', .empty⟩ : Compiler σ δ P).options := hoptions
  obtain ⟨houtput, hlog⟩ := compile_sameButMark ht hsame hfaithful rfl source
  exact ⟨congrArg Option.isSome houtput, houtput, hlog⟩

/-- A toolchain that assembles every body to nothing, and whose device counts what it is asked to build. The program
    of a source is the source itself. -/
def countingToolchain : Toolchain Unit Nat String where
  assembler := fun _ s => (⟨[], 0, 0, "", [], true⟩, s)
  device :=
    { compileSource := fun source d => (⟨some source, true, ""⟩, d + 1)
      binary := fun _ _ => .ok []
      loadBinaries := fun _ d => (.ok "", d)
      finish := fun _ d => (.ok (), d) }

/-- **The device is asked once** for a source that is compiled twice, with a source between that has no end to its
    tag, and nobody can tell. -/
theorem compile_twice_builds_once :
    countingToolchain.Stateless ∧ ∃ c : Compiler Unit Nat String, new .standard () 0 = .ok c ∧
      ((c.after countingToolchain [.compile "x", .compile "[["]).compile countingToolchain "x").2.device = 1 ∧
      ((c.after countingToolchain [.compile "x", .compile "[["]).compile countingToolchain "x").1.output =
        (c.compile countingToolchain "x").1.output ∧
      Log.SameButMark countingToolchain.digest
        ((c.after countingToolchain [.compile "x", .compile "[["]).compile countingToolchain "x").1.log
        (c.compile countingToolchain "x").1.log := by
  have ht : countingToolchain.Stateless :=
    ⟨fun _ _ _ => rfl, fun _ _ _ => rfl, fun _ _ _ => rfl, fun _ _ _ => rfl, fun _ _ _ => rfl⟩
  have hc : (new .standard () 0 : Except Error (Compiler Unit Nat String)) = .ok ⟨.standard, (), 0, .empty⟩ := rfl
  obtain ⟨-, houtput, hlog⟩ := compile_eq_compile_new ht hc hc [.compile "x", .compile "[["] "x"
  exact ⟨ht, _, hc, by decide +kernel, houtput, hlog⟩

end Compiler

end Inlay
