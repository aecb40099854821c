import Mathlib.Data.List.Induction
import Inlay.Proofs.Compiler.RememberedBuilds

/-!
# `Proofs.Compiler.CacheHistory` — when a build comes from the cache

A cache and a device are used through calls in any order (`BuildCache.Call`, `BuildCache.history`). The device may
answer differently each time it is asked, so what it was asked is written down by the device itself
(`Device.recording`); the record changes no answer.

The slot of the cache is then known from the calls alone: it holds the last entry of the record if the latest call
that wrote or cleared it was a build, and nothing otherwise (`InStep`). So a build comes from the cache exactly when
the latest such call built the same source, and what it gives is what the device was last heard to say
(`cached_iff_latest_built_same`).
-/

namespace Inlay

variable {δ P : Type}

/-! ## A device that writes down what it is asked -/

/-- The device with a record of the builds that it was asked for, in order. -/
def Device.recording (device : Device δ P) : Device (δ × List (CachedBuild P)) P where
  compileSource := fun source d =>
    ((device.compileSource source d.1).1, (device.compileSource source d.1).2,
      d.2 ++ [⟨source, (device.compileSource source d.1).1⟩])
  binary := fun program d => device.binary program d.1
  loadBinaries := fun binaries d =>
    ((device.loadBinaries binaries d.1).1, (device.loadBinaries binaries d.1).2, d.2)
  finish := fun program d => ((device.finish program d.1).1, (device.finish program d.1).2, d.2)

namespace BuildCache

variable {device : Device δ P} {c : BuildCache P} {source : String} {d : δ}

/-! ## One build -/

theorem lookup?_eq_some {b : DeviceBuild P} : c.lookup? source = some b ↔ c.slot = some ⟨source, b⟩ := by
  constructor
  · exact slot_of_lookup?
  · intro h
    rw [lookup?, h]
    exact if_pos rfl

/-- The slot holds a build of a source or none. -/
theorem slot_cases (c : BuildCache P) (source : String) :
    (∃ b, c.slot = some ⟨source, b⟩) ∨ ∀ b, c.slot ≠ some ⟨source, b⟩ := by
  by_cases hslot : ∃ b, c.slot = some ⟨source, b⟩
  · exact Or.inl hslot
  · exact Or.inr fun b hb => hslot ⟨b, hb⟩

/-- **A build from the cache** leaves the device alone. -/
theorem build_of_slot {b : DeviceBuild P} (h : c.slot = some ⟨source, b⟩) :
    c.build device source d = (⟨b, true⟩, d, c) := by
  rw [BuildCache.build, lookup?_eq_some.mpr h]

/-- **A build on the device** takes the slot, whatever the device says. -/
theorem build_of_no_slot (h : ∀ b, c.slot ≠ some ⟨source, b⟩) :
    c.build device source d = (⟨(device.compileSource source d).1.settled, false⟩, (device.compileSource source d).2,
      { c with slot := some ⟨source, (device.compileSource source d).1.settled⟩ }) := by
  have hnone : c.lookup? source = none := by
    cases hlookup : c.lookup? source with
    | none => rfl
    | some b => exact absurd (lookup?_eq_some.mp hlookup) (h b)
  rw [BuildCache.build, hnone]

/-! ## Any calls -/

/-- A call on a cache. -/
inductive Call where
  | build (source : String)
  | invalidate
  | record (raw patched : Bytes)
deriving DecidableEq, Repr

/-- Whether a call leaves the slot alone. -/
def Call.isRecord : Call → Bool
  | .record .. => true
  | _ => false

/-- The latest build or invalidation among calls. -/
def latest? (calls : List Call) : Option Call :=
  (calls.filter fun call => !call.isRecord).getLast?

/-- A cache and its device after calls, with the answers to all builds. -/
structure History (δ P : Type) where
  device : δ
  cache : BuildCache P
  answers : List (BuildAnswer P)

namespace History

/-- A history with one more call. -/
def call (device : Device δ P) (h : History δ P) : Call → History δ P
  | .build source =>
    let (answer, d, cache) := h.cache.build device source h.device
    ⟨d, cache, h.answers ++ [answer]⟩
  | .invalidate => { h with cache := h.cache.invalidate }
  | .record raw patched => { h with cache := h.cache.record raw patched }

end History

/-- What calls make of a cache that remembers nothing. -/
def history (device : Device δ P) (d : δ) (calls : List Call) : History δ P :=
  calls.foldl (History.call device) ⟨d, .empty, []⟩

/-- A history in which the device keeps a record. -/
abbrev Observed (δ P : Type) := History (δ × List (CachedBuild P)) P

namespace Observed

/-- What the device was asked to build, and what it said, in order. -/
def asked (h : Observed δ P) : List (CachedBuild P) :=
  h.device.2

/-- The history without the record. -/
def plain (h : Observed δ P) : History δ P :=
  ⟨h.device.1, h.cache, h.answers⟩

end Observed

/-- What calls make of a cache that remembers nothing, with a record of what the device was asked. -/
def observe (device : Device δ P) (d : δ) (calls : List Call) : Observed δ P :=
  history device.recording (d, []) calls

theorem history_concat (calls : List Call) (call : Call) :
    history device d (calls ++ [call]) = (history device d calls).call device call :=
  List.foldl_append

theorem observe_concat (calls : List Call) (call : Call) :
    observe device d (calls ++ [call]) = (observe device d calls).call device.recording call :=
  history_concat calls call

theorem latest?_concat_build (calls : List Call) : latest? (calls ++ [.build source]) = some (.build source) := by
  simp [latest?, Call.isRecord]

theorem latest?_concat_invalidate (calls : List Call) : latest? (calls ++ [.invalidate]) = some .invalidate := by
  simp [latest?, Call.isRecord]

theorem latest?_concat_record (calls : List Call) (raw patched : Bytes) :
    latest? (calls ++ [.record raw patched]) = latest? calls := by
  simp [latest?, Call.isRecord]

/-! ## The record changes nothing -/

theorem Observed.plain_call (h : Observed δ P) (call : Call) :
    Observed.plain (h.call device.recording call) = (Observed.plain h).call device call := by
  cases call with
  | build source =>
      rcases slot_cases h.cache source with ⟨b, hb⟩ | hnone
      · have hplain : (Observed.plain h).cache.slot = some ⟨source, b⟩ := hb
        simp only [History.call, build_of_slot hb, build_of_slot hplain]
        rfl
      · have hplain : ∀ b, (Observed.plain h).cache.slot ≠ some ⟨source, b⟩ := hnone
        simp only [History.call, build_of_no_slot hnone, build_of_no_slot hplain]
        rfl
  | invalidate => rfl
  | record raw patched => rfl

/-- **The record changes no answer**, and neither the cache nor the state of the device. -/
theorem plain_observe (device : Device δ P) (d : δ) (calls : List Call) :
    (observe device d calls).plain = history device d calls := by
  induction calls using List.reverseRecOn with
  | nil => rfl
  | append_singleton calls call ih => rw [observe_concat, history_concat, Observed.plain_call, ih]

/-! ## The slot and the calls -/

/-- **A history in step with its calls.** -/
structure InStep (calls : List Call) (h : Observed δ P) : Prop where
  /-- The slot holds a build of a source exactly when the latest build or invalidation built it. -/
  slot : ∀ source, (∃ b, h.cache.slot = some ⟨source, b⟩) ↔ latest? calls = some (.build source)
  /-- What the slot holds is what the device said last, with the flag that is kept of it. -/
  last : ∀ r, h.cache.slot = some r → ∃ b, h.asked.getLast? = some ⟨r.source, b⟩ ∧ r.build = b.settled
  /-- The device was asked for each build that did not come from the cache. -/
  count : h.asked.length = h.answers.countP fun a => !a.cached

variable {calls : List Call} {h : Observed δ P}

/-- **A build from the cache keeps step.** The history only gains an answer. -/
theorem InStep.hit (hh : InStep calls h) {b : DeviceBuild P} (hb : h.cache.slot = some ⟨source, b⟩) :
    InStep (calls ++ [.build source]) ⟨h.device, h.cache, h.answers ++ [⟨b, true⟩]⟩ where
  slot := fun source' => by
    rw [latest?_concat_build, ← (hh.slot source).mp ⟨b, hb⟩]
    exact hh.slot source'
  last := hh.last
  count := by
    rw [List.countP_append]
    exact hh.count

/-- **A build on the device keeps step.** The slot takes what the record gains. -/
theorem InStep.miss (hh : InStep calls h) (b : DeviceBuild P) (d : δ) :
    InStep (calls ++ [.build source])
      ⟨(d, h.asked ++ [⟨source, b⟩]), { h.cache with slot := some ⟨source, b.settled⟩ },
        h.answers ++ [⟨b.settled, false⟩]⟩ where
  slot := fun source' => by simp [latest?_concat_build]
  last := fun r hr => by
    cases hr
    exact ⟨b, List.getLast?_concat, rfl⟩
  count := by
    rw [List.countP_append, ← hh.count]
    exact List.length_append

/-- **One call keeps step.** -/
theorem InStep.call (hh : InStep calls h) (call : Call) :
    InStep (calls ++ [call]) (h.call device.recording call) := by
  cases call with
  | build source =>
      rcases slot_cases h.cache source with ⟨b, hb⟩ | hnone
      · simp only [History.call, build_of_slot hb]
        exact hh.hit hb
      · simp only [History.call, build_of_no_slot hnone]
        exact hh.miss _ _
  | invalidate =>
      refine ⟨fun source => ?_, fun r hr => ?_, hh.count⟩
      · rw [latest?_concat_invalidate]
        constructor
        · rintro ⟨b, hb⟩
          cases hb
        · intro hlatest
          cases hlatest
      · cases hr
  | record raw patched =>
      refine ⟨fun source => ?_, hh.last, hh.count⟩
      rw [latest?_concat_record]
      exact hh.slot source

/-- **Any calls keep step.** -/
theorem inStep_observe (device : Device δ P) (d : δ) (calls : List Call) :
    InStep calls (observe device d calls) := by
  induction calls using List.reverseRecOn with
  | nil =>
      refine ⟨fun source => ?_, fun r hr => ?_, rfl⟩
      · constructor
        · rintro ⟨b, hb⟩
          cases hb
        · intro hlatest
          cases hlatest
      · cases hr
  | append_singleton calls call ih =>
      rw [observe_concat]
      exact ih.call call

/-- **The cache answers exactly when it may.** After any calls, let a source be built, on a device that may answer
    differently each time. The build comes from the cache exactly when the latest build or invalidation before it
    built the same source. The device has been asked once for each build that did not come from the cache. What the
    build gives is what the device said when it was last asked, which was for this source; the build is reported as a
    success exactly when the device then reported one and gave a program. A device that keeps no record is asked the
    same, and the answers and the cache are the same. -/
theorem cached_iff_latest_built_same (device : Device δ P) (d : δ) (calls : List Call) (source : String) :
    ∃ answer last,
      (observe device d (calls ++ [.build source])).answers = (observe device d calls).answers ++ [answer] ∧
      (answer.cached = true ↔ latest? calls = some (.build source)) ∧
      (observe device d calls).asked.length = (observe device d calls).answers.countP (fun a => !a.cached) ∧
      (observe device d (calls ++ [.build source])).asked.getLast? = some ⟨source, last⟩ ∧
      answer.build.program = last.program ∧ answer.build.log = last.log ∧
      (answer.build.success = true ↔ last.success = true ∧ last.program.isSome = true) ∧
      (observe device d (calls ++ [.build source])).plain = history device d (calls ++ [.build source]) := by
  have hstep := inStep_observe device d calls
  have hafter := inStep_observe device d (calls ++ [.build source])
  have hplain := plain_observe device d (calls ++ [.build source])
  rw [observe_concat] at hafter hplain ⊢
  generalize observe device d calls = h at hstep hafter hplain ⊢
  rcases slot_cases h.cache source with ⟨b, hb⟩ | hnone
  · have hcached : latest? calls = some (.build source) := (hstep.slot source).mp ⟨b, hb⟩
    simp only [History.call, build_of_slot hb] at hafter hplain ⊢
    obtain ⟨last, hlast, rfl⟩ := hafter.last _ hb
    exact ⟨⟨last.settled, true⟩, last, rfl, iff_of_true rfl hcached, hstep.count, hlast, rfl, rfl,
      Bool.and_eq_true_iff, hplain⟩
  · have hasked : latest? calls ≠ some (.build source) := by
      intro hlatest
      obtain ⟨b, hb⟩ := (hstep.slot source).mpr hlatest
      exact hnone b hb
    simp only [History.call, build_of_no_slot hnone] at hafter hplain ⊢
    exact ⟨_, (device.compileSource source h.device.1).1, rfl, iff_of_false Bool.false_ne_true hasked, hstep.count,
      List.getLast?_concat, rfl, rfl, Bool.and_eq_true_iff, hplain⟩

/-- A device that reports a success for every source and never has a program. -/
def boastingDevice : Device Unit Unit where
  compileSource := fun _ d => (⟨none, true, ""⟩, d)
  binary := fun _ _ => .ok []
  loadBinaries := fun _ d => (.ok (), d)
  finish := fun _ d => (.ok (), d)

/-- **A success without a program is remembered as a failure**: the second build of the source comes from the cache,
    behind a record of binaries, and is no success. -/
theorem boasted_build_is_remembered_as_failure : ∃ answer,
    (observe boastingDevice () [.build "x", .record [1] [2], .build "x"]).answers =
      (observe boastingDevice () [.build "x", .record [1] [2]]).answers ++ [answer] ∧
    answer.cached = true ∧ answer.build.success = false := by
  obtain ⟨answer, last, hanswers, hcached, -, hlast, -, -, hsuccess, -⟩ :=
    cached_iff_latest_built_same boastingDevice () [.build "x", .record [1] [2]] "x"
  obtain rfl : last = ⟨none, true, ""⟩ := (congrArg CachedBuild.build (Option.some.inj hlast)).symm
  refine ⟨answer, hanswers, hcached.mpr rfl, ?_⟩
  rw [Bool.eq_false_iff]
  intro hflag
  obtain ⟨-, hprogram⟩ := hsuccess.mp hflag
  cases hprogram

end BuildCache

end Inlay
