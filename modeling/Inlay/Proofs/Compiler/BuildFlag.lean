import Mathlib
import Inlay.Proofs.Compiler.CacheHistory
import Inlay.Proofs.Compiler.Course

/-!
# `Proofs.Compiler.BuildFlag` — whether the last build succeeded

A compiler says whether its last build succeeded. It reads this off the slot of its cache, so what it says depends on
what was done to the slot last (`SlotEvent`): behind a build it is the success of that build, wherever the build came
from, and behind an invalidation it is nothing, as before the first build (`SlotEvent.flag?`). This holds of a cache
under any calls and of a compiler under any calls (`flag_tells_of_build_unless_forgotten`).

So the success of the most recent build is told as long as that build was not forgotten. Once it is, nothing is told
of it any more (`not_flagFollowsBuilds`).
-/

namespace Inlay

variable {σ δ P : Type}

/-- What is done to the slot of a cache: a build with its answer, or an invalidation. -/
inductive SlotEvent (P : Type) where
  | built (answer : BuildAnswer P)
  | forgotten

namespace SlotEvent

variable {events : List (SlotEvent P)} {answer : BuildAnswer P}

/-- The answer of a build. -/
def answer? : SlotEvent P → Option (BuildAnswer P)
  | built answer => some answer
  | forgotten => none

/-- The success of the most recent build, whatever came behind it. -/
def lastBuilt? (events : List (SlotEvent P)) : Option Bool :=
  (events.filterMap answer?).getLast?.map (·.build.success)

/-- The success of the build that was the last thing done, if it was one. -/
def flag? (events : List (SlotEvent P)) : Option Bool :=
  (events.getLast?.bind answer?).map (·.build.success)

@[simp] theorem flag?_nil : flag? ([] : List (SlotEvent P)) = none := rfl

@[simp] theorem flag?_built (events : List (SlotEvent P)) (answer : BuildAnswer P) :
    flag? (events ++ [built answer]) = some answer.build.success := by
  simp [flag?, answer?]

@[simp] theorem flag?_forgotten (events : List (SlotEvent P)) : flag? (events ++ [forgotten]) = none := by
  simp [flag?, answer?]

theorem lastBuilt?_built (events : List (SlotEvent P)) (answer : BuildAnswer P) :
    lastBuilt? (events ++ [built answer]) = some answer.build.success := by
  simp [lastBuilt?, answer?, List.filterMap_append]

theorem lastBuilt?_forgotten (events : List (SlotEvent P)) :
    lastBuilt? (events ++ [forgotten]) = lastBuilt? events := by
  simp [lastBuilt?, answer?, List.filterMap_append]

theorem lastBuilt?_eq_none_iff : lastBuilt? events = none ↔ ∀ answer, built answer ∉ events := by
  constructor
  · intro h answer hmem
    rw [lastBuilt?, Option.map_eq_none_iff, List.getLast?_eq_none_iff, List.filterMap_eq_nil_iff] at h
    cases h _ hmem
  · intro h
    rw [lastBuilt?, Option.map_eq_none_iff, List.getLast?_eq_none_iff, List.filterMap_eq_nil_iff]
    intro event hevent
    cases event with
    | built answer => exact absurd hevent (h answer)
    | forgotten => rfl

/-- **The flag is that of the most recent build** unless that build was forgotten. -/
theorem flag?_eq_lastBuilt?_iff (events : List (SlotEvent P)) :
    flag? events = lastBuilt? events ↔ ¬ (events.getLast? = some forgotten ∧ ∃ answer, built answer ∈ events) := by
  cases events using List.reverseRecOn with
  | nil => simp [lastBuilt?]
  | append_singleton events event =>
      cases event with
      | built answer => simp [lastBuilt?_built]
      | forgotten =>
          rw [flag?_forgotten, lastBuilt?_forgotten, eq_comm, lastBuilt?_eq_none_iff]
          simp

end SlotEvent

open SlotEvent

/-! ## A cache under any calls -/

namespace BuildCache

variable {device : Device δ P} {c : BuildCache P} {source : String} {d : δ}

/-- **Behind a build** the flag is its success, whether the build came from the cache or not. -/
theorem lastSucceeded?_build (device : Device δ P) (source : String) (d : δ) (c : BuildCache P) :
    (c.build device source d).2.2.lastSucceeded? = some (c.build device source d).1.build.success := by
  rcases slot_cases c source with ⟨b, hb⟩ | hnone
  · rw [build_of_slot hb, lastSucceeded?, hb]
    rfl
  · rw [build_of_no_slot hnone]
    rfl

/-- What a call does to the slot. -/
def callEvents (device : Device δ P) (h : History δ P) : Call → List (SlotEvent P)
  | .build source => [.built (h.cache.build device source h.device).1]
  | .invalidate => [.forgotten]
  | .record .. => []

/-- What calls do to the slot, in order. -/
def eventsFrom (device : Device δ P) (h : History δ P) : List Call → List (SlotEvent P)
  | [] => []
  | call :: calls => callEvents device h call ++ eventsFrom device (h.call device call) calls

/-- What calls do to the slot of a cache that remembers nothing. -/
def events (device : Device δ P) (d : δ) (calls : List Call) : List (SlotEvent P) :=
  eventsFrom device ⟨d, .empty, []⟩ calls

theorem events_concat (device : Device δ P) (d : δ) (calls : List Call) (call : Call) :
    events device d (calls ++ [call]) = events device d calls ++ callEvents device (history device d calls) call := by
  have hfrom : ∀ h : History δ P, eventsFrom device h (calls ++ [call]) =
      eventsFrom device h calls ++ callEvents device (calls.foldl (History.call device) h) call := by
    induction calls with
    | nil =>
        intro h
        simp [eventsFrom]
    | cons first calls ih =>
        intro h
        simp [eventsFrom, ih, List.append_assoc]
  exact hfrom _

/-- **Behind any calls** the flag tells what was done to the slot last. -/
theorem lastSucceeded?_history (device : Device δ P) (d : δ) (calls : List Call) :
    (history device d calls).cache.lastSucceeded? = flag? (events device d calls) := by
  induction calls using List.reverseRecOn with
  | nil => rfl
  | append_singleton calls call ih =>
      rw [history_concat, events_concat]
      cases call with
      | build source =>
          rw [callEvents, flag?_built]
          exact lastSucceeded?_build device source _ _
      | invalidate =>
          rw [callEvents, flag?_forgotten]
          rfl
      | record raw patched =>
          rw [callEvents, List.append_nil]
          exact ih

/-- **What an invalidation changes for the next build**: nothing if that build has to be made anyway. If it was
    remembered, the device is asked again; and if it answers as before, that build is told to be a new one, and the
    cache is the same behind it. -/
theorem build_invalidate (device : Device δ P) (source : String) (d : δ) (c : BuildCache P) :
    ((∀ b, c.slot ≠ some ⟨source, b⟩) → c.invalidate.build device source d = c.build device source d) ∧
      ∀ b, c.slot = some ⟨source, b⟩ →
        (c.invalidate.build device source d).1 = ⟨(device.compileSource source d).1.settled, false⟩ ∧
          (c.build device source d).1 = ⟨b, true⟩ ∧
          ((device.compileSource source d).1.settled = b →
            (c.invalidate.build device source d).2.2 = (c.build device source d).2.2) := by
  have hmiss : c.invalidate.build device source d = (⟨(device.compileSource source d).1.settled, false⟩,
      (device.compileSource source d).2,
      { c with slot := some ⟨source, (device.compileSource source d).1.settled⟩ }) := by
    apply build_of_no_slot
    intro b hb
    cases hb
  constructor
  · intro hnone
    rw [hmiss, build_of_no_slot hnone]
  · intro b hb
    rw [hmiss, build_of_slot hb]
    refine ⟨rfl, rfl, ?_⟩
    intro hsame
    obtain ⟨slot, raw, patched⟩ := c
    obtain rfl : slot = some ⟨source, b⟩ := hb
    rw [hsame]

/-- **What is said of the flag**: after any calls it is the success of the most recent build, and there is none only
    before the first one. -/
def FlagFollowsBuilds (device : Device δ P) (d : δ) : Prop :=
  ∀ calls, (history device d calls).cache.lastSucceeded? = lastBuilt? (events device d calls)

end BuildCache

/-! ## A compiler under any calls -/

namespace Compiler

variable {t : Toolchain σ δ P} {source : String} {c c' : Compiler σ δ P} {log : Log} {err : Error} {stage : Stage}
  {output : Output P}

/-- The answer to the build that a compilation makes, if it comes to one. -/
def made? (t : Toolchain σ δ P) (source : String) (c : Compiler σ δ P) : Option (BuildAnswer P) :=
  match frontEnd c.options source with
  | .error _ => none
  | .ok e => if failedFunctions (c.assembled t e) = [] then some (c.answer t e) else none

theorem Ready.made?_eq {e : Extraction} (h : c.Ready t source e) : c.made? t source = some (c.answer t e) := by
  rw [made?, h.front]
  exact if_pos h.assembled

theorem lastSucceeded?_afterBuild (t : Toolchain σ δ P) (e : Extraction) (c : Compiler σ δ P) :
    (c.afterBuild t e).cache.lastSucceeded? = some (c.answer t e).build.success :=
  BuildCache.lastSucceeded?_build t.device (c.deviceText t e) c.device c.cache

/-- A compilation that fails in front of the device makes no build. -/
theorem made?_eq_none_of_frontEnd (h : frontEnd c.options source = .error err) : c.made? t source = none := by
  rw [made?, h]

/-- **The flag behind a compilation that fails**. -/
theorem Fails.lastSucceeded?_eq (h : c.Fails t source stage log err c') :
    c'.cache.lastSucceeded? =
      ((c.made? t source).map (·.build.success)).or c.cache.lastSucceeded? := by
  cases h with
  | expansion hexpand =>
      have hfront : frontEnd c.options source = .error err := by rw [frontEnd, hexpand]; rfl
      simp [made?_eq_none_of_frontEnd hfront]
  | extraction hexpand hextract =>
      have hfront : frontEnd c.options source = .error err := by rw [frontEnd, hexpand]; exact hextract
      simp [made?_eq_none_of_frontEnd hfront]
  | assembly hfront hfailed =>
      have hnone : c.made? t source = none := by
        rw [made?, hfront]
        exact if_neg hfailed
      rw [hnone]
      rfl
  | build hready _ => simp [hready.made?_eq, lastSucceeded?_afterBuild]
  | readOut hbuilt _ => simp [hbuilt.made?_eq, lastSucceeded?_afterBuild]
  | load hread _ _ =>
      rw [hread.made?_eq]
      exact lastSucceeded?_afterBuild t _ c
  | finish hread _ _ _ =>
      rw [hread.made?_eq]
      exact lastSucceeded?_afterBuild t _ c

/-- **The flag behind a compilation that goes through**. -/
theorem Finishes.lastSucceeded?_eq (h : c.Finishes t source log output c') :
    c'.cache.lastSucceeded? =
      ((c.made? t source).map (·.build.success)).or c.cache.lastSucceeded? := by
  cases h with
  | withoutBlocks hread _ =>
      rw [hread.made?_eq]
      exact lastSucceeded?_afterBuild t _ c
  | withBlocks hread _ _ _ =>
      rw [hread.made?_eq]
      exact lastSucceeded?_afterBuild t _ c

/-- **The flag behind a compilation** is the success of its build, or what it was if there was no build. -/
theorem lastSucceeded?_compile (t : Toolchain σ δ P) (source : String) (c : Compiler σ δ P) :
    (c.compile t source).2.cache.lastSucceeded? =
      ((c.made? t source).map (·.build.success)).or c.cache.lastSucceeded? := by
  rcases fails_or_finishes t source c with ⟨stage, log, err, c', h⟩ | ⟨log, output, c', h⟩
  · rw [h.compile_eq]
    exact h.lastSucceeded?_eq
  · rw [h.compile_eq]
    exact h.lastSucceeded?_eq

/-- What a call does to the slot of the cache. -/
def callEvents (t : Toolchain σ δ P) (c : Compiler σ δ P) : Call → List (SlotEvent P)
  | .compile source => (c.made? t source).toList.map .built
  | .invalidate => [.forgotten]

/-- What calls do to the slot of the cache, in order. -/
def events (t : Toolchain σ δ P) (c : Compiler σ δ P) : List Call → List (SlotEvent P)
  | [] => []
  | call :: calls => c.callEvents t call ++ events t (c.afterCall t call) calls

theorem events_concat (calls : List Call) (call : Call) :
    events t c (calls ++ [call]) = events t c calls ++ (c.after t calls).callEvents t call := by
  induction calls generalizing c with
  | nil => simp [events, after]
  | cons first calls ih => simp [events, ih, after, List.append_assoc]

/-- **Behind any calls** the flag tells what was done to the slot last. -/
theorem lastSucceeded?_after (hc : c.cache.lastSucceeded? = none) (calls : List Call) :
    (c.after t calls).cache.lastSucceeded? = flag? (events t c calls) := by
  induction calls using List.reverseRecOn with
  | nil => exact hc
  | append_singleton calls call ih =>
      have hafter : c.after t (calls ++ [call]) = (c.after t calls).afterCall t call := List.foldl_append
      rw [hafter, events_concat]
      cases call with
      | compile source =>
          rw [afterCall, lastSucceeded?_compile, callEvents, ih]
          cases (c.after t calls).made? t source with
          | none => simp
          | some answer => simp
      | invalidate =>
          rw [callEvents, flag?_forgotten]
          rfl

end Compiler

/-! ## What the flag tells -/

/-- **The flag tells of the last build unless it was forgotten.** After any calls on a cache, and after any calls on a
    compiler, the flag is the success of the build that was made last if the slot was not invalidated since, and there
    is none otherwise. So it is the success of the most recent build, and none before the first, exactly as long as no
    invalidation stands behind the builds. An invalidation keeps the binaries. To the next build it makes a difference
    only if that build was remembered: it is then made anew, and if the device answers as before, the cache is the same
    behind it. -/
theorem flag_tells_of_build_unless_forgotten {o : Options} {s : σ} {d : δ} {c : Compiler σ δ P}
    (t : Toolchain σ δ P) (hc : Compiler.new o s d = .ok c) (cacheCalls : List BuildCache.Call)
    (calls : List Compiler.Call) :
    let h := BuildCache.history t.device d cacheCalls
    let events := BuildCache.events t.device d cacheCalls
    (h.cache.lastSucceeded? = flag? events ∧
      (h.cache.lastSucceeded? = lastBuilt? events ↔
        ¬ (events.getLast? = some .forgotten ∧ ∃ answer, .built answer ∈ events))) ∧
    ((c.after t calls).cache.lastSucceeded? = flag? (c.events t calls) ∧
      ((c.after t calls).cache.lastSucceeded? = lastBuilt? (c.events t calls) ↔
        ¬ ((c.events t calls).getLast? = some .forgotten ∧ ∃ answer, .built answer ∈ c.events t calls))) ∧
    ∀ (cache : BuildCache P) (source : String) (d : δ),
      cache.invalidate.raw = cache.raw ∧ cache.invalidate.patched = cache.patched ∧
        ((∀ b, cache.slot ≠ some ⟨source, b⟩) →
          cache.invalidate.build t.device source d = cache.build t.device source d) ∧
        ∀ b, cache.slot = some ⟨source, b⟩ →
          (cache.invalidate.build t.device source d).1 = ⟨(t.device.compileSource source d).1.settled, false⟩ ∧
            (cache.build t.device source d).1 = ⟨b, true⟩ ∧
            ((t.device.compileSource source d).1.settled = b →
              (cache.invalidate.build t.device source d).2.2 = (cache.build t.device source d).2.2) := by
  intro h events
  obtain rfl := Compiler.new_eq_ok hc
  have hcache : h.cache.lastSucceeded? = flag? events := BuildCache.lastSucceeded?_history t.device d cacheCalls
  have hcompiler := Compiler.lastSucceeded?_after (t := t) (c := ⟨o, s, d, .empty⟩) rfl calls
  refine ⟨⟨hcache, ?_⟩, ⟨hcompiler, ?_⟩, ?_⟩
  · rw [hcache]
    exact flag?_eq_lastBuilt?_iff events
  · rw [hcompiler]
    exact flag?_eq_lastBuilt?_iff _
  · intro cache source d
    exact ⟨rfl, rfl, BuildCache.build_invalidate t.device source d cache⟩

/-- **A compiler that forgets and builds again**: behind the build and the invalidation nothing is told, and behind the
    next build its success. The toolchain counts the builds that its device makes. -/
theorem flag_is_back_with_next_build :
    (Compiler.new .standard () 0 : Except Error (Compiler Unit Nat String)) = .ok ⟨.standard, (), 0, .empty⟩ ∧
      (Compiler.after Compiler.countingToolchain ⟨.standard, (), 0, .empty⟩
        [.compile "x", .invalidate]).cache.lastSucceeded? = none ∧
      (BuildCache.history Compiler.countingToolchain.device 0
        [.build "x", .invalidate, .record [1] [2], .build "x"]).cache.lastSucceeded? = some true := by
  have hnew : (Compiler.new .standard () 0 : Except Error (Compiler Unit Nat String)) =
      .ok ⟨.standard, (), 0, .empty⟩ := rfl
  obtain ⟨⟨hcache, -⟩, ⟨hcompiler, -⟩, -⟩ := flag_tells_of_build_unless_forgotten Compiler.countingToolchain hnew
    [.build "x", .invalidate, .record [1] [2], .build "x"] [.compile "x", .invalidate]
  refine ⟨hnew, ?_, ?_⟩
  · rw [hcompiler]
    decide +kernel
  · rw [hcache]
    decide +kernel

/-- **What is said of the flag fails** of a cache that is invalidated behind its only build: the build succeeded, and
    nothing is told of it. -/
theorem not_flagFollowsBuilds : ¬ BuildCache.FlagFollowsBuilds Compiler.countingToolchain.device 0 := by
  intro hfollows
  have hbuilt := hfollows [.build "x", .invalidate]
  have hforgotten : (BuildCache.history Compiler.countingToolchain.device 0
      [.build "x", .invalidate]).cache.lastSucceeded? = none := rfl
  rw [hforgotten] at hbuilt
  cases hbuilt

end Inlay
