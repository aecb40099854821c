import Mathlib
import Inlay.Proofs.Kernel.Flaws
import Inlay.Proofs.Kernel.ParameterFaults
import Inlay.Proofs.Kernel.Scanned

/-!
# `Proofs.Kernel.FirstFault` — where an extraction fails

A place at which the introducer opens no block, or one with a parameter that has a fault, is faulty, and so is the
source (`BlockFinder.Faulty`). The scan stops at the first faulty place that it reaches and reports its fault, with the
line that the text in front of the fault says; if it reaches none, there is an extraction
(`extract_stops_at_first_fault`).
-/

namespace Inlay

variable {f : BlockFinder} {p : Position} {done front behind s : List Char} {e : Error} {blocks : List Block}
  {source : String}

namespace BlockFinder

/-- **A faulty place** with `front` in front of it in the source, and the error that reports its fault. -/
inductive Faulty (f : BlockFinder) (front : List Char) : List Char → Error → Prop where
  /-- The introducer opens no block. The line is its own. -/
  | structural {s : List Char} {flaw : BlockFlaw} (opens : f.Opens s) (flawed : BlockText.Flawed s flaw) :
      Faulty f front (f.introducer.toList ++ s) (.malformedBlock (newlines front + 1) flaw.message)
  /-- The introducer opens a block, and one of its parameters has a fault. -/
  | parameter {t : BlockText} {rest : List Char} {e : Error} (opens : t.introducer = f.introducer.toList)
      (word : t.introducer ≠ [] ∧ ∀ c ∈ t.introducer, isAsciiWord c = true) (separated : t.beforeName ≠ [])
      (written : t.Written rest) (listed : trim t.list ≠ [] ∧ trim t.list ≠ "void".toList)
      (first : Param.FirstFault f.width (String.ofList t.name) 0 (front ++ t.opening) (pieces (· == ',') t.list) e) :
      Faulty f front (t.chars ++ rest) e

/-- **At a faulty place** the extraction fails. -/
theorem Faulty.extractFrom (h : f.Faulty front behind e) (hline : p.line = newlines front + 1) :
    f.extractFrom p behind = .error e := by
  cases h with
  | structural opens flawed =>
      rw [extractFrom_flawed opens flawed.cut, hline]
  | parameter opens word separated written listed first =>
      apply extractFrom_unread opens word separated written
      exact (Param.readList_eq_error (line_advance hline _)).mpr ⟨listed.1, listed.2, first⟩

/-- The line at which a text ends. -/
theorem line_behind (front : List Char) : (({} : Position).advance front).line = newlines front + 1 := by
  have hstart : ({} : Position).line = newlines [] + 1 := rfl
  exact line_advance hstart front

/-- **An extraction that fails has come to a faulty place.** -/
theorem exists_faulty (hline : p.line = newlines done + 1) (h : f.extractFrom p s = .error e) :
    ∃ front blocks behind, s = front ++ behind ∧ Scanned f p front behind blocks ∧
      f.Faulty (done ++ front) behind e := by
  induction s using f.ahead_induction generalizing p done with
  | nothing =>
      rw [extractFrom] at h
      cases h
  | unit c u behind unit other ih =>
      rw [extractFrom_unit unit other, map_eq_error] at h
      obtain ⟨front, blocks, rest, rfl, hscanned, hfaulty⟩ := ih (line_advance hline (c :: u)) h
      rw [List.append_assoc] at hfaulty
      exact ⟨c :: u ++ front, blocks, rest, (List.append_assoc _ _ _).symm, .unit unit other hscanned, hfaulty⟩
  | flawed s flaw opens cut =>
      rw [extractFrom_flawed opens cut, hline] at h
      cases h
      refine ⟨[], [], _, rfl, .nil, ?_⟩
      rw [List.append_nil]
      exact .structural opens (BlockText.cut_eq_error.mp cut)
  | block t rest opens word separated written ih =>
      rw [extractFrom_written opens word separated written, bind_eq_error] at h
      rcases h with h | ⟨params, hlist, h⟩
      · obtain ⟨hblank, hvoid, hfirst⟩ := (Param.readList_eq_error (line_advance hline t.opening)).mp h
        refine ⟨[], [], _, rfl, .nil, ?_⟩
        rw [List.append_nil]
        exact .parameter opens word separated written ⟨hblank, hvoid⟩ hfirst
      · have hothers : f.extractFrom (p.advance t.chars) rest = .error e := by
          rcases bind_eq_error.mp h with h | ⟨others, -, h⟩
          · exact h
          · cases h
        obtain ⟨front, blocks, behind, rfl, hscanned, hfaulty⟩ := ih (line_advance hline t.chars) hothers
        rw [List.append_assoc] at hfaulty
        exact ⟨t.chars ++ front, _, behind, (List.append_assoc _ _ _).symm,
          .block opens word separated written hlist hscanned, hfaulty⟩

/-- **What an error says**: the scan came to a faulty place, and this is its fault. -/
theorem extract_eq_error : f.extract source = .error e ↔ ∃ front blocks behind, source.toList = front ++ behind ∧
    Scanned f {} front behind blocks ∧ f.Faulty front behind e := by
  constructor
  · intro h
    have hstart : ({} : Position).line = newlines [] + 1 := rfl
    exact exists_faulty hstart h
  · rintro ⟨front, blocks, behind, hsource, hscanned, hfaulty⟩
    have hfound : f.blocksFrom (({} : Position).advance front) behind = .error e :=
      blocksFrom_eq_error.mpr (hfaulty.extractFrom (line_behind front))
    rw [extract, hsource, ← blocksFrom_eq_error, blocksFrom_scanned hscanned, hfound]
    rfl

/-- **An extraction stops at the first fault**: it fails exactly with the fault of a place that the scan reaches, and
    gives a result exactly if the scan reaches no faulty place. All blocks in front of the place are well formed, and
    their parameters can be read. -/
theorem extract_stops_at_first_fault (f : BlockFinder) (source : String) :
    (∀ e, f.extract source = .error e ↔ ∃ front blocks behind, source.toList = front ++ behind ∧
      Scanned f {} front behind blocks ∧ f.Faulty front behind e) ∧
    ((∃ x, f.extract source = .ok x) ↔ ¬ ∃ front blocks behind e, source.toList = front ++ behind ∧
      Scanned f {} front behind blocks ∧ f.Faulty front behind e) := by
  refine ⟨fun e => extract_eq_error, ?_⟩
  constructor
  · rintro ⟨x, hx⟩ ⟨front, blocks, behind, e, hfault⟩
    have herror : f.extract source = .error e := extract_eq_error.mpr ⟨front, blocks, behind, hfault⟩
    rw [hx] at herror
    cases herror
  · intro hnone
    cases h : f.extract source with
    | ok x => exact ⟨x, rfl⟩
    | error e =>
        obtain ⟨front, blocks, behind, hfault⟩ := extract_eq_error.mp h
        exact absurd ⟨front, blocks, behind, e, hfault⟩ hnone

example : BlockFinder.extract ⟨"asm", .bits64⟩ "asm f(int a,\n\n foo  bar b) \x7b\x7d" =
    .error (.unknownParameterType "f" "foo bar" 3) := by
  decide +kernel

/-- **There is a fault of another kind.** The block is well formed, no parameter is blank and none has a type that is
    unknown, but behind a blank of two bytes a name is not found, and there is no extraction. Behind a space it is. -/
theorem wide_blank_is_not_divided :
    BlockFinder.extract ⟨"__asm4GCN", .bits64⟩ "__asm4GCN f (int\u00a0x) \x7b \x7d" = .error .indivisibleParameter ∧
    (∃ x, BlockFinder.extract ⟨"__asm4GCN", .bits64⟩ "__asm4GCN f (int x) \x7b \x7d" = .ok x) ∧
    ¬ ∀ (f : BlockFinder) (source : String), (∃ x, f.extract source = .ok x) ↔
      ¬ ∃ front blocks behind e, source.toList = front ++ behind ∧ Scanned f {} front behind blocks ∧
        f.Faulty front behind e ∧ e ≠ .indivisibleParameter := by
  have hwide : BlockFinder.extract ⟨"__asm4GCN", .bits64⟩ "__asm4GCN f (int\u00a0x) \x7b \x7d" =
      .error .indivisibleParameter := by
    cbv
  have hspace : (BlockFinder.extract ⟨"__asm4GCN", .bits64⟩ "__asm4GCN f (int x) \x7b \x7d").map
      (fun x => x.blocks.map Block.name) = .ok ["f"] := by
    cbv
  obtain ⟨x, hx, -⟩ := map_eq_ok.mp hspace
  refine ⟨hwide, ⟨x, hx⟩, fun h => ?_⟩
  have hresult : ∃ x, BlockFinder.extract ⟨"__asm4GCN", .bits64⟩ "__asm4GCN f (int\u00a0x) \x7b \x7d" = .ok x := by
    apply (h _ _).mpr
    rintro ⟨front, blocks, behind, e, hsource, hscanned, hfaulty, hother⟩
    -- a fault of any place would be the one that is reported
    have herror := extract_eq_error.mpr ⟨front, blocks, behind, hsource, hscanned, hfaulty⟩
    rw [hwide] at herror
    cases herror
    exact hother rfl
  obtain ⟨x, hx⟩ := hresult
  rw [hwide] at hx
  cases hx

end BlockFinder

end Inlay
