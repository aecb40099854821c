import Inlay.Proofs.Patch.Run

/-!
# `Proofs.Patch.Intact` — when written code stays written

No applied code should be overwritten, and no two patches should report the same offset (`PatchReport.Intact`).
Nothing in the patcher enforces this: every search starts at the front of a binary that earlier patches changed,
and only patches that wrote nothing keep their offset claimed. Code that carries the anchor itself is therefore
found again and written over (`not_intact_of_code_with_anchor`).

What does hold is exact. The report is intact as long as every free match lies behind everything that was written
so far (`Anchor.Clear`), and a free match in front of the end of an applied range is enough for the code of the
next patch to destroy that range.
-/

namespace Inlay

/-- **Applied code is there**: the reported offsets are pairwise distinct, and each applied range holds the code
    of its patch. -/
structure PatchReport.Intact (r : PatchReport) (ps : List Patch) : Prop where
  distinct : (r.outcomes.filterMap PatchOutcome.offset?).Nodup
  kept : ∀ p f x n, (p, .applied f x n) ∈ ps.zip r.outcomes → (r.binary.drop x).take n = p.code

/-- The end of the range that was written, if there is one. -/
def PatchOutcome.stop : PatchOutcome → Nat
  | applied _ offset length => offset + length
  | _ => 0

namespace Anchor

variable {a : Anchor} {binary : Bytes} {ps : List Patch} {p : Patch} {o : PatchOutcome} {x y n : Nat} {f : String}

/-- **The way is clear**: every match that no patch has claimed lies behind all that was written. -/
def Clear (a : Anchor) (r : PatchReport) : Prop :=
  ∀ y, a.MatchesAt r.binary y → y ∉ r.claims → ∀ f x n, .applied f x n ∈ r.outcomes → x + n ≤ y

/-- The way is clear or not: only the occurrences and the outcomes of the report are looked at. -/
theorem clear_iff {r : PatchReport} :
    a.Clear r ↔ ∀ y ∈ a.occurrences r.binary, y ∉ r.claims → ∀ o ∈ r.outcomes, o.stop ≤ y := by
  simp only [mem_occurrences]
  constructor
  · intro h y hy hyc o ho
    cases o with
    | applied f x n => exact h y hy hyc f x n ho
    | anchorNotFound f => exact Nat.zero_le y
    | emptyCode f x => exact Nat.zero_le y
    | overflow f x n m => exact Nat.zero_le y
  · intro h y hy hyc f x n ho
    exact h y hy hyc _ ho

instance (a : Anchor) (r : PatchReport) : Decidable (a.Clear r) :=
  decidable_of_iff _ clear_iff.symm

/-! ## A clear way keeps a report intact -/

/-- The next offset is new. -/
theorem not_reported_of_clear (hclear : a.Clear (a.patch binary ps))
    (hfree : a.IsFirstFree (a.patch binary ps).binary (a.patch binary ps).claims x) :
    x ∉ (a.patch binary ps).outcomes.filterMap PatchOutcome.offset? := by
  rw [PatchReport.mem_filterMap_offset?]
  rintro (hx | ⟨f, n, happ⟩)
  · exact hfree.unclaimed hx
  · have := hclear x hfree.matchesAt hfree.unclaimed f x n happ
    have := pos_of_applied happ
    omega

/-- The offset of one more outcome keeps the offsets distinct if it is new. -/
theorem nodup_filterMap_concat {os : List PatchOutcome} (hos : (os.filterMap PatchOutcome.offset?).Nodup)
    (ho : o.offset? = some x) (hx : x ∉ os.filterMap PatchOutcome.offset?) :
    ((os ++ [o]).filterMap PatchOutcome.offset?).Nodup := by
  rw [List.filterMap_append, List.filterMap_cons_some ho, List.filterMap_nil, List.nodup_append]
  refine ⟨hos, by simp, ?_⟩
  rintro y hy z hz rfl
  rw [List.mem_singleton] at hz
  exact hx (hz ▸ hy)

/-- **One step.** With a clear way a patch leaves an intact report intact. -/
theorem intact_extend (hr : (a.patch binary ps).Intact ps) (hclear : a.Clear (a.patch binary ps))
    (hstep : a.Becomes (a.patch binary ps).binary (a.patch binary ps).claims p o) :
    ((a.patch binary ps).extend p o).Intact (ps ++ [p]) := by
  cases hstep with
  | anchorNotFound _ =>
      have hnone : [PatchOutcome.anchorNotFound p.function].filterMap PatchOutcome.offset? = [] := rfl
      refine ⟨by simpa [hnone] using hr.distinct, fun q f x n hmem => ?_⟩
      rcases mem_zip_extend hmem with hmem | ⟨_, hcase⟩
      · exact hr.kept q f x n hmem
      · cases hcase
  | emptyCode free _ =>
      refine ⟨nodup_filterMap_concat hr.distinct rfl (not_reported_of_clear hclear free), fun q f x n hmem => ?_⟩
      rcases mem_zip_extend hmem with hmem | ⟨_, hcase⟩
      · exact hr.kept q f x n hmem
      · cases hcase
  | overflow free _ _ =>
      refine ⟨nodup_filterMap_concat hr.distinct rfl (not_reported_of_clear hclear free), fun q f x n hmem => ?_⟩
      rcases mem_zip_extend hmem with hmem | ⟨_, hcase⟩
      · exact hr.kept q f x n hmem
      · cases hcase
  | applied free _ fits =>
      refine ⟨nodup_filterMap_concat hr.distinct rfl (not_reported_of_clear hclear free), fun q f x n hmem => ?_⟩
      rcases mem_zip_extend hmem with hmem | ⟨rfl, hcase⟩
      · -- an earlier range ends in front of the new one
        have hbefore := hclear _ free.matchesAt free.unclaimed f x n (List.of_mem_zip hmem).2
        exact (take_drop_overwrite_before fits hbefore).trans (hr.kept q f x n hmem)
      · cases hcase
        exact take_drop_overwrite_inside fits

/-- **A whole run.** If the way is clear before every patch, the report is intact. -/
theorem intact_of_clear (hclear : ∀ k < ps.length, a.Clear (a.patch binary (ps.take k))) :
    (a.patch binary ps).Intact ps := by
  refine patch_induction a binary
    (motive := fun ps r => (∀ k < ps.length, a.Clear (a.patch binary (ps.take k))) → r.Intact ps)
    (fun _ => ⟨List.nodup_nil, fun _ _ _ _ h => by simp at h⟩) ?_ ps hclear
  intro ps p o ih hstep hclear
  have hbefore : ∀ k ≤ ps.length, a.Clear (a.patch binary (ps.take k)) := by
    intro k hk
    have := hclear k (by rw [List.length_append, List.length_singleton]; omega)
    rwa [List.take_append_of_le_length hk] at this
  have hlast : a.Clear (a.patch binary ps) := by simpa using hbefore ps.length (Nat.le_refl _)
  exact intact_extend (ih fun k hk => hbefore k (Nat.le_of_lt hk)) hlast hstep

/-! ## A way that is not clear loses code -/

/-- Taking one patch back leaves a report intact if that patch wrote nothing. -/
theorem intact_of_intact_concat_empty (f : String)
    (h : (a.patch binary (ps ++ [⟨f, []⟩])).Intact (ps ++ [⟨f, []⟩])) : (a.patch binary ps).Intact ps := by
  rw [patch_concat] at h
  have hstep := a.becomes_outcome (a.patch binary ps).binary (a.patch binary ps).claims ⟨f, []⟩
  generalize a.outcome (a.patch binary ps).binary (a.patch binary ps).claims ⟨f, []⟩ = o at h hstep
  have hbinary : ((a.patch binary ps).extend ⟨f, []⟩ o).binary = (a.patch binary ps).binary := by
    cases hstep with
    | anchorNotFound _ => rfl
    | emptyCode _ _ => rfl
    | overflow _ code _ => exact absurd rfl code
    | applied _ code _ => exact absurd rfl code
  refine ⟨?_, fun p f x n hmem => ?_⟩
  · have := h.distinct
    rw [PatchReport.extend_outcomes, List.filterMap_append, List.nodup_append] at this
    exact this.1
  · rw [← hbinary]
    refine h.kept p f x n ?_
    rw [PatchReport.extend_outcomes, List.zip_append (a.length_outcomes_patch binary ps).symm]
    exact List.mem_append_left _ hmem

theorem exists_isFirstFree {claimed : List Nat} (hy : a.MatchesAt binary y) (hyc : y ∉ claimed) :
    ∃ x ≤ y, a.IsFirstFree binary claimed x := by
  cases h : a.unclaimed? binary claimed with
  | none => exact absurd (claimed_of_unclaimed? h hy) hyc
  | some x => exact ⟨x, (isFirstFree_of_unclaimed? h).least y hy hyc, isFirstFree_of_unclaimed? h⟩

/-- What becomes of code that fits at the first free match. -/
theorem outcome_eq_applied {claimed : List Nat} (hfree : a.IsFirstFree binary claimed x) (hcode : p.code ≠ [])
    (hfits : x + p.code.length ≤ binary.length) :
    a.outcome binary claimed p = .applied p.function x p.code.length := by
  have hstep := a.becomes_outcome binary claimed p
  generalize a.outcome binary claimed p = o at hstep ⊢
  cases hstep with
  | anchorNotFound taken => exact absurd (taken x hfree.matchesAt) hfree.unclaimed
  | emptyCode _ empty => exact absurd empty hcode
  | overflow free _ long =>
      rw [free.unique hfree] at long
      omega
  | applied free _ _ => rw [free.unique hfree]

/-- **A free match in front of the end of an applied range** lets the next patch destroy the range: code that
    reaches just to its end and changes its last byte will do. -/
theorem exists_code_not_intact (hr : (a.patch binary ps).Intact ps) (hclear : ¬ a.Clear (a.patch binary ps)) :
    ∃ code, ∀ f, ¬ (a.patch binary (ps ++ [⟨f, code⟩])).Intact (ps ++ [⟨f, code⟩]) := by
  simp only [Clear, Classical.not_forall, Nat.not_le] at hclear
  obtain ⟨y, hy, hyc, f, o, n, happ, hlt⟩ := hclear
  obtain ⟨q, hq⟩ := exists_patch_of_mem happ
  obtain ⟨hn, hqcode, hfits⟩ := applied_spec hq
  have hpos := pos_of_applied happ
  obtain ⟨x, hxy, hfree⟩ := exists_isFirstFree hy hyc
  rw [← a.length_binary_patch binary ps] at hfits
  have hlast : o + n - 1 < (a.patch binary ps).binary.length := by omega
  -- zeros up to the last byte of the range, which becomes another one
  let b := (a.patch binary ps).binary[o + n - 1]
  let code := List.replicate (o + n - 1 - x) 0 ++ [b + 1]
  have hlen : code.length = o + n - x := by simp [code]; omega
  have hx : x + code.length ≤ (a.patch binary ps).binary.length := by omega
  refine ⟨code, fun g hintact => ?_⟩
  rw [patch_concat, outcome_eq_applied (p := ⟨g, code⟩) hfree (by simp [code]) hx] at hintact
  have hold := hr.kept q f o n hq
  have hnew := hintact.kept q f o n (by
    rw [PatchReport.extend_outcomes, List.zip_append (a.length_outcomes_patch binary ps).symm]
    exact List.mem_append_left _ hq)
  rw [PatchReport.extend_binary, take_drop_eq_iff hn] at hnew
  rw [take_drop_eq_iff hn] at hold
  -- the last byte of the range is both the old one and one more
  have hbyte : (overwrite (a.patch binary ps).binary x code)[o + n - 1]? = some (b + 1) := by
    have := getElem?_overwrite_inside hx (k := o + n - 1 - x) (by omega)
    rw [show x + (o + n - 1 - x) = o + n - 1 from by omega] at this
    rw [this]
    simp [code]
  have hsame : some (b + 1) = some b := by
    rw [← hbyte, ← List.getElem?_eq_getElem hlast, show o + n - 1 = o + (n - 1) from by omega]
    exact (hnew (n - 1) (by omega)).trans (hold (n - 1) (by omega)).symm
  simp at hsame

/-! ## The exact condition -/

/-- **Written code stays written exactly while the way is clear.** A run before each patch of which the way is
    clear gives an intact report. And the condition is exact: any patch at all may come next in a run, at whatever
    point, without harm if and only if the way is clear at every point. -/
theorem written_code_stays_iff_clear (a : Anchor) (binary : Bytes) (ps : List Patch) :
    ((∀ k < ps.length, a.Clear (a.patch binary (ps.take k))) → (a.patch binary ps).Intact ps) ∧
      ((∀ k ≤ ps.length, ∀ p, (a.patch binary (ps.take k ++ [p])).Intact (ps.take k ++ [p])) ↔
        ∀ k ≤ ps.length, a.Clear (a.patch binary (ps.take k))) := by
  refine ⟨intact_of_clear, fun h k hk => ?_, fun h k hk p => ?_⟩
  · refine Classical.byContradiction fun hclear => ?_
    obtain ⟨code, hcode⟩ := exists_code_not_intact (intact_of_intact_concat_empty "" (h k hk _)) hclear
    exact hcode "" (h k hk ⟨"", code⟩)
  · -- in front of the last patch the run is a beginning of `ps`
    refine intact_of_clear fun j hj => ?_
    have hjk : j ≤ k := by
      rw [List.length_append, List.length_take, List.length_singleton] at hj
      omega
    rw [List.take_append_of_le_length (by rw [List.length_take]; omega), List.take_take, Nat.min_eq_left hjk]
    exact h j (by omega)

/-- Two dummies, each followed by room for code. -/
def twoDummies : Bytes :=
  standard.signature ++ List.replicate 6 0 ++ standard.signature ++ List.replicate 6 0

/-- **Code of two patches that stays**: the first patch wipes out its dummy and the second one finds the next. -/
theorem code_of_two_patches_stays :
    (∀ k < 2, standard.Clear (standard.patch twoDummies
        ([⟨"f", List.replicate 12 0x11⟩, ⟨"g", List.replicate 4 0x22⟩].take k))) ∧
      (standard.patch twoDummies [⟨"f", List.replicate 12 0x11⟩, ⟨"g", List.replicate 4 0x22⟩]).Intact
        [⟨"f", List.replicate 12 0x11⟩, ⟨"g", List.replicate 4 0x22⟩] := by
  have hclear : ∀ k < 2, standard.Clear (standard.patch twoDummies
      ([⟨"f", List.replicate 12 0x11⟩, ⟨"g", List.replicate 4 0x22⟩].take k)) := by decide
  exact ⟨hclear, (written_code_stays_iff_clear _ _ _).1 hclear⟩

/-- **Written code does not always stay**: code that starts with the anchor is found again, so the second of two
    patches is written over the first one and the second dummy is left alone. -/
theorem not_intact_of_code_with_anchor :
    standard.validate = .ok () ∧
      (standard.patch twoDummies [⟨"f", standard.signature⟩, ⟨"g", List.replicate 4 0x22⟩]).outcomes =
        [.applied "f" 0 10, .applied "g" 0 4] ∧
      ¬ (standard.patch twoDummies [⟨"f", standard.signature⟩, ⟨"g", List.replicate 4 0x22⟩]).Intact
        [⟨"f", standard.signature⟩, ⟨"g", List.replicate 4 0x22⟩] := by
  refine ⟨rfl, by decide, fun h => ?_⟩
  have hdistinct := h.distinct
  revert hdistinct
  decide

end Anchor

end Inlay
