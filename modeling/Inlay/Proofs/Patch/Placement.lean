import Inlay.Proofs.Patch.Intact

/-!
# `Proofs.Patch.Placement` — patch `i` goes to anchor `i`

The patcher looks for every anchor anew, but in the binaries that it is made for the outcome can be told from the
anchors of the input alone: patch `i` belongs to anchor `i` (`planned`). Two things are needed. Code that is written
ends in front of the next anchor (`EndsBeforeNext`), and a write leaves no match over the range that it wrote
(`ErasesMatches`); anchors may otherwise overlap, and patches that write nothing may stand anywhere between.

The invariant (`Placed`) says that after `i` patches the free matches are exactly the anchors from number `i` on.
-/

namespace Inlay

namespace Anchor

/-- **What is planned for a patch** of a binary of `size` bytes whose anchor is at the given offset. -/
def planned (size : Nat) (offset : Option Nat) (p : Patch) : PatchOutcome :=
  match offset with
  | none => .anchorNotFound p.function
  | some x =>
    if p.code = [] then .emptyCode p.function x
    else if size < x + p.code.length then .overflow p.function x p.code.length (size - x)
    else .applied p.function x p.code.length

/-- Code that is not empty and fits the binary ends in front of the next of the given offsets, if there is one. -/
def EndsBeforeNext (size : Nat) (offsets : List Nat) (ps : List Patch) : Prop :=
  ∀ i < ps.length, ∀ p ∈ ps[i]?, ∀ x ∈ offsets[i]?, ∀ y ∈ offsets[i + 1]?,
    p.code ≠ [] → x + p.code.length ≤ size → x + p.code.length ≤ y

/-- Right after each write no match overlaps the range that was written. -/
def ErasesMatches (a : Anchor) (binary : Bytes) (ps : List Patch) : Prop :=
  ∀ (i : Nat) f x n, (a.patch binary (ps.take (i + 1))).outcomes[i]? = some (.applied f x n) →
    ∀ y, a.MatchesAt (a.patch binary (ps.take (i + 1))).binary y → y + a.signature.length ≤ x ∨ x + n ≤ y

/-- **The invariant of a placed run**: every outcome is the planned one, and the free matches are the offsets that
    are left. -/
structure Placed (a : Anchor) (size : Nat) (offsets : List Nat) (ps : List Patch) (r : PatchReport) : Prop where
  outcomes : ∀ (i : Nat) p, ps[i]? = some p → r.outcomes[i]? = some (planned size offsets[i]? p)
  free : ∀ y, (a.MatchesAt r.binary y ∧ y ∉ r.claims) ↔ y ∈ offsets.drop ps.length

variable {a : Anchor} {binary : Bytes} {offsets : List Nat} {ps : List Patch} {p : Patch} {o : PatchOutcome}
  {x y : Nat} {r : PatchReport}

/-! ## The conditions hold of the beginning of a run -/

theorem EndsBeforeNext.take {size : Nat} (h : EndsBeforeNext size offsets ps) (k : Nat) :
    EndsBeforeNext size offsets (ps.take k) := by
  intro i hi p hp
  rw [List.length_take] at hi
  rw [List.getElem?_take_of_lt (by omega)] at hp
  exact h i (by omega) p hp

theorem ErasesMatches.take (h : a.ErasesMatches binary ps) (k : Nat) : a.ErasesMatches binary (ps.take k) := by
  intro i f x n happ
  have hi := (List.getElem?_eq_some_iff.mp happ).1
  rw [length_outcomes_patch, List.length_take, List.length_take] at hi
  rw [List.take_take, Nat.min_eq_left (by omega)] at happ ⊢
  exact h i f x n happ

theorem EndsBeforeNext.of_concat {size : Nat} (h : EndsBeforeNext size offsets (ps ++ [p])) :
    EndsBeforeNext size offsets ps := by
  simpa using h.take ps.length

theorem ErasesMatches.of_concat (h : a.ErasesMatches binary (ps ++ [p])) : a.ErasesMatches binary ps := by
  simpa using h.take ps.length

/-- The condition on the last write of a run. -/
theorem ErasesMatches.last (h : a.ErasesMatches binary (ps ++ [p]))
    (hrun : a.patch binary (ps ++ [p]) = (a.patch binary ps).extend p o) :
    ∀ f x n, o = .applied f x n → ∀ y, a.MatchesAt ((a.patch binary ps).extend p o).binary y →
      y + a.signature.length ≤ x ∨ x + n ≤ y := by
  rintro f x n rfl
  have := h ps.length f x n
  rw [List.take_of_length_le (by simp), hrun] at this
  refine this ?_
  rw [PatchReport.extend_outcomes, ← a.length_outcomes_patch binary ps]
  exact List.getElem?_concat_length

/-! ## One step -/

theorem drop_eq_cons {l : List Nat} {i : Nat} (h : l[i]? = some x) : l.drop i = x :: l.drop (i + 1) := by
  obtain ⟨hi, rfl⟩ := List.getElem?_eq_some_iff.mp h
  exact List.drop_eq_getElem_cons hi

/-- The next of the offsets that are left is the first free match. -/
theorem Placed.isFirstFree {size : Nat} (h : a.Placed size offsets ps r) (hsorted : offsets.Pairwise (· < ·))
    (hx : offsets[ps.length]? = some x) : a.IsFirstFree r.binary r.claims x := by
  have hdrop := drop_eq_cons hx
  obtain ⟨hmatch, hclaim⟩ := (h.free x).mpr (hdrop ▸ List.mem_cons_self)
  refine ⟨hmatch, hclaim, fun y hy hyc => ?_⟩
  have hmem := (h.free y).mp ⟨hy, hyc⟩
  have hleft := hsorted.drop (i := ps.length)
  rw [hdrop] at hmem hleft
  rcases List.mem_cons.mp hmem with rfl | hmem
  · exact Nat.le_refl _
  · exact Nat.le_of_lt ((List.pairwise_cons.mp hleft).1 y hmem)

/-- If no offset is left, no match is free. -/
theorem Placed.not_isFirstFree {size : Nat} (h : a.Placed size offsets ps r) (hx : offsets[ps.length]? = none) :
    ¬ a.IsFirstFree r.binary r.claims y := by
  intro hfree
  have hmem := (h.free y).mp ⟨hfree.matchesAt, hfree.unclaimed⟩
  rw [List.drop_eq_nil_of_le (List.getElem?_eq_none_iff.mp hx)] at hmem
  cases hmem

/-- **One step follows the plan.** -/
theorem Placed.eq_planned (h : a.Placed r.binary.length offsets ps r) (hsorted : offsets.Pairwise (· < ·))
    (hstep : a.Becomes r.binary r.claims p o) : o = planned r.binary.length offsets[ps.length]? p := by
  cases hx : offsets[ps.length]? with
  | none =>
      -- no anchor is left, so every rule but the first lacks its free match
      cases hstep with
      | anchorNotFound _ => rfl
      | emptyCode free _ => exact absurd free (h.not_isFirstFree hx)
      | overflow free _ _ => exact absurd free (h.not_isFirstFree hx)
      | applied free _ _ => exact absurd free (h.not_isFirstFree hx)
  | some x =>
      have hfree := h.isFirstFree hsorted hx
      cases hstep with
      | anchorNotFound taken => exact absurd (taken x hfree.matchesAt) hfree.unclaimed
      | emptyCode free empty => rw [free.unique hfree, planned, if_pos empty]
      | overflow free code long =>
          have heq := free.unique hfree
          rw [heq] at long ⊢
          rw [planned, if_neg code, if_pos long]
      | applied free code fits =>
          have heq := free.unique hfree
          rw [heq] at fits ⊢
          rw [planned, if_neg code, if_neg (by omega)]

/-- A patch that writes nothing at its anchor takes this one away from the free matches. -/
theorem mem_drop_of_claim (hsorted : offsets.Pairwise (· < ·)) (hx : offsets[ps.length]? = some x)
    (h : ∀ y, (a.MatchesAt binary y ∧ y ∉ r.claims) ↔ y ∈ offsets.drop ps.length)
    (hclaim : o.claimed? = some x) (y : Nat) :
    (a.MatchesAt binary y ∧ y ∉ (r.extend p o).claims) ↔ y ∈ offsets.drop (ps.length + 1) := by
  have hdrop := drop_eq_cons hx
  have hleft := hsorted.drop (i := ps.length)
  rw [hdrop] at hleft
  have hnot : x ∉ offsets.drop (ps.length + 1) := fun hmem =>
    Nat.lt_irrefl x ((List.pairwise_cons.mp hleft).1 x hmem)
  have hy := h y
  rw [hdrop, List.mem_cons] at hy
  rw [PatchReport.mem_claims_extend, hclaim, Option.some.injEq]
  constructor
  · rintro ⟨hmatch, hnew⟩
    rcases hy.mp ⟨hmatch, fun hc => hnew (Or.inl hc)⟩ with rfl | hmem
    · exact absurd (Or.inr rfl) hnew
    · exact hmem
  · intro hmem
    obtain ⟨hmatch, hold⟩ := hy.mpr (Or.inr hmem)
    refine ⟨hmatch, ?_⟩
    rintro (hc | rfl)
    · exact hold hc
    · exact hnot hmem

/-- **A write takes its own anchor and no later one** away from the free matches. A match that is there after the
    write lies beside it, so it was there before; an anchor behind the code is out of its reach. -/
theorem mem_drop_of_write (hsorted : offsets.Pairwise (· < ·)) (hx : offsets[ps.length]? = some x)
    (h : ∀ y, (a.MatchesAt binary y ∧ y ∉ r.claims) ↔ y ∈ offsets.drop ps.length)
    (hfits : x + p.code.length ≤ binary.length) (hcode : p.code ≠ [])
    (hnext : ∀ y, offsets[ps.length + 1]? = some y → x + p.code.length ≤ y)
    (hgone : ∀ y, a.MatchesAt (overwrite binary x p.code) y →
      y + a.signature.length ≤ x ∨ x + p.code.length ≤ y) (y : Nat) :
    (a.MatchesAt (overwrite binary x p.code) y ∧ y ∉ r.claims) ↔ y ∈ offsets.drop (ps.length + 1) := by
  have hdrop := drop_eq_cons hx
  have hpos : 0 < p.code.length := List.length_pos_iff.mpr hcode
  have hbehind : ∀ z ∈ offsets.drop (ps.length + 1), x + p.code.length ≤ z := by
    intro z hz
    cases hsecond : offsets[ps.length + 1]? with
    | none =>
        rw [List.drop_eq_nil_of_le (List.getElem?_eq_none_iff.mp hsecond)] at hz
        cases hz
    | some s =>
        have hs := hnext s hsecond
        have hleft := hsorted.drop (i := ps.length + 1)
        rw [drop_eq_cons hsecond] at hz hleft
        rcases List.mem_cons.mp hz with rfl | hz
        · exact hs
        · exact Nat.le_trans hs (Nat.le_of_lt ((List.pairwise_cons.mp hleft).1 z hz))
  have hy := h y
  rw [hdrop, List.mem_cons] at hy
  constructor
  · rintro ⟨hmatch, hclaim⟩
    have hbeside := hgone y hmatch
    have hlen := hmatch.lt_add_length
    have hold : a.MatchesAt binary y := hmatch.congr fun k hk hk' =>
      (getElem?_overwrite_outside hfits (by omega)).symm
    rcases hy.mp ⟨hold, hclaim⟩ with rfl | hmem
    · omega
    · exact hmem
  · intro hmem
    obtain ⟨hold, hclaim⟩ := hy.mpr (Or.inr hmem)
    have := hbehind y hmem
    exact ⟨hold.congr fun k hk _ => getElem?_overwrite_outside hfits (Or.inr (by omega)), hclaim⟩

/-- **One step keeps the invariant.** -/
theorem Placed.extend (h : a.Placed r.binary.length offsets ps r) (hlen : r.outcomes.length = ps.length)
    (hsorted : offsets.Pairwise (· < ·)) (hstep : a.Becomes r.binary r.claims p o)
    (hnext : EndsBeforeNext r.binary.length offsets (ps ++ [p]))
    (hgone : ∀ f x n, o = .applied f x n → ∀ y, a.MatchesAt (r.extend p o).binary y →
      y + a.signature.length ≤ x ∨ x + n ≤ y) :
    a.Placed r.binary.length offsets (ps ++ [p]) (r.extend p o) where
  outcomes i q hq := by
    rw [PatchReport.extend_outcomes]
    rw [List.getElem?_append] at hq ⊢
    split at hq
    · next hi => rw [if_pos (by omega), h.outcomes i q hq]
    · next hi =>
      have hi' : i = ps.length := by
        have := (List.getElem?_eq_some_iff.mp hq).1
        rw [List.length_singleton] at this
        omega
      subst hi'
      rw [Nat.sub_self, List.getElem?_cons_zero, Option.some.injEq] at hq
      rw [if_neg (by omega), hlen, Nat.sub_self, List.getElem?_cons_zero, h.eq_planned hsorted hstep, hq]
  free y := by
    rw [List.length_append, List.length_singleton]
    cases hx : offsets[ps.length]? with
    | none =>
        have hle := List.getElem?_eq_none_iff.mp hx
        cases hstep with
        | anchorNotFound _ =>
            have hy := h.free y
            rw [List.drop_eq_nil_of_le hle] at hy
            rw [PatchReport.mem_claims_extend_of_none rfl, List.drop_eq_nil_of_le (Nat.le_succ_of_le hle)]
            exact hy
        | emptyCode free _ => exact absurd free (h.not_isFirstFree hx)
        | overflow free _ _ => exact absurd free (h.not_isFirstFree hx)
        | applied free _ _ => exact absurd free (h.not_isFirstFree hx)
    | some x =>
        have hfree := h.isFirstFree hsorted hx
        cases hstep with
        | anchorNotFound taken => exact absurd (taken x hfree.matchesAt) hfree.unclaimed
        | emptyCode free _ =>
            rw [free.unique hfree]
            exact mem_drop_of_claim hsorted hx h.free rfl y
        | overflow free _ _ =>
            rw [free.unique hfree]
            exact mem_drop_of_claim hsorted hx h.free rfl y
        | @applied x' free code fits =>
            obtain rfl : x' = x := free.unique hfree
            rw [PatchReport.mem_claims_extend_of_none rfl]
            exact mem_drop_of_write hsorted hx h.free fits code
              (fun s hs => hnext ps.length (by simp) p (by simp) x' hx s hs code fits) (hgone _ _ _ rfl) y

/-! ## A whole run -/

/-- **A whole run keeps the invariant.** -/
theorem placed_patch (hsorted : offsets.Pairwise (· < ·)) (hall : ∀ x, x ∈ offsets ↔ a.MatchesAt binary x)
    (hnext : EndsBeforeNext binary.length offsets ps) (hgone : a.ErasesMatches binary ps) :
    a.Placed binary.length offsets ps (a.patch binary ps) := by
  have key := patch_induction a binary
    (motive := fun ps r => EndsBeforeNext binary.length offsets ps → a.ErasesMatches binary ps →
      r = a.patch binary ps → a.Placed binary.length offsets ps r) ?_ ?_ ps
  · exact key hnext hgone rfl
  · intro _ _ _
    refine ⟨fun i p hp => by simp at hp, fun y => ?_⟩
    rw [List.length_nil, List.drop_zero, hall]
    simp [PatchReport.claims]
  · intro ps p o ih hstep hnext hgone hrun
    have hprev := ih hnext.of_concat hgone.of_concat rfl
    have hsize := a.length_binary_patch binary ps
    rw [← hsize] at hprev hnext ⊢
    exact hprev.extend (a.length_outcomes_patch binary ps) hsorted hstep hnext (hgone.last hrun.symm)

/-- In a placed run the way is clear: what was written belongs to anchors in front of the free ones, and ends
    before the next of them. -/
theorem Placed.clear (h : a.Placed binary.length offsets ps (a.patch binary ps))
    (hsorted : offsets.Pairwise (· < ·)) (hnext : EndsBeforeNext binary.length offsets ps) :
    a.Clear (a.patch binary ps) := by
  intro y hy hyc f x n happ
  have hmem := (h.free y).mp ⟨hy, hyc⟩
  obtain ⟨j, hj⟩ := List.mem_iff_getElem?.mp hmem
  rw [List.getElem?_drop] at hj
  obtain ⟨i, hi⟩ := List.mem_iff_getElem?.mp happ
  have hlen : i < ps.length := by
    rw [← a.length_outcomes_patch binary ps]
    exact (List.getElem?_eq_some_iff.mp hi).1
  -- the applied outcome is the planned one, so its range starts at anchor `i`
  have hp := List.getElem?_eq_getElem hlen
  have hplan := h.outcomes i _ hp
  rw [hi, Option.some.injEq] at hplan
  cases hx : offsets[i]? with
  | none => rw [hx, planned] at hplan; cases hplan
  | some z =>
      rw [hx, planned] at hplan
      split at hplan
      · cases hplan
      · next hcode =>
        split at hplan
        · cases hplan
        · next hfits =>
          cases hplan
          have hi' : i + 1 < offsets.length := by
            have := (List.getElem?_eq_some_iff.mp hj).1
            omega
          have hle := hnext i hlen _ hp x hx _ (List.getElem?_eq_getElem hi') hcode (by omega)
          refine Nat.le_trans hle ?_
          obtain ⟨hk, rfl⟩ := List.getElem?_eq_some_iff.mp hj
          by_cases heq : i + 1 = ps.length + j
          · simp [heq]
          · exact Nat.le_of_lt (List.pairwise_iff_getElem.mp hsorted _ _ hi' hk (by omega))

/-- **Patch `i` goes to anchor `i`.** Let `offsets` be all offsets of the anchor in increasing order. If written
    code ends in front of the next anchor and a write leaves no match over its range, then every outcome is the
    planned one, and the binary is the input with exactly the applied ranges replaced by their code. -/
theorem patch_takes_its_anchor (hsorted : offsets.Pairwise (· < ·))
    (hall : ∀ x, x ∈ offsets ↔ a.MatchesAt binary x) (hnext : EndsBeforeNext binary.length offsets ps)
    (hgone : a.ErasesMatches binary ps) :
    (a.patch binary ps).outcomes = ps.mapIdx (fun i p => planned binary.length offsets[i]? p) ∧
      (a.patch binary ps).binary.length = binary.length ∧
      (∀ p f x n, (p, .applied f x n) ∈ ps.zip (a.patch binary ps).outcomes →
        ((a.patch binary ps).binary.drop x).take n = p.code) ∧
      ∀ k : Nat, (∀ f x n, .applied f x n ∈ (a.patch binary ps).outcomes → k < x ∨ x + n ≤ k) →
        (a.patch binary ps).binary[k]? = binary[k]? := by
  have hplaced := placed_patch hsorted hall hnext hgone
  refine ⟨?_, a.length_binary_patch binary ps, ?_, fun k => getElem?_patch_outside⟩
  · apply List.ext_getElem?
    intro i
    rw [List.getElem?_mapIdx]
    cases hp : ps[i]? with
    | none =>
        rw [Option.map_none, List.getElem?_eq_none_iff, length_outcomes_patch]
        exact List.getElem?_eq_none_iff.mp hp
    | some p => exact hplaced.outcomes i p hp
  · refine (intact_of_clear fun k _ => ?_).kept
    exact (placed_patch hsorted hall (hnext.take k) (hgone.take k)).clear hsorted (hnext.take k)

/-- An anchor of two equal bytes, which may overlap itself. -/
def twoOnes : Anchor := ⟨[1, 1], [0xFF, 0xFF]⟩

/-- Patches for `[1, 1, 1, 1, 0, 1, 1]`: one that ends at the next anchor, one without code, one that ends inside a
    window, one that is too long, and one that finds nothing. -/
def fivePatches : List Patch :=
  [⟨"f", [9]⟩, ⟨"g", []⟩, ⟨"h", [7, 7]⟩, ⟨"i", [5, 5, 5]⟩, ⟨"j", [3]⟩]

/-- **Five patches, each at its anchor**, in a binary in which the first three anchors overlap. -/
theorem five_patches_take_their_anchors :
    EndsBeforeNext 7 [0, 1, 2, 5] fivePatches ∧ twoOnes.ErasesMatches [1, 1, 1, 1, 0, 1, 1] fivePatches ∧
      (twoOnes.patch [1, 1, 1, 1, 0, 1, 1] fivePatches).outcomes =
        [.applied "f" 0 1, .emptyCode "g" 1, .applied "h" 2 2, .overflow "i" 5 3 2, .anchorNotFound "j"] := by
  have hall : ∀ x, x ∈ [0, 1, 2, 5] ↔ twoOnes.MatchesAt [1, 1, 1, 1, 0, 1, 1] x := by
    intro x
    rw [← mem_occurrences]
    rfl
  have hnext : EndsBeforeNext 7 [0, 1, 2, 5] fivePatches := by
    unfold EndsBeforeNext
    decide
  have hgone : twoOnes.ErasesMatches [1, 1, 1, 1, 0, 1, 1] fivePatches := by
    have hrun : ∀ i < 5, ∀ o ∈ (twoOnes.patch [1, 1, 1, 1, 0, 1, 1] (fivePatches.take (i + 1))).outcomes[i]?,
        ∀ y ∈ twoOnes.occurrences (twoOnes.patch [1, 1, 1, 1, 0, 1, 1] (fivePatches.take (i + 1))).binary,
          y + 2 ≤ o.offset?.getD 0 ∨ o.stop ≤ y := by decide
    intro i f x n happ y hy
    have hi := (List.getElem?_eq_some_iff.mp happ).1
    rw [length_outcomes_patch, List.length_take] at hi
    exact hrun i (by simp [fivePatches] at hi; omega) _ happ y (mem_occurrences.mpr hy)
  obtain ⟨houtcomes, -⟩ := patch_takes_its_anchor (by decide) hall hnext hgone
  exact ⟨hnext, hgone, houtcomes.trans rfl⟩

end Anchor

end Inlay
