import Inlay.Proofs.Patch.Occurrence

/-!
# `Proofs.Patch.Run` — a run of the patcher, one patch at a time

The patcher recurses from the first patch on; what it does is easier to say from the last one: a report is
extended by the outcome of one more patch (`PatchReport.extend`, `patch_concat`). What that outcome may be is
written down as four rules (`Becomes`), which say everything that a step can do, and `patch_induction` is the
induction over a run that uses them. The facts that hold of every run follow: nothing is lost or moved, an applied
range lies inside the binary and has the length of its code, and bytes outside all applied ranges are those of the
input.
-/

namespace Inlay

/-! ## Bytes after a write -/

section Overwrite

variable {binary code : Bytes} {offset k : Nat}

theorem getElem?_overwrite_outside (h : offset + code.length ≤ binary.length)
    (hk : k < offset ∨ offset + code.length ≤ k) : (overwrite binary offset code)[k]? = binary[k]? := by
  have hlen : (binary.take offset).length = offset := by rw [List.length_take]; omega
  rw [overwrite, List.append_assoc]
  rcases hk with hk | hk
  · rw [List.getElem?_append_left (by omega), List.getElem?_take_of_lt hk]
  · rw [List.getElem?_append_right (by omega), List.getElem?_append_right (by omega), List.getElem?_drop]
    congr 1
    omega

theorem getElem?_overwrite_inside (h : offset + code.length ≤ binary.length) (hk : k < code.length) :
    (overwrite binary offset code)[offset + k]? = code[k]? := by
  have hlen : (binary.take offset).length = offset := by rw [List.length_take]; omega
  rw [overwrite, List.append_assoc, List.getElem?_append_right (by omega),
    List.getElem?_append_left (by omega), hlen, Nat.add_sub_cancel_left]

/-- A range of bytes is known byte by byte. -/
theorem take_drop_eq_iff {bytes : Bytes} {n : Nat} (hn : n = code.length) :
    (bytes.drop offset).take n = code ↔ ∀ k < n, bytes[offset + k]? = code[k]? := by
  subst hn
  constructor
  · intro h k hk
    rw [← List.getElem?_drop, ← List.getElem?_take_of_lt hk, h]
  · intro h
    apply List.ext_getElem?
    intro k
    by_cases hk : k < code.length
    · rw [List.getElem?_take_of_lt hk, List.getElem?_drop, h k hk]
    · rw [List.getElem?_take, if_neg hk, List.getElem?_eq_none (by omega)]

theorem take_drop_overwrite_inside (h : offset + code.length ≤ binary.length) :
    ((overwrite binary offset code).drop offset).take code.length = code :=
  (take_drop_eq_iff rfl).mpr fun _ hk => getElem?_overwrite_inside h hk

/-- A range in front of a write stays. -/
theorem take_drop_overwrite_before {o n : Nat} (h : offset + code.length ≤ binary.length) (hn : o + n ≤ offset) :
    ((overwrite binary offset code).drop o).take n = (binary.drop o).take n := by
  apply List.ext_getElem?
  intro k
  by_cases hk : k < n
  · rw [List.getElem?_take_of_lt hk, List.getElem?_take_of_lt hk, List.getElem?_drop, List.getElem?_drop,
      getElem?_overwrite_outside h (Or.inl (by omega))]
  · rw [List.getElem?_take, List.getElem?_take, if_neg hk, if_neg hk]

end Overwrite

/-! ## Reports that grow -/

/-- The offset that an outcome reports. -/
def PatchOutcome.offset? : PatchOutcome → Option Nat
  | applied _ offset _ | emptyCode _ offset | overflow _ offset .. => some offset
  | anchorNotFound _ => none

namespace PatchReport

/-- The offsets that the patches of a report claimed and did not write over, the last one first. -/
def claims (r : PatchReport) : List Nat :=
  (r.outcomes.filterMap PatchOutcome.claimed?).reverse

/-- The report with one more patch, of which `o` became. -/
def extend (r : PatchReport) (p : Patch) (o : PatchOutcome) : PatchReport :=
  ⟨Anchor.written r.binary p o, r.outcomes ++ [o]⟩

variable {r : PatchReport} {p : Patch} {o : PatchOutcome} {x : Nat}

@[simp] theorem extend_outcomes : (r.extend p o).outcomes = r.outcomes ++ [o] := rfl

@[simp] theorem extend_binary : (r.extend p o).binary = Anchor.written r.binary p o := rfl

theorem mem_claims : x ∈ r.claims ↔ ∃ o ∈ r.outcomes, o.claimed? = some x := by
  simp [claims]

theorem mem_claims_extend : x ∈ (r.extend p o).claims ↔ x ∈ r.claims ∨ o.claimed? = some x := by
  simp only [mem_claims, extend_outcomes, List.mem_append, List.mem_singleton]
  constructor
  · rintro ⟨o', ho' | rfl, h⟩
    · exact Or.inl ⟨o', ho', h⟩
    · exact Or.inr h
  · rintro (⟨o', ho', h⟩ | h)
    · exact ⟨o', Or.inl ho', h⟩
    · exact ⟨o, Or.inr rfl, h⟩

theorem mem_claims_extend_of_none (h : o.claimed? = none) : x ∈ (r.extend p o).claims ↔ x ∈ r.claims := by
  rw [mem_claims_extend, h]
  simp

/-- An offset is reported by a patch that claimed it or by one that was written there. -/
theorem mem_filterMap_offset? :
    x ∈ r.outcomes.filterMap PatchOutcome.offset? ↔ x ∈ r.claims ∨ ∃ f n, .applied f x n ∈ r.outcomes := by
  simp only [mem_claims, List.mem_filterMap]
  constructor
  · rintro ⟨o, ho, h⟩
    cases o with
    | applied f y n =>
        cases h
        exact Or.inr ⟨f, n, ho⟩
    | anchorNotFound f => cases h
    | emptyCode f y => exact Or.inl ⟨_, ho, h⟩
    | overflow f y n m => exact Or.inl ⟨_, ho, h⟩
  · rintro (⟨o, ho, h⟩ | ⟨f, n, ho⟩)
    · refine ⟨o, ho, ?_⟩
      cases o <;> simp_all [PatchOutcome.offset?, PatchOutcome.claimed?]
    · exact ⟨_, ho, rfl⟩

end PatchReport

namespace Anchor

variable {a : Anchor} {binary : Bytes} {claimed : List Nat} {ps : List Patch} {p : Patch}

/-- **The rules of patching**: what may become of the patch `p` when the offsets `claimed` of the binary are
    taken. -/
inductive Becomes (a : Anchor) (binary : Bytes) (claimed : List Nat) (p : Patch) : PatchOutcome → Prop where
  /-- Every match is claimed. -/
  | anchorNotFound (taken : ∀ x, a.MatchesAt binary x → x ∈ claimed) :
      Becomes a binary claimed p (.anchorNotFound p.function)
  /-- There is nothing to write at the first free match. -/
  | emptyCode {x : Nat} (free : a.IsFirstFree binary claimed x) (empty : p.code = []) :
      Becomes a binary claimed p (.emptyCode p.function x)
  /-- The code reaches beyond the binary. -/
  | overflow {x : Nat} (free : a.IsFirstFree binary claimed x) (code : p.code ≠ [])
      (long : binary.length < x + p.code.length) :
      Becomes a binary claimed p (.overflow p.function x p.code.length (binary.length - x))
  /-- The code is written at the first free match. -/
  | applied {x : Nat} (free : a.IsFirstFree binary claimed x) (code : p.code ≠ [])
      (fits : x + p.code.length ≤ binary.length) :
      Becomes a binary claimed p (.applied p.function x p.code.length)

/-- **The patcher follows the rules.** -/
theorem becomes_outcome (a : Anchor) (binary : Bytes) (claimed : List Nat) (p : Patch) :
    a.Becomes binary claimed p (a.outcome binary claimed p) := by
  unfold outcome
  split
  · next h => exact .anchorNotFound fun x hx => claimed_of_unclaimed? h hx
  · next x h =>
    have hfree := isFirstFree_of_unclaimed? h
    by_cases hcode : p.code = []
    · simpa [hcode] using Becomes.emptyCode hfree hcode
    · rw [if_neg (by simpa using hcode)]
      split
      · next hlong => exact .overflow hfree hcode hlong
      · next hfits => exact .applied hfree hcode (by omega)

/-! ## Induction over a run -/

theorem patchFrom_concat (a : Anchor) (binary : Bytes) (claimed : List Nat) (ps : List Patch) (p : Patch) :
    a.patchFrom binary claimed (ps ++ [p]) =
      (a.patchFrom binary claimed ps).extend p (a.outcome (a.patchFrom binary claimed ps).binary
        ((a.patchFrom binary claimed ps).claims ++ claimed) p) := by
  induction ps generalizing binary claimed with
  | nil => rfl
  | cons q ps ih =>
      -- the claims of the later patches stand in front of the one that the first patch makes
      have hclaims : ∀ (o : PatchOutcome) (os : List PatchOutcome),
          ((o :: os).filterMap PatchOutcome.claimed?).reverse ++ claimed =
            (os.filterMap PatchOutcome.claimed?).reverse ++ (o.claimed?.toList ++ claimed) := by
        intro o os
        cases h : o.claimed? <;> simp [h]
      simp only [List.cons_append, patchFrom, ih, PatchReport.extend, PatchReport.claims, hclaims]

/-- **One more patch extends the report.** -/
theorem patch_concat (a : Anchor) (binary : Bytes) (ps : List Patch) (p : Patch) :
    a.patch binary (ps ++ [p]) = (a.patch binary ps).extend p
      (a.outcome (a.patch binary ps).binary (a.patch binary ps).claims p) := by
  rw [patch, patchFrom_concat, List.append_nil]
  rfl

/-- **Induction over a run.** What holds of the untouched binary and is kept by every rule holds of every report. -/
theorem patch_induction (a : Anchor) (binary : Bytes) {motive : List Patch → PatchReport → Prop}
    (start : motive [] ⟨binary, []⟩)
    (step : ∀ ps p o, motive ps (a.patch binary ps) →
      a.Becomes (a.patch binary ps).binary (a.patch binary ps).claims p o →
      motive (ps ++ [p]) ((a.patch binary ps).extend p o))
    (ps : List Patch) : motive ps (a.patch binary ps) := by
  -- a report grows at its end, so the induction is on the reversed list
  have key : ∀ qs : List Patch, motive qs.reverse (a.patch binary qs.reverse) := by
    intro qs
    induction qs with
    | nil => exact start
    | cons p qs ih =>
        rw [List.reverse_cons, patch_concat]
        exact step _ p _ ih (a.becomes_outcome _ _ p)
  simpa using key ps.reverse

/-! ## What holds of every run -/

/-- **One outcome for each patch.** -/
theorem length_outcomes_patch (a : Anchor) (binary : Bytes) (ps : List Patch) :
    (a.patch binary ps).outcomes.length = ps.length := by
  refine patch_induction a binary (motive := fun ps r => r.outcomes.length = ps.length) rfl ?_ ps
  intro ps p o ih _
  simp [ih]

/-- **A patched binary keeps its length.** -/
theorem length_binary_patch (a : Anchor) (binary : Bytes) (ps : List Patch) :
    (a.patch binary ps).binary.length = binary.length := by
  refine patch_induction a binary (motive := fun _ r => r.binary.length = binary.length) rfl ?_ ps
  intro ps p o ih hstep
  cases hstep with
  | anchorNotFound _ => exact ih
  | emptyCode _ _ => exact ih
  | overflow _ _ _ => exact ih
  | applied _ _ fits => exact (length_overwrite fits).trans ih

/-- The patches of a longer run, each with its outcome. -/
theorem mem_zip_extend {q : Patch} {o o' : PatchOutcome}
    (h : (q, o') ∈ (ps ++ [p]).zip ((a.patch binary ps).extend p o).outcomes) :
    (q, o') ∈ ps.zip (a.patch binary ps).outcomes ∨ (q = p ∧ o' = o) := by
  rw [PatchReport.extend_outcomes, List.zip_append (a.length_outcomes_patch binary ps).symm] at h
  rcases List.mem_append.mp h with h | h
  · exact Or.inl h
  · exact Or.inr (by simpa using h)

/-- **An applied range** has the length of the code, which is not empty, and lies inside the binary. -/
theorem applied_spec {f : String} {x n : Nat}
    (h : (p, .applied f x n) ∈ ps.zip (a.patch binary ps).outcomes) :
    n = p.code.length ∧ p.code ≠ [] ∧ x + n ≤ binary.length := by
  refine patch_induction a binary
    (motive := fun ps r => ∀ p f x n, (p, .applied f x n) ∈ ps.zip r.outcomes →
      n = p.code.length ∧ p.code ≠ [] ∧ x + n ≤ binary.length) ?_ ?_ ps p f x n h
  · intro p f x n h
    simp at h
  · intro ps p o ih hstep q f x n hmem
    rcases mem_zip_extend hmem with hmem | ⟨rfl, rfl⟩
    · exact ih q f x n hmem
    · cases hstep with
      | applied _ code fits => exact ⟨rfl, code, a.length_binary_patch binary ps ▸ fits⟩

/-- An applied outcome is the outcome of a patch. -/
theorem exists_patch_of_mem {o : PatchOutcome} (h : o ∈ (a.patch binary ps).outcomes) :
    ∃ p, (p, o) ∈ ps.zip (a.patch binary ps).outcomes := by
  have hsnd : (ps.zip (a.patch binary ps).outcomes).map Prod.snd = (a.patch binary ps).outcomes :=
    List.map_snd_zip (Nat.le_of_eq (a.length_outcomes_patch binary ps))
  rw [← hsnd] at h
  obtain ⟨⟨p, o'⟩, hp, rfl⟩ := List.mem_map.mp h
  exact ⟨p, hp⟩

/-- **An applied range is not empty.** -/
theorem pos_of_applied {f : String} {x n : Nat} (h : .applied f x n ∈ (a.patch binary ps).outcomes) : 0 < n := by
  obtain ⟨p, hp⟩ := exists_patch_of_mem h
  obtain ⟨hn, hcode, -⟩ := applied_spec hp
  exact hn ▸ List.length_pos_iff.mpr hcode

/-- **Bytes outside all applied ranges are those of the input.** -/
theorem getElem?_patch_outside {k : Nat}
    (h : ∀ f x n, .applied f x n ∈ (a.patch binary ps).outcomes → k < x ∨ x + n ≤ k) :
    (a.patch binary ps).binary[k]? = binary[k]? := by
  refine patch_induction a binary
    (motive := fun _ r => (∀ f x n, .applied f x n ∈ r.outcomes → k < x ∨ x + n ≤ k) →
      r.binary[k]? = binary[k]?) (fun _ => rfl) ?_ ps h
  intro ps p o ih hstep hout
  have hprev := ih fun f x n hmem => hout f x n (List.mem_append_left _ hmem)
  cases hstep with
  | anchorNotFound _ => exact hprev
  | emptyCode _ _ => exact hprev
  | overflow _ _ _ => exact hprev
  | applied _ _ fits =>
      exact (getElem?_overwrite_outside fits (hout _ _ _ (List.mem_append_right _ List.mem_cons_self))).trans hprev

end Anchor

end Inlay
