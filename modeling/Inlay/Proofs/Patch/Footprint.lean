import Inlay.Proofs.Patch.Run

/-!
# `Proofs.Patch.Footprint` — what a report tells of the binary

A report can be read without the binary that came out: the binary in front of patch `i` is the input with everything
written that the outcomes in front of it say (`PatchReport.binaryBefore`), and the offsets that are taken there are
those that these outcomes claim (`PatchReport.claimedBefore`). Outcome `i` is what the rules of patching say of these
two (`becomes_before`).

From that the whole report is accounted for (`PatchReport.Accounts`): where every patch went and why, when no anchor
is left and that it stays so, and which patch each byte of the result is from. The last patch that was written over a
byte decides; bytes that no patch reports are those of the input.
-/

namespace Inlay

/-! ## Reading a report -/

namespace PatchOutcome

/-- The function of the patch. -/
def function : PatchOutcome → String
  | applied f .. | anchorNotFound f | emptyCode f _ | overflow f .. => f

/-- **Code was written over byte `k`.** -/
def Covers (o : PatchOutcome) (k : Nat) : Prop :=
  ∃ f x n, o = .applied f x n ∧ x ≤ k ∧ k < x + n

theorem applied_covers {f : String} {x n k : Nat} : (applied f x n).Covers k ↔ x ≤ k ∧ k < x + n := by
  constructor
  · rintro ⟨_, _, _, ⟨⟩, hk⟩
    exact hk
  · intro hk
    exact ⟨f, x, n, rfl, hk⟩

end PatchOutcome

namespace PatchReport

/-- The binary in front of patch `i`: the input with what the outcomes in front say. -/
def binaryBefore (r : PatchReport) (binary : Bytes) (ps : List Patch) (i : Nat) : Bytes :=
  ((ps.zip r.outcomes).take i).foldl (fun bytes (p, o) => Anchor.written bytes p o) binary

/-- The offsets that the patches in front of patch `i` claimed without writing there. -/
def claimedBefore (r : PatchReport) (i : Nat) : List Nat :=
  (r.outcomes.take i).filterMap PatchOutcome.claimed?

/-- **A report that accounts for its binary**, when `ps` patched `binary` at the anchor `a`. -/
structure Accounts (a : Anchor) (binary : Bytes) (ps : List Patch) (r : PatchReport) : Prop where
  /-- There is one outcome for each patch. -/
  outcomes : r.outcomes.length = ps.length
  /-- They are in the order of the patches. -/
  function : ∀ (i : Nat) p o, ps[i]? = some p → r.outcomes[i]? = some o → o.function = p.function
  /-- The binary keeps its length. -/
  length : r.binary.length = binary.length
  /-- An offset is the least one that matches in the binary in front and is not claimed there. -/
  offset : ∀ (i : Nat) o x, r.outcomes[i]? = some o → o.offset? = some x →
    a.IsFirstFree (r.binaryBefore binary ps i) (r.claimedBefore i) x
  /-- No anchor is reported exactly when no offset matches that is not claimed. -/
  absent : ∀ (i : Nat) o, r.outcomes[i]? = some o →
    (o = .anchorNotFound o.function ↔ ∀ x, a.MatchesAt (r.binaryBefore binary ps i) x → x ∈ r.claimedBefore i)
  /-- Behind a patch without an anchor there is none for any patch. -/
  absentBehind : ∀ (i j : Nat) f o, r.outcomes[i]? = some (.anchorNotFound f) → i ≤ j → r.outcomes[j]? = some o →
    o = .anchorNotFound o.function
  /-- An applied range has the length of the code and lies inside the binary. -/
  range : ∀ (i : Nat) p f x n, ps[i]? = some p → r.outcomes[i]? = some (.applied f x n) →
    n = p.code.length ∧ x + n ≤ binary.length
  /-- A byte is from the last patch that was written over it. -/
  lastWritten : ∀ (i : Nat) p f x n k, ps[i]? = some p → r.outcomes[i]? = some (.applied f x n) → x ≤ k → k < x + n →
    (∀ (j : Nat) o, i < j → r.outcomes[j]? = some o → ¬ o.Covers k) → r.binary[k]? = p.code[k - x]?
  /-- A byte that no patch was written over is that of the input. -/
  untouched : ∀ k, (∀ o ∈ r.outcomes, ¬ o.Covers k) → r.binary[k]? = binary[k]?

/-! ## The binary in front of a patch -/

variable {r : PatchReport} {binary : Bytes} {ps : List Patch} {p : Patch} {o : PatchOutcome} {i x : Nat}

theorem binaryBefore_extend (hlen : r.outcomes.length = ps.length) (hi : i ≤ ps.length) :
    (r.extend p o).binaryBefore binary (ps ++ [p]) i = r.binaryBefore binary ps i := by
  have hzip : i ≤ (ps.zip r.outcomes).length := by
    rw [List.length_zip, hlen, Nat.min_self]
    exact hi
  rw [binaryBefore, extend_outcomes, List.zip_append hlen.symm, List.take_append_of_le_length hzip, binaryBefore]

theorem claimedBefore_extend (hi : i ≤ r.outcomes.length) : (r.extend p o).claimedBefore i = r.claimedBefore i := by
  rw [claimedBefore, extend_outcomes, List.take_append_of_le_length hi, claimedBefore]

/-- In front of the next patch all claims of the report count. -/
theorem mem_claimedBefore_length (hi : r.outcomes.length ≤ i) : x ∈ r.claimedBefore i ↔ x ∈ r.claims := by
  rw [claimedBefore, List.take_of_length_le hi, claims, List.mem_reverse]

/-- The binary behind patch `i`. -/
theorem binaryBefore_succ (hp : ps[i]? = some p) (ho : r.outcomes[i]? = some o) :
    r.binaryBefore binary ps (i + 1) = Anchor.written (r.binaryBefore binary ps i) p o := by
  have hzip : (ps.zip r.outcomes)[i]? = some (p, o) := by
    rw [List.getElem?_zip_eq_some]
    exact ⟨hp, ho⟩
  rw [binaryBefore, List.take_add_one, hzip, List.foldl_append, binaryBefore]
  rfl

/-- What is claimed stays claimed. -/
theorem mem_claimedBefore_succ (hx : x ∈ r.claimedBefore i) : x ∈ r.claimedBefore (i + 1) := by
  rw [claimedBefore, List.take_add_one, List.filterMap_append]
  exact List.mem_append_left _ hx

end PatchReport

namespace Anchor

variable {a : Anchor} {binary : Bytes} {claimed claimed' : List Nat} {ps : List Patch} {p : Patch} {o : PatchOutcome}
  {i j k x : Nat}

/-! ## The rules, in front of each patch -/

theorem IsFirstFree.congr_claimed (h : a.IsFirstFree binary claimed x) (hc : ∀ y, y ∈ claimed' ↔ y ∈ claimed) :
    a.IsFirstFree binary claimed' x where
  matchesAt := h.matchesAt
  unclaimed := fun hx => h.unclaimed ((hc x).mp hx)
  least := fun y hy hyc => h.least y hy fun hmem => hyc ((hc y).mpr hmem)

/-- Only which offsets are claimed matters, not in which order. -/
theorem Becomes.congr_claimed (h : a.Becomes binary claimed p o) (hc : ∀ y, y ∈ claimed' ↔ y ∈ claimed) :
    a.Becomes binary claimed' p o := by
  cases h with
  | anchorNotFound taken => exact .anchorNotFound fun x hx => (hc x).mpr (taken x hx)
  | emptyCode free empty => exact .emptyCode (free.congr_claimed hc) empty
  | overflow free code long => exact .overflow (free.congr_claimed hc) code long
  | applied free code fits => exact .applied (free.congr_claimed hc) code fits

/-- **The outcomes of a report, carried out on the input, give its binary.** -/
theorem binaryBefore_length (a : Anchor) (binary : Bytes) (ps : List Patch) :
    (a.patch binary ps).binaryBefore binary ps ps.length = (a.patch binary ps).binary := by
  refine patch_induction a binary (motive := fun ps r => r.outcomes.length = ps.length →
    r.binaryBefore binary ps ps.length = r.binary) (fun _ => rfl) ?_ ps (a.length_outcomes_patch binary ps)
  intro ps p o ih hstep _
  have hlen := a.length_outcomes_patch binary ps
  have hp : (ps ++ [p])[ps.length]? = some p := List.getElem?_concat_length
  have ho : ((a.patch binary ps).extend p o).outcomes[ps.length]? = some o := by
    rw [PatchReport.extend_outcomes, ← hlen]
    exact List.getElem?_concat_length
  rw [List.length_append, List.length_singleton, PatchReport.binaryBefore_succ hp ho,
    PatchReport.binaryBefore_extend hlen (Nat.le_refl _), ih hlen]
  rfl

/-- **Every outcome is what the rules say** of the binary and the claims in front of its patch. -/
theorem becomes_before (hp : ps[i]? = some p) (ho : (a.patch binary ps).outcomes[i]? = some o) :
    a.Becomes ((a.patch binary ps).binaryBefore binary ps i) ((a.patch binary ps).claimedBefore i) p o := by
  refine patch_induction a binary (motive := fun ps r => ∀ (i : Nat) p o, ps[i]? = some p → r.outcomes[i]? = some o →
    a.Becomes (r.binaryBefore binary ps i) (r.claimedBefore i) p o) ?_ ?_ ps i p o hp ho
  · intro i p o hp
    simp at hp
  · intro ps q o' ih hstep i p o hp ho
    have hlen := a.length_outcomes_patch binary ps
    have hi : i ≤ ps.length := by
      have hlt := (List.getElem?_eq_some_iff.mp hp).1
      rw [List.length_append, List.length_singleton] at hlt
      omega
    rw [PatchReport.binaryBefore_extend hlen hi, PatchReport.claimedBefore_extend (hlen ▸ hi)]
    rw [PatchReport.extend_outcomes] at ho
    by_cases hlast : i = ps.length
    · -- the last patch, in front of which the whole report stands
      subst hlast
      rw [List.getElem?_concat_length, Option.some.injEq] at hp
      rw [← hlen, List.getElem?_concat_length, Option.some.injEq] at ho
      subst hp ho
      rw [binaryBefore_length]
      apply hstep.congr_claimed
      intro y
      exact PatchReport.mem_claimedBefore_length (Nat.le_of_eq hlen)
    · have hlt : i < ps.length := by omega
      rw [List.getElem?_append_left hlt] at hp
      rw [List.getElem?_append_left (hlen ▸ hlt)] at ho
      exact ih i p o hp ho

/-- Each outcome of a report belongs to a patch. -/
theorem exists_patch_of_outcome (ho : (a.patch binary ps).outcomes[i]? = some o) : ∃ p, ps[i]? = some p := by
  have hi := (List.getElem?_eq_some_iff.mp ho).1
  rw [length_outcomes_patch] at hi
  exact ⟨_, List.getElem?_eq_getElem hi⟩

/-! ## No anchor left -/

/-- **Where no anchor is left** every match is claimed, and the other way round. -/
theorem Becomes.absent_iff (h : a.Becomes binary claimed p o) :
    o = .anchorNotFound o.function ↔ ∀ x, a.MatchesAt binary x → x ∈ claimed := by
  cases h with
  | anchorNotFound taken => exact ⟨fun _ => taken, fun _ => rfl⟩
  | emptyCode free _ => exact ⟨nofun, fun taken => absurd (taken _ free.matchesAt) free.unclaimed⟩
  | overflow free _ _ => exact ⟨nofun, fun taken => absurd (taken _ free.matchesAt) free.unclaimed⟩
  | applied free _ _ => exact ⟨nofun, fun taken => absurd (taken _ free.matchesAt) free.unclaimed⟩

/-- A patch without an anchor changes nothing, so the next one has none either. -/
theorem absent_succ {f : String} (hi : (a.patch binary ps).outcomes[i]? = some (.anchorNotFound f))
    (ho : (a.patch binary ps).outcomes[i + 1]? = some o) : o = .anchorNotFound o.function := by
  obtain ⟨p, hp⟩ := exists_patch_of_outcome hi
  obtain ⟨q, hq⟩ := exists_patch_of_outcome ho
  have htaken := (becomes_before hp hi).absent_iff.mp rfl
  rw [(becomes_before hq ho).absent_iff, PatchReport.binaryBefore_succ hp hi]
  intro x hx
  exact PatchReport.mem_claimedBefore_succ (htaken x hx)

/-- **Once no anchor is left, none is found again.** -/
theorem absent_behind {f : String} (hi : (a.patch binary ps).outcomes[i]? = some (.anchorNotFound f)) (hij : i ≤ j)
    (ho : (a.patch binary ps).outcomes[j]? = some o) : o = .anchorNotFound o.function := by
  induction hij generalizing o with
  | refl =>
      rw [hi, Option.some.injEq] at ho
      subst ho
      rfl
  | @step j hle ih =>
      have hj : j < (a.patch binary ps).outcomes.length := by
        have hlt := (List.getElem?_eq_some_iff.mp ho).1
        omega
      have hprev := ih (List.getElem?_eq_getElem hj)
      have hsome := List.getElem?_eq_getElem hj
      rw [hprev] at hsome
      exact absent_succ hsome ho

/-! ## Who wrote a byte -/

/-- A patch that is not written over a byte leaves it as it is. -/
theorem getElem?_written_of_not_covers (hstep : a.Becomes binary claimed p o) (hk : ¬ o.Covers k) :
    (written binary p o)[k]? = binary[k]? := by
  cases hstep with
  | anchorNotFound _ => rfl
  | emptyCode _ _ => rfl
  | overflow _ _ _ => rfl
  | applied _ _ fits =>
      rw [PatchOutcome.applied_covers] at hk
      exact getElem?_overwrite_outside fits (by omega)

/-- A patch that is written over a byte puts its code there. -/
theorem getElem?_written_of_covers {f : String} {n : Nat} (hstep : a.Becomes binary claimed p (.applied f x n))
    (hx : x ≤ k) (hk : k < x + n) : (written binary p (.applied f x n))[k]? = p.code[k - x]? := by
  cases hstep with
  | applied _ _ fits =>
      have hinside := getElem?_overwrite_inside fits (k := k - x) (by omega)
      rw [Nat.add_sub_cancel' hx] at hinside
      exact hinside

/-- **The last patch that is written over a byte decides.** -/
theorem getElem?_patch_of_last {f : String} {n : Nat} (hp : ps[i]? = some p)
    (ho : (a.patch binary ps).outcomes[i]? = some (.applied f x n)) (hx : x ≤ k) (hk : k < x + n)
    (hlast : ∀ (j : Nat) o, i < j → (a.patch binary ps).outcomes[j]? = some o → ¬ o.Covers k) :
    (a.patch binary ps).binary[k]? = p.code[k - x]? := by
  refine patch_induction a binary (motive := fun ps r => ps[i]? = some p → r.outcomes[i]? = some (.applied f x n) →
    (∀ (j : Nat) o, i < j → r.outcomes[j]? = some o → ¬ o.Covers k) → r.binary[k]? = p.code[k - x]?)
    ?_ ?_ ps hp ho hlast
  · intro hp
    simp at hp
  · intro ps q o ih hstep hp ho hlast
    have hlen := a.length_outcomes_patch binary ps
    rw [PatchReport.extend_outcomes] at ho hlast
    rw [PatchReport.extend_binary]
    have hi := (List.getElem?_eq_some_iff.mp hp).1
    rw [List.length_append, List.length_singleton] at hi
    by_cases hnew : i = ps.length
    · subst hnew
      rw [List.getElem?_concat_length, Option.some.injEq] at hp
      rw [← hlen, List.getElem?_concat_length, Option.some.injEq] at ho
      subst hp ho
      exact getElem?_written_of_covers hstep hx hk
    · -- an older patch, over which the last one is not written
      have hlt : i < ps.length := by omega
      rw [List.getElem?_append_left hlt] at hp
      rw [List.getElem?_append_left (hlen ▸ hlt)] at ho
      have hfree : ¬ o.Covers k := by
        apply hlast ps.length o hlt
        rw [← hlen]
        exact List.getElem?_concat_length
      rw [getElem?_written_of_not_covers hstep hfree]
      apply ih hp ho
      intro j o' hj ho'
      apply hlast j o' hj
      rw [List.getElem?_append_left (List.getElem?_eq_some_iff.mp ho').1]
      exact ho'

/-- Outcomes that do not cover a byte have it outside of all applied ranges. -/
theorem outside_of_not_covers {os : List PatchOutcome} (h : ∀ o ∈ os, ¬ o.Covers k) :
    ∀ f x n, .applied f x n ∈ os → k < x ∨ x + n ≤ k := by
  intro f x n hmem
  have hk := h _ hmem
  rw [PatchOutcome.applied_covers] at hk
  omega

/-- **Patching touches only what it reports.** Every report accounts for its binary. -/
theorem report_accounts_for_binary (a : Anchor) (binary : Bytes) (ps : List Patch) :
    (a.patch binary ps).Accounts a binary ps where
  outcomes := a.length_outcomes_patch binary ps
  function := by
    intro i p o hp ho
    cases becomes_before hp ho with
    | anchorNotFound _ => rfl
    | emptyCode _ _ => rfl
    | overflow _ _ _ => rfl
    | applied _ _ _ => rfl
  length := a.length_binary_patch binary ps
  offset := by
    intro i o x ho hx
    obtain ⟨p, hp⟩ := exists_patch_of_outcome ho
    cases becomes_before hp ho with
    | anchorNotFound _ => cases hx
    | emptyCode free _ => exact Option.some.inj hx ▸ free
    | overflow free _ _ => exact Option.some.inj hx ▸ free
    | applied free _ _ => exact Option.some.inj hx ▸ free
  absent := by
    intro i o ho
    obtain ⟨p, hp⟩ := exists_patch_of_outcome ho
    exact (becomes_before hp ho).absent_iff
  absentBehind := by
    intro i j f o hi hij ho
    exact absent_behind hi hij ho
  range := by
    intro i p f x n hp ho
    have hmem : (p, .applied f x n) ∈ ps.zip (a.patch binary ps).outcomes := by
      apply List.mem_of_getElem? (i := i)
      rw [List.getElem?_zip_eq_some]
      exact ⟨hp, ho⟩
    obtain ⟨hn, -, hfits⟩ := applied_spec hmem
    exact ⟨hn, hfits⟩
  lastWritten := by
    intro i p f x n k hp ho hx hk hlast
    exact getElem?_patch_of_last hp ho hx hk hlast
  untouched := by
    intro k hk
    exact getElem?_patch_outside (outside_of_not_covers hk)

end Anchor

end Inlay
