import Inlay.Proofs.Text.FirstStop
import Inlay.Template.Segment

/-!
# `Proofs.Text.Doubled` — a text cut at a doubled character

Brackets that open or close a tag are a character twice. A text is cut at the first place where they stand
(`cutAtDouble?_eq_some`), and is not cut exactly if there is none (`cutAtDouble?_eq_none`).
-/

namespace Inlay

variable {c : Char} {s before behind : List Char}

theorem exists_cut (h : [c, c] <:+: s) : ∃ before behind, cutAtDouble? c s = some (before, behind) := by
  induction s with
  | nil => simp at h
  | cons a s ih =>
      cases s with
      | nil =>
          have hlength := h.length_le
          simp at hlength
      | cons b s =>
          rw [cutAtDouble?]
          by_cases hab : a = c ∧ b = c
          · exact ⟨[], s, if_pos hab⟩
          · rw [List.infix_cons_iff] at h
            rcases h with ⟨t, ht⟩ | h
            · simp at ht
              exact absurd ⟨ht.1.symm, ht.2.1.symm⟩ hab
            · obtain ⟨before, behind, hcut⟩ := ih h
              exact ⟨a :: before, behind, by rw [if_neg hab, hcut]; rfl⟩

/-- In front of a cut nothing is doubled. -/
theorem not_infix_of_cut (h : cutAtDouble? c s = some (before, behind)) : ¬ [c, c] <:+: before ++ [c] := by
  induction s generalizing before with
  | nil => simp [cutAtDouble?] at h
  | cons a s ih =>
      cases s with
      | nil => simp [cutAtDouble?] at h
      | cons b s =>
          rw [cutAtDouble?] at h
          split at h
          · simp at h
            obtain ⟨rfl, -⟩ := h
            intro hshort
            simpa using hshort.length_le
          · next hab =>
            obtain ⟨⟨u, v⟩, huv, heq⟩ := Option.map_eq_some_iff.mp h
            simp at heq
            obtain ⟨rfl, rfl⟩ := heq
            refine not_infix_cons (ih huv) ?_
            intro t ha ht
            -- what the cut leaves behind `a` starts like the text behind `a`
            have hs := append_of_cutAtDouble? huv
            cases u with
            | nil => exact hab ⟨ha, (List.cons.inj hs).1⟩
            | cons d u => exact hab ⟨ha, (List.cons.inj hs).1.trans (List.cons.inj ht).1⟩

/-- **The cut is at the first doubled character.** -/
theorem cutAtDouble?_eq_some : cutAtDouble? c s = some (before, behind) ↔
    s = before ++ c :: c :: behind ∧ ¬ [c, c] <:+: before ++ [c] := by
  constructor
  · intro h
    exact ⟨append_of_cutAtDouble? h, not_infix_of_cut h⟩
  · rintro ⟨rfl, hfirst⟩
    have hinfix : [c, c] <:+: before ++ c :: c :: behind := ⟨before, behind, by simp⟩
    obtain ⟨u, v, hcut⟩ := exists_cut hinfix
    have heq : before ++ [c, c] ++ behind = u ++ [c, c] ++ v := by
      simpa using append_of_cutAtDouble? hcut
    have hlength := Nat.le_antisymm
      (length_le_of_first (by simp) hfirst heq.symm) (length_le_of_first (by simp) (not_infix_of_cut hcut) heq)
    obtain ⟨hu, hv⟩ := List.append_inj heq (by simp [hlength])
    rw [hcut, List.append_cancel_right hu, hv]

theorem cutAtDouble?_eq_none : cutAtDouble? c s = none ↔ ¬ [c, c] <:+: s := by
  constructor
  · intro h hinfix
    obtain ⟨before, behind, hcut⟩ := exists_cut hinfix
    rw [h] at hcut
    cases hcut
  · intro h
    cases hcut : cutAtDouble? c s with
    | none => rfl
    | some cut =>
        refine absurd ⟨cut.1, cut.2, ?_⟩ h
        rw [append_of_cutAtDouble? hcut]
        simp

end Inlay
