import Inlay.Kernel.Extraction
import Inlay.Proofs.Text.Classes
import Inlay.Proofs.Text.Words

/-!
# `Proofs.Kernel.Written` — how a block is written

The text of a block as a relation between its parts and what stands behind it (`BlockText.Written`): which characters
each part may hold, and that a semicolon is part of the block if one comes next. Cutting a block from a text succeeds
exactly with the parts of a block that is written there (`BlockText.cut_eq_ok`), so there is only one way to read it.
-/

namespace Inlay

namespace BlockText

variable {introducer s rest behind ending : List Char} {t : BlockText} {c : Char}

/-! ## Behind the body -/

/-- **The ending of a block** in front of `behind`: a semicolon and the blanks in front of it, or nothing if no
    semicolon comes next. -/
inductive Ending : List Char → List Char → Prop where
  | semicolon {blanks behind : List Char} (blank : ∀ c ∈ blanks, isLineBlank c = true) :
      Ending (blanks ++ [';']) behind
  | absent {behind : List Char}
      (other : ∀ blanks rest, (∀ c ∈ blanks, isLineBlank c = true) → behind ≠ blanks ++ ';' :: rest) :
      Ending [] behind

theorem cutEnding_eq_iff : cutEnding s = (ending, rest) ↔ Ending ending rest ∧ s = ending ++ rest := by
  have hsplit := List.takeWhile_append_dropWhile (p := isLineBlank) (l := s)
  constructor
  · intro h
    have happend := cutEnding_append s
    rw [h] at happend
    refine ⟨?_, happend.symm⟩
    unfold cutEnding at h
    split at h
    · next rest' hrest =>
      cases h
      exact .semicolon fun c => of_mem_takeWhile
    · next hrest =>
      cases h
      refine .absent fun blanks rest' hblanks hs => hrest rest' ?_
      rw [hs]
      exact dropWhile_run hblanks fun c hc => by cases hc; rfl
  · rintro ⟨hending, rfl⟩
    unfold cutEnding
    cases hending with
    | @semicolon blanks _ hblanks =>
        have hstop : ∀ c ∈ (';' :: rest).head?, isLineBlank c = false := fun c hc => by cases hc; rfl
        rw [List.append_assoc, List.singleton_append, takeWhile_run hblanks hstop, dropWhile_run hblanks hstop]
        rfl
    | absent hother =>
        split
        · next rest' hrest =>
          rw [hrest] at hsplit
          exact absurd hsplit.symm (hother _ rest' fun c => of_mem_takeWhile)
        · rfl

/-! ## The whole block -/

/-- **A block as it is written**, with `behind` behind it. -/
structure Written (t : BlockText) (behind : List Char) : Prop where
  /-- Blanks in front of the name. -/
  beforeName : ∀ c ∈ t.beforeName, isAsciiBlank c = true
  /-- The name. -/
  name : isIdentifier t.name = true
  /-- Blanks in front of the list, or none. -/
  beforeList : ∀ c ∈ t.beforeList, isAsciiBlank c = true
  /-- The list holds nothing that ends a list. -/
  list : ∀ c ∈ t.list, endsList c = false
  /-- Blanks in front of the body, or none. -/
  beforeBody : ∀ c ∈ t.beforeBody, isAsciiBlank c = true
  /-- The body holds no closing brace. -/
  body : ∀ c ∈ t.body, c ≠ '}'
  /-- The ending. -/
  ending : Ending t.ending behind

theorem introducer_of_cut (h : cut introducer s = .ok (t, rest)) : t.introducer = introducer := by
  unfold cut at h
  dsimp only at h
  repeat' split at h
  all_goals simp at h
  rw [← h.1]

/-- What stands behind a word of the header is a blank or the character `d`. -/
theorem not_isAsciiWord_of_head {blanks : List Char} {d : Char} (hblanks : ∀ c ∈ blanks, isAsciiBlank c = true)
    (hd : isAsciiWord d = false) (v : List Char) : ∀ c ∈ (blanks ++ d :: v).head?, isAsciiWord c = false := by
  intro c hc
  cases blanks with
  | nil => exact Option.some.inj hc ▸ hd
  | cons b blanks =>
      obtain rfl : b = c := Option.some.inj hc
      exact not_isAsciiWord_of_isAsciiBlank (hblanks b List.mem_cons_self)

/-- **Cutting a block** from the text `s` behind its introducer succeeds exactly with a block that is written there. -/
theorem cut_eq_ok : cut introducer s = .ok (t, rest) ↔
    t.introducer = introducer ∧ t.Written rest ∧ introducer ++ s = t.chars ++ rest := by
  constructor
  · intro h
    have hchars := chars_append_of_cut h
    refine ⟨introducer_of_cut h, ?_, hchars.symm⟩
    unfold cut at h
    dsimp only at h
    split at h
    · cases h
    next hname =>
    split at h
    · next s₁ h₁ =>
      split at h
      · next s₂ h₂ =>
        split at h
        · next s₃ h₃ =>
          split at h
          · next d s₄ h₄ =>
            simp only [Except.ok.injEq, Prod.mk.injEq] at h
            obtain ⟨rfl, hrest⟩ := h
            have hending : cutEnding s₄ = ((cutEnding s₄).1, rest) := Prod.ext rfl hrest
            exact {
              beforeName := fun c => of_mem_takeWhile
              name := isIdentifier_iff.mpr ⟨fun c => of_mem_takeWhile, Bool.eq_false_iff.mpr hname⟩
              beforeList := fun c => of_mem_takeWhile
              list := fun c hc => by simpa using of_mem_takeWhile hc
              beforeBody := fun c => of_mem_takeWhile
              body := fun c hc => by simpa using of_mem_takeWhile hc
              ending := (cutEnding_eq_iff.mp hending).1 }
          · cases h
        · cases h
      · cases h
    · cases h
  · rintro ⟨rfl, hw, hs⟩
    obtain ⟨hword, hstart⟩ := isIdentifier_iff.mp hw.name
    -- the parts one after the other, each a run that the next one ends
    have hs' : s = t.beforeName ++ (t.name ++ (t.beforeList ++ '(' :: (t.list ++ ')' :: (t.beforeBody ++
        '{' :: (t.body ++ '}' :: (t.ending ++ rest)))))) := by
      simpa only [chars, header, opening, List.append_assoc, List.cons_append, List.nil_append,
        List.append_cancel_left_eq] using hs
    have hname : ∀ v, ∀ c ∈ (t.name ++ v).head?, isAsciiBlank c = false := by
      intro v c hc
      cases hn : t.name with
      | nil => simp [hn] at hstart
      | cons d u =>
          rw [hn] at hc
          obtain rfl : d = c := Option.some.inj hc
          exact not_isAsciiBlank_of_isAsciiWord (hword d (hn ▸ List.mem_cons_self))
    have hlist : ∀ c ∈ t.list, (!endsList c) = true := fun c hc => by simp [hw.list c hc]
    have hbody : ∀ c ∈ t.body, decide (c ≠ '}') = true := fun c hc => decide_eq_true (hw.body c hc)
    have hopen : ∀ v, ∀ c ∈ ('(' :: v).head?, isAsciiBlank c = false := fun v c hc => by cases hc; rfl
    have hclose : ∀ v, ∀ c ∈ (')' :: v).head?, (!endsList c) = false := fun v c hc => by cases hc; rfl
    have hbrace : ∀ v, ∀ c ∈ ('{' :: v).head?, isAsciiBlank c = false := fun v c hc => by cases hc; rfl
    have hend : ∀ v, ∀ c ∈ ('}' :: v).head?, decide (c ≠ '}') = false := fun v c hc => by cases hc; rfl
    have hafter := not_isAsciiWord_of_head hw.beforeList (d := '(') rfl
    have hcut : cutEnding (t.ending ++ rest) = (t.ending, rest) := cutEnding_eq_iff.mpr ⟨hw.ending, rfl⟩
    unfold cut
    rw [hs']
    simp only [takeWhile_run hw.beforeName (hname _), dropWhile_run hw.beforeName (hname _),
      takeWhile_run hword (hafter _), dropWhile_run hword (hafter _), hstart,
      takeWhile_run hw.beforeList (hopen _), dropWhile_run hw.beforeList (hopen _),
      takeWhile_run hlist (hclose _), dropWhile_run hlist (hclose _),
      takeWhile_run hw.beforeBody (hbrace _), dropWhile_run hw.beforeBody (hbrace _),
      takeWhile_run hbody (hend _), dropWhile_run hbody (hend _), hcut, Bool.false_eq_true, if_false]

end BlockText

end Inlay
