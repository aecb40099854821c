import Mathlib.Data.List.Basic
import Inlay.Text.Blank
import Inlay.Text.Letter

/-!
# `Proofs.Text.Classes` — which characters are of which kind

The parts of a source are told apart by classes of characters, and mostly it matters only that two classes have
nothing in common: a blank is no part of a word, a part of a word is none of the signs that a block is cut at
(`ne_of_class`). An ASCII blank is one of five characters, so what holds of these holds of it (`isAsciiBlank_cases`).
-/

namespace Inlay

variable {p : Char → Bool} {c d : Char} {name : List Char}

/-- A character of a class is none that the class does not have. -/
theorem ne_of_class (hc : p c = true) (hd : p d = false) : c ≠ d := by
  rintro rfl
  rw [hd] at hc
  cases hc

/-! ## Letters and digits -/

theorem isAlpha_iff : c.isAlpha = true ↔ (65 ≤ c.toNat ∧ c.toNat ≤ 90) ∨ (97 ≤ c.toNat ∧ c.toNat ≤ 122) := by
  have hlower : c.isLower = true ↔ 97 ≤ c.toNat ∧ c.toNat ≤ 122 :=
    Bool.and_eq_true_iff.trans (and_congr decide_eq_true_iff decide_eq_true_iff)
  show (c.isUpper || c.isLower) = true ↔ _
  rw [Bool.or_eq_true]
  exact or_congr decide_eq_true_iff hlower

/-- A digit starts no identifier. -/
theorem not_start_of_isDigit (h : c.isDigit = true) : (c.isAlpha || c == '_') = false := by
  have hunderscore : c ≠ '_' := ne_of_class h rfl
  rw [Char.isDigit_iff_toNat] at h
  have halpha : c.isAlpha = false := by
    have hle : c.toNat ≤ 57 := h.2
    rw [← Bool.not_eq_true, isAlpha_iff]
    omega
  rw [halpha, beq_eq_false_iff_ne.mpr hunderscore, Bool.or_false]

theorem isAsciiWord_of_isDigit (h : c.isDigit = true) : isAsciiWord c = true := by
  simp [isAsciiWord, Char.isAlphanum, h]

/-- **An identifier** is a word that does not start with a digit. -/
theorem isIdentifier_iff : isIdentifier name = true ↔
    (∀ c ∈ name, isAsciiWord c = true) ∧ (name.isEmpty || name.head?.any Char.isDigit) = false := by
  cases name with
  | nil => simp [isIdentifier]
  | cons c s =>
      have hstart : (c.isAlpha || c == '_') = true ↔ isAsciiWord c = true ∧ c.isDigit = false := by
        cases hdigit : c.isDigit with
        | true => simp [not_start_of_isDigit hdigit]
        | false => simp [isAsciiWord, Char.isAlphanum, hdigit]
      simp only [isIdentifier, Bool.and_eq_true, List.all_eq_true, hstart, List.mem_cons, forall_eq_or_imp,
        List.isEmpty_cons, Bool.false_or, List.head?_cons, Option.any_some]
      constructor
      · rintro ⟨⟨hc, hdigit⟩, hs⟩
        exact ⟨⟨hc, hs⟩, hdigit⟩
      · rintro ⟨⟨hc, hs⟩, hdigit⟩
        exact ⟨⟨hc, hdigit⟩, hs⟩

theorem isAsciiWord_of_mem_identifier (h : isIdentifier name = true) (hc : c ∈ name) : isAsciiWord c = true :=
  (isIdentifier_iff.mp h).1 c hc

theorem ne_nil_of_isIdentifier (h : isIdentifier name = true) : name ≠ [] := by
  rintro rfl
  cases h

/-! ## Blanks -/

/-- **What holds of the five ASCII blanks** holds of each character that is one. -/
theorem isAsciiBlank_cases {P : Char → Prop} (h : isAsciiBlank c = true) (space : P ' ') (tab : P '\t')
    (newline : P '\n') (feed : P '\x0c') (ret : P '\r') : P c := by
  unfold isAsciiBlank at h
  simp only [Bool.or_eq_true, beq_iff_eq] at h
  rcases h with (((rfl | rfl) | rfl) | rfl) | rfl
  · exact space
  · exact tab
  · exact newline
  · exact feed
  · exact ret

theorem not_isAsciiWord_of_isAsciiBlank (h : isAsciiBlank c = true) : isAsciiWord c = false :=
  isAsciiBlank_cases (P := fun c => isAsciiWord c = false) h rfl rfl rfl rfl rfl

theorem isBlank_of_isAsciiBlank (h : isAsciiBlank c = true) : isBlank c = true :=
  isAsciiBlank_cases (P := fun c => isBlank c = true) h rfl rfl rfl rfl rfl

theorem not_isAsciiBlank_of_isAsciiWord (h : isAsciiWord c = true) : isAsciiBlank c = false := by
  rw [← Bool.not_eq_true]
  intro hblank
  exact ne_of_class h (not_isAsciiWord_of_isAsciiBlank hblank) rfl

/-- Nor is a part of a word any other blank. -/
theorem not_isBlank_of_isAsciiWord (h : isAsciiWord c = true) : isBlank c = false := by
  have hword : (c.isAlpha = true ∨ c.isDigit = true) ∨ c = '_' := by
    simpa [isAsciiWord, Char.isAlphanum] using h
  rw [isAlpha_iff, Char.isDigit_iff_toNat] at hword
  rcases hword with ((hupper | hlower) | hdigit) | rfl
  · simp [isBlank] at *
    omega
  · simp [isBlank] at *
    omega
  · simp [isBlank] at *
    omega
  · rfl

/-- ASCII characters take one byte. -/
theorem utf8Size_eq_one (h : c.toNat < 128) : c.utf8Size = 1 := by
  refine Char.utf8Size_eq_one_iff.mpr (UInt32.le_iff_toNat_le.mpr ?_)
  show c.toNat ≤ 127
  omega

end Inlay
