import Inlay.Text.Hex

/-!
# `Proofs.Text.Digits` — the digits of a number

Numbers are written from their last digit on, so what is said of all digits goes by induction along the number without
that digit. The digits in base sixteen are read as the number that they were written for (`hexNumber_hexDigits`).
-/

namespace Inlay

variable {d n : Nat} {c : Char}

/-- What holds of the digits of a base holds of the digits of every number. -/
theorem forall_mem_toDigits {P : Char → Prop} {b : Nat} (hb : 1 < b) (hP : ∀ d < b, P (Nat.digitChar d)) (n : Nat) :
    ∀ c ∈ Nat.toDigits b n, P c := by
  induction n using Nat.strongRecOn with
  | ind n ih =>
      intro c hc
      rw [Nat.toDigits_eq_if hb] at hc
      by_cases hn : n < b
      · rw [if_pos hn, List.mem_singleton] at hc
        exact hc ▸ hP n hn
      · rw [if_neg hn, List.mem_append, List.mem_singleton] at hc
        rcases hc with hc | rfl
        · exact ih (n / b) (Nat.div_lt_self (by omega) hb) c hc
        · exact hP _ (Nat.mod_lt n (by omega))

/-! ## Base ten -/

theorem isDigit_of_mem_toString (hc : c ∈ (toString n).toList) : c.isDigit = true := by
  rw [Nat.toString_eq_ofList_toDigits, String.toList_ofList] at hc
  exact Nat.isDigit_of_mem_toDigits (by decide) (by decide) hc

theorem toList_toString_ne_nil (n : Nat) : (toString n).toList ≠ [] := by
  rw [Nat.toString_eq_ofList_toDigits, String.toList_ofList]
  exact Nat.toDigits_ne_nil

/-- Different numbers are written differently. -/
theorem toList_toString_injective {m n : Nat} (h : (toString m).toList = (toString n).toList) : m = n := by
  have hdigits := congrArg (fun digits => Nat.ofDigitChars 10 digits 0) h
  simpa only [Nat.toString_eq_ofList_toDigits, String.toList_ofList, Nat.ofDigitChars_ten_toDigits] using hdigits

/-! ## Base sixteen -/

theorem hexValue?_digitChar (hd : d < 16) : hexValue? d.digitChar = some d := by
  have hall : ∀ d : Fin 16, hexValue? (Nat.digitChar d) = some d.val := by decide
  exact hall ⟨d, hd⟩

theorem isHexDigit_of_mem_hexDigits (hc : c ∈ hexDigits n) : isHexDigit c = true := by
  refine forall_mem_toDigits (P := fun c => isHexDigit c = true) (by decide) (fun d hd => ?_) n c hc
  rw [isHexDigit, hexValue?_digitChar hd]
  rfl

/-- What holds of the capital digits of base sixteen holds of a word that is written with them. -/
theorem forall_mem_hexWord {P : Char → Prop} (hP : ∀ d < 16, P (Nat.digitChar d).toUpper) (w : UInt32) :
    ∀ c ∈ (hexWord w).toList, P c := by
  unfold hexWord hexPadded hexDigits
  rw [String.toList_map, String.toList_ofList]
  intro c hc
  obtain ⟨d, hd, rfl⟩ := List.mem_map.mp hc
  rcases List.mem_append.mp hd with hd | hd
  · rw [List.eq_of_mem_replicate hd]
    exact hP 0 (by decide)
  · exact forall_mem_toDigits (P := fun d => P d.toUpper) (by decide) hP w.toNat d hd

/-- A further digit behind others. -/
theorem hexNumber_concat (digits : List Char) (hd : d < 16) :
    hexNumber (digits ++ [d.digitChar]) = 16 * hexNumber digits + d := by
  rw [hexNumber, List.foldl_append, List.foldl_cons, List.foldl_nil, hexValue?_digitChar hd]
  rfl

/-- **The digits of a number** are read as that number. -/
theorem hexNumber_hexDigits (n : Nat) : hexNumber (hexDigits n) = n := by
  induction n using Nat.strongRecOn with
  | ind n ih =>
      rw [hexDigits, Nat.toDigits_eq_if (by decide)]
      by_cases hn : n < 16
      · rw [if_pos hn, ← List.nil_append [n.digitChar], hexNumber_concat [] hn]
        exact Nat.zero_add n
      · rw [if_neg hn, hexNumber_concat _ (Nat.mod_lt n (by decide)), ← hexDigits, ih (n / 16) (by omega)]
        exact Nat.div_add_mod n 16

end Inlay
