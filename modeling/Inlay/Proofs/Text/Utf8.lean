import Mathlib.Data.List.Infix
import Inlay.Text.Hex
import Inlay.Proofs.Text.Classes
import Inlay.Proofs.Text.FirstStop

/-!
# `Proofs.Text.Utf8` — the bytes of a text

A text is stored as its bytes in UTF-8 (`utf8`). An ASCII character is one byte, and that byte is part of no other
character (`ne_of_mem_utf8EncodeChar`). So where an ASCII text stands in the bytes of a text, it stands in the text
itself (`infix_of_utf8`), and reading up to it in bytes is reading up to it in characters (`Through.utf8`).
-/

namespace Inlay

variable {c d : Char} {s t w : List Char} {b : UInt8} {u v : Bytes}

/-- Whether a character is one of the first 128. -/
def IsAscii (c : Char) : Prop :=
  c.toNat < 128

instance : DecidablePred IsAscii :=
  fun c => inferInstanceAs (Decidable (c.toNat < 128))

/-- **The bytes of a text**, as a string stores them. -/
def utf8 (s : List Char) : Bytes :=
  s.flatMap String.utf8EncodeChar

example (s : List Char) : (String.ofList s).toByteArray = (utf8 s).toByteArray := rfl

@[simp] theorem utf8_nil : utf8 [] = [] := rfl

@[simp] theorem utf8_cons (c : Char) (s : List Char) : utf8 (c :: s) = String.utf8EncodeChar c ++ utf8 s := rfl

@[simp] theorem utf8_append (s t : List Char) : utf8 (s ++ t) = utf8 s ++ utf8 t :=
  List.flatMap_append

/-! ## The bytes of a character -/

theorem utf8EncodeChar_of_isAscii (hc : IsAscii c) : String.utf8EncodeChar c = [c.toUInt8] :=
  String.utf8EncodeChar_eq_singleton (utf8Size_eq_one hc)

theorem utf8_cons_of_isAscii (hc : IsAscii c) (s : List Char) : utf8 (c :: s) = c.toUInt8 :: utf8 s := by
  rw [utf8_cons, utf8EncodeChar_of_isAscii hc, List.singleton_append]

theorem toNat_toUInt8 (hc : IsAscii c) : c.toUInt8.toNat = c.toNat :=
  Nat.mod_eq_of_lt (Nat.lt_trans hc (by decide))

/-- Other characters have no byte of an ASCII character. -/
theorem le_of_mem_utf8EncodeChar (hc : ¬IsAscii c) (hb : b ∈ String.utf8EncodeChar c) : 128 ≤ b.toNat := by
  have hwide : ¬c.val.toNat ≤ 127 := fun hle => hc (Nat.lt_succ_of_le hle)
  unfold String.utf8EncodeChar at hb
  dsimp only at hb
  rw [if_neg hwide] at hb
  have hbyte : ∃ n, 128 ≤ n ∧ n < UInt8.size ∧ b = UInt8.ofNat n := by
    split at hb
    · simp only [List.mem_cons, List.not_mem_nil, or_false] at hb
      rcases hb with rfl | rfl <;> exact ⟨_, by omega, by rw [UInt8.size]; omega, rfl⟩
    · split at hb
      · simp only [List.mem_cons, List.not_mem_nil, or_false] at hb
        rcases hb with rfl | rfl | rfl <;> exact ⟨_, by omega, by rw [UInt8.size]; omega, rfl⟩
      · simp only [List.mem_cons, List.not_mem_nil, or_false] at hb
        rcases hb with rfl | rfl | rfl | rfl <;> exact ⟨_, by omega, by rw [UInt8.size]; omega, rfl⟩
  obtain ⟨n, hn, hlt, rfl⟩ := hbyte
  rwa [UInt8.toNat_ofNat_of_lt' hlt]

theorem ne_toUInt8_of_le (hd : IsAscii d) (hb : 128 ≤ b.toNat) : b ≠ d.toUInt8 := by
  rintro rfl
  rw [toNat_toUInt8 hd] at hb
  exact absurd hd (Nat.not_lt.mpr hb)

/-- **The byte of an ASCII character** is part of no other character. -/
theorem ne_of_mem_utf8EncodeChar (hd : IsAscii d) (hne : c ≠ d) (hb : b ∈ String.utf8EncodeChar c) :
    b ≠ d.toUInt8 := by
  by_cases hc : IsAscii c
  · rintro rfl
    rw [utf8EncodeChar_of_isAscii hc, List.mem_singleton] at hb
    have heq : c.toNat = d.toNat := by rw [← toNat_toUInt8 hc, ← toNat_toUInt8 hd, hb]
    exact hne (Char.toNat_inj.mp heq)
  · exact ne_toUInt8_of_le hd (le_of_mem_utf8EncodeChar hc hb)

/-- A character has a first byte, and the others are no ASCII characters. -/
theorem exists_utf8EncodeChar (c : Char) :
    ∃ b bs, String.utf8EncodeChar c = b :: bs ∧ ∀ x ∈ bs, 128 ≤ x.toNat := by
  obtain ⟨b, bs, hbytes⟩ := List.exists_cons_of_ne_nil (String.utf8EncodeChar_ne_nil (c := c))
  refine ⟨b, bs, hbytes, fun x hx => ?_⟩
  by_cases hc : IsAscii c
  · rw [utf8EncodeChar_of_isAscii hc] at hbytes
    cases hbytes
    cases hx
  · exact le_of_mem_utf8EncodeChar hc (hbytes ▸ List.mem_cons_of_mem b hx)

/-- **One character** stands at the start of a text. -/
theorem utf8EncodeChar_append_inj (h : String.utf8EncodeChar c ++ u = String.utf8EncodeChar d ++ v) :
    c = d ∧ u = v := by
  have hdecode : ∀ (c : Char) (u : Bytes),
      (String.utf8EncodeChar c ++ u).toByteArray.utf8DecodeChar? 0 = some c := by
    intro c u
    rw [List.toByteArray_append]
    exact ByteArray.utf8DecodeChar?_utf8EncodeChar_append
  have hcd := hdecode c u
  rw [h, hdecode d v] at hcd
  cases hcd
  exact ⟨rfl, List.append_cancel_left h⟩

/-- An ASCII character at the start of the bytes of a text. -/
theorem of_utf8_eq_cons (hd : IsAscii d) (h : utf8 s = d.toUInt8 :: v) : ∃ t, s = d :: t ∧ v = utf8 t := by
  cases s with
  | nil => cases h
  | cons c s =>
      rw [utf8_cons, ← List.singleton_append, ← utf8EncodeChar_of_isAscii hd] at h
      obtain ⟨rfl, rfl⟩ := utf8EncodeChar_append_inj h
      exact ⟨s, rfl, rfl⟩

theorem of_utf8_eq_cons_cons (hc : IsAscii c) (hd : IsAscii d) (h : utf8 s = c.toUInt8 :: d.toUInt8 :: v) :
    ∃ t, s = c :: d :: t ∧ v = utf8 t := by
  obtain ⟨s, rfl, hs⟩ := of_utf8_eq_cons hc h
  obtain ⟨t, rfl, ht⟩ := of_utf8_eq_cons hd hs.symm
  exact ⟨t, rfl, ht⟩

theorem head?_utf8 (hd : IsAscii d) : (utf8 s).head? = some d.toUInt8 ↔ s.head? = some d := by
  constructor
  · intro h
    obtain ⟨v, hv⟩ := List.head?_eq_some_iff.mp h
    obtain ⟨t, rfl, -⟩ := of_utf8_eq_cons hd hv
    rfl
  · intro h
    obtain ⟨t, rfl⟩ := List.head?_eq_some_iff.mp h
    rw [utf8_cons_of_isAscii hd]
    rfl

/-! ## ASCII texts in a text -/

/-- An ASCII text in front. -/
theorem prefix_of_utf8 (hw : ∀ c ∈ w, IsAscii c) (h : utf8 w <+: utf8 s) : w <+: s := by
  induction w generalizing s with
  | nil => exact List.nil_prefix
  | cons d w ih =>
      rw [List.forall_mem_cons] at hw
      obtain ⟨v, hv⟩ := h
      rw [utf8_cons_of_isAscii hw.1] at hv
      obtain ⟨t, rfl, ht⟩ := of_utf8_eq_cons hw.1 hv.symm
      exact List.cons_prefix_cons.mpr ⟨rfl, ih hw.2 ⟨v, ht⟩⟩

/-- **An ASCII text in the bytes of a text** stands in the text. -/
theorem infix_of_utf8 (hw : ∀ c ∈ w, IsAscii c) (hne : w ≠ []) (h : utf8 w <:+: utf8 s) : w <:+: s := by
  obtain ⟨d, w, rfl⟩ := List.exists_cons_of_ne_nil hne
  have hd := hw d List.mem_cons_self
  induction s with
  | nil =>
      rw [utf8_cons_of_isAscii hd] at h
      cases List.infix_nil.mp h
  | cons c s ih =>
      by_cases hc : c = d
      · subst hc
        rw [utf8_cons_of_isAscii hd s, List.infix_cons_iff, ← utf8_cons_of_isAscii hd] at h
        rcases h with h | h
        · exact (prefix_of_utf8 hw h).isInfix
        · exact (ih h).trans (List.infix_cons_iff.mpr (.inr (List.infix_refl s)))
      · rw [utf8_cons_of_isAscii hd] at h ih
        have hrest := infix_of_append (fun hmem => ne_of_mem_utf8EncodeChar hd hc hmem rfl) h
        exact (ih hrest).trans (List.infix_cons_iff.mpr (.inr (List.infix_refl s)))

/-- **Reading up to an ASCII text** is the same in bytes as in characters. -/
theorem Through.utf8 {stop : List Char} (hstop : ∀ c ∈ stop, IsAscii c) (hne : stop ≠ []) (h : Through stop s t) :
    Through (Inlay.utf8 stop) (Inlay.utf8 s) (Inlay.utf8 t) := by
  cases h with
  | @first s _ absent =>
      rw [utf8_append]
      refine .first fun h => absent (infix_of_utf8 hstop hne ?_)
      obtain ⟨front, last, rfl⟩ := List.eq_nil_or_concat' stop |>.resolve_left hne
      have hlast : IsAscii last := hstop last (List.mem_append_right _ List.mem_cons_self)
      have hdrop : (Inlay.utf8 (front ++ [last])).dropLast = Inlay.utf8 front := by
        rw [utf8_append, utf8_cons_of_isAscii hlast, utf8_nil, List.dropLast_concat]
      rw [List.dropLast_concat]
      rwa [hdrop, ← utf8_append] at h
  | rest absent => exact .rest fun h => absent (infix_of_utf8 hstop hne h)

end Inlay
