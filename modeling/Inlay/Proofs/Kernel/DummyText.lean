import Inlay.Kernel.Dummy
import Inlay.Proofs.Text.Classes
import Inlay.Proofs.Text.Digits
import Inlay.Proofs.Kernel.Scanning

/-!
# `Proofs.Kernel.DummyText` — how a dummy is written

Apart from its name, a dummy is written in a small alphabet, whatever its numbers are: small letters, digits, the
capital letters of base sixteen, and some signs, but no quotes and no at sign (`isDummyChar`). The name stands as a
word of its own behind the first two words, and a brace ends the text (`Dummy.exists_text`). So a word with a
character outside of the alphabet is not one of its words, unless it is the name (`Dummy.not_mem_asciiWords_text`).
-/

namespace Inlay

variable {s t : String} {c : Char}

/-! ## The alphabet -/

/-- Whether dummies are written with a character, their names apart. -/
def isDummyChar (c : Char) : Bool :=
  c.isLower || c.isDigit || ['A', 'B', 'C', 'D', 'E', 'F', '_', ' ', '\n', '!', '%', '(', ')', '*', '+', ',', '-', ';',
    '<', '=', '[', ']', '^', '\x7b', '\x7d'].contains c

/-- **A text in the alphabet of dummies.** -/
def InAlphabet (s : String) : Prop :=
  s.toList.all isDummyChar = true

instance : DecidablePred InAlphabet :=
  fun s => inferInstanceAs (Decidable (s.toList.all isDummyChar = true))

theorem inAlphabet_iff : InAlphabet s ↔ ∀ c ∈ s.toList, isDummyChar c = true :=
  List.all_eq_true

/-- The alphabet opens no literal. -/
theorem isInert_of_isDummyChar (hc : isDummyChar c = true) : isInert c = true := by
  exact isInert_iff.mpr ⟨not_or.mpr ⟨ne_of_class hc rfl, ne_of_class hc rfl⟩, ne_of_class hc rfl⟩

theorem inAlphabet_append : InAlphabet (s ++ t) ↔ InAlphabet s ∧ InAlphabet t := by
  unfold InAlphabet
  rw [String.toList_append, List.all_append, Bool.and_eq_true]

/-- Texts are put into a line as they are. -/
theorem inAlphabet_toString : InAlphabet (toString s) ↔ InAlphabet s := Iff.rfl

theorem inAlphabet_intercalate {xs : List String} (hs : InAlphabet s) (hxs : ∀ x ∈ xs, InAlphabet x) :
    InAlphabet (s.intercalate xs) := by
  rw [inAlphabet_iff] at hs ⊢
  intro c hc
  rw [String.toList_intercalate] at hc
  rcases mem_intercalate hc with hc | ⟨u, hu, hc⟩
  · exact hs c hc
  · obtain ⟨x, hx, rfl⟩ := List.mem_map.mp hu
    exact inAlphabet_iff.mp (hxs x hx) c hc

theorem inAlphabet_number (n : Nat) : InAlphabet (toString n) := by
  rw [inAlphabet_iff, Nat.toString_eq_ofList_toDigits, String.toList_ofList]
  exact forall_mem_toDigits (by decide) (by decide) n

theorem inAlphabet_hexWord (w : UInt32) : InAlphabet (hexWord w) :=
  inAlphabet_iff.mpr (forall_mem_hexWord (by decide) w)

/-! ## The lines of a dummy -/

namespace Dummy

variable {d : Dummy} {word : List Char}

theorem inAlphabet_vector (k : Nat) : InAlphabet (vector k) := by
  simp only [vector, inAlphabet_append, inAlphabet_toString, inAlphabet_number]
  decide

theorem inAlphabet_scalar (k : Nat) : InAlphabet (scalar k) := by
  simp only [scalar, inAlphabet_append, inAlphabet_toString, inAlphabet_number]
  decide

theorem inAlphabet_param (k : Nat) : InAlphabet (param k) := by
  simp only [param, inAlphabet_append, inAlphabet_toString, inAlphabet_number]
  decide

theorem inAlphabet_loadLine (k : Nat) (w : UInt32) : InAlphabet (loadLine k w) := by
  simp only [loadLine, inAlphabet_append, inAlphabet_toString, inAlphabet_vector, inAlphabet_hexWord]
  decide

theorem inAlphabet_guardLine : InAlphabet s!"    if (gid != 0x{hexWord guardItem}u) return;" := by
  simp only [inAlphabet_append, inAlphabet_toString, inAlphabet_hexWord]
  decide

theorem inAlphabet_scalarLine (k : Nat) : InAlphabet (scalarLine k) := by
  simp only [scalarLine, inAlphabet_append, inAlphabet_toString, inAlphabet_scalar, inAlphabet_number]
  decide

theorem inAlphabet_vectorLine (k : Nat) : InAlphabet (vectorLine k) := by
  simp only [vectorLine, inAlphabet_append, inAlphabet_toString, inAlphabet_vector, inAlphabet_number]
  decide

theorem inAlphabet_productLine (d : Dummy) (j : Nat) : InAlphabet (d.productLine j) := by
  simp only [productLine, inAlphabet_append, inAlphabet_toString, inAlphabet_vector, inAlphabet_scalar]
  decide

/-- Names of values with something between them. -/
theorem inAlphabet_range (hs : InAlphabet s) {f : Nat → String} (hf : ∀ k, InAlphabet (f k)) (n : Nat) :
    InAlphabet (s.intercalate ((List.range n).map f)) := by
  refine inAlphabet_intercalate hs fun x hx => ?_
  obtain ⟨k, -, rfl⟩ := List.mem_map.mp hx
  exact hf k

theorem inAlphabet_writeLines (d : Dummy) : ∀ line ∈ d.writeLines, InAlphabet line := by
  intro line hline
  unfold writeLines at hline
  by_cases hparams : d.params = 0
  · rw [if_pos hparams] at hline
    cases hline
  · rw [if_neg hparams, List.mem_singleton] at hline
    have hvectors := inAlphabet_range (s := " + ") (by decide) inAlphabet_vector d.vectors
    have hscalars := inAlphabet_range (s := " ^ ") (by decide) inAlphabet_scalar d.scalars
    rw [hline]
    simp only [inAlphabet_append, inAlphabet_toString, inAlphabet_param, hvectors, hscalars]
    decide

/-- **Every line behind the signature** is in the alphabet, and the last one is a brace. -/
theorem exists_lines (d : Dummy) : ∃ others, d.lines = d.signature :: (others ++ ["\x7d"]) ∧ others ≠ [] ∧
    ∀ line ∈ others, InAlphabet line := by
  refine ⟨["\x7b", loadLine 0 d.literal, loadLine 1 (d.literal + 1), "    uint gid = get_global_id(0);",
    s!"    if (gid != 0x{hexWord guardItem}u) return;"] ++ (List.range d.scalars).map scalarLine ++
    (List.range' 2 (d.vectors - 2)).map vectorLine ++ ["    for (uint i = 0; i < s0 % 7u; i++) \x7b"] ++
    (List.range d.products).map d.productLine ++ ["    \x7d"] ++ d.writeLines, ?_, ?_, ?_⟩
  · simp only [lines, List.cons_append, List.append_assoc, List.nil_append]
  · simp only [List.cons_append]
    exact List.cons_ne_nil _ _
  · intro line hline
    simp only [List.mem_append, List.mem_cons, List.not_mem_nil, or_false, List.mem_map] at hline
    rcases hline with ((((((rfl | rfl | rfl | rfl | rfl) | ⟨k, -, rfl⟩) | ⟨k, -, rfl⟩) | rfl) | ⟨j, -, rfl⟩) | rfl) |
      hwrite
    · decide
    · exact inAlphabet_loadLine 0 _
    · exact inAlphabet_loadLine 1 _
    · decide
    · exact inAlphabet_guardLine
    · exact inAlphabet_scalarLine k
    · exact inAlphabet_vectorLine k
    · decide
    · exact inAlphabet_productLine d j
    · decide
    · exact inAlphabet_writeLines d line hwrite

/-! ## The text of a dummy -/

/-- **The text of a dummy**: two words, its name, and more in the alphabet up to a brace. -/
theorem exists_text (d : Dummy) : ∃ inside, d.text.toList =
    "__kernel void".toList ++ ' ' :: (d.name.toList ++ '(' :: (inside ++ ['}'])) ∧
      ∀ c ∈ inside, isDummyChar c = true := by
  obtain ⟨others, hlines, hne, hothers⟩ := d.exists_lines
  let params := String.intercalate ", " ((List.range d.params).map fun k => "__global float* " ++ param k)
  have hparams : InAlphabet params :=
    inAlphabet_range (by decide) (fun k => inAlphabet_append.mpr ⟨by decide, inAlphabet_param k⟩) d.params
  have hsignature : d.signature.toList =
      "__kernel void".toList ++ ' ' :: (d.name.toList ++ '(' :: (params.toList ++ [')'])) := by
    show ("__kernel void " ++ d.name ++ "(" ++ params ++ ")").toList = _
    simp only [String.toList_append, List.append_assoc]
    rfl
  have htext : d.text = d.signature ++ ("\n" ++ String.intercalate "\n" others ++ "\n") ++ "\x7d" := by
    rw [text, hlines, ← List.cons_append,
      String.intercalate_append_of_ne_nil (List.cons_ne_nil _ _) (List.cons_ne_nil _ _),
      String.intercalate_cons_of_ne_nil hne, String.intercalate_singleton]
    simp only [String.append_assoc]
  refine ⟨params.toList ++ ')' :: ("\n" ++ String.intercalate "\n" others ++ "\n").toList, ?_, ?_⟩
  · rw [htext, String.toList_append, String.toList_append, hsignature]
    simp only [List.append_assoc, List.cons_append, List.nil_append]
    rfl
  · have hinside : InAlphabet (params ++ ")" ++ ("\n" ++ String.intercalate "\n" others ++ "\n")) := by
      simp only [inAlphabet_append, hparams, inAlphabet_intercalate (s := "\n") (by decide) hothers]
      decide
    rw [inAlphabet_iff] at hinside
    intro c hc
    refine hinside c ?_
    rw [String.toList_append, String.toList_append, List.append_assoc]
    exact hc

/-- **What holds of that alphabet and of the parts of words** holds of every character of a dummy. -/
theorem forall_mem_text {P : Char → Prop} (hdummy : ∀ c, isDummyChar c = true → P c)
    (hword : ∀ c, isAsciiWord c = true → P c) (h : isIdentifier d.name.toList = true) : ∀ c ∈ d.text.toList, P c := by
  obtain ⟨inside, htext, hinside⟩ := d.exists_text
  intro c hc
  rw [htext] at hc
  simp only [List.mem_append, List.mem_cons, List.not_mem_nil, or_false] at hc
  rcases hc with hc | rfl | hc | rfl | hc | rfl
  · exact hdummy c (inAlphabet_iff.mp (by decide) c hc)
  · exact hdummy _ rfl
  · exact hword c (isAsciiWord_of_mem_identifier h hc)
  · exact hdummy _ rfl
  · exact hdummy c (hinside c hc)
  · exact hdummy _ rfl

/-- A dummy opens no literal. -/
theorem isInert_text (h : isIdentifier d.name.toList = true) : ∀ c ∈ d.text.toList, isInert c = true :=
  forall_mem_text (fun _ => isInert_of_isDummyChar) (fun _ => isInert_of_isAsciiWord) h

/-- **A word with a character that dummies are not written with** is none of the words of one, unless it is the
    name. -/
theorem not_mem_asciiWords_text (h : isIdentifier d.name.toList = true) (hne : word ≠ d.name.toList)
    (hword : ∃ c ∈ word, isDummyChar c = false) : word ∉ asciiWords d.text.toList := by
  obtain ⟨inside, htext, hinside⟩ := d.exists_text
  obtain ⟨c, hc, hforeign⟩ := hword
  have hfree : ∀ s : List Char, (∀ c ∈ s, isDummyChar c = true) → word ∉ asciiWords s := by
    intro s hs hmem
    have hcs := hs c (mem_of_mem_wordsBy hmem hc)
    rw [hforeign] at hcs
    cases hcs
  have hends : ∀ c ∈ inside ++ ['}'], isDummyChar c = true := by
    intro c hc
    rcases List.mem_append.mp hc with hc | hc
    · exact hinside c hc
    · rw [List.mem_singleton.mp hc]
      rfl
  have hone : asciiWords d.name.toList = [d.name.toList] := by
    refine wordsBy_run (ne_nil_of_isIdentifier h) fun c hc => ?_
    rw [isAsciiWord_of_mem_identifier h hc]
    rfl
  intro hmem
  unfold asciiWords at hmem
  rw [htext, wordsBy_append_cons rfl, wordsBy_append_cons rfl, List.mem_append, List.mem_append] at hmem
  rcases hmem with hmem | hmem | hmem
  · exact hfree _ (inAlphabet_iff.mp (by decide)) hmem
  · change word ∈ asciiWords d.name.toList at hmem
    rw [hone] at hmem
    exact hne (List.mem_singleton.mp hmem)
  · exact hfree _ hends hmem

end Dummy

end Inlay
