import Inlay.Proofs.Kernel.Parameters
import Inlay.Proofs.Text.Lines

/-!
# `Proofs.Kernel.ParameterFaults` — what is wrong with a parameter

What a piece of a list declares is said without the reader that splits it (`Param.Declares`). Pieces that declare
nothing are those of which the last separator takes more than one byte (`Param.Indivisible`). A parameter has a fault
if it is blank, if it declares a type that is none or if it declares nothing, and where the fault is reported depends
only on what stands in front of it (`Param.Fault`). A list is read piece by piece, and the first fault is the result
(`Param.readList_eq_error`).
-/

namespace Inlay

namespace Param

variable {width : PointerWidth} {function : String} {p : Position} {index : Nat} {c : Char} {e : Error}
  {piece before u v list : List Char} {type : String} {given : Option String}

/-! ## What a parameter declares -/

/-- **What a piece declares**: a type with single spaces between its words, and perhaps a name. The word behind the last
    separator is the name if it is an identifier behind a type and no word of a type. -/
inductive Declares : List Char → String → Option String → Prop where
  | named {type name : List Char} (apart : ∃ c ∈ type.getLast?, isSeparator c = true ∧ c.toNat < 128)
      (behind : trim type ≠ []) (identifier : isIdentifier name = true)
      (other : RegisterType.isTypeWord (String.ofList name) = false) :
      Declares (type ++ name) (joinWords type) (some (String.ofList name))
  | unnamed {front word : List Char} (apart : ∀ c ∈ front.getLast?, isSeparator c = true ∧ c.toNat < 128)
      (one : ∀ c ∈ word, isSeparator c = false)
      (other : trim front = [] ∨ isIdentifier word = false ∨ RegisterType.isTypeWord (String.ofList word) = true) :
      Declares (front ++ word) (joinWords (front ++ word)) none

/-- **A piece that is not divided**: its last separator is a blank that takes more than one byte. -/
def Indivisible (piece : List Char) : Prop :=
  ∃ front word, piece = front ++ word ∧ (∃ c ∈ front.getLast?, isSeparator c = true ∧ 128 ≤ c.toNat) ∧
    ∀ c ∈ word, isSeparator c = false

/-- A text ends with a run without separators. -/
theorem exists_lastWord (piece : List Char) :
    ∃ front word, piece = front ++ word ∧ (∀ c ∈ front.getLast?, isSeparator c = true) ∧
      ∀ c ∈ word, isSeparator c = false := by
  obtain ⟨u, v, huv, hu, hv⟩ := exists_run (fun c => !isSeparator c) piece.reverse
  refine ⟨v.reverse, u.reverse, ?_, ?_, ?_⟩
  · rw [← List.reverse_append, ← huv, List.reverse_reverse]
  · intro c hc
    rw [List.getLast?_reverse] at hc
    simpa using hv c hc
  · intro c hc
    simpa using hu c (List.mem_reverse.mp hc)

/-- **A piece declares something or is not divided.** -/
theorem declares_or_indivisible (piece : List Char) :
    (∃ type given, Declares piece type given) ∨ Indivisible piece := by
  obtain ⟨front, word, rfl, hlast, hword⟩ := exists_lastWord piece
  by_cases hwide : ∃ c ∈ front.getLast?, 128 ≤ c.toNat
  · obtain ⟨c, hc, hwide⟩ := hwide
    exact Or.inr ⟨front, word, rfl, ⟨c, hc, hlast c hc, hwide⟩, hword⟩
  have hapart : ∀ c ∈ front.getLast?, isSeparator c = true ∧ c.toNat < 128 := by
    intro c hc
    refine ⟨hlast c hc, ?_⟩
    by_contra hge
    exact hwide ⟨c, hc, Nat.le_of_not_lt hge⟩
  apply Or.inl
  by_cases hother : trim front = [] ∨ isIdentifier word = false ∨ RegisterType.isTypeWord (String.ofList word) = true
  · exact ⟨_, _, .unnamed hapart hword hother⟩
  · rw [not_or, not_or, Bool.not_eq_false, Bool.not_eq_true] at hother
    obtain ⟨hfront, hname, hplain⟩ := hother
    obtain ⟨c, hc⟩ : ∃ c, front.getLast? = some c := by
      cases h : front.getLast? with
      | none =>
          obtain rfl := List.getLast?_eq_none_iff.mp h
          exact absurd rfl hfront
      | some c => exact ⟨c, rfl⟩
    exact ⟨_, _, .named ⟨c, hc, hapart c hc⟩ hfront hname hplain⟩

/-- What is declared is what is split. -/
theorem Declares.split (h : Declares piece type given) : Param.split piece = .ok (type, given) := by
  cases h with
  | named apart behind identifier other => exact split_name apart behind identifier other
  | unnamed apart one other => exact split_none apart one other

theorem Indivisible.split (h : Indivisible piece) : Param.split piece = .error .indivisibleParameter := by
  obtain ⟨front, word, rfl, ⟨c, hlast, hc, hwide⟩, hword⟩ := h
  have hcut := cutLast?_append ⟨c, hlast, hc⟩ hword
  have hbytes : c.utf8Size ≠ 1 := by
    intro hone
    have hle := UInt32.le_iff_toNat_le.mp (Char.utf8Size_eq_one_iff.mp hone)
    have hlt : c.toNat ≤ 127 := hle
    omega
  have hany : (front.getLast?.any fun c => decide (c.utf8Size ≠ 1)) = true := by
    rw [Option.mem_def.mp hlast, Option.any_some, decide_eq_true hbytes]
  simp only [Param.split, hcut, hany, if_true]

/-- **Splitting a piece** finds what it declares. -/
theorem split_eq_ok : Param.split piece = .ok (type, given) ↔ Declares piece type given := by
  refine ⟨fun h => ?_, Declares.split⟩
  rcases declares_or_indivisible piece with ⟨type', given', hdeclares⟩ | hindivisible
  · have heq := hdeclares.split
    rw [h] at heq
    cases heq
    exact hdeclares
  · rw [hindivisible.split] at h
    cases h

/-- Splitting fails for no other reason. -/
theorem split_eq_error : Param.split piece = .error e ↔ e = .indivisibleParameter ∧ Indivisible piece := by
  constructor
  · intro h
    rcases declares_or_indivisible piece with ⟨type, given, hdeclares⟩ | hindivisible
    · rw [hdeclares.split] at h
      cases h
    · rw [hindivisible.split] at h
      cases h
      exact ⟨rfl, hindivisible⟩
  · rintro ⟨rfl, h⟩
    exact h.split

/-! ## The fault of a parameter -/

/-- **The fault of a parameter** with `before` in front of it in the source, and the error that reports it. -/
inductive Fault (width : PointerWidth) (function : String) (index : Nat) (before piece : List Char) : Error → Prop where
  /-- There are only blanks. The line is that of the character that ends the parameter. -/
  | empty (blank : ∀ c ∈ piece, isBlank c = true) : Fault width function index before piece
      (.malformedBlock (newlines (before ++ piece) + 1) s!"empty parameter {index} in function {function}")
  /-- The type is none. The line is that of the first character that is not blank. -/
  | unknownType {blanks rest : List Char} {c : Char} {type : String} {given : Option String}
      (text : piece = blanks ++ c :: rest) (blank : ∀ c ∈ blanks, isBlank c = true) (first : isBlank c = false)
      (declares : Declares (trim piece) type given) (unknown : RegisterType.ofDeclared? width type = none) :
      Fault width function index before piece (.unknownParameterType function type (newlines (before ++ blanks) + 1))
  /-- Nothing is declared. -/
  | indivisible (indivisible : Indivisible (trim piece)) : Fault width function index before piece .indivisibleParameter

/-- The line behind blanks is the line of what they stand in front of. -/
theorem line_behind_blanks (hline : p.line = newlines before + 1) (hu : ∀ c ∈ u, isBlank c = true)
    (hv : ∀ c ∈ v.head?, isBlank c = false) :
    (p.advance ((u ++ v).takeWhile isBlank)).line = newlines (before ++ u) + 1 := by
  rw [takeWhile_run hu hv]
  exact line_advance hline u

/-- A blank parameter is empty. -/
theorem read_of_blank (hline : p.line = newlines before + 1) (hblank : ∀ c ∈ piece, isBlank c = true) :
    read width function p index piece =
      .error (.malformedBlock (newlines (before ++ piece) + 1) s!"empty parameter {index} in function {function}") := by
  have hplace := line_behind_blanks (v := []) hline hblank (fun c hc => nomatch hc)
  rw [List.append_nil] at hplace
  unfold read
  rw [hplace, trim_eq_nil_iff.mpr hblank]
  rfl

/-- A parameter that is not blank is split, and then its type is looked up. -/
theorem read_of_first (hline : p.line = newlines before + 1) (hu : ∀ c ∈ u, isBlank c = true)
    (hc : isBlank c = false) : read width function p index (u ++ c :: v) = (do
      let (type, given) ← Param.split (trim (u ++ c :: v))
      match RegisterType.ofDeclared? width type with
      | some registerType => .ok ⟨index, type, registerType, given⟩
      | none => .error (.unknownParameterType function type (newlines (before ++ u) + 1))) := by
  have hplace := line_behind_blanks (v := c :: v) hline hu fun d hd => Option.some.inj hd ▸ hc
  have hempty : (trim (u ++ c :: v)).isEmpty = false := by
    rw [List.isEmpty_eq_false_iff]
    intro hnil
    have hblank := trim_eq_nil_iff.mp hnil c (List.mem_append_right u List.mem_cons_self)
    rw [hc] at hblank
    cases hblank
  unfold read
  rw [hplace, hempty]
  rfl

/-- The text in front of the first character that is not blank. -/
theorem blanks_unique {u' v' : List Char} {c' : Char} (hu : ∀ c ∈ u, isBlank c = true) (hc : isBlank c = false)
    (hu' : ∀ c ∈ u', isBlank c = true) (hc' : isBlank c' = false) (heq : u ++ c :: v = u' ++ c' :: v') : u = u' := by
  have htake := takeWhile_run (v := c :: v) hu fun d hd => Option.some.inj hd ▸ hc
  have htake' := takeWhile_run (v := c' :: v') hu' fun d hd => Option.some.inj hd ▸ hc'
  rw [heq, htake'] at htake
  exact htake.symm

/-- **A parameter cannot be read** exactly if it has a fault. -/
theorem read_eq_error (hline : p.line = newlines before + 1) :
    read width function p index piece = .error e ↔ Fault width function index before piece e := by
  obtain ⟨blanks, rest, rfl, hblank, hstop⟩ := exists_run isBlank piece
  cases rest with
  | nil =>
      rw [List.append_nil, read_of_blank hline hblank]
      constructor
      · intro h
        cases h
        exact .empty hblank
      · intro h
        cases h with
        | empty => rfl
        | @unknownType _ _ c _ _ text _ first =>
            rw [hblank c (text ▸ List.mem_append_right _ List.mem_cons_self)] at first
            cases first
        | indivisible indivisible =>
            obtain ⟨front, word, htrim, ⟨c, hc, -⟩, -⟩ := indivisible
            rw [trim_eq_nil_iff.mpr hblank] at htrim
            rw [(List.append_eq_nil_iff.mp htrim.symm).1] at hc
            cases hc
  | cons c rest =>
      have hc : isBlank c = false := hstop c rfl
      rw [read_of_first hline hblank hc, bind_eq_error, split_eq_error]
      constructor
      · rintro (⟨rfl, hindivisible⟩ | ⟨⟨type, given⟩, hsplit, h⟩)
        · exact .indivisible hindivisible
        · cases htype : RegisterType.ofDeclared? width type with
          | some registerType =>
              simp only [htype] at h
              cases h
          | none =>
              simp only [htype] at h
              cases h
              exact .unknownType rfl hblank hc (split_eq_ok.mp hsplit) htype
      · intro h
        cases h with
        | empty blank =>
            rw [blank c (List.mem_append_right blanks List.mem_cons_self)] at hc
            cases hc
        | @unknownType blanks' rest' c' type given text blank first declares unknown =>
            obtain rfl := blanks_unique hblank hc blank first text
            refine Or.inr ⟨(type, given), declares.split, ?_⟩
            simp only [unknown]
        | indivisible indivisible => exact Or.inl ⟨rfl, indivisible⟩

/-! ## The first fault of a list -/

/-- **The first fault of parameters** from number `index` on, with `before` in front of them: none of the parameters in
    front of it has one. A comma ends each parameter but the last. -/
inductive FirstFault (width : PointerWidth) (function : String) :
    Nat → List Char → List (List Char) → Error → Prop where
  | here {index : Nat} {before piece : List Char} {others : List (List Char)} {e : Error}
      (fault : Fault width function index before piece e) : FirstFault width function index before (piece :: others) e
  | later {index : Nat} {before piece : List Char} {others : List (List Char)} {e : Error}
      (sound : ∀ e, ¬ Fault width function index before piece e)
      (behind : FirstFault width function (index + 1) (before ++ (piece ++ [','])) others e) :
      FirstFault width function index before (piece :: others) e

/-- **Reading parameters in order** fails exactly with the first fault. -/
theorem readAll_eq_error {pieces : List (List Char)} (hline : p.line = newlines before + 1) :
    readAll width function p index pieces = .error e ↔ FirstFault width function index before pieces e := by
  induction pieces generalizing p index before with
  | nil =>
      constructor
      · intro h
        cases h
      · intro h
        cases h
  | cons piece others ih =>
      have hothers := line_advance hline (piece ++ [','])
      rw [readAll, bind_eq_error, read_eq_error hline]
      constructor
      · rintro (hfault | ⟨param, hread, h⟩)
        · exact .here hfault
        · refine .later (fun e' hfault => ?_) ((ih hothers).mp ?_)
          · rw [(read_eq_error hline).mpr hfault] at hread
            cases hread
          · rcases bind_eq_error.mp h with h | ⟨params, -, h⟩
            · exact h
            · cases h
      · intro h
        cases h with
        | here fault => exact Or.inl fault
        | later sound behind =>
            cases hread : read width function p index piece with
            | error e' => exact absurd ((read_eq_error hline).mp hread) (sound e')
            | ok param =>
                refine Or.inr ⟨param, rfl, ?_⟩
                rw [(ih hothers).mpr behind]
                rfl

/-- **Reading a list** fails exactly with the first fault of its parameters, if it has any. -/
theorem readList_eq_error (hline : p.line = newlines before + 1) :
    readList width function p list = .error e ↔ trim list ≠ [] ∧ trim list ≠ "void".toList ∧
      FirstFault width function 0 before (pieces (· == ',') list) e := by
  have hbare : (String.ofList (trim list) == "" || String.ofList (trim list) == "void") = true ↔
      trim list = [] ∨ trim list = "void".toList := by
    rw [Bool.or_eq_true, beq_iff_eq, beq_iff_eq, ← String.toList_inj, ← String.toList_inj, String.toList_ofList]
    rfl
  unfold readList
  dsimp only
  by_cases hlist : trim list = [] ∨ trim list = "void".toList
  · rw [if_pos (hbare.mpr hlist)]
    constructor
    · intro h
      cases h
    · rintro ⟨hblank, hvoid, -⟩
      exact absurd hlist (not_or.mpr ⟨hblank, hvoid⟩)
  · rw [if_neg (mt hbare.mp hlist), readAll_eq_error hline]
    obtain ⟨hblank, hvoid⟩ := not_or.mp hlist
    exact ⟨fun h => ⟨hblank, hvoid, h⟩, fun h => h.2.2⟩

end Param

end Inlay
