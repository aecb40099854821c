import Inlay.Proofs.Kernel.Written
import Inlay.Kernel.Parameter
import Mathlib.Data.List.Forall2
import Inlay.Proofs.Fallible

/-!
# `Proofs.Kernel.Parameters` — reading what a parameter was declared with

A parameter is written as a type and perhaps a name, with blanks around (`ParamForm`). It can be read if the name can
be told from the type (`ParamForm.Ends`): a name is an identifier that is no type word, and without a name the last
word of the type must not look like one. Then what is read is the type with single spaces between its words, the
register type that it has as it stands, and the name (`ParamForm.read_chars`).

Spacing does not change a type: its words alone say what it is, together with the stars between them
(`RegisterType.ofDeclared?_joinWords`). A whole list is read piece by piece, wherever it stands in the source.
-/

namespace Inlay

variable {s t u v : List Char} {c : Char} {width : PointerWidth} {function : String} {p : Position} {index : Nat}

/-! ## The words of a type -/

theorem Param.isSeparator_of_isBlank (h : isBlank c = true) : Param.isSeparator c = true := by
  rw [Param.isSeparator, h, Bool.true_or]

theorem toList_joinWords (s : List Char) : (Param.joinWords s).toList = [' '].intercalate (words s) := by
  have hmap : ((words s).map String.ofList).map String.toList = words s := by
    rw [List.map_map]
    exact (List.map_congr_left fun w _ => String.toList_ofList).trans (List.map_id _)
  rw [Param.joinWords, String.toList_intercalate, hmap]
  rfl

/-- **Joining the words of a text keeps them.** -/
theorem words_joinWords (s : List Char) : words (Param.joinWords s).toList = words s := by
  rw [toList_joinWords, words_eq_wordsBy, wordsBy_intercalate rfl, words_eq_wordsBy]
  exact (wordsBy_eq_flatMap (fun c hc => hc) s).symm

theorem joinWords_eq (h : words s = words t) : Param.joinWords s = Param.joinWords t := by
  rw [Param.joinWords, h, Param.joinWords]

namespace RegisterType

/-- With its stars taken for spaces, a text has the words between blanks and stars. -/
theorem words_map_star (s : List Char) :
    words (s.map fun c => if c = '*' then ' ' else c) = wordsBy Param.isSeparator s := by
  rw [words_eq_wordsBy]
  refine wordsBy_map (fun c => ?_) (fun c hc => if_neg ?_) s
  · by_cases hc : c = '*'
    · rw [if_pos hc, hc]
      rfl
    · rw [if_neg hc, Param.isSeparator, beq_eq_false_iff_ne.mpr hc, Bool.or_false]
  · rintro rfl
    cases hc

/-- **A type is its words**: how they are spaced does not matter. -/
theorem ofDeclared?_congr (h : words s = words t) :
    ofDeclared? width (String.ofList s) = ofDeclared? width (String.ofList t) := by
  have hstar : s.contains '*' = t.contains '*' := by
    rw [Bool.eq_iff_iff, List.contains_iff_mem, List.contains_iff_mem]
    exact mem_of_flatten_wordsBy rfl h
  have hseparated : wordsBy Param.isSeparator s = wordsBy Param.isSeparator t := by
    rw [wordsBy_eq_flatMap (fun c => Param.isSeparator_of_isBlank) s,
      wordsBy_eq_flatMap (fun c => Param.isSeparator_of_isBlank) t, ← words_eq_wordsBy, ← words_eq_wordsBy, h]
  simp only [ofDeclared?, String.toList_ofList, hstar, plainWords, words_map_star, hseparated, h]

theorem ofDeclared?_joinWords (s : List Char) :
    ofDeclared? width (Param.joinWords s) = ofDeclared? width (String.ofList s) := by
  rw [← ofDeclared?_congr (words_joinWords s), String.ofList_toList]

end RegisterType

/-! ## Telling the name from the type -/

namespace Param

/-- A text is cut behind its last separator. -/
theorem cutLast?_append (hu : ∃ c ∈ u.getLast?, isSeparator c = true) (hv : ∀ c ∈ v, isSeparator c = false) :
    cutLast? (u ++ v) = some (u, v) := by
  obtain ⟨c, hlast, hc⟩ := hu
  obtain ⟨w, rfl⟩ := List.getLast?_eq_some_iff.mp hlast
  have hrun : ∀ c ∈ v.reverse, (!isSeparator c) = true := by
    intro d hd
    rw [hv d (List.mem_reverse.mp hd)]
    rfl
  have hstop : ∀ d ∈ (c :: w.reverse).head?, (!isSeparator d) = false := by
    intro d hd
    obtain rfl : c = d := Option.some.inj hd
    rw [hc]
    rfl
  have hreverse : (w ++ [c] ++ v).reverse = v.reverse ++ c :: w.reverse := by simp
  unfold cutLast?
  rw [hreverse, dropWhile_run hrun hstop, takeWhile_run hrun hstop]
  simp

/-- A text without separators is not cut. -/
theorem cutLast?_eq_none (hv : ∀ c ∈ v, isSeparator c = false) : cutLast? v = none := by
  have hrun : ∀ c ∈ v.reverse, (!isSeparator c) = true := by
    intro d hd
    rw [hv d (List.mem_reverse.mp hd)]
    rfl
  have hdrop := dropWhile_run (v := []) hrun (fun c hc => nomatch hc)
  rw [List.append_nil] at hdrop
  unfold cutLast?
  rw [hdrop]

theorem not_isSeparator_of_isAsciiWord (h : isAsciiWord c = true) : isSeparator c = false := by
  have hstar : c ≠ '*' := ne_of_class h rfl
  rw [isSeparator, not_isBlank_of_isAsciiWord h, beq_eq_false_iff_ne.mpr hstar]
  rfl

/-- **A name is split off** if it is an identifier behind a separator and no type word. -/
theorem split_name (hu : ∃ c ∈ u.getLast?, isSeparator c = true ∧ c.toNat < 128) (hne : trim u ≠ [])
    (hv : isIdentifier v = true) (hword : RegisterType.isTypeWord (String.ofList v) = false) :
    split (u ++ v) = .ok (joinWords u, some (String.ofList v)) := by
  obtain ⟨c, hlast, hc, hascii⟩ := hu
  have hcut := cutLast?_append ⟨c, hlast, hc⟩ fun d hd =>
    not_isSeparator_of_isAsciiWord (isAsciiWord_of_mem_identifier hv hd)
  have hbyte : (u.getLast?.any fun c => decide (c.utf8Size ≠ 1)) = false := by
    rw [Option.mem_def.mp hlast, Option.any_some, utf8Size_eq_one hascii]
    rfl
  have hempty : (trim u).isEmpty = false := List.isEmpty_eq_false_iff.mpr hne
  simp only [split, hcut, hbyte, hempty, hv, hword, Bool.false_eq_true, if_false]
  rfl

/-- **Nothing is split off** if what stands behind the last separator cannot be a name. -/
theorem split_none (hu : ∀ c ∈ u.getLast?, isSeparator c = true ∧ c.toNat < 128) (hv : ∀ c ∈ v, isSeparator c = false)
    (hother : trim u = [] ∨ isIdentifier v = false ∨ RegisterType.isTypeWord (String.ofList v) = true) :
    split (u ++ v) = .ok (joinWords (u ++ v), none) := by
  cases hlast : u.getLast? with
  | none =>
      obtain rfl := List.getLast?_eq_none_iff.mp hlast
      rw [List.nil_append, split, cutLast?_eq_none hv]
  | some c =>
      obtain ⟨hc, hascii⟩ := hu c hlast
      have hcut := cutLast?_append ⟨c, hlast, hc⟩ hv
      have hbyte : (u.getLast?.any fun c => decide (c.utf8Size ≠ 1)) = false := by
        rw [hlast, Option.any_some, utf8Size_eq_one hascii]
        rfl
      have hno : (!(trim u).isEmpty && isIdentifier v && !RegisterType.isTypeWord (String.ofList v)) = false := by
        rcases hother with hblank | hv | hword
        · rw [hblank]
          rfl
        · rw [hv, Bool.and_false, Bool.false_and]
        · rw [hword, Bool.not_true, Bool.and_false]
      simp only [split, hcut, hbyte, hno, Bool.false_eq_true, if_false]

/-! ## Reading one parameter -/

/-- **A parameter is read** if its type is one. Where it stands does not matter. -/
theorem read_eq_ok {declaredType : String} {given : Option String} {registerType : RegisterType} {piece : List Char}
    (hsplit : split (trim piece) = .ok (declaredType, given))
    (htype : RegisterType.ofDeclared? width declaredType = some registerType) :
    read width function p index piece = .ok ⟨index, declaredType, registerType, given⟩ := by
  have hempty : (trim piece).isEmpty = false := by
    rw [List.isEmpty_eq_false_iff]
    intro hnil
    rw [hnil] at hsplit
    cases hsplit
    cases htype
  unfold read
  simp only [hempty, Bool.false_eq_true, if_false]
  refine bind_eq_ok.mpr ⟨(declaredType, given), hsplit, ?_⟩
  rw [htype]

end Param

/-! ## Written parameters -/

/-- **A parameter as it is written**, with blanks around. -/
structure ParamForm where
  /-- Blanks in front of the type. -/
  before : List Char
  /-- The type as it stands. -/
  type : List Char
  /-- The blanks in front of the name and the name, if there is one. -/
  given : Option (List Char × List Char)
  /-- Blanks behind it. -/
  after : List Char

namespace ParamForm

/-- The blanks and the name behind the type. -/
def ending (q : ParamForm) : List Char :=
  match q.given with
  | some (gap, name) => gap ++ name
  | none => []

/-- The name in the source, if there is one. -/
def name? (q : ParamForm) : Option String :=
  q.given.map fun (_, name) => String.ofList name

/-- The warning about a parameter number `i` of the function `function` that has no name. -/
def warning? (function : String) (i : Nat) (q : ParamForm) : Option String :=
  match q.name? with
  | some _ => none
  | none =>
    some s!"{function}: parameter {i} of type '{Param.joinWords q.type}' has no name, using {Param.generatedName i}"

/-- The text of a parameter. -/
def chars (q : ParamForm) : List Char :=
  q.before ++ (q.type ++ q.ending) ++ q.after

/-- **What tells a name from a type.** A name is an identifier that is no type word, apart from the type. A type stands
    alone if it is a single word without stars or if it ends with a star or with a type word. -/
inductive Ends (type : List Char) : Option (List Char × List Char) → Prop where
  | named {gap name : List Char} (blank : ∀ c ∈ gap, isAsciiBlank c = true) (identifier : isIdentifier name = true)
      (other : RegisterType.isTypeWord (String.ofList name) = false)
      (apart : gap ≠ [] ∨ ∃ c ∈ type.getLast?, Param.isSeparator c = true) : Ends type (some (gap, name))
  | single (word : ∀ c ∈ trim type, Param.isSeparator c = false) : Ends type none
  | star (last : (trim type).getLast? = some '*') : Ends type none
  | typeWord {front word : List Char} (split : trim type = front ++ word)
      (apart : ∀ c ∈ front.getLast?, Param.isSeparator c = true) (one : ∀ c ∈ word, Param.isSeparator c = false)
      (known : RegisterType.isTypeWord (String.ofList word) = true) : Ends type none

/-- **A parameter that can be read** on a device with addresses of a width. -/
structure Valid (width : PointerWidth) (q : ParamForm) : Prop where
  before : ∀ c ∈ q.before, isAsciiBlank c = true
  after : ∀ c ∈ q.after, isAsciiBlank c = true
  /-- The type is written in ASCII. -/
  ascii : ∀ c ∈ q.type, c.toNat < 128
  /-- It holds nothing that ends it or the list, or starts another one. -/
  inside : ∀ c ∈ q.type, c ≠ ',' ∧ c ≠ '(' ∧ endsList c = false
  /-- It has a register type. -/
  known : (RegisterType.ofDeclared? width (String.ofList q.type)).isSome
  /-- It can be told from the name. -/
  ends : Ends q.type q.given

/-- **What is read of a parameter** number `i`. -/
structure ReadAs (width : PointerWidth) (q : ParamForm) (i : Nat) (p : Param) : Prop where
  index : p.index = i
  /-- The type with single spaces between its words. -/
  declaredType : p.declaredType = Param.joinWords q.type
  /-- The register type is that of the type as it stands. -/
  registerType : RegisterType.ofDeclared? width (String.ofList q.type) = some p.registerType
  /-- The name that the source gives, if it gives one. -/
  given : p.given = q.name?
  /-- The name in the source, or the one that is made up. -/
  name : p.name = q.name?.getD (Param.generatedName i)

/-- A type that is one has a word. -/
theorem words_ne_nil (h : (RegisterType.ofDeclared? width (String.ofList s)).isSome) : words s ≠ [] := by
  intro hnil
  have hempty : RegisterType.ofDeclared? width (String.ofList s) = RegisterType.ofDeclared? width (String.ofList []) :=
    RegisterType.ofDeclared?_congr hnil
  rw [hempty] at h
  cases h

theorem isSeparator_of_isAsciiBlank (h : isAsciiBlank c = true) : Param.isSeparator c = true ∧ c.toNat < 128 := by
  refine ⟨Param.isSeparator_of_isBlank (isBlank_of_isAsciiBlank h), ?_⟩
  exact isAsciiBlank_cases (P := fun c => c.toNat < 128) h (by decide) (by decide) (by decide) (by decide) (by decide)

/-- What stands in front of a name ends with a separator. -/
theorem getLast?_type_append {type gap : List Char} (hascii : ∀ c ∈ type, c.toNat < 128)
    (hgap : ∀ c ∈ gap, isAsciiBlank c = true)
    (apart : gap ≠ [] ∨ ∃ c ∈ type.getLast?, Param.isSeparator c = true) :
    ∃ c ∈ (type ++ gap).getLast?, Param.isSeparator c = true ∧ c.toNat < 128 := by
  by_cases hnil : gap = []
  · obtain ⟨c, hlast, hc⟩ := apart.resolve_left (not_not_intro hnil)
    rw [hnil, List.append_nil]
    exact ⟨c, hlast, hc, hascii c (List.mem_of_getLast? hlast)⟩
  · refine ⟨gap.getLast hnil, ?_, isSeparator_of_isAsciiBlank (hgap _ (List.getLast_mem hnil))⟩
    rw [List.getLast?_append_of_ne_nil _ hnil, List.getLast?_eq_some_getLast hnil]
    rfl

/-- A name behind a type is not trimmed. -/
theorem trim_append_name {name : List Char} (hu : words u ≠ []) (hname : isIdentifier name = true) :
    trim (u ++ name) = trimStart u ++ name := by
  have hne := ne_nil_of_isIdentifier hname
  have hlast : isBlank (name.getLast hne) = false :=
    not_isBlank_of_isAsciiWord (isAsciiWord_of_mem_identifier hname (List.getLast_mem hne))
  have hnot : ¬ ∀ c ∈ u, isBlank c = true := fun hall => hu (wordsBy_eq_nil hall)
  rw [trim, trimStart_append hnot]
  conv => lhs; rw [← List.dropLast_append_getLast hne]
  rw [← List.append_assoc, trimEnd_append _ hlast, List.append_assoc, List.dropLast_append_getLast hne]

/-- Blanks in front of a text do not change how it ends, if it has a word. -/
theorem getLast?_trimStart (hu : words u ≠ []) : (trimStart u).getLast? = u.getLast? := by
  obtain ⟨blanks, hblanks, heq⟩ := exists_eq_append_trimStart u
  have hne : trimStart u ≠ [] := by
    intro hnil
    rw [hnil, List.append_nil] at heq
    exact hu (wordsBy_eq_nil (heq ▸ hblanks))
  conv => rhs; rw [heq]
  exact (List.getLast?_append_of_ne_nil blanks hne).symm

/-- **A written parameter is split as it was written.** -/
theorem Valid.split {q : ParamForm} (h : q.Valid width) :
    Param.split (trim q.chars) = .ok (Param.joinWords q.type, q.name?) := by
  have htype := words_ne_nil h.known
  have hascii := h.ascii
  have htrim : trim q.chars = trim (q.type ++ q.ending) :=
    trim_append (fun c hc => isBlank_of_isAsciiBlank (h.before c hc)) _
      (fun c hc => isBlank_of_isAsciiBlank (h.after c hc))
  have hends := h.ends
  -- without a name, all of the text is the type
  have halone : q.given = none → trim q.chars = trim q.type := by
    intro hnone
    rw [htrim, ending, hnone, List.append_nil]
  have hjoin : Param.joinWords (trim q.type) = Param.joinWords q.type := joinWords_eq (words_trim q.type)
  rw [name?]
  generalize hgiven : q.given = given at hends
  cases hends with
  | @named gap name blank identifier other apart =>
      have hwords : words (q.type ++ gap) = words q.type :=
        wordsBy_append_right q.type fun c hc => isBlank_of_isAsciiBlank (blank c hc)
      have hne : words (q.type ++ gap) ≠ [] := by
        rw [hwords]
        exact htype
      have hpiece : trim q.chars = trimStart (q.type ++ gap) ++ name := by
        rw [htrim, ending, hgiven]
        show trim (q.type ++ (gap ++ name)) = _
        rw [← List.append_assoc, trim_append_name hne identifier]
      have hfront : trim (trimStart (q.type ++ gap)) ≠ [] := by
        intro hnil
        refine hne ?_
        rw [← words_trimStart, ← words_trim, hnil]
        rfl
      have hjoin : Param.joinWords (trimStart (q.type ++ gap)) = Param.joinWords q.type :=
        joinWords_eq ((words_trimStart _).trans hwords)
      have hlast := getLast?_type_append hascii blank apart
      rw [← getLast?_trimStart hne] at hlast
      rw [hpiece, Param.split_name hlast hfront identifier other, hjoin]
      rfl
  | single word =>
      have hsplit := Param.split_none (u := []) (fun c hc => nomatch hc) word (Or.inl rfl)
      rw [List.nil_append, hjoin] at hsplit
      rw [halone hgiven]
      exact hsplit
  | star last =>
      have hstar : ∀ c ∈ (trim q.type).getLast?, Param.isSeparator c = true ∧ c.toNat < 128 := by
        intro c hc
        rw [last] at hc
        obtain rfl := Option.some.inj hc
        decide
      have hsplit := Param.split_none (v := []) hstar (fun c hc => nomatch hc) (Or.inr (Or.inl rfl))
      rw [List.append_nil, hjoin] at hsplit
      rw [halone hgiven]
      exact hsplit
  | @typeWord front word split apart one known =>
      have hfront : ∀ c ∈ front.getLast?, Param.isSeparator c = true ∧ c.toNat < 128 := by
        intro c hc
        refine ⟨apart c hc, hascii c (mem_of_mem_trim ?_)⟩
        rw [split]
        exact List.mem_append_left word (List.mem_of_getLast? hc)
      have hsplit := Param.split_none hfront one (Or.inr (Or.inr known))
      rw [← split, hjoin] at hsplit
      rw [halone hgiven]
      exact hsplit

/-- **A written parameter is read as it was written**, wherever it stands. -/
theorem Valid.read {q : ParamForm} (h : q.Valid width) (index : Nat) : ∃ param, q.ReadAs width index param ∧
    ∀ function p, Param.read width function p index q.chars = .ok param := by
  obtain ⟨registerType, htype⟩ := Option.isSome_iff_exists.mp h.known
  refine ⟨⟨index, Param.joinWords q.type, registerType, q.name?⟩, ⟨rfl, rfl, htype, rfl, rfl⟩, fun function p => ?_⟩
  exact Param.read_eq_ok h.split ((RegisterType.ofDeclared?_joinWords q.type).trans htype)

/-- **Each parameter without a name is warned about** once, and in order. -/
theorem warnings_eq {qs : List (ParamForm × Nat)} {params : List Param}
    (h : List.Forall₂ (fun (q, i) param => ReadAs width q i param) qs params) (function : String) :
    params.filterMap (Param.warning? function) = qs.filterMap fun (q, i) => q.warning? function i := by
  induction h with
  | nil => rfl
  | @cons r param _ _ hread _ ih =>
      obtain ⟨q, i⟩ := r
      have hwarning : param.warning? function = q.warning? function i := by
        have hname := hread.name
        unfold Param.warning? warning?
        rw [hread.given]
        cases hq : q.name? with
        | some name => rfl
        | none =>
            rw [hq] at hname
            rw [hread.index, hread.declaredType, hname]
            rfl
      rw [List.filterMap_cons, List.filterMap_cons, hwarning, ih]

/-! ## Written lists -/

theorem endsList_of_isAsciiBlank (h : isAsciiBlank c = true) : endsList c = false ∧ c ≠ ',' :=
  isAsciiBlank_cases (P := fun c => endsList c = false ∧ c ≠ ',') h (by decide) (by decide) (by decide) (by decide)
    (by decide)

theorem endsList_of_isAsciiWord (h : isAsciiWord c = true) : endsList c = false ∧ c ≠ ',' := by
  refine ⟨?_, ne_of_class h rfl⟩
  simp only [endsList, Bool.or_eq_false_iff, beq_eq_false_iff_ne]
  exact ⟨⟨⟨ne_of_class h rfl, ne_of_class h rfl⟩, ne_of_class h rfl⟩, ne_of_class h rfl⟩

/-- **No character of a written parameter ends it**, or the list that it is in. -/
theorem Valid.inside_chars {q : ParamForm} (h : q.Valid width) : ∀ c ∈ q.chars, endsList c = false ∧ c ≠ ',' := by
  have hending : ∀ c ∈ q.ending, endsList c = false ∧ c ≠ ',' := by
    have hends := h.ends
    intro c hc
    unfold ending at hc
    generalize q.given = given at hc hends
    cases hends with
    | named blank identifier other apart =>
        rcases List.mem_append.mp hc with hc | hc
        · exact endsList_of_isAsciiBlank (blank c hc)
        · exact endsList_of_isAsciiWord (isAsciiWord_of_mem_identifier identifier hc)
    | single | star | typeWord => cases hc
  intro c hc
  simp only [chars, List.mem_append] at hc
  rcases hc with (hc | hc | hc) | hc
  · exact endsList_of_isAsciiBlank (h.before c hc)
  · obtain ⟨hcomma, -, hends⟩ := h.inside c hc
    exact ⟨hends, hcomma⟩
  · exact hending c hc
  · exact endsList_of_isAsciiBlank (h.after c hc)

/-- **Written parameters are read in order**, from a number on. -/
theorem exists_readAll {qs : List ParamForm} (h : ∀ q ∈ qs, q.Valid width) (index : Nat) :
    ∃ params, List.Forall₂ (fun (q, i) param => ReadAs width q i param) (qs.zipIdx index) params ∧
      ∀ function p, Param.readAll width function p index (qs.map chars) = .ok params := by
  induction qs generalizing index with
  | nil => exact ⟨[], .nil, fun _ _ => rfl⟩
  | cons q qs ih =>
      obtain ⟨param, hread, hok⟩ := (h q List.mem_cons_self).read index
      obtain ⟨params, hreads, hall⟩ := ih (fun r hr => h r (List.mem_cons_of_mem q hr)) (index + 1)
      refine ⟨param :: params, .cons hread hreads, fun function p => ?_⟩
      rw [List.map_cons, Param.readAll, hok, hall]
      rfl

end ParamForm

/-- Nothing can be read where there are only blanks. -/
theorem Param.read_blank {piece : List Char} {param : Param} (h : trim piece = []) :
    read width function p index piece ≠ .ok param := by
  intro hread
  unfold read at hread
  rw [h] at hread
  cases hread

/-- The word for no parameters is no type. -/
theorem Param.read_void {piece : List Char} {param : Param} (h : trim piece = "void".toList) :
    read width function p index piece ≠ .ok param := by
  intro hread
  have hword : ∀ c ∈ "void".toList, isSeparator c = false := by
    have hall : "void".toList.all (fun c => !isSeparator c) = true := by decide
    intro c hc
    simpa using List.all_eq_true.mp hall c hc
  have hsplit : split (trim piece) = .ok (joinWords "void".toList, none) := by
    rw [h]
    exact split_none (u := []) (fun c hc => nomatch hc) hword (Or.inl rfl)
  have htype : RegisterType.ofDeclared? width (joinWords "void".toList) = none := by
    rw [RegisterType.ofDeclared?_joinWords]
    rfl
  have hempty : (trim piece).isEmpty = false := by
    rw [h]
    rfl
  unfold read at hread
  simp only [hempty, hsplit, Bool.false_eq_true, if_false] at hread
  obtain ⟨pair, hpair, hread⟩ := bind_eq_ok.mp hread
  cases hpair
  rw [htype] at hread
  cases hread

/-- **A list of which the pieces can be read** is not taken for an empty one. -/
theorem Param.readList_of_readAll {list : List Char} {params : List Param}
    (h : readAll width function p 0 (pieces (· == ',') list) = .ok params) :
    readList width function p list = .ok params := by
  -- a list without commas is read as one parameter
  have hone : ',' ∉ trim list → ∃ param, read width function p 0 list = .ok param := by
    intro hcomma
    have hnot : ',' ∉ list := fun hmem => hcomma ((mem_of_flatten_wordsBy rfl (words_trim list)).mpr hmem)
    have hpieces : pieces (· == ',') list = [list] := by
      refine pieces_run fun c hc => beq_eq_false_iff_ne.mpr ?_
      rintro rfl
      exact hnot hc
    rw [hpieces, readAll] at h
    obtain ⟨param, hparam, -⟩ := bind_eq_ok.mp h
    exact ⟨param, hparam⟩
  have hblank : trim list ≠ [] := by
    intro hnil
    obtain ⟨param, hparam⟩ := hone (by rw [hnil]; decide)
    exact read_blank hnil hparam
  have hvoid : trim list ≠ "void".toList := by
    intro hvoid
    obtain ⟨param, hparam⟩ := hone (by rw [hvoid]; decide)
    exact read_void hvoid hparam
  have hbare : (String.ofList (trim list) == "" || String.ofList (trim list) == "void") = false := by
    rw [Bool.or_eq_false_iff, beq_eq_false_iff_ne, beq_eq_false_iff_ne]
    constructor
    · intro heq
      refine hblank ?_
      rw [← String.toList_ofList (l := trim list), heq]
      rfl
    · intro heq
      refine hvoid ?_
      rw [← String.toList_ofList (l := trim list), heq]
  simp only [readList, hbare, Bool.false_eq_true, if_false]
  exact h

end Inlay
