import Mathlib
import Inlay.Proofs.Kernel.ParameterFaults
import Inlay.Proofs.Kernel.TakenApart

/-!
# `Proofs.Kernel.DeclaredTypes` — the types that can be declared

A declared type is a row of words (`Spelled`), and its qualifiers and its spacing say nothing. The table of types has
single words (`typeTable`), and a sign in front of four of them (`signedTable`); what it says of a row of words is
`Documented`. With a star among the words, a type is an address if there is a word besides the qualifiers.

A sign is read by putting it in front of a word or by dropping it, and the result is looked up. That reads all that is
documented, but also what is not: any word of the table may have `signed` in front of it, and four more may have
`unsigned` (`Overread`). There is nothing else (`declared_type_is_documented_or_overread`), and an extraction has only
parameters of types that are read.
-/

namespace Inlay

variable {p : Char → Bool} {c : Char} {u s : List Char} {ws : List (List Char)}

/-! ## Words and what is between them -/

/-- **A text spells words**: characters that end words stand around them, and at least one between two of them. -/
inductive Spelled (p : Char → Bool) : List Char → List (List Char) → Prop where
  | nothing {u : List Char} (ends : ∀ c ∈ u, p c = true) : Spelled p u []
  | word {u w rest : List Char} {ws : List (List Char)} (ends : ∀ c ∈ u, p c = true) (some : w ≠ [])
      (whole : ∀ c ∈ w, p c = false) (apart : ∀ c ∈ rest.head?, p c = true) (others : Spelled p rest ws) :
      Spelled p (u ++ (w ++ rest)) (w :: ws)

namespace Spelled

theorem cons (hc : p c = true) (h : Spelled p s ws) : Spelled p (c :: s) ws := by
  have hends : ∀ {u : List Char}, (∀ d ∈ u, p d = true) → ∀ d ∈ c :: u, p d = true := by
    intro u hu d hd
    rcases List.mem_cons.mp hd with rfl | hd
    · exact hc
    · exact hu d hd
  cases h with
  | nothing ends => exact .nothing (hends ends)
  | @word u w rest ws ends some whole apart others => exact .word (u := c :: u) (hends ends) some whole apart others

/-- **The words that a text spells** are those that it is cut into. -/
theorem wordsBy_eq (h : Spelled p s ws) : wordsBy p s = ws := by
  induction h with
  | nothing ends => exact wordsBy_eq_nil ends
  | @word u w rest ws ends some whole apart others ih =>
      rw [wordsBy_append_left ends]
      cases rest with
      | nil =>
          obtain rfl : [] = ws := ih
          rw [List.append_nil, wordsBy_run some whole]
      | cons c rest =>
          have hc : p c = true := apart c rfl
          rw [wordsBy_append_cons hc, wordsBy_run some whole, ← ih, wordsBy_cons hc, List.singleton_append]

/-- **Every text spells the words that it is cut into.** The induction is on the runs of the text. -/
theorem of_wordsBy (p : Char → Bool) (s : List Char) : Spelled p s (wordsBy p s) := by
  induction s using runs_induction p with
  | run u hu =>
      by_cases hne : u = []
      · subst hne
        exact .nothing fun c hc => nomatch hc
      · have hword : Spelled p ([] ++ (u ++ [])) [u] :=
          .word (fun c hc => nomatch hc) hne hu (fun c hc => nomatch hc) (.nothing fun c hc => nomatch hc)
        rw [wordsBy_run hne hu]
        rwa [List.nil_append, List.append_nil] at hword
  | cut u c v hu hc ih =>
      rw [wordsBy_append_cons hc]
      by_cases hne : u = []
      · subst hne
        exact ih.cons hc
      · rw [wordsBy_run hne hu]
        exact .word (u := []) (fun c hc => nomatch hc) hne hu (fun d hd => Option.some.inj hd ▸ hc) (ih.cons hc)

end Spelled

theorem wordsBy_eq_iff : wordsBy p s = ws ↔ Spelled p s ws :=
  ⟨fun h => h ▸ Spelled.of_wordsBy p s, Spelled.wordsBy_eq⟩

/-! ## The table -/

namespace RegisterType

/-- The words that name a type. -/
def typeTable : List (String × RegisterType) :=
  [("char", i8), ("int8_t", i8), ("sbyte", i8), ("uchar", u8), ("uint8_t", u8), ("byte", u8), ("short", i16),
    ("int16_t", i16), ("ushort", u16), ("uint16_t", u16), ("int", i32), ("int32_t", i32), ("uint", u32),
    ("uint32_t", u32), ("long", i64), ("int64_t", i64), ("ulong", u64), ("uint64_t", u64), ("size_t", u64),
    ("float", f32), ("double", f64), ("bool", bool)]

/-- The words that may have a sign in front of them, with the signed and the unsigned number of their size. -/
def signedTable : List (String × RegisterType × RegisterType) :=
  [("char", i8, u8), ("short", i16, u16), ("int", i32, u32), ("long", i64, u64)]

/-- The words of fixed width that `unsigned` reads as well, with the unsigned number of that width. -/
def fixedTable : List (String × RegisterType) :=
  [("int8_t", u8), ("int16_t", u16), ("int32_t", u32), ("int64_t", u64)]

/-- **What the table says** of words without qualifiers and stars. -/
inductive Documented : List String → RegisterType → Prop where
  | word {w : String} {r : RegisterType} (listed : (w, r) ∈ typeTable) : Documented [w] r
  | unsigned : Documented ["unsigned"] u32
  | signed : Documented ["signed"] i32
  | unsignedWord {w : String} {signed unsigned : RegisterType} (listed : (w, signed, unsigned) ∈ signedTable) :
      Documented ["unsigned", w] unsigned
  | signedWord {w : String} {signed unsigned : RegisterType} (listed : (w, signed, unsigned) ∈ signedTable) :
      Documented ["signed", w] signed

/-- **What is read besides**: `signed` in front of any other word of the table, and `unsigned` in front of the signed
    words of fixed width. -/
inductive Overread : List String → RegisterType → Prop where
  | signed {w : String} {r : RegisterType} (listed : (w, r) ∈ typeTable) (other : w ∉ signedTable.map (·.1)) :
      Overread ["signed", w] r
  | unsigned {w : String} {r : RegisterType} (listed : (w, r) ∈ fixedTable) : Overread ["unsigned", w] r

variable {width : PointerWidth} {w : String} {r : RegisterType} {row : List String}

/-- **The table is what is looked up.** -/
theorem ofWord?_eq_some_iff : ofWord? w = some r ↔ (w, r) ∈ typeTable := by
  constructor
  · intro h
    unfold ofWord? at h
    split at h <;> cases h <;> simp [typeTable]
  · intro h
    have hall : ∀ entry ∈ typeTable, ofWord? entry.1 = some entry.2 := by decide
    exact hall _ h

/-- What is documented behind a sign are the four words. -/
theorem Documented.signable {sign : String} (h : Documented [sign, w] r) : w ∈ signedTable.map (·.1) := by
  generalize hrow : [sign, w] = row at h
  cases h with
  | unsignedWord listed =>
      obtain ⟨-, rfl⟩ : sign = _ ∧ w = _ := by simpa using hrow
      exact List.mem_map_of_mem listed
  | signedWord listed =>
      obtain ⟨-, rfl⟩ : sign = _ ∧ w = _ := by simpa using hrow
      exact List.mem_map_of_mem listed
  | _ => simp at hrow

/-- **What is read besides is not documented**, as that type or as another one. -/
theorem Overread.not_documented {r' : RegisterType} (h : Overread row r) : ¬ Documented row r' := by
  intro hdocumented
  cases h with
  | signed _ other => exact other hdocumented.signable
  | unsigned listed =>
      have hother : ∀ fixed ∈ fixedTable, fixed.1 ∉ signedTable.map (·.1) := by decide
      exact hother _ listed hdocumented.signable

/-- **What is documented is read.** -/
theorem Documented.ofWords?_eq (h : Documented row r) : ofWords? row = some r := by
  cases h with
  | word listed =>
      have hall : ∀ entry ∈ typeTable, ofWords? [entry.1] = some entry.2 := by decide
      exact hall _ listed
  | unsigned => rfl
  | signed => rfl
  | unsignedWord listed =>
      have hall : ∀ signs ∈ signedTable, ofWords? ["unsigned", signs.1] = some signs.2.2 := by decide
      exact hall _ listed
  | signedWord listed =>
      have hall : ∀ signs ∈ signedTable, ofWords? ["signed", signs.1] = some signs.2.1 := by decide
      exact hall _ listed

theorem Overread.ofWords?_eq (h : Overread row r) : ofWords? row = some r := by
  cases h with
  | signed listed _ => exact ofWord?_eq_some_iff.mpr listed
  | unsigned listed =>
      have hall : ∀ fixed ∈ fixedTable, ofWords? ["unsigned", fixed.1] = some fixed.2 := by decide
      exact hall _ listed

/-- **With its sign dropped**, any word of the table is read. -/
theorem of_signed (h : ofWord? w = some r) : Documented ["signed", w] r ∨ Overread ["signed", w] r := by
  rw [ofWord?_eq_some_iff] at h
  by_cases hsign : w ∈ signedTable.map (·.1)
  · -- the four words stand in both tables with the same signed number
    have hboth : ∀ entry ∈ typeTable, ∀ signs ∈ signedTable, signs.1 = entry.1 → signs.2.1 = entry.2 := by decide
    obtain ⟨⟨w, signed, unsigned⟩, hsigns, rfl⟩ := List.mem_map.mp hsign
    obtain rfl : signed = r := hboth _ h _ hsigns rfl
    exact Or.inl (.signedWord hsigns)
  · exact Or.inr (.signed h hsign)

/-- **With its sign put in front of it**, a word is read if that gives one of the words that start with a `u`. -/
theorem of_unsigned (h : ofWord? ("u" ++ w) = some r) :
    Documented ["unsigned", w] r ∨ Overread ["unsigned", w] r := by
  rw [ofWord?_eq_some_iff] at h
  have hstart : ∀ entry ∈ typeTable, entry.1.toList.head? = some 'u' →
      (∃ signs ∈ signedTable, entry.1 = "u" ++ signs.1 ∧ entry.2 = signs.2.2) ∨
        ∃ fixed ∈ fixedTable, entry.1 = "u" ++ fixed.1 ∧ entry.2 = fixed.2 := by decide
  have hhead : ("u" ++ w).toList.head? = some 'u' := by simp
  rcases hstart _ h hhead with ⟨⟨w', signed, unsigned⟩, hsigns, hw, rfl⟩ | ⟨⟨w', r'⟩, hfixed, hw, rfl⟩
  · obtain rfl : w = w' := (String.append_right_inj "u").mp hw
    exact Or.inl (.unsignedWord hsigns)
  · obtain rfl : w = w' := (String.append_right_inj "u").mp hw
    exact Or.inr (.unsigned hfixed)

/-- **What is read of words** without qualifiers and stars. -/
theorem ofWords?_eq_some_iff : ofWords? row = some r ↔ Documented row r ∨ Overread row r := by
  constructor
  · intro h
    unfold ofWords? at h
    split at h
    · cases h
      exact Or.inl .unsigned
    · cases h
      exact Or.inl .signed
    · exact of_unsigned h
    · exact of_signed h
    · exact Or.inl (.word (ofWord?_eq_some_iff.mp h))
    · cases h
  · rintro (h | h)
    · exact h.ofWords?_eq
    · exact h.ofWords?_eq

/-! ## Declared types -/

/-- Words as they are spelled, without the qualifiers. -/
def unqualified (ws : List (List Char)) : List String :=
  (ws.map String.ofList).filter fun w => !qualifiers.contains w

theorem plainWords_eq (h : Spelled isBlank s ws) : plainWords s = unqualified ws := by
  rw [plainWords, words_eq_wordsBy, h.wordsBy_eq, unqualified]

/-- **A type without stars** is what its words are read as. -/
theorem ofDeclared?_of_no_star {declared : String} (hstar : '*' ∉ declared.toList)
    (h : Spelled isBlank declared.toList ws) : ofDeclared? width declared = ofWords? (unqualified ws) := by
  have hcontains : declared.toList.contains '*' = false := by simpa using hstar
  unfold ofDeclared?
  dsimp only
  rw [hcontains, plainWords_eq h]
  rfl

/-- **A type with a star** is an address if there is a word besides the qualifiers. -/
theorem ofDeclared?_of_star {declared : String} (hstar : '*' ∈ declared.toList)
    (h : Spelled Param.isSeparator declared.toList ws) :
    ofDeclared? width declared = if unqualified ws = [] then none else some width.registerType := by
  have hcontains : declared.toList.contains '*' = true := by simpa using hstar
  have hwords : plainWords (declared.toList.map fun c => if c = '*' then ' ' else c) = unqualified ws := by
    rw [plainWords, words_map_star, h.wordsBy_eq, unqualified]
  unfold ofDeclared?
  dsimp only
  rw [hcontains, hwords]
  simp

end RegisterType

/-! ## Parameters of an extraction -/

namespace Param

variable {width : PointerWidth} {function : String} {start : Position} {index : Nat}

/-- **A parameter that was read** from a piece of a list: the piece declares its type and its name, and the type has a
    register type, which is that of the parameter. -/
def ReadFrom (width : PointerWidth) (piece : List Char) (param : Param) : Prop :=
  Declares (trim piece) param.declaredType param.given ∧
    RegisterType.ofDeclared? width param.declaredType = some param.registerType

theorem readFrom_of_read {piece : List Char} {param : Param}
    (h : read width function start index piece = .ok param) : ReadFrom width piece param := by
  unfold read at h
  split at h
  · cases h
  · obtain ⟨⟨type, given⟩, hsplit, h⟩ := bind_eq_ok.mp h
    dsimp only at h
    split at h
    · next registerType htype =>
      cases h
      exact ⟨split_eq_ok.mp hsplit, htype⟩
    · cases h

/-- **Every piece of a list is a parameter** of what was read from it. -/
theorem readFrom_of_readAll {pieces : List (List Char)} {params : List Param}
    (h : readAll width function start index pieces = .ok params) : List.Forall₂ (ReadFrom width) pieces params := by
  induction pieces generalizing start index params with
  | nil =>
      cases h
      exact .nil
  | cons piece others ih =>
      obtain ⟨param, hread, h⟩ := bind_eq_ok.mp h
      obtain ⟨params, hothers, h⟩ := bind_eq_ok.mp h
      cases h
      exact .cons (readFrom_of_read hread) (ih hothers)

theorem readFrom_of_readList {list : List Char} {params : List Param}
    (h : readList width function start list = .ok params) (hblank : trim list ≠ [])
    (hvoid : trim list ≠ "void".toList) : List.Forall₂ (ReadFrom width) (pieces (· == ',') list) params := by
  unfold readList at h
  dsimp only at h
  have hbare : (String.ofList (trim list) == "" || String.ofList (trim list) == "void") = false := by
    rw [Bool.or_eq_false_iff, beq_eq_false_iff_ne, beq_eq_false_iff_ne, Ne, Ne, ← String.toList_inj,
      ← String.toList_inj, String.toList_ofList]
    exact ⟨hblank, hvoid⟩
  rw [hbare] at h
  exact readFrom_of_readAll h

end Param

/-- **The parameters of a source taken apart** were read from the pieces of their lists. -/
theorem TakenApart.readFrom {f : BlockFinder} {p : Position} {rest : List Char} {cuts : List (List Char × Block)}
    (h : TakenApart f p s cuts rest) : ∀ cut ∈ cuts, trim cut.2.text.list ≠ [] →
      trim cut.2.text.list ≠ "void".toList →
        List.Forall₂ (Param.ReadFrom f.width) (pieces (· == ',') cut.2.text.list) cut.2.params := by
  induction h with
  | rest => simp
  | block _ _ _ _ _ list _ ih =>
      intro cut hcut hblank hvoid
      rcases List.mem_cons.mp hcut with rfl | hcut
      · exact Param.readFrom_of_readList list hblank hvoid
      · exact ih cut hcut hblank hvoid

/-- **An extraction has only parameters of types that are read.** Where the list of a block is not blank and not
    `void`, each of its pieces is a parameter. -/
theorem BlockFinder.readFrom_of_extract {f : BlockFinder} {source : String} {e : Extraction}
    (h : f.extract source = .ok e) : ∀ b ∈ e.blocks, trim b.text.list ≠ [] → trim b.text.list ≠ "void".toList →
      List.Forall₂ (Param.ReadFrom f.width) (pieces (· == ',') b.text.list) b.params := by
  intro b hb
  obtain ⟨cut, hcut, rfl⟩ := List.mem_map.mp hb
  exact (takenApart_of_extractFrom h).readFrom cut hcut

/-! ## What can be declared -/

namespace RegisterType

/-- **A declared type is documented, or it is one of those read besides.** Every text spells one row of words, with
    any blanks between them, and its qualifiers do not matter. With a star, the type is an address of the given width
    if there is a word besides the qualifiers, blanks and stars between them, and none otherwise. Without one, it has a
    register type exactly if the words say so by the table, or if they are read besides; and no row of words that is
    read besides is documented. A piece of a parameter list that declares a type that is none is in no extraction. -/
theorem declared_type_is_documented_or_overread (width : PointerWidth) (declared : String) :
    (∀ p : Char → Bool, ∃! ws, Spelled p declared.toList ws) ∧
      (∀ ws, '*' ∈ declared.toList → Spelled Param.isSeparator declared.toList ws →
        ofDeclared? width declared = if unqualified ws = [] then none else some width.registerType) ∧
      (∀ ws r, '*' ∉ declared.toList → Spelled isBlank declared.toList ws →
        (ofDeclared? width declared = some r ↔ Documented (unqualified ws) r ∨ Overread (unqualified ws) r)) ∧
      (∀ row r r', Overread row r → ¬ Documented row r') ∧
      ∀ introducer source e, BlockFinder.extract ⟨introducer, width⟩ source = .ok e → ∀ b ∈ e.blocks,
        trim b.text.list ≠ [] → trim b.text.list ≠ "void".toList →
          List.Forall₂ (Param.ReadFrom width) (pieces (· == ',') b.text.list) b.params := by
  refine ⟨?_, ?_, ?_, ?_, ?_⟩
  · intro p
    refine ⟨_, Spelled.of_wordsBy p declared.toList, ?_⟩
    intro ws hws
    exact hws.wordsBy_eq.symm
  · intro ws hstar hws
    exact ofDeclared?_of_star hstar hws
  · intro ws r hstar hws
    rw [ofDeclared?_of_no_star hstar hws]
    exact ofWords?_eq_some_iff
  · intro row r r' h
    exact h.not_documented
  · intro introducer source e h
    exact BlockFinder.readFrom_of_extract h

/-- **A number of eight bits** behind a qualifier: `unsigned` is put in front of `int8_t`, with whatever blanks between,
    and the type is read though the table has no such row. -/
theorem unsigned_fixed_width_is_read :
    Spelled isBlank "unsigned  const\tint8_t ".toList ["unsigned".toList, "const".toList, "int8_t".toList] ∧
      ofDeclared? .bits32 "unsigned  const\tint8_t " = some u8 ∧ ¬ Documented ["unsigned", "int8_t"] u8 := by
  have hwords : Spelled isBlank "unsigned  const\tint8_t ".toList
      ["unsigned".toList, "const".toList, "int8_t".toList] := wordsBy_eq_iff.mp rfl
  have hread : Overread ["unsigned", "int8_t"] u8 := .unsigned (by decide)
  obtain ⟨-, -, hplain, hother, -⟩ := declared_type_is_documented_or_overread .bits32 "unsigned  const\tint8_t "
  exact ⟨hwords, (hplain _ u8 (by decide) hwords).mpr (Or.inr hread), hother _ _ u8 hread⟩

/-- **What is said of declared types** without stars: they have a register type exactly if the table says so. -/
def FollowsTable (width : PointerWidth) : Prop :=
  ∀ declared ws r, '*' ∉ declared.toList → Spelled isBlank declared.toList ws →
    (ofDeclared? width declared = some r ↔ Documented (unqualified ws) r)

/-- **What is said fails** of a signed float, which is read as a float. -/
theorem not_followsTable : ¬ FollowsTable .bits64 := by
  intro hfollows
  have hread : ofDeclared? .bits64 "signed float" = some f32 := rfl
  have hwords : Spelled isBlank "signed float".toList ["signed".toList, "float".toList] := wordsBy_eq_iff.mp rfl
  have hdocumented : Documented ["signed", "float"] f32 :=
    (hfollows "signed float" _ f32 (by decide) hwords).mp hread
  exact absurd hdocumented.signable (by decide)

end RegisterType

end Inlay
