import Mathlib
import Inlay.Proofs.Kernel.Parameters
import Inlay.Proofs.Kernel.TakenApart

/-!
# `Proofs.Kernel.Rendering` — every well-formed block is found

A source is described by its blocks (`BlockForm`) and the text between them (`Filler`), and written out with whatever
blanks its grammar allows (`render`). The finder takes it apart into what it was made of (`extract_render`): nothing in
a filler passes for a block, every block is read as it was described, and each parameter without a name is warned
about once.

A filler ends with a newline that is a unit of its own, so the scan passes it in front of anything
(`Filler.passes`). With that the source is taken apart block by block, by induction on the description.
-/

namespace Inlay

variable {f : BlockFinder} {width : PointerWidth} {word s rest behind : List Char} {p : Position}

/-! ## Fillers -/

/-- The units of a text in order. -/
def units : List Char → List (List Char)
  | [] => []
  | c :: s => (firstUnit c s).1 :: units (firstUnit c s).2
termination_by s => s.length
decreasing_by
  have := length_firstUnit_le c s
  simp only [List.length_cons]
  omega

/-- **A filler**: text between blocks, from one newline to another. -/
structure Filler (word s : List Char) : Prop where
  /-- It starts with a newline. -/
  starts : s.head? = some '\n'
  /-- It ends with a newline that is no part of a literal. -/
  ends : (units s).getLast? = some ['\n']
  /-- Outside of literals the introducer is not one of its words. -/
  clear : word ∉ units s

/-- **The scan passes a text that ends with a newline of its own**, in front of anything. -/
theorem passes_of_units (hends : ∀ u ∈ (units s).getLast?, u = ['\n']) (hclear : word ∉ units s)
    (behind : List Char) : Passes word s behind := by
  fun_induction units s with
  | case1 => exact .nil
  | case2 c s ih =>
      have hunit := isUnit_firstUnit c s
      have happend := firstUnit_append c s
      obtain ⟨u, hu⟩ := BlockFinder.exists_firstUnit c s
      generalize (firstUnit c s).2 = others at *
      rw [hu] at hunit happend hends hclear
      rw [List.mem_cons, not_or] at hclear
      have hother : isAsciiWord c = true → c :: u ≠ word := fun _ heq => hclear.1 heq.symm
      rw [← happend]
      cases others with
      | nil =>
          -- the last unit is the newline
          obtain heq : c :: u = ['\n'] := hends _ (by rw [units]; rfl)
          cases heq
          exact .unit (.single (by decide) rfl fun hat => absurd hat (by decide)) hother .nil
      | cons d t =>
          refine .unit (hunit.alike (.refl d) (t ++ behind)) hother (ih ?_ hclear.2)
          intro x hx
          refine hends x ?_
          rw [List.getLast?_cons, Option.mem_def.mp hx]
          rfl

theorem Filler.passes (h : Filler word s) (behind : List Char) : Passes word s behind := by
  refine passes_of_units (fun u hu => ?_) h.clear behind
  rw [h.ends] at hu
  exact (Option.some.inj hu).symm

/-- A newline is no blank of a line, and no semicolon. -/
theorem Filler.absent (h : Filler word s) (behind : List Char) : BlockText.Ending [] (s ++ behind) := by
  obtain ⟨s, rfl⟩ := List.head?_eq_some_iff.mp h.starts
  refine .absent fun blanks rest hblanks heq => ?_
  cases blanks with
  | nil => cases heq
  | cons c blanks =>
      obtain rfl : '\n' = c := (List.cons.inj heq).1
      exact absurd (hblanks '\n' List.mem_cons_self) (by decide)

/-! ## Blocks -/

/-- **A block as it is written**, apart from the introducer. -/
structure BlockForm where
  /-- Blanks in front of the name. -/
  beforeName : List Char
  name : List Char
  /-- Blanks in front of the list. -/
  beforeList : List Char
  params : List ParamForm
  /-- The blanks between the parentheses if there are no parameters. -/
  noParams : List Char
  /-- Blanks in front of the body. -/
  beforeBody : List Char
  body : List Char
  /-- The blanks in front of the semicolon, if there is one. -/
  semicolon : Option (List Char)

namespace BlockForm

/-- What stands between the parentheses. -/
def list (q : BlockForm) : List Char :=
  if q.params.isEmpty then q.noParams else [','].intercalate (q.params.map ParamForm.chars)

/-- What stands behind the body. -/
def ending (q : BlockForm) : List Char :=
  match q.semicolon with
  | some blanks => blanks ++ [';']
  | none => []

/-- The text of a block. -/
def text (introducer : List Char) (q : BlockForm) : BlockText :=
  ⟨introducer, q.beforeName, q.name, q.beforeList, q.list, q.beforeBody, q.body, q.ending⟩

/-- **A well-formed block.** -/
structure Valid (width : PointerWidth) (q : BlockForm) : Prop where
  beforeName : q.beforeName ≠ [] ∧ ∀ c ∈ q.beforeName, isAsciiBlank c = true
  name : isIdentifier q.name = true
  beforeList : ∀ c ∈ q.beforeList, isAsciiBlank c = true
  params : ∀ r ∈ q.params, r.Valid width
  noParams : ∀ c ∈ q.noParams, isAsciiBlank c = true
  beforeBody : ∀ c ∈ q.beforeBody, isAsciiBlank c = true
  /-- The body holds no closing brace. -/
  body : '\x7d' ∉ q.body
  /-- The semicolon stands on the line of the closing brace. -/
  semicolon : ∀ blanks ∈ q.semicolon, ∀ c ∈ blanks, isLineBlank c = true

/-- The warnings about a block: one for each parameter without a name, in order. -/
def warnings (q : BlockForm) : List String :=
  q.params.zipIdx.filterMap fun (r, i) => r.warning? (String.ofList q.name) i

/-- **What is found of a block.** -/
structure FoundAs (f : BlockFinder) (q : BlockForm) (b : Block) : Prop where
  text : b.text = q.text f.introducer.toList
  name : b.name = String.ofList q.name
  body : b.body = String.ofList q.body
  params : List.Forall₂ (fun (r, i) param => ParamForm.ReadAs f.width r i param) q.params.zipIdx b.params
  warnings : b.warnings = q.warnings

end BlockForm

namespace BlockForm

variable {q : BlockForm}

/-- The list of a well-formed block holds nothing that ends it. -/
theorem Valid.endsList_list (h : q.Valid width) : ∀ c ∈ q.list, endsList c = false := by
  intro c hc
  unfold list at hc
  by_cases hnone : q.params.isEmpty = true
  · rw [if_pos hnone] at hc
    exact (ParamForm.endsList_of_isAsciiBlank (h.noParams c hc)).1
  · rw [if_neg hnone] at hc
    rcases mem_intercalate hc with hc | ⟨u, hu, hc⟩
    · rw [List.mem_singleton.mp hc]
      rfl
    · obtain ⟨r, hr, rfl⟩ := List.mem_map.mp hu
      exact ((h.params r hr).inside_chars c hc).1

/-- **A well-formed block is written** in front of what its ending allows. -/
theorem Valid.written (h : q.Valid width) (hending : BlockText.Ending q.ending behind) :
    (q.text word).Written behind where
  beforeName := h.beforeName.2
  name := h.name
  beforeList := h.beforeList
  list := h.endsList_list
  beforeBody := h.beforeBody
  body := fun _ hc heq => h.body (heq ▸ hc)
  ending := hending

/-- It ends as written in front of a filler. -/
theorem Valid.ending (h : q.Valid width) (hfiller : Filler word s) (behind : List Char) :
    BlockText.Ending q.ending (s ++ behind) := by
  have hsemicolon := h.semicolon
  unfold BlockForm.ending
  cases hq : q.semicolon with
  | none => exact hfiller.absent behind
  | some blanks => exact .semicolon (hsemicolon blanks hq)

/-- **The parameters of a well-formed block are read** as they were written, wherever the block stands. -/
theorem Valid.exists_readList (h : q.Valid width) : ∃ params,
    List.Forall₂ (fun (r, i) param => ParamForm.ReadAs width r i param) q.params.zipIdx params ∧
      ∀ function p, Param.readList width function p q.list = .ok params := by
  unfold list
  by_cases hnone : q.params = []
  · rw [hnone]
    refine ⟨[], .nil, fun function p => ?_⟩
    have htrim : trim q.noParams = [] := by
      have hblank :=
        trim_append (fun c hc => isBlank_of_isAsciiBlank (h.noParams c hc)) [] (v := []) fun c hc => nomatch hc
      rw [List.append_nil, List.append_nil] at hblank
      exact hblank
    show Param.readList width function p q.noParams = .ok []
    unfold Param.readList
    rw [htrim]
    rfl
  · obtain ⟨params, hreads, hall⟩ := ParamForm.exists_readAll h.params 0
    refine ⟨params, hreads, fun function p => Param.readList_of_readAll ?_⟩
    have hempty : q.params.isEmpty = false := List.isEmpty_eq_false_iff.mpr hnone
    have hne : q.params.map ParamForm.chars ≠ [] := fun hnil => hnone (List.map_eq_nil_iff.mp hnil)
    have hpieces : pieces (· == ',') ([','].intercalate (q.params.map ParamForm.chars)) =
        q.params.map ParamForm.chars := by
      refine pieces_intercalate rfl hne fun u hu c hc => beq_eq_false_iff_ne.mpr ?_
      obtain ⟨r, hr, rfl⟩ := List.mem_map.mp hu
      exact ((h.params r hr).inside_chars c hc).2
    rw [hempty, if_neg Bool.false_ne_true, hpieces]
    exact hall function p

end BlockForm

/-! ## Sources -/

/-- A source of blocks with a filler in front of each, and one behind the last. -/
def render (introducer : List Char) (parts : List (List Char × BlockForm)) (rest : List Char) : List Char :=
  (parts.flatMap fun (filler, q) => filler ++ (q.text introducer).chars) ++ rest

/-- What stands behind a block is a filler and more. -/
theorem exists_filler {introducer : List Char} {parts : List (List Char × BlockForm)}
    (hparts : ∀ part ∈ parts, Filler introducer part.1) (hrest : Filler introducer rest) :
    ∃ filler behind, Filler introducer filler ∧ render introducer parts rest = filler ++ behind := by
  cases parts with
  | nil => exact ⟨rest, [], hrest, (List.append_nil rest).symm⟩
  | cons part parts =>
      refine ⟨part.1, (part.2.text introducer).chars ++ render introducer parts rest,
        hparts part List.mem_cons_self, ?_⟩
      simp only [render, List.flatMap_cons, List.append_assoc]

/-- **A source is taken apart into what it was made of**, from any position on. -/
theorem exists_takenApart {parts : List (List Char × BlockForm)}
    (hword : f.introducer.toList ≠ [] ∧ ∀ c ∈ f.introducer.toList, isAsciiWord c = true)
    (hfillers : ∀ part ∈ parts, Filler f.introducer.toList part.1) (hblocks : ∀ part ∈ parts, part.2.Valid f.width)
    (hrest : Filler f.introducer.toList rest) (p : Position) :
    ∃ cuts, TakenApart f p (render f.introducer.toList parts rest) cuts rest ∧
      List.Forall₂ (fun (filler, q) (before, b) => before = filler ∧ BlockForm.FoundAs f q b) parts cuts := by
  induction parts generalizing p with
  | nil => exact ⟨[], .rest (hrest.passes []), .nil⟩
  | cons part parts ih =>
      obtain ⟨filler, q⟩ := part
      have hfiller := hfillers _ List.mem_cons_self
      have hvalid := hblocks _ List.mem_cons_self
      have hfillers' : ∀ part ∈ parts, Filler f.introducer.toList part.1 :=
        fun part hpart => hfillers part (List.mem_cons_of_mem _ hpart)
      obtain ⟨next, behind, hnext, hrender⟩ := exists_filler hfillers' hrest
      have hending := hvalid.ending hnext behind
      rw [← hrender] at hending
      obtain ⟨params, hreads, hlist⟩ := hvalid.exists_readList
      let t := q.text f.introducer.toList
      obtain ⟨cuts, hcuts, hfound⟩ := ih hfillers' (fun part hpart => hblocks part (List.mem_cons_of_mem _ hpart))
        ((p.advance filler).advance t.chars)
      refine ⟨(filler, ⟨p.advance filler, t, params⟩) :: cuts, ?_, .cons ⟨rfl, ?_⟩ hfound⟩
      · have hsource : render f.introducer.toList ((filler, q) :: parts) rest =
            filler ++ (t.chars ++ render f.introducer.toList parts rest) := by
          simp only [render, List.flatMap_cons, List.append_assoc]
          rfl
        rw [hsource]
        exact .block (hfiller.passes _) rfl hword hvalid.beforeName.1 (hvalid.written hending) (hlist _ _) hcuts
      · exact ⟨rfl, rfl, rfl, hreads, ParamForm.warnings_eq hreads _⟩

/-- Every parameter without a name is warned about once, in the order of the source. -/
theorem warnings_of_found {parts : List (List Char × BlockForm)} {cuts : List (List Char × Block)}
    (h : List.Forall₂ (fun (filler, q) (before, b) => before = filler ∧ BlockForm.FoundAs f q b) parts cuts) :
    (cuts.flatMap fun cut => cut.2.warnings) = parts.flatMap fun part => part.2.warnings := by
  induction h with
  | nil => rfl
  | @cons part cut _ _ hpart _ ih =>
      obtain ⟨-, hfound⟩ := hpart
      rw [List.flatMap_cons, List.flatMap_cons, hfound.warnings, ih]

/-- **Extraction finds every well-formed block.** From a source that was written out of blocks and fillers it gives
    the fillers, and between them the blocks as they were described, and warns once about each parameter without a
    name. -/
theorem BlockFinder.extract_render {parts : List (List Char × BlockForm)}
    (hword : f.introducer.toList ≠ [] ∧ ∀ c ∈ f.introducer.toList, isAsciiWord c = true)
    (hfillers : ∀ part ∈ parts, Filler f.introducer.toList part.1) (hblocks : ∀ part ∈ parts, part.2.Valid f.width)
    (hrest : Filler f.introducer.toList rest) :
    ∃ e, f.extract (String.ofList (render f.introducer.toList parts rest)) = .ok e ∧ e.rest = rest ∧
      List.Forall₂ (fun (filler, q) (before, b) => before = filler ∧ BlockForm.FoundAs f q b) parts e.cuts ∧
      e.warnings = parts.flatMap fun part => part.2.warnings := by
  obtain ⟨cuts, htaken, hfound⟩ := exists_takenApart hword hfillers hblocks hrest {}
  refine ⟨⟨cuts, rest⟩, ?_, rfl, hfound, ?_⟩
  · rw [extract, String.toList_ofList]
    exact extractFrom_eq_ok.mpr htaken
  · unfold Extraction.warnings Extraction.blocks
    rw [List.flatMap_map]
    exact warnings_of_found hfound

/-- A block with a pointer that has a name and a number that has none. -/
def pointerAndNumber : BlockForm where
  beforeName := [' ']
  name := ['f']
  beforeList := []
  params := [⟨[], "float *".toList, some ([], ['a']), []⟩, ⟨['\n'], "unsigned  int".toList, none, []⟩]
  noParams := []
  beforeBody := ['\n']
  body := [' ', 'x', '\n']
  semicolon := some [' ']

theorem pointerAndNumber_valid : pointerAndNumber.Valid .bits64 where
  beforeName := ⟨List.cons_ne_nil _ _, List.all_eq_true.mp rfl⟩
  name := rfl
  beforeList := List.all_eq_true.mp rfl
  params := by
    intro r hr
    simp only [pointerAndNumber, List.mem_cons, List.not_mem_nil, or_false] at hr
    rcases hr with rfl | rfl
    · have hends : ParamForm.Ends "float *".toList (some ([], ['a'])) :=
        .named (List.all_eq_true.mp rfl) rfl (by decide) (Or.inr ⟨'*', rfl, rfl⟩)
      exact ⟨List.all_eq_true.mp rfl, List.all_eq_true.mp rfl, by simp, by simp [endsList], by decide, hends⟩
    · have hsplit : trim "unsigned  int".toList = "unsigned  ".toList ++ "int".toList := rfl
      have hends : ParamForm.Ends "unsigned  int".toList none :=
        .typeWord hsplit (fun c hc => Option.some.inj hc ▸ rfl) (by simp [Param.isSeparator, isBlank]) (by decide)
      exact ⟨List.all_eq_true.mp rfl, List.all_eq_true.mp rfl, by simp, by simp [endsList], by decide, hends⟩
  noParams := List.all_eq_true.mp rfl
  beforeBody := List.all_eq_true.mp rfl
  body := by decide
  semicolon := by
    intro blanks hblanks
    cases hblanks
    exact List.all_eq_true.mp rfl

/-- **Both parameters are read**, and the one without a name is warned about. The introducer in the literal opens no
    block. -/
theorem pointer_and_number_are_found : ∃ e, BlockFinder.extract ⟨"asm", .bits64⟩
      "\n'asm'\nasm f(float *a,\nunsigned  int)\n\x7b x\n\x7d ;\n" = .ok e ∧ e.rest = ['\n'] ∧
    List.Forall₂ (fun (filler, q) (before, b) => before = filler ∧ BlockForm.FoundAs ⟨"asm", .bits64⟩ q b)
      [("\n'asm'\n".toList, pointerAndNumber)] e.cuts ∧
    e.warnings = ["f: parameter 1 of type 'unsigned int' has no name, using auto_gen_var_name_1"] := by
  have hword : "asm".toList ≠ [] ∧ ∀ c ∈ "asm".toList, isAsciiWord c = true :=
    ⟨by decide, List.all_eq_true.mp (by decide)⟩
  have hliteral : units "\n'asm'\n".toList = [['\n'], "'asm'".toList, ['\n']] := by cbv
  have hnewline : units ['\n'] = [['\n']] := by cbv
  have hfiller : Filler "asm".toList "\n'asm'\n".toList :=
    ⟨rfl, by rw [hliteral]; rfl, by rw [hliteral]; decide⟩
  have hrest : Filler "asm".toList ['\n'] := ⟨rfl, by rw [hnewline]; rfl, by rw [hnewline]; decide⟩
  have hfillers : ∀ part ∈ [("\n'asm'\n".toList, pointerAndNumber)], Filler "asm".toList part.1 := by
    intro part hpart
    rw [List.mem_singleton.mp hpart]
    exact hfiller
  have hblocks : ∀ part ∈ [("\n'asm'\n".toList, pointerAndNumber)], part.2.Valid .bits64 := by
    intro part hpart
    rw [List.mem_singleton.mp hpart]
    exact pointerAndNumber_valid
  obtain ⟨e, hextract, hgap, hfound, hwarnings⟩ :=
    BlockFinder.extract_render (f := ⟨"asm", .bits64⟩) hword hfillers hblocks hrest
  have hsource : render "asm".toList [("\n'asm'\n".toList, pointerAndNumber)] ['\n'] =
      "\n'asm'\nasm f(float *a,\nunsigned  int)\n\x7b x\n\x7d ;\n".toList := by
    rfl
  change BlockFinder.extract _ (String.ofList (render "asm".toList _ _)) = _ at hextract
  rw [hsource, String.ofList_toList] at hextract
  refine ⟨e, hextract, hgap, hfound, ?_⟩
  rw [hwarnings]
  rfl

end Inlay
