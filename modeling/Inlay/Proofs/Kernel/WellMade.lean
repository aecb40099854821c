import Inlay.Proofs.Kernel.Declarations
import Inlay.Proofs.Kernel.DummyTokens
import Inlay.Proofs.Kernel.Splice

/-!
# `Proofs.Kernel.WellMade` — dummies can be compiled, on one line

The body of a dummy declares its vector and scalar values, each before it is used, and mentions no others. It writes to
the first parameter only, and holds as many multiplications as it should in its loop (`WellMade`). Its brackets are
closed, and since it is written in a plain alphabet, all of this is as true when it stands on one line
(`Dummy.sized_wellMade`).
-/

namespace Inlay

open KernelToken

variable {a b tokens : List KernelToken} {w : String}

/-- **What makes the body of a kernel a good one**: it declares so many vector values and scalar values, each before
    it is used, and mentions no others; it writes to the first of its parameters, if it has any, and mentions none
    otherwise; and it multiplies so often, all of it in the loop. -/
structure WellMade (vectors scalars products params : Nat) (body : List KernelToken) : Prop where
  /-- Exactly these variables are declared, each once. -/
  declared : (declarations body).Perm ((List.range vectors).map (fun k => ("float", Dummy.vector k)) ++
    (List.range scalars).map (fun k => ("uint", Dummy.scalar k)) ++ [("uint", "gid"), ("uint", "i")])
  vectorFirst : ∀ k < vectors, DeclaredFirst "float" (Dummy.vector k) body
  scalarFirst : ∀ k < scalars, DeclaredFirst "uint" (Dummy.scalar k) body
  /-- All numbered names that are mentioned. -/
  mentioned : ∀ w ∈ numberedNames body, (∃ k < vectors, w = Dummy.vector k) ∨ (∃ k < scalars, w = Dummy.scalar k) ∨
    (params ≠ 0 ∧ w = Dummy.param 0)
  /-- The one mention of a parameter. -/
  written : params ≠ 0 → ∃ front value,
    body = front ++ [.name (Dummy.param 0), .mark "[", .number "0", .mark "]", .mark "="] ++ value ++ [.mark ";"] ∧
      .name (Dummy.param 0) ∉ front ∧ .name (Dummy.param 0) ∉ value
  /-- The loop and what it holds. -/
  loop : ∃ (before : List KernelToken) (statements : List (List KernelToken)) (after : List KernelToken),
    body = before ++ Dummy.loopTokens ++ statements.flatten ++ .mark "\x7d" :: after ∧
      statements.length = products ∧
      (∀ s ∈ statements, ∃ target first second whole, s = Dummy.madTokens target first second whole) ∧
      .name "mad" ∉ before ∧ .name "mad" ∉ after

/-! ## Numbered values -/

namespace Dummy

variable {d : Dummy} {k l : Nat}

theorem isNumbered_of_toList {c : Char} {n : Nat} (hw : w.toList = c :: (toString n).toList) (hc : c.isAlpha = true) :
    isNumbered w = true := by
  have hdigits : (toString n).toList.all Char.isDigit = true := List.all_eq_true.mpr fun _ => isDigit_of_mem_toString
  have hne : (toString n).toList.isEmpty = false := List.isEmpty_eq_false_iff.mpr (toList_toString_ne_nil n)
  rw [isNumbered, hw]
  simp only [hc, hne, hdigits, Bool.not_false, Bool.and_true]

@[simp] theorem isNumbered_vector (k : Nat) : isNumbered (vector k) = true :=
  isNumbered_of_toList (toList_vector k) rfl

@[simp] theorem isNumbered_scalar (k : Nat) : isNumbered (scalar k) = true :=
  isNumbered_of_toList (toList_scalar k) rfl

@[simp] theorem isNumbered_param (k : Nat) : isNumbered (param k) = true :=
  isNumbered_of_toList (toList_param k) rfl

/-- Names with one letter tell their numbers apart. -/
theorem eq_of_numbered {x : String} {c : Char} (hx : x.toList = c :: (toString k).toList)
    (hy : x.toList = c :: (toString l).toList) : k = l := by
  rw [hx] at hy
  exact toList_toString_injective (List.tail_eq_of_cons_eq hy)

@[simp] theorem vector_inj : vector k = vector l ↔ k = l := by
  constructor
  · intro h
    exact eq_of_numbered (toList_vector k) (h ▸ toList_vector l)
  · rintro rfl
    rfl

@[simp] theorem scalar_inj : scalar k = scalar l ↔ k = l := by
  constructor
  · intro h
    exact eq_of_numbered (toList_scalar k) (h ▸ toList_scalar l)
  · rintro rfl
    rfl

/-- Names with different letters are different. -/
theorem ne_of_head {x y : String} {c e : Char} {s t : List Char} (hx : x.toList = c :: s) (hy : y.toList = e :: t)
    (hne : c ≠ e) : x ≠ y := by
  rintro rfl
  rw [hx] at hy
  exact hne (List.head_eq_of_cons_eq hy)

@[simp] theorem vector_ne_scalar : vector k ≠ scalar l :=
  ne_of_head (toList_vector k) (toList_scalar l) (by decide)

@[simp] theorem scalar_ne_vector : scalar k ≠ vector l :=
  vector_ne_scalar.symm

@[simp] theorem param_ne_vector : param k ≠ vector l :=
  ne_of_head (toList_param k) (toList_vector l) (by decide)

@[simp] theorem param_ne_scalar : param k ≠ scalar l :=
  ne_of_head (toList_param k) (toList_scalar l) (by decide)

/-! ## The numbered names of the lines -/

theorem numberedNames_load (k : Nat) (w : UInt32) : numberedNames (loadTokens k w) = [vector k] := by
  show ["float", vector k, "as_float"].filter isNumbered = _
  simp +decide

theorem numberedNames_exit : numberedNames exitTokens = [] := by
  decide

theorem numberedNames_scalar (k : Nat) : numberedNames (scalarTokens k) = [scalar k] := by
  show ["uint", scalar k, "get_group_id"].filter isNumbered = _
  simp +decide

theorem numberedNames_vector (k : Nat) : numberedNames (vectorTokens k) = [vector k, vector (k - 1)] := by
  show ["float", vector k, vector (k - 1), "float", "gid"].filter isNumbered = _
  simp +decide

theorem numberedNames_loop : numberedNames loopTokens = [scalar 0] := by
  decide

theorem numberedNames_product (d : Dummy) (j : Nat) : numberedNames (d.productTokens j) =
    [vector (j % d.vectors), vector ((j + 1) % d.vectors), vector ((j + 2) % d.vectors), scalar (j % d.scalars)] := by
  show [vector (j % d.vectors), "mad", vector ((j + 1) % d.vectors), vector ((j + 2) % d.vectors), "float",
    scalar (j % d.scalars), "i"].filter isNumbered = _
  simp +decide

theorem numberedNames_sum (d : Dummy) :
    numberedNames d.sumTokens = (List.range d.vectors).map vector ++ (List.range d.scalars).map scalar := by
  have hcast : numberedNames [.mark "+", .mark "(", .name "float", .mark ")", .mark "("] = [] := by decide
  have hend : numberedNames [.mark ")"] = [] := rfl
  unfold sumTokens
  rw [numberedNames_append, numberedNames_append, numberedNames_append, hcast, hend,
    numberedNames_intercalate rfl isNumbered_vector, numberedNames_intercalate rfl isNumbered_scalar,
    List.nil_append, List.append_nil]

/-! ## What the lines declare -/

theorem declarations_sum (d : Dummy) : declarations d.sumTokens = [] := by
  have hcast : declarations [.mark "+", .mark "(", .name "float", .mark ")", .mark "("] = [] := rfl
  unfold sumTokens
  rw [List.cons_append, declarations_append_mark, ← List.cons_append, declarations_append rfl, hcast,
    declarations_append_mark, declarations_intercalate, declarations_intercalate]
  rfl

theorem declarations_write (d : Dummy) : declarations d.writeTokens = [] := by
  unfold writeTokens
  by_cases hparams : d.params = 0
  · rw [if_pos hparams]
    rfl
  · rw [if_neg hparams, declarations_append rfl, declarations_append_mark, declarations_sum]
    rfl

theorem declarations_products (d : Dummy) (js : List Nat) : declarations (js.flatMap d.productTokens) = [] := by
  have hproduct : ∀ j, declarations (d.productTokens j) = [] := fun _ => rfl
  rw [declarations_flatMap (fun _ => rfl), List.flatMap_eq_nil_iff]
  exact fun j _ => hproduct j

theorem declarations_body (d : Dummy) : declarations d.bodyTokens =
    [("float", vector 0), ("float", vector 1), ("uint", "gid")] ++
      ((List.range d.scalars).map (fun k => ("uint", scalar k)) ++
        ((List.range' 2 (d.vectors - 2)).map (fun k => ("float", vector k)) ++ [("uint", "i")])) := by
  have hload (k w) : endsApart (loadTokens k w) = true := rfl
  have hexit : endsApart exitTokens = true := rfl
  have hscalars := endsApart_flatMap (f := scalarTokens) (fun _ => rfl) (List.range d.scalars)
  have hvectors := endsApart_flatMap (f := vectorTokens) (fun _ => rfl) (List.range' 2 (d.vectors - 2))
  have hloop : endsApart loopTokens = true := rfl
  have hproducts := endsApart_flatMap (f := d.productTokens) (fun _ => rfl) (List.range d.products)
  have hbrace : endsApart [.mark "\x7d"] = true := rfl
  unfold bodyTokens setupTokens wholeLoopTokens
  simp only [List.append_assoc]
  rw [declarations_append (hload _ _), declarations_append (hload _ _), declarations_append hexit,
    declarations_append hscalars, declarations_append hvectors, declarations_append hloop,
    declarations_append hproducts, declarations_append hbrace, declarations_write, declarations_products,
    declarations_flatMap (f := scalarTokens) (fun _ => rfl), declarations_flatMap (f := vectorTokens) (fun _ => rfl),
    List.map_eq_flatMap, List.map_eq_flatMap]
  rfl

/-! ## The first mention of a value -/

theorem declaredFirst_load (k : Nat) (w : UInt32) : DeclaredFirst "float" (vector k) (loadTokens k w) := by
  refine ⟨[], [.name "as_float", .mark "(", .number s!"0x{hexWord w}u", .mark ")"], [], rfl, ?_, ?_, ?_⟩
  · exact List.not_mem_nil
  · refine not_mem_of_numberedNames (isNumbered_vector k) ?_
    exact List.not_mem_nil
  · simp

theorem declaredFirst_scalar (k : Nat) : DeclaredFirst "uint" (scalar k) (scalarTokens k) := by
  refine ⟨[], [.name "get_group_id", .mark "(", .number "0", .mark ")", .mark "*", .number s!"{2 * k + 3}u", .mark "+",
    .number s!"{k}u"], [], rfl, ?_, ?_, ?_⟩
  · exact List.not_mem_nil
  · refine not_mem_of_numberedNames (isNumbered_scalar k) ?_
    exact List.not_mem_nil
  · simp

theorem declaredFirst_vector (hk : 0 < k) : DeclaredFirst "float" (vector k) (vectorTokens k) := by
  refine ⟨[], [.name (vector (k - 1)), .mark "*", .mark "(", .name "float", .mark ")", .mark "(", .name "gid",
    .mark "+", .number s!"{k}u", .mark ")"], [], rfl, ?_, ?_, ?_⟩
  · exact List.not_mem_nil
  · refine not_mem_of_numberedNames (isNumbered_vector k) ?_
    have hvalue : [vector (k - 1), "float", "gid"].filter isNumbered = [vector (k - 1)] := by simp +decide
    show vector k ∉ [vector (k - 1), "float", "gid"].filter isNumbered
    rw [hvalue, List.mem_singleton, vector_inj]
    omega
  · simp

/-- The values that hold the literals come first, and mention no others. -/
theorem declaredFirst_behind_load {type : String} (hw : isNumbered w = true) (hne : w ≠ vector k) (l : UInt32)
    (h : DeclaredFirst type w tokens) : DeclaredFirst type w (loadTokens k l ++ tokens) := by
  refine h.behind (not_mem_of_numberedNames hw ?_)
  rw [numberedNames_load, List.mem_singleton]
  exact hne

theorem declaredFirst_behind_exit {type : String} (hw : isNumbered w = true) (h : DeclaredFirst type w tokens) :
    DeclaredFirst type w (exitTokens ++ tokens) := by
  refine h.behind (not_mem_of_numberedNames hw ?_)
  rw [numberedNames_exit]
  exact List.not_mem_nil

theorem scalarFirst_body (d : Dummy) (hk : k < d.scalars) : DeclaredFirst "uint" (scalar k) d.bodyTokens := by
  have hsmaller : ∀ j < k, .name (scalar k) ∉ scalarTokens j := by
    intro j hj
    refine not_mem_of_numberedNames (isNumbered_scalar k) ?_
    rw [numberedNames_scalar, List.mem_singleton, scalar_inj]
    omega
  have hscalars := (declaredFirst_scalar k).flatMap hsmaller (Nat.zero_le k) (n := d.scalars) (by omega)
  rw [← List.range_eq_range'] at hscalars
  unfold bodyTokens setupTokens wholeLoopTokens
  simp only [List.append_assoc]
  refine declaredFirst_behind_load (isNumbered_scalar k) scalar_ne_vector _ ?_
  refine declaredFirst_behind_load (isNumbered_scalar k) scalar_ne_vector _ ?_
  exact declaredFirst_behind_exit (isNumbered_scalar k) (hscalars.before _)

theorem vectorFirst_body (d : Dummy) (hk : k < d.vectors) : DeclaredFirst "float" (vector k) d.bodyTokens := by
  unfold bodyTokens setupTokens wholeLoopTokens
  simp only [List.append_assoc]
  -- the first two values hold the literals, the others are declared from the one before
  by_cases hzero : k = 0
  · rw [hzero]
    exact (declaredFirst_load 0 d.literal).before _
  refine declaredFirst_behind_load (isNumbered_vector k) (by rwa [Ne, vector_inj]) _ ?_
  by_cases hone : k = 1
  · rw [hone]
    exact (declaredFirst_load 1 (d.literal + 1)).before _
  refine declaredFirst_behind_load (isNumbered_vector k) (by rwa [Ne, vector_inj]) _ ?_
  refine declaredFirst_behind_exit (isNumbered_vector k) ?_
  have hscalars : .name (vector k) ∉ (List.range d.scalars).flatMap scalarTokens := by
    refine not_mem_of_numberedNames (isNumbered_vector k) ?_
    simp only [numberedNames_flatMap, numberedNames_scalar, List.mem_flatMap, List.mem_singleton, vector_ne_scalar,
      and_false, exists_false, not_false_eq_true]
  have hsmaller : ∀ j < k, .name (vector k) ∉ vectorTokens j := by
    intro j hj
    refine not_mem_of_numberedNames (isNumbered_vector k) ?_
    rw [numberedNames_vector, List.mem_pair, vector_inj, vector_inj]
    omega
  have hvectors := (declaredFirst_vector (by omega)).flatMap hsmaller (by omega : 2 ≤ k) (n := d.vectors - 2) (by omega)
  exact (hvectors.before _).behind hscalars

/-! ## Brackets -/

theorem balanced_sum (d : Dummy) : Balanced d.sumTokens := by
  have hplus : Balanced [.mark "+"] := fun _ => rfl
  have hxor : Balanced [.mark "^"] := fun _ => rfl
  have hvectors := hplus.intercalate (f := fun k => [.name (vector k)]) (fun _ _ => rfl) (List.range d.vectors)
  have hscalars := hxor.intercalate (f := fun k => [.name (scalar k)]) (fun _ _ => rfl) (List.range d.scalars)
  have hgroup := hscalars.group "(" ")" rfl rfl (by decide)
  have hcast : Balanced [.mark "+", .mark "(", .name "float", .mark ")"] := fun _ => rfl
  exact hvectors.append (hcast.append hgroup)

theorem balanced_write (d : Dummy) : Balanced d.writeTokens := by
  unfold writeTokens
  by_cases hparams : d.params = 0
  · rw [if_pos hparams]
    exact .nil
  · have htarget : Balanced [.name (param 0), .mark "[", .number "0", .mark "]", .mark "="] := fun _ => rfl
    have hend : Balanced [.mark ";"] := fun _ => rfl
    rw [if_neg hparams]
    exact htarget.append (d.balanced_sum.append hend)

theorem balanced_body (d : Dummy) : Balanced d.bodyTokens := by
  have hload (k w) : Balanced (loadTokens k w) := fun _ => rfl
  have hexit : Balanced exitTokens := fun _ => rfl
  have hscalars := Balanced.flatMap (f := scalarTokens) (fun _ _ => rfl) (List.range d.scalars)
  have hvectors := Balanced.flatMap (f := vectorTokens) (fun _ _ => rfl) (List.range' 2 (d.vectors - 2))
  have hproducts := Balanced.flatMap (f := d.productTokens) (fun _ _ => rfl) (List.range d.products)
  have hloop : Balanced d.wholeLoopTokens := by
    have hhead : Balanced loopTokens.dropLast := fun _ => rfl
    have hgroup := hproducts.group "\x7b" "\x7d" rfl rfl (by decide)
    rw [wholeLoopTokens, List.append_assoc]
    exact hhead.append hgroup
  have hloads := (hload 0 d.literal).append (hload 1 (d.literal + 1))
  exact ((((hloads.append hexit).append hscalars).append hvectors).append hloop).append d.balanced_write

theorem balanced_signature (d : Dummy) : Balanced d.signatureTokens := by
  have hcomma : Balanced [.mark ","] := fun _ => rfl
  have hparams := hcomma.intercalate
    (f := fun k => [.name "__global", .name "float", .mark "*", .name (param k)]) (fun _ _ => rfl) (List.range d.params)
  have hhead : Balanced [.name "__kernel", .name "void", .name d.name] := fun _ => rfl
  exact hhead.append (hparams.group "(" ")" rfl rfl (by decide))

theorem balanced_tokens (d : Dummy) : Balanced d.tokens :=
  d.balanced_signature.append (d.balanced_body.group "\x7b" "\x7d" rfl rfl (by decide))

/-! ## The body -/

theorem numberedNames_write (hparams : d.params ≠ 0) :
    numberedNames d.writeTokens = param 0 :: numberedNames d.sumTokens := by
  have htarget : numberedNames [.name (param 0), .mark "[", .number "0", .mark "]", .mark "="] = [param 0] := by decide
  have hend : numberedNames [.mark ";"] = [] := rfl
  rw [writeTokens, if_neg hparams, numberedNames_append, numberedNames_append, htarget, hend, List.append_nil]
  rfl

theorem declared_body (d : Dummy) (htwo : 2 ≤ d.vectors) : (declarations d.bodyTokens).Perm
    ((List.range d.vectors).map (fun k => ("float", vector k)) ++
      (List.range d.scalars).map (fun k => ("uint", scalar k)) ++ [("uint", "gid"), ("uint", "i")]) := by
  have hvectors : List.range d.vectors = 0 :: 1 :: List.range' 2 (d.vectors - 2) := by
    obtain ⟨n, hn⟩ := Nat.exists_eq_add_of_le htwo
    rw [hn, List.range_eq_range', Nat.add_comm 2 n, List.range'_succ, List.range'_succ]
    rfl
  -- the scalar values are declared between the first two vector values and the others
  rw [declarations_body, hvectors, List.perm_iff_count]
  intro p
  simp only [List.map_cons, List.count_append, List.count_cons, List.count_nil]
  omega

/-- The name of a value that a dummy declares. -/
def IsValue (d : Dummy) (w : String) : Prop :=
  (∃ k < d.vectors, w = vector k) ∨ ∃ k < d.scalars, w = scalar k

theorem isValue_vector (hk : k < d.vectors) : d.IsValue (vector k) := Or.inl ⟨k, hk, rfl⟩

theorem isValue_scalar (hk : k < d.scalars) : d.IsValue (scalar k) := Or.inr ⟨k, hk, rfl⟩

theorem not_isValue_param (k : Nat) : ¬d.IsValue (param k) := by
  rintro (⟨l, -, h⟩ | ⟨l, -, h⟩)
  · exact param_ne_vector h
  · exact param_ne_scalar h

theorem isValue_of_mem_setup (hvectors : 2 ≤ d.vectors) : ∀ w ∈ numberedNames d.setupTokens, d.IsValue w := by
  intro w hw
  simp only [setupTokens, numberedNames_append, numberedNames_flatMap, numberedNames_load, numberedNames_exit,
    numberedNames_scalar, numberedNames_vector, List.mem_append, List.mem_flatMap, List.mem_cons, List.not_mem_nil,
    List.mem_range, List.mem_range'_1, or_false] at hw
  rcases hw with ((rfl | rfl) | ⟨k, hk, rfl⟩) | ⟨k, hk, rfl | rfl⟩
  · exact isValue_vector (by omega)
  · exact isValue_vector (by omega)
  · exact isValue_scalar hk
  · exact isValue_vector (by omega)
  · exact isValue_vector (by omega)

/-- The indices go round, so they are never too large. -/
theorem isValue_of_mem_wholeLoop (hvectors : 2 ≤ d.vectors) (hscalars : 1 ≤ d.scalars) :
    ∀ w ∈ numberedNames d.wholeLoopTokens, d.IsValue w := by
  have hround (j) : j % d.vectors < d.vectors := Nat.mod_lt j (by omega)
  have hbrace : numberedNames [.mark "\x7d"] = [] := rfl
  intro w hw
  simp only [wholeLoopTokens, numberedNames_append, numberedNames_flatMap, numberedNames_loop, numberedNames_product,
    hbrace, List.mem_append, List.mem_flatMap, List.mem_cons, List.not_mem_nil, or_false] at hw
  rcases hw with rfl | ⟨j, -, rfl | rfl | rfl | rfl⟩
  · exact isValue_scalar (by omega)
  · exact isValue_vector (hround j)
  · exact isValue_vector (hround (j + 1))
  · exact isValue_vector (hround (j + 2))
  · exact isValue_scalar (Nat.mod_lt j (by omega))

theorem isValue_of_mem_sum : ∀ w ∈ numberedNames d.sumTokens, d.IsValue w := by
  intro w hw
  rw [numberedNames_sum, List.mem_append, List.mem_map, List.mem_map] at hw
  rcases hw with ⟨k, hk, rfl⟩ | ⟨k, hk, rfl⟩
  · exact isValue_vector (List.mem_range.mp hk)
  · exact isValue_scalar (List.mem_range.mp hk)

theorem mentioned_body (d : Dummy) (hvectors : 2 ≤ d.vectors) (hscalars : 1 ≤ d.scalars) :
    ∀ w ∈ numberedNames d.bodyTokens, d.IsValue w ∨ (d.params ≠ 0 ∧ w = param 0) := by
  intro w hw
  rw [bodyTokens, numberedNames_append, numberedNames_append, List.mem_append, List.mem_append] at hw
  rcases hw with (hw | hw) | hw
  · exact Or.inl (isValue_of_mem_setup hvectors w hw)
  · exact Or.inl (isValue_of_mem_wholeLoop hvectors hscalars w hw)
  · by_cases hparams : d.params = 0
    · rw [writeTokens, if_pos hparams] at hw
      exact absurd hw List.not_mem_nil
    · rw [numberedNames_write hparams, List.mem_cons] at hw
      rcases hw with rfl | hw
      · exact Or.inr ⟨hparams, rfl⟩
      · exact Or.inl (isValue_of_mem_sum w hw)

theorem written_body (d : Dummy) (hvectors : 2 ≤ d.vectors) (hscalars : 1 ≤ d.scalars) (hparams : d.params ≠ 0) :
    ∃ front value,
      d.bodyTokens = front ++ [.name (param 0), .mark "[", .number "0", .mark "]", .mark "="] ++ value ++ [.mark ";"] ∧
        .name (param 0) ∉ front ∧ .name (param 0) ∉ value := by
  refine ⟨d.setupTokens ++ d.wholeLoopTokens, d.sumTokens, ?_, ?_, ?_⟩
  · rw [bodyTokens, writeTokens, if_neg hparams]
    simp only [List.append_assoc]
  · refine not_mem_of_numberedNames (isNumbered_param 0) fun hw => not_isValue_param (d := d) 0 ?_
    rw [numberedNames_append, List.mem_append] at hw
    rcases hw with hw | hw
    · exact isValue_of_mem_setup hvectors _ hw
    · exact isValue_of_mem_wholeLoop hvectors hscalars _ hw
  · refine not_mem_of_numberedNames (isNumbered_param 0) fun hw => not_isValue_param (d := d) 0 ?_
    exact isValue_of_mem_sum _ hw

theorem mad_not_mem_setup (d : Dummy) : .name "mad" ∉ d.setupTokens := by
  have hvector (k) : "mad" ≠ vector k := ne_of_isNumbered (by decide) (isNumbered_vector k)
  have hscalar (k) : "mad" ≠ scalar k := ne_of_isNumbered (by decide) (isNumbered_scalar k)
  simp [setupTokens, loadTokens, exitTokens, scalarTokens, vectorTokens, hvector, hscalar]

theorem mad_not_mem_write (d : Dummy) : .name "mad" ∉ d.writeTokens := by
  have hvector (k) : vector k ≠ "mad" := (ne_of_isNumbered (by decide) (isNumbered_vector k)).symm
  have hscalar (k) : scalar k ≠ "mad" := (ne_of_isNumbered (by decide) (isNumbered_scalar k)).symm
  have hparam : "mad" ≠ param 0 := ne_of_isNumbered (by decide) (isNumbered_param 0)
  have hsum : .name "mad" ∉ d.sumTokens := by
    rw [← mem_names, sumTokens, names_append, names_append, names_append, names_intercalate rfl, names_intercalate rfl]
    simp [names, name?, hvector, hscalar]
  unfold writeTokens
  by_cases hparams : d.params = 0
  · simp [hparams]
  · simp [hparams, hparam, hsum]

theorem loop_body (d : Dummy) : ∃ (before : List KernelToken) (statements : List (List KernelToken))
    (after : List KernelToken), d.bodyTokens = before ++ loopTokens ++ statements.flatten ++ .mark "\x7d" :: after ∧
      statements.length = d.products ∧
      (∀ s ∈ statements, ∃ target first second whole, s = madTokens target first second whole) ∧
      .name "mad" ∉ before ∧ .name "mad" ∉ after := by
  refine ⟨d.setupTokens, (List.range d.products).map d.productTokens, d.writeTokens, ?_, ?_, ?_,
    d.mad_not_mem_setup, d.mad_not_mem_write⟩
  · rw [bodyTokens, wholeLoopTokens, ← List.flatMap_def]
    simp only [List.append_assoc, List.singleton_append]
  · rw [List.length_map, List.length_range]
  · intro s hs
    obtain ⟨j, -, rfl⟩ := List.mem_map.mp hs
    exact ⟨_, _, _, _, rfl⟩

/-! ## Dummies are well made -/

theorem wellMade_body (d : Dummy) (hvectors : 2 ≤ d.vectors) (hscalars : 1 ≤ d.scalars) :
    WellMade d.vectors d.scalars d.products d.params d.bodyTokens where
  declared := d.declared_body hvectors
  vectorFirst := fun _ hk => d.vectorFirst_body hk
  scalarFirst := fun _ hk => d.scalarFirst_body hk
  mentioned := fun w hw => or_assoc.mp (d.mentioned_body hvectors hscalars w hw)
  written := d.written_body hvectors hscalars
  loop := d.loop_body

/-- Dummies are written without what would end with a line, and without what would join two lines. -/
theorem not_mem_text (hname : isIdentifier d.name.toList = true) :
    ∀ c ∈ d.text.toList, c ∉ ['/', '#', '"', '\'', '\\', '\r'] := by
  have hclass {p : Char → Bool} (hp : ['/', '#', '"', '\'', '\\', '\r'].all (!p ·) = true) (c : Char)
      (hc : p c = true) : c ∉ ['/', '#', '"', '\'', '\\', '\r'] := by
    intro hmem
    have hfalse := List.all_eq_true.mp hp c hmem
    rw [hc] at hfalse
    cases hfalse
  exact forall_mem_text (hclass (by decide)) (hclass (by decide)) hname

/-- **A dummy is well made, has room for the code that it stands for, and can stand on one line.** -/
theorem sized_wellMade (style : Style) {name : String} (params vectors scalars words : Nat)
    (hname : isIdentifier name.toList = true) :
    let d := sized style name params vectors scalars words
    let products := max ((words + 1) / 2) 1
    (∃ body, kernelTokens d.text.toList = d.signatureTokens ++ .mark "\x7b" :: (body ++ [.mark "\x7d"]) ∧
      WellMade (max (max vectors style.minVectors) 2) (max scalars 1) products params body) ∧
    (∀ bytes, (bytes + 3) / 4 = words → bytes ≤ 8 * products) ∧
    Balanced (kernelTokens d.text.toList) ∧
    (∀ c ∈ d.text.toList, c ∉ ['/', '#', '"', '\'', '\\', '\r']) ∧
    '\n' ∉ Extraction.flatten d.text.toList ∧
    kernelTokens (Extraction.flatten d.text.toList) = kernelTokens d.text.toList := by
  intro d products
  have htokens : kernelTokens d.text.toList = d.tokens := d.kernelTokens_text hname
  have hchars := not_mem_text (d := d) hname
  refine ⟨⟨d.bodyTokens, htokens, ?_⟩, ?_, ?_, hchars, ?_, ?_⟩
  · exact d.wellMade_body (Nat.le_max_right _ 2) (Nat.le_max_right scalars 1)
  · intro bytes hbytes
    show bytes ≤ 8 * max ((words + 1) / 2) 1
    omega
  · rw [htokens]
    exact d.balanced_tokens
  · exact Extraction.not_mem_flatten (Or.inl rfl) _
  · refine kernelTokens_flatten fun c hc => isSimple_iff.mpr ?_
    have hsimple := hchars c hc
    simp only [List.mem_cons, List.not_mem_nil, or_false, not_or] at hsimple
    exact ⟨hsimple.1, hsimple.2.1, hsimple.2.2.1, hsimple.2.2.2.1⟩

/-- A dummy whose second literal is zero, the first being the last word, for a block with less registers than the least
    number. -/
theorem sized_wellMade_blend :
    isIdentifier "blend".toList = true ∧ ∃ body,
      kernelTokens (sized ⟨15, 0xFFFFFFFF⟩ "blend" 2 3 0 9).text.toList =
        (sized ⟨15, 0xFFFFFFFF⟩ "blend" 2 3 0 9).signatureTokens ++ .mark "\x7b" :: (body ++ [.mark "\x7d"]) ∧
      WellMade 15 1 5 2 body :=
  ⟨by decide, (sized_wellMade ⟨15, 0xFFFFFFFF⟩ 2 3 0 9 (by decide)).1⟩

end Dummy

end Inlay
