import Inlay.Proofs.Fallible
import Inlay.Proofs.Kernel.Scanning
import Inlay.Proofs.Kernel.Written

/-!
# `Proofs.Kernel.TakenApart` — what an extraction is

`TakenApart` says without a finder how a source is taken apart at its blocks: the scan passes the text in front of
each block, the introducer stands there and a well-written block with it, its parameters can be read, and the scan
passes the text behind the last block. The finder gives an extraction exactly if the source is taken apart like that
(`extractFrom_eq_ok`). What is to be known about extractions is proved from the relation, by induction on the blocks.
-/

namespace Inlay

variable {f : BlockFinder} {p : Position} {c : Char} {s unit gap behind rest : List Char} {t : BlockText}
  {e : Extraction} {cuts : List (List Char × Block)}

/-- **A source taken apart** from `p` on, at the blocks of `cuts`, with `rest` behind them. -/
inductive TakenApart (f : BlockFinder) : Position → List Char → List (List Char × Block) → List Char → Prop where
  | rest {p : Position} {s : List Char} (passes : Passes f.introducer.toList s []) : TakenApart f p s [] s
  | block {p : Position} {gap s rest : List Char} {t : BlockText} {params : List Param}
      {cuts : List (List Char × Block)}
      (passes : Passes f.introducer.toList gap (t.chars ++ s))
      (opens : t.introducer = f.introducer.toList)
      (word : t.introducer ≠ [] ∧ ∀ c ∈ t.introducer, isAsciiWord c = true)
      (separated : t.beforeName ≠ [])
      (written : t.Written s)
      (list : Param.readList f.width (String.ofList t.name) ((p.advance gap).advance t.opening) t.list = .ok params)
      (others : TakenApart f ((p.advance gap).advance t.chars) s cuts rest) :
      TakenApart f p (gap ++ (t.chars ++ s)) ((gap, ⟨p.advance gap, t, params⟩) :: cuts) rest

/-! ## What the finder takes apart -/

namespace Extraction

theorem prepend_nil (e : Extraction) : e.prepend [] = e := by
  obtain ⟨cuts, rest⟩ := e
  cases cuts <;> rfl

theorem prepend_append (u v : List Char) (e : Extraction) : e.prepend (u ++ v) = (e.prepend v).prepend u := by
  obtain ⟨cuts, rest⟩ := e
  cases cuts with
  | nil => simp [prepend]
  | cons cut cuts => simp [prepend]

end Extraction

theorem TakenApart.prepend (unit : IsUnit (c :: s) behind)
    (other : isAsciiWord c = true → c :: s ≠ f.introducer.toList)
    (h : TakenApart f (p.advance (c :: s)) behind e.cuts e.rest) :
    TakenApart f p (c :: s ++ behind) (e.prepend (c :: s)).cuts (e.prepend (c :: s)).rest := by
  obtain ⟨cuts, rest⟩ := e
  cases h with
  | rest passes =>
      refine .rest (.unit ?_ other passes)
      rw [List.append_nil]
      exact unit
  | @block _ gap s' rest t params cuts passes opens word separated written list others =>
      have hposition : (p.advance (c :: s)).advance gap = p.advance (c :: s ++ gap) :=
        (Position.advance_append p (c :: s) gap).symm
      show TakenApart f p _ ((c :: s ++ gap, ⟨(p.advance (c :: s)).advance gap, t, params⟩) :: cuts) rest
      rw [hposition] at list others ⊢
      rw [← List.append_assoc]
      exact .block (.unit unit other passes) opens word separated written list others

namespace BlockFinder

/-- What stands behind the introducer of a block is no part of a word, and neither is the name. -/
theorem beforeName_ne_nil {unit : List Char} (hunit : IsUnit (c :: unit) s) (hc : isAsciiWord c = true)
    (hw : t.Written rest) (hs : t.introducer ++ s = t.chars ++ rest) : t.beforeName ≠ [] := by
  intro hnil
  have hends : ∀ d ∈ s.head?, isAsciiWord d = false := by
    cases hunit with
    | verbatim => exact absurd hc (by decide)
    | quoted quote => exact absurd quote (not_quote_of_isAsciiWord hc)
    | word _ _ ends => exact ends
    | single _ word =>
        rw [word] at hc
        cases hc
  obtain ⟨d, name, hn⟩ := List.exists_cons_of_ne_nil (ne_nil_of_isIdentifier hw.name)
  have hhead : s.head? = some d := by
    simp only [BlockText.chars, BlockText.header, BlockText.opening, hnil, hn, List.append_assoc,
      List.append_cancel_left_eq] at hs
    rw [hs]
    rfl
  have hd := isAsciiWord_of_mem_identifier hw.name (hn ▸ List.mem_cons_self)
  exact ne_of_class hd (hends d hhead) rfl

theorem exists_firstUnit (c : Char) (s : List Char) : ∃ u, (firstUnit c s).1 = c :: u := by
  unfold firstUnit
  split
  · exact ⟨_, rfl⟩
  · split
    · exact ⟨_, rfl⟩
    · split
      · exact ⟨_, rfl⟩
      · exact ⟨_, rfl⟩

/-- **Every extraction takes its source apart.** -/
theorem takenApart_of_extractFrom (h : f.extractFrom p s = .ok e) : TakenApart f p s e.cuts e.rest := by
  fun_induction extractFrom f p s generalizing e with
  | case1 p =>
      cases h
      exact .rest .nil
  | case2 p c s unit hword flaw => cases h
  | case3 p c s unit hword t rest hcut =>
      rename_i ih
      obtain ⟨params, hparams, h⟩ := bind_eq_ok.mp h
      obtain ⟨others, hothers, h⟩ := bind_eq_ok.mp h
      cases h
      rw [Bool.and_eq_true, beq_iff_eq] at hword
      obtain ⟨hc, hintroducer⟩ := hword
      obtain ⟨hopens, hwritten, hchars⟩ := BlockText.cut_eq_ok.mp hcut
      have hunit : unit = c :: s.takeWhile isAsciiWord := congrArg Prod.fst (firstUnit_word hc s)
      have hall : ∀ d ∈ unit, isAsciiWord d = true := by
        intro d hd
        rw [hunit] at hd
        rcases List.mem_cons.mp hd with rfl | hd
        · exact hc
        · exact of_mem_takeWhile hd
      have hseparated : t.beforeName ≠ [] := by
        have hisUnit := isUnit_firstUnit c s
        rw [show (firstUnit c s).1 = c :: s.takeWhile isAsciiWord from hunit] at hisUnit
        refine beforeName_ne_nil hisUnit hc hwritten ?_
        rw [hopens, hchars]
      rw [← firstUnit_append c s, show (firstUnit c s).1 = unit from rfl, hchars]
      have hword : t.introducer ≠ [] ∧ ∀ c ∈ t.introducer, isAsciiWord c = true := by
        rw [hopens]
        exact ⟨by rw [hunit]; exact List.cons_ne_nil _ _, hall⟩
      have hpasses : Passes f.introducer.toList [] (t.chars ++ rest) := .nil
      exact .block hpasses (hopens.trans hintroducer) hword hseparated hwritten hparams (ih hothers)
  | case4 p c s unit hword =>
      rename_i ih
      obtain ⟨others, hothers, rfl⟩ := map_eq_ok.mp h
      have hunit := isUnit_firstUnit c s
      have happend := firstUnit_append c s
      obtain ⟨u, hu⟩ : ∃ u, (firstUnit c s).1 = c :: u := exists_firstUnit c s
      have hall := ih hothers
      rw [show unit = c :: u from hu] at hall hword ⊢
      rw [hu] at hunit happend
      rw [← happend]
      refine TakenApart.prepend hunit (fun hc hintroducer => hword ?_) hall
      rw [hc, hintroducer, beq_self_eq_true]
      rfl

/-! ## What is taken apart is found -/

/-- A unit that is not the introducer goes in front of what is found behind it. -/
theorem extractFrom_unit (unit : IsUnit (c :: s) behind)
    (other : isAsciiWord c = true → c :: s ≠ f.introducer.toList) (p : Position) :
    f.extractFrom p (c :: s ++ behind) =
      (f.extractFrom (p.advance (c :: s)) behind).map (Extraction.prepend (c :: s)) := by
  have hword : (isAsciiWord c && (c :: s) == f.introducer.toList) = false := by
    rw [Bool.and_eq_false_imp]
    intro hc
    exact beq_eq_false_iff_ne.mpr (other hc)
  rw [List.cons_append, extractFrom]
  simp only [unit.firstUnit, hword, Bool.false_eq_true, if_false]

/-- **Text that the scan passes** goes in front of what is found behind it. -/
theorem extractFrom_append (h : Passes f.introducer.toList gap behind) (p : Position) :
    f.extractFrom p (gap ++ behind) = (f.extractFrom (p.advance gap) behind).map (Extraction.prepend gap) := by
  induction h generalizing p with
  | @nil behind =>
      show f.extractFrom p behind = (f.extractFrom p behind).map (Extraction.prepend [])
      cases f.extractFrom p behind with
      | error e => rfl
      | ok e => exact congrArg Except.ok (Extraction.prepend_nil e).symm
  | @unit c s gap behind unit other _ ih =>
      rw [List.append_assoc, extractFrom_unit unit other, ih, ← Position.advance_append]
      cases f.extractFrom (p.advance (c :: s ++ gap)) behind with
      | error e => rfl
      | ok e => exact congrArg Except.ok (Extraction.prepend_append (c :: s) gap e).symm

/-- The introducer of a block is a unit: it is a word, and a blank stands behind it. -/
theorem exists_introducer_unit (word : t.introducer ≠ [] ∧ ∀ c ∈ t.introducer, isAsciiWord c = true)
    (separated : t.beforeName ≠ []) (written : t.Written rest) :
    ∃ c u behind, t.introducer = c :: u ∧ isAsciiWord c = true ∧ t.chars ++ rest = c :: u ++ behind ∧
      IsUnit (c :: u) behind := by
  obtain ⟨hne, hall⟩ := word
  obtain ⟨c, u, hi⟩ := List.exists_cons_of_ne_nil hne
  obtain ⟨b, blanks, hb⟩ := List.exists_cons_of_ne_nil separated
  have hc : isAsciiWord c = true := hall c (hi ▸ List.mem_cons_self)
  refine ⟨c, u, b :: (blanks ++ t.name ++ t.beforeList ++ '(' :: t.list ++ ')' :: t.beforeBody ++ '{' :: t.body ++
    '}' :: t.ending ++ rest), hi, hc, ?_, .word hc ?_ ?_⟩
  · simp [BlockText.chars, BlockText.header, BlockText.opening, hi, hb]
  · intro d hd
    exact hall d (hi ▸ List.mem_cons_of_mem c hd)
  · intro d hd
    obtain rfl : b = d := Option.some.inj hd
    exact not_isAsciiWord_of_isAsciiBlank (written.beforeName b (hb ▸ List.mem_cons_self))

/-- **At a block** the parameters are read, and then what stands behind it. -/
theorem extractFrom_written (opens : t.introducer = f.introducer.toList)
    (word : t.introducer ≠ [] ∧ ∀ c ∈ t.introducer, isAsciiWord c = true) (separated : t.beforeName ≠ [])
    (written : t.Written rest) (p : Position) :
    f.extractFrom p (t.chars ++ rest) = (do
      let params ← Param.readList f.width (String.ofList t.name) (p.advance t.opening) t.list
      let others ← f.extractFrom (p.advance t.chars) rest
      .ok { others with cuts := ([], ⟨p, t, params⟩) :: others.cuts }) := by
  obtain ⟨c, u, behind, hi, hc, hchars, hunit⟩ := exists_introducer_unit word separated written
  have hcut : BlockText.cut (c :: u) behind = .ok (t, rest) := BlockText.cut_eq_ok.mpr ⟨hi, written, hchars.symm⟩
  have hword : (isAsciiWord c && (c :: u) == f.introducer.toList) = true := by
    rw [hc, ← opens, hi, beq_self_eq_true]
    rfl
  rw [hchars, List.cons_append, extractFrom]
  simp only [hunit.firstUnit, hword, if_true]
  split
  · next flaw hflaw =>
    rw [hunit.firstUnit, hcut] at hflaw
    cases hflaw
  · next t' rest' hok =>
    rw [hunit.firstUnit, hcut] at hok
    cases hok
    rfl

/-- **A block** goes in front of what is found behind it. -/
theorem extractFrom_block {params : List Param} (opens : t.introducer = f.introducer.toList)
    (word : t.introducer ≠ [] ∧ ∀ c ∈ t.introducer, isAsciiWord c = true) (separated : t.beforeName ≠ [])
    (written : t.Written rest)
    (list : Param.readList f.width (String.ofList t.name) (p.advance t.opening) t.list = .ok params) :
    f.extractFrom p (t.chars ++ rest) = (f.extractFrom (p.advance t.chars) rest).map fun others =>
      { others with cuts := ([], ⟨p, t, params⟩) :: others.cuts } := by
  rw [extractFrom_written opens word separated written, list]
  rfl

theorem extractFrom_of_takenApart (h : TakenApart f p s cuts rest) : f.extractFrom p s = .ok ⟨cuts, rest⟩ := by
  induction h with
  | @rest p s passes =>
      have happend := extractFrom_append passes p
      rw [List.append_nil] at happend
      rw [happend, extractFrom]
      simp [Except.map, Extraction.prepend]
  | @block p gap s rest t params cuts passes opens word separated written list others ih =>
      rw [extractFrom_append passes, extractFrom_block opens word separated written list, ih]
      simp [Except.map, Extraction.prepend]

/-- **What the finder finds**: an extraction is the result exactly if it takes the source apart. -/
theorem extractFrom_eq_ok : f.extractFrom p s = .ok e ↔ TakenApart f p s e.cuts e.rest :=
  ⟨takenApart_of_extractFrom, extractFrom_of_takenApart⟩

end BlockFinder

end Inlay
