import Inlay.Proofs.Kernel.TakenApart
import Inlay.Proofs.Text.Lines

/-!
# `Proofs.Kernel.Scanned` — how far the scan has come

A source may be changed, or end badly, behind a place that the scan has reached. `Scanned` says that the finder reads
a text to its end, in front of what stands behind it, and which blocks it finds there: it goes over units that are not
the introducer, and over blocks that are well written and have parameters that can be read.

What is found in all of the source is what was found so far and what is found from there on (`blocksFrom_scanned`).
Of what stands behind, the scan has seen one character (`Scanned.exchange`). What it meets next does not depend on
the place either (`ahead`): the end, a unit, an introducer without a block, or a block, of which only the parameters
are still to be read.
-/

namespace Inlay

variable {f : BlockFinder} {p : Position} {c d : Char} {s front gap behind rest : List Char} {t : BlockText}
  {blocks blocks' : List Block} {params : List Param}

/-! ## Blocks without the text between them -/

theorem Extraction.blocks_prepend (text : List Char) (e : Extraction) : (e.prepend text).blocks = e.blocks := by
  obtain ⟨cuts, rest⟩ := e
  cases cuts <;> rfl

namespace BlockFinder

/-- The blocks that are found in a text that starts at `p`. -/
def blocksFrom (f : BlockFinder) (p : Position) (s : List Char) : Except Error (List Block) :=
  (f.extractFrom p s).map Extraction.blocks

theorem blocksFrom_eq_error {e : Error} : f.blocksFrom p s = .error e ↔ f.extractFrom p s = .error e :=
  map_eq_error

theorem blocksFrom_eq_ok : f.blocksFrom p s = .ok blocks ↔ ∃ e, f.extractFrom p s = .ok e ∧ e.blocks = blocks :=
  map_eq_ok

theorem blocksFrom_unit (unit : IsUnit (c :: s) behind)
    (other : isAsciiWord c = true → c :: s ≠ f.introducer.toList) (p : Position) :
    f.blocksFrom p (c :: s ++ behind) = f.blocksFrom (p.advance (c :: s)) behind := by
  rw [blocksFrom, extractFrom_unit unit other, blocksFrom]
  cases f.extractFrom (p.advance (c :: s)) behind with
  | error e => rfl
  | ok e => exact congrArg Except.ok (Extraction.blocks_prepend (c :: s) e)

theorem blocksFrom_block (opens : t.introducer = f.introducer.toList)
    (word : t.introducer ≠ [] ∧ ∀ c ∈ t.introducer, isAsciiWord c = true) (separated : t.beforeName ≠ [])
    (written : t.Written rest)
    (list : Param.readList f.width (String.ofList t.name) (p.advance t.opening) t.list = .ok params) :
    f.blocksFrom p (t.chars ++ rest) = (f.blocksFrom (p.advance t.chars) rest).map (⟨p, t, params⟩ :: ·) := by
  rw [blocksFrom, extractFrom_block opens word separated written list, blocksFrom]
  cases f.extractFrom (p.advance t.chars) rest with
  | error e => rfl
  | ok e => rfl

end BlockFinder

/-! ## What comes next -/

namespace BlockFinder

/-- **The introducer stands in front of `s`**, as a word of its own. -/
structure Opens (f : BlockFinder) (s : List Char) : Prop where
  word : f.introducer.toList ≠ [] ∧ ∀ c ∈ f.introducer.toList, isAsciiWord c = true
  ends : ∀ c ∈ s.head?, isAsciiWord c = false

/-- **What the scan meets next** in front of it. -/
inductive Ahead (f : BlockFinder) : List Char → Prop where
  | nothing : Ahead f []
  | unit {c : Char} {s behind : List Char} (unit : IsUnit (c :: s) behind)
      (other : isAsciiWord c = true → c :: s ≠ f.introducer.toList) : Ahead f (c :: s ++ behind)
  | flawed {s : List Char} {flaw : BlockFlaw} (opens : f.Opens s)
      (cut : BlockText.cut f.introducer.toList s = .error flaw) : Ahead f (f.introducer.toList ++ s)
  | block {t : BlockText} {rest : List Char} (opens : t.introducer = f.introducer.toList)
      (word : t.introducer ≠ [] ∧ ∀ c ∈ t.introducer, isAsciiWord c = true) (separated : t.beforeName ≠ [])
      (written : t.Written rest) : Ahead f (t.chars ++ rest)

/-- A unit that starts with a part of a word is a word. -/
theorem opens_of_unit (hunit : IsUnit (c :: s) behind) (hc : isAsciiWord c = true)
    (hi : c :: s = f.introducer.toList) : f.Opens behind := by
  cases hunit with
  | verbatim => exact absurd hc (by decide)
  | quoted quote => exact absurd quote (not_quote_of_isAsciiWord hc)
  | word start all ends =>
      refine ⟨⟨hi ▸ List.cons_ne_nil c s, ?_⟩, ends⟩
      rw [← hi, List.forall_mem_cons]
      exact ⟨start, all⟩
  | single _ word =>
      rw [word] at hc
      cases hc

/-- The introducer is a unit where it opens a block. -/
theorem Opens.exists_unit (h : f.Opens s) :
    ∃ c u, f.introducer.toList = c :: u ∧ isAsciiWord c = true ∧ IsUnit (c :: u) s := by
  obtain ⟨hne, hall⟩ := h.word
  obtain ⟨c, u, hi⟩ := List.exists_cons_of_ne_nil hne
  rw [hi, List.forall_mem_cons] at hall
  exact ⟨c, u, hi, hall.1, .word hall.1 hall.2 h.ends⟩

/-- **Something comes next.** -/
theorem ahead (f : BlockFinder) (s : List Char) : f.Ahead s := by
  cases s with
  | nil => exact .nothing
  | cons c s =>
      obtain ⟨u, hu⟩ := exists_firstUnit c s
      have hunit := isUnit_firstUnit c s
      have happend := firstUnit_append c s
      generalize (firstUnit c s).2 = behind at hunit happend
      rw [hu] at hunit happend
      rw [← happend]
      by_cases hopens : isAsciiWord c = true ∧ c :: u = f.introducer.toList
      · obtain ⟨hc, hi⟩ := hopens
        have hbehind := opens_of_unit hunit hc hi
        rw [hi]
        cases hcut : BlockText.cut f.introducer.toList behind with
        | error flaw => exact .flawed hbehind hcut
        | ok found =>
            obtain ⟨t, rest⟩ := found
            obtain ⟨hopens, hwritten, hchars⟩ := BlockText.cut_eq_ok.mp hcut
            have hseparated : t.beforeName ≠ [] :=
              beforeName_ne_nil hunit hc hwritten (by rw [hopens, hchars])
            rw [hchars]
            exact .block hopens (hopens ▸ hbehind.word) hseparated hwritten
      · refine .unit hunit fun hc hi => ?_
        exact hopens ⟨hc, hi⟩

/-- **Induction along the scan**: what comes next, and then what stands behind it. -/
theorem ahead_induction (f : BlockFinder) {motive : List Char → Prop} (nothing : motive [])
    (unit : ∀ c s behind, IsUnit (c :: s) behind → (isAsciiWord c = true → c :: s ≠ f.introducer.toList) →
      motive behind → motive (c :: s ++ behind))
    (flawed : ∀ s flaw, f.Opens s → BlockText.cut f.introducer.toList s = .error flaw →
      motive (f.introducer.toList ++ s))
    (block : ∀ (t : BlockText) (rest : List Char), t.introducer = f.introducer.toList →
      (t.introducer ≠ [] ∧ ∀ c ∈ t.introducer, isAsciiWord c = true) → t.beforeName ≠ [] → t.Written rest →
      motive rest → motive (t.chars ++ rest))
    (s : List Char) : motive s := by
  -- what comes next takes at least one character
  induction hlength : s.length using Nat.strongRecOn generalizing s with
  | ind k ih =>
      subst hlength
      cases f.ahead s with
      | nothing => exact nothing
      | @unit c u behind hunit other =>
          apply unit c u behind hunit other
          apply ih behind.length _ behind rfl
          rw [List.length_append, List.length_cons]
          omega
      | @flawed s flaw opens cut => exact flawed s flaw opens cut
      | @block t rest opens word separated written =>
          apply block t rest opens word separated written
          apply ih rest.length _ rest rfl
          rw [List.length_append, BlockText.chars, List.length_append, List.length_append, List.length_cons]
          omega

/-- **An introducer without a block** ends the extraction. -/
theorem extractFrom_flawed {flaw : BlockFlaw} (h : f.Opens s)
    (hcut : BlockText.cut f.introducer.toList s = .error flaw) (p : Position) :
    f.extractFrom p (f.introducer.toList ++ s) = .error (.malformedBlock p.line flaw.message) := by
  obtain ⟨c, u, hi, hc, hunit⟩ := h.exists_unit
  have hword : (isAsciiWord c && (c :: u) == f.introducer.toList) = true := by
    rw [hc, hi, beq_self_eq_true]
    rfl
  rw [hi] at hcut
  rw [hi, List.cons_append, extractFrom]
  simp only [hunit.firstUnit, hword, if_true]
  split
  · next flaw' hflaw =>
    rw [hunit.firstUnit, hcut] at hflaw
    cases hflaw
    rfl
  · next t rest hok =>
    rw [hunit.firstUnit, hcut] at hok
    cases hok

/-- **A block of which the parameters cannot be read** ends the extraction. -/
theorem extractFrom_unread {e : Error} (opens : t.introducer = f.introducer.toList)
    (word : t.introducer ≠ [] ∧ ∀ c ∈ t.introducer, isAsciiWord c = true) (separated : t.beforeName ≠ [])
    (written : t.Written rest)
    (list : Param.readList f.width (String.ofList t.name) (p.advance t.opening) t.list = .error e) :
    f.extractFrom p (t.chars ++ rest) = .error e := by
  rw [extractFrom_written opens word separated written, list]
  rfl

end BlockFinder

/-! ## The scan up to a place -/

/-- **A scanned text** from `p` on, in front of `behind`: the finder reads it to its end and finds `blocks` in it. -/
inductive Scanned (f : BlockFinder) : Position → List Char → List Char → List Block → Prop where
  | nil {p : Position} {behind : List Char} : Scanned f p [] behind []
  /-- A literal, a word other than the introducer or a single character. -/
  | unit {p : Position} {c : Char} {s front behind : List Char} {blocks : List Block}
      (unit : IsUnit (c :: s) (front ++ behind))
      (other : isAsciiWord c = true → c :: s ≠ f.introducer.toList)
      (others : Scanned f (p.advance (c :: s)) front behind blocks) : Scanned f p (c :: s ++ front) behind blocks
  /-- A well-formed block. -/
  | block {p : Position} {t : BlockText} {params : List Param} {front behind : List Char} {blocks : List Block}
      (opens : t.introducer = f.introducer.toList)
      (word : t.introducer ≠ [] ∧ ∀ c ∈ t.introducer, isAsciiWord c = true)
      (separated : t.beforeName ≠ [])
      (written : t.Written (front ++ behind))
      (list : Param.readList f.width (String.ofList t.name) (p.advance t.opening) t.list = .ok params)
      (others : Scanned f (p.advance t.chars) front behind blocks) :
      Scanned f p (t.chars ++ front) behind (⟨p, t, params⟩ :: blocks)

namespace Scanned

/-- **Scanned texts put together are scanned.** -/
theorem append (h : Scanned f p front (gap ++ behind) blocks) (h' : Scanned f (p.advance front) gap behind blocks') :
    Scanned f p (front ++ gap) behind (blocks ++ blocks') := by
  generalize hall : gap ++ behind = all at h
  induction h with
  | nil => exact h'
  | @unit p c s front _ blocks unit other _ ih =>
      subst hall
      rw [List.append_assoc]
      rw [← List.append_assoc] at unit
      rw [Position.advance_append] at h'
      exact .unit unit other (ih h' rfl)
  | @block p t params front _ blocks opens word separated written list _ ih =>
      subst hall
      rw [List.append_assoc]
      rw [← List.append_assoc] at written
      rw [Position.advance_append] at h'
      exact .block opens word separated written list (ih h' rfl)

end Scanned

/-! ### What stands behind -/

namespace BlockText

/-- A semicolon behind blanks of a line is in the text or `d` itself, and so it does not depend on what follows. -/
theorem exists_semicolon {blanks tail : List Char} (hd : isLineBlank d = false)
    (hblanks : ∀ c ∈ blanks, isLineBlank c = true) (heq : front ++ d :: rest = blanks ++ ';' :: tail)
    (behind : List Char) : ∃ tail', front ++ d :: behind = blanks ++ ';' :: tail' := by
  induction front generalizing blanks with
  | nil =>
      cases blanks with
      | nil =>
          obtain rfl : d = ';' := (List.cons.inj heq).1
          exact ⟨behind, rfl⟩
      | cons b blanks =>
          obtain rfl : d = b := (List.cons.inj heq).1
          rw [hblanks d List.mem_cons_self] at hd
          cases hd
  | cons c front ih =>
      cases blanks with
      | nil =>
          obtain rfl : c = ';' := (List.cons.inj heq).1
          exact ⟨front ++ d :: behind, rfl⟩
      | cons b blanks =>
          simp only [List.cons_append, List.cons.injEq] at heq
          obtain ⟨rfl, heq⟩ := heq
          obtain ⟨tail', htail⟩ := ih (fun x hx => hblanks x (List.mem_cons_of_mem c hx)) heq
          exact ⟨tail', congrArg (c :: ·) htail⟩

/-- **An ending sees** up to the first character that is no blank of its line. -/
theorem Ending.exchange {ending : List Char} (h : Ending ending (front ++ d :: behind)) (hd : isLineBlank d = false)
    (rest : List Char) : Ending ending (front ++ d :: rest) := by
  generalize hall : front ++ d :: behind = all at h
  cases h with
  | semicolon blank => exact .semicolon blank
  | absent other =>
      subst hall
      apply Ending.absent
      intro blanks tail hblanks heq
      obtain ⟨tail', htail⟩ := exists_semicolon hd hblanks heq behind
      exact other blanks tail' hblanks htail

theorem Written.exchange (h : t.Written (front ++ d :: behind)) (hd : isLineBlank d = false) (rest : List Char) :
    t.Written (front ++ d :: rest) :=
  { h with ending := h.ending.exchange hd rest }

end BlockText

/-- **What stands behind may be exchanged** if it starts with the same character, which is no blank of a line. -/
theorem Scanned.exchange (h : Scanned f p front (d :: behind) blocks) (hd : isLineBlank d = false) (rest : List Char) :
    Scanned f p front (d :: rest) blocks := by
  generalize hall : d :: behind = all at h
  induction h with
  | nil => exact .nil
  | @unit p c s front _ blocks unit other _ ih =>
      subst hall
      refine .unit ?_ other (ih rfl)
      cases front with
      | nil => exact unit.alike (.refl d) rest
      | cons g front => exact unit.alike (.refl g) (front ++ d :: rest)
  | @block p t params front _ blocks opens word separated written list _ ih =>
      subst hall
      exact .block opens word separated (written.exchange hd rest) list (ih rfl)

/-! ### What is found -/

/-- **What is found from a place that the scan has reached** goes behind what was found so far. -/
theorem BlockFinder.blocksFrom_scanned (h : Scanned f p front behind blocks) :
    f.blocksFrom p (front ++ behind) = (f.blocksFrom (p.advance front) behind).map (blocks ++ ·) := by
  induction h with
  | @nil p behind =>
      show f.blocksFrom p behind = (f.blocksFrom p behind).map id
      cases f.blocksFrom p behind <;> rfl
  | @unit p c s front behind blocks unit other _ ih =>
      rw [List.append_assoc, blocksFrom_unit unit other, ih, Position.advance_append]
  | @block p t params front behind blocks opens word separated written list _ ih =>
      rw [List.append_assoc, blocksFrom_block opens word separated written list, ih, Position.advance_append]
      cases f.blocksFrom ((p.advance t.chars).advance front) behind <;> rfl

/-- The blocks that were found so far lie in front of the place. -/
theorem Scanned.stop_le (h : Scanned f p front behind blocks) :
    ∀ b ∈ blocks, b.stop ≤ p.offset + byteLength front := by
  induction h with
  | nil => exact fun b hb => nomatch hb
  | @unit p c s front behind blocks unit other _ ih =>
      intro b hb
      have hle := ih b hb
      rw [(advance_offset_line p (c :: s)).1] at hle
      rw [byteLength_append]
      omega
  | @block p t params front behind blocks opens word separated written list _ ih =>
      intro b hb
      rw [byteLength_append]
      rcases List.mem_cons.mp hb with rfl | hb
      · show p.offset + byteLength t.chars ≤ _
        omega
      · have hle := ih b hb
        rw [(advance_offset_line p t.chars).1] at hle
        omega

end Inlay
