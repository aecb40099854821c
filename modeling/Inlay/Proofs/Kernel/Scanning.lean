import Inlay.Kernel.Extraction
import Inlay.Proofs.Text.Classes
import Inlay.Proofs.Text.Literals
import Inlay.Proofs.Text.Words

/-!
# `Proofs.Kernel.Scanning` — the scan for the introducer

The finder reads a source unit by unit and looks at no character twice, but a unit ends where the next character says
so: a word goes on over word characters, a closed verbatim literal over another quote (`IsUnit`). That one character
is all that a unit sees of what stands behind it, and it cannot tell two parts of words apart (`IsUnit.alike`).

`Passes` says that a scan goes over a text to its end, in front of what stands behind it, and meets no introducer.
What stands behind may be exchanged for something that starts alike (`Passes.alike`), and passed texts put together
are passed (`Passes.append`). So a source can be changed in one place without reading the rest of it again.
-/

namespace Inlay

variable {c d d' x : Char} {s t t' u v word gap gap' behind : List Char}

/-! ## One unit -/

/-- **A unit** in front of `t`: a literal, a word or a single character. -/
inductive IsUnit : List Char → List Char → Prop where
  | verbatim {s t : List Char} (literal : Verbatim s t) : IsUnit ('@' :: '"' :: s) t
  | quoted {c : Char} {s t : List Char} (quote : c = '"' ∨ c = '\'') (literal : Quoted c s t) : IsUnit (c :: s) t
  | word {c : Char} {s t : List Char} (start : isAsciiWord c = true) (all : ∀ d ∈ s, isAsciiWord d = true)
      (ends : ∀ d ∈ t.head?, isAsciiWord d = false) : IsUnit (c :: s) t
  | single {c : Char} {t : List Char} (quote : ¬(c = '"' ∨ c = '\'')) (word : isAsciiWord c = false)
      (verbatim : c = '@' → t.head? ≠ some '"') : IsUnit [c] t

theorem not_quote_of_isAsciiWord (hc : isAsciiWord c = true) : ¬(c = '"' ∨ c = '\'') :=
  not_or.mpr ⟨ne_of_class hc rfl, ne_of_class hc rfl⟩

theorem firstUnit_quote (hc : c = '"' ∨ c = '\'') (s : List Char) :
    firstUnit c s = (c :: (spanQuoted c s).1, (spanQuoted c s).2) := by
  unfold firstUnit
  split
  · rcases hc with hc | hc <;> cases hc
  · rw [if_pos hc]

theorem firstUnit_word (hc : isAsciiWord c = true) (s : List Char) :
    firstUnit c s = (c :: s.takeWhile isAsciiWord, s.dropWhile isAsciiWord) := by
  unfold firstUnit
  split
  · exact absurd hc (by decide)
  · rw [if_neg (not_quote_of_isAsciiWord hc), if_pos hc]

theorem firstUnit_single (hquote : ¬(c = '"' ∨ c = '\'')) (hword : isAsciiWord c = false)
    (hat : c = '@' → s.head? ≠ some '"') : firstUnit c s = ([c], s) := by
  unfold firstUnit
  split
  · exact absurd rfl (hat rfl)
  · rw [if_neg hquote, hword, if_neg Bool.false_ne_true]

/-- **What is read first is a unit.** -/
theorem isUnit_firstUnit (c : Char) (s : List Char) : IsUnit (firstUnit c s).1 (firstUnit c s).2 := by
  by_cases hat : c = '@' ∧ s.head? = some '"'
  · obtain ⟨rfl, hhead⟩ := hat
    obtain ⟨s', rfl⟩ := List.head?_eq_some_iff.mp hhead
    exact .verbatim (verbatim_spanVerbatim s')
  by_cases hquote : c = '"' ∨ c = '\''
  · rw [firstUnit_quote hquote]
    exact .quoted hquote (quoted_spanQuoted c s)
  by_cases hword : isAsciiWord c = true
  · rw [firstUnit_word hword]
    refine .word hword (fun d => of_mem_takeWhile) fun d hd => ?_
    obtain ⟨v, hv⟩ := List.head?_eq_some_iff.mp hd
    exact not_of_dropWhile hv
  · have hsingle : c = '@' → s.head? ≠ some '"' := fun hc hhead => hat ⟨hc, hhead⟩
    rw [Bool.not_eq_true] at hword
    rw [firstUnit_single hquote hword hsingle]
    exact .single hquote hword hsingle

/-- **A unit is read first.** -/
theorem IsUnit.firstUnit (h : IsUnit (c :: s) t) : Inlay.firstUnit c (s ++ t) = (c :: s, t) := by
  cases h with
  | @verbatim s _ literal =>
      show ('@' :: '"' :: (spanVerbatim (s ++ t)).1, (spanVerbatim (s ++ t)).2) = _
      rw [literal.spanVerbatim]
  | quoted quote literal => rw [firstUnit_quote quote, literal.spanQuoted]
  | word start all ends => rw [firstUnit_word start, takeWhile_run all ends, dropWhile_run all ends]
  | single quote word verbatim => exact firstUnit_single quote word verbatim

/-! ## What a unit sees of what stands behind it -/

/-- **Two characters that no unit in front of them can tell apart**: the same, or two parts of words. -/
def Alike (d d' : Char) : Prop :=
  d' = d ∨ (isAsciiWord d = true ∧ isAsciiWord d' = true)

theorem Alike.refl (d : Char) : Alike d d := Or.inl rfl

theorem Alike.ne (h : Alike d d') (hx : isAsciiWord x = false) (hd : d ≠ x) : d' ≠ x := by
  rcases h with rfl | ⟨-, hd'⟩
  · exact hd
  · rintro rfl
    rw [hx] at hd'
    cases hd'

theorem Alike.eq (h : Alike d d') (hd : isAsciiWord d = false) : d' = d := by
  rcases h with rfl | ⟨hword, -⟩
  · rfl
  · rw [hd] at hword
    cases hword

/-- A quoted literal ends in the same place. If nothing closes it, it ends in front of a newline. -/
theorem Quoted.alike {q : Char} (h : Quoted q s (d :: t)) (hd : Alike d d') (t' : List Char) :
    Quoted q s (d' :: t') := by
  generalize hbehind : d :: t = behind at h
  induction h with
  | closed escape newline => exact .closed escape newline
  | newline =>
      cases hbehind
      rw [hd.eq rfl]
      exact .newline
  | stop | stopEscape => cases hbehind
  | escape c _ ih => exact .escape c (ih hbehind)
  | char escape newline quote _ ih => exact .char escape newline quote (ih hbehind)

/-- A verbatim literal ends in the same place, since no quote is put behind it. -/
theorem Verbatim.alike (h : Verbatim s (d :: t)) (hd : Alike d d') (t' : List Char) : Verbatim s (d' :: t') := by
  generalize hbehind : d :: t = behind at h
  induction h with
  | closed single =>
      subst hbehind
      refine .closed fun hquote => ?_
      exact hd.ne rfl (fun hd => single (congrArg some hd)) (Option.some.inj hquote)
  | stop => cases hbehind
  | double _ ih => exact .double (ih hbehind)
  | char quote _ ih => exact .char quote (ih hbehind)

/-- **A unit sees one character behind it**, and of that only whether it is part of a word if it is. -/
theorem IsUnit.alike (h : IsUnit u (d :: t)) (hd : Alike d d') (t' : List Char) : IsUnit u (d' :: t') := by
  cases h with
  | verbatim literal => exact .verbatim (literal.alike hd t')
  | quoted quote literal => exact .quoted quote (literal.alike hd t')
  | word start all ends =>
      have hends := ends d rfl
      rw [hd.eq hends]
      exact .word start all fun x hx => Option.some.inj hx ▸ hends
  | single quote word verbatim =>
      refine .single quote word fun hc hquote => ?_
      exact hd.ne rfl (fun hd => verbatim hc (congrArg some hd)) (Option.some.inj hquote)

/-- A unit in front of a part of a word does not end with a part of one. -/
theorem IsUnit.getLast? (h : IsUnit u (d :: t)) (hd : isAsciiWord d = true) :
    ∀ x ∈ u.getLast?, isAsciiWord x = false := by
  intro x hx
  cases h with
  | verbatim literal =>
      have hlast := literal.getLast?
      simp only [List.getLast?_cons, hlast, Option.getD_some, Option.mem_def, Option.some.injEq] at hx
      exact hx ▸ rfl
  | quoted quote literal =>
      have hnewline : d ≠ '\n' := ne_of_class hd rfl
      have hlast := literal.getLast? hnewline
      simp only [List.getLast?_cons, hlast, Option.getD_some, Option.mem_def, Option.some.injEq] at hx
      subst hx
      rcases quote with rfl | rfl <;> rfl
  | word start all ends =>
      rw [ends d rfl] at hd
      cases hd
  | single quote word verbatim => exact Option.some.inj hx ▸ word

/-- Whether a character starts no literal. -/
def isInert (c : Char) : Bool :=
  c != '"' && c != '\'' && c != '@'

theorem isInert_iff : isInert c = true ↔ ¬(c = '"' ∨ c = '\'') ∧ c ≠ '@' := by
  simp [isInert, not_or]

/-- The words that an introducer is compared with: the longest runs of characters of words. -/
def asciiWords (s : List Char) : List (List Char) :=
  wordsBy (fun c => !isAsciiWord c) s

theorem isInert_of_isAsciiWord (hc : isAsciiWord c = true) : isInert c = true :=
  isInert_iff.mpr ⟨not_quote_of_isAsciiWord hc, ne_of_class hc rfl⟩

/-! ## The scan -/

/-- **The scan passes a text** in front of `behind`: its units end where the text ends, and none of its words is the
    introducer. -/
inductive Passes (introducer : List Char) : List Char → List Char → Prop where
  | nil {behind : List Char} : Passes introducer [] behind
  | unit {c : Char} {s gap behind : List Char} (unit : IsUnit (c :: s) (gap ++ behind))
      (other : isAsciiWord c = true → c :: s ≠ introducer) (others : Passes introducer gap behind) :
      Passes introducer (c :: s ++ gap) behind

namespace Passes

/-- **Passed texts put together are passed.** -/
theorem append (h : Passes word gap (gap' ++ behind)) (h' : Passes word gap' behind) :
    Passes word (gap ++ gap') behind := by
  generalize hbehind : gap' ++ behind = all at h
  induction h with
  | nil => exact h'
  | unit unit other _ ih =>
      subst hbehind
      rw [List.append_assoc]
      rw [← List.append_assoc] at unit
      exact .unit unit other (ih rfl)

/-- **What stands behind may be exchanged** for something that starts alike. -/
theorem alike (h : Passes word gap (d :: t)) (hd : Alike d d') (t' : List Char) : Passes word gap (d' :: t') := by
  generalize hbehind : d :: t = behind at h
  induction h with
  | nil => exact .nil
  | @unit c s gap _ unit other _ ih =>
      subst hbehind
      refine .unit ?_ other (ih rfl)
      -- the unit sees the next character of the text, or the first one behind
      cases gap with
      | nil => exact unit.alike hd t'
      | cons g gap => exact unit.alike (.refl g) (gap ++ d' :: t')

/-- A text that is passed in front of a part of a word does not end with a part of one. -/
theorem getLast? (h : Passes word gap (d :: t)) (hd : isAsciiWord d = true) :
    ∀ x ∈ gap.getLast?, isAsciiWord x = false := by
  generalize hbehind : d :: t = behind at h
  induction h with
  | nil => exact fun x hx => nomatch hx
  | @unit c s gap _ unit other _ ih =>
      subst hbehind
      intro x hx
      rw [List.getLast?_append] at hx
      cases hlast : gap.getLast? with
      | none =>
          obtain rfl := List.getLast?_eq_none_iff.mp hlast
          exact unit.getLast? hd x hx
      | some y =>
          rw [hlast] at hx
          exact ih rfl x (by rw [hlast]; exact hx)

/-- **A text without quotes and at signs is passed** in front of anything if it does not end with a part of a word
    and the introducer is none of its words. -/
theorem of_inert (hinert : ∀ c ∈ s, isInert c = true) (hlast : ∀ x ∈ s.getLast?, isAsciiWord x = false)
    (hwords : word ∉ asciiWords s) (behind : List Char) : Passes word s behind := by
  unfold asciiWords at hwords
  induction s using runs_induction fun c => !isAsciiWord c with
  | run u hu =>
      cases hend : u.getLast? with
      | none =>
          obtain rfl := List.getLast?_eq_none_iff.mp hend
          exact .nil
      | some x =>
          have hx := hu x (List.mem_of_getLast? hend)
          rw [hlast x hend] at hx
          cases hx
  | cut u c v hu hc ih =>
      have hcword : isAsciiWord c = false := by simpa using hc
      obtain ⟨hquote, hat⟩ := isInert_iff.mp (hinert c (List.mem_append_right u List.mem_cons_self))
      rw [wordsBy_append_cons hc, List.mem_append, not_or] at hwords
      -- behind the character that ends the run
      have hv : Passes word v behind := by
        refine ih (fun d hd => hinert d ?_) (fun x hx => hlast x ?_) hwords.2
        · exact List.mem_append_right u (List.mem_cons_of_mem c hd)
        · rw [List.getLast?_append, List.getLast?_cons, hx]
          rfl
      have hchar : Passes word (c :: v) behind :=
        .unit (.single hquote hcword fun h => absurd h hat)
          (fun h => absurd h (by rw [hcword]; exact Bool.false_ne_true)) hv
      -- the run itself is a word
      cases u with
      | nil => exact hchar
      | cons d u =>
          have hword : ∀ x ∈ d :: u, isAsciiWord x = true := fun x hx => by simpa using hu x hx
          refine .unit (.word (hword d List.mem_cons_self) (fun x hx => hword x (List.mem_cons_of_mem d hx)) ?_)
            (fun _ heq => hwords.1 ?_) hchar
          · intro x hx
            exact Option.some.inj hx ▸ hcword
          · rw [wordsBy_run (List.cons_ne_nil d u) hu, heq]
            exact List.mem_singleton_self word

end Passes

end Inlay
