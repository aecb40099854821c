import Inlay.Proofs.Fallible
import Inlay.Proofs.Lexing.TokenRow
import Inlay.Proofs.Text.Doubled
import Inlay.Proofs.Text.Words
import Inlay.Template.Expansion

/-!
# `Proofs.Expansion.RawForms` — a source is its segments, written out

Each segment has a raw form (`Segment.Raw`): a literal run is its text, a tag its text with its brackets, and a line
tag what is left of its line. What may stand in a raw form keeps it apart from what follows, so a text is put together
from raw forms in one way only (`Tiled`), and this is the way in which it is cut (`Tiled.segmentsFrom`).

Cutting comes to the end of every text, or to brackets that open a tag and are not closed (`exists_tiled`). So a source
has the segments that it is tiled by, and a fault exactly at brackets of that kind (`segments_tile_source`).
-/

namespace Inlay

variable {s t before behind text raw body line rest ending : List Char} {p : Position} {part : Segment}
  {parts others : List Segment} {fault : SyntaxFault}

/-! ## Raw forms -/

/-- **The end of a line** in front of a text: a newline, or the end of all text. -/
inductive LineEnd : List Char → List Char → Prop
  | newline {behind : List Char} : LineEnd ['\n'] behind
  | endOfText : LineEnd [] []

/-- **The raw form of a segment**, with a text behind it. -/
inductive Segment.Raw : Segment → List Char → List Char → Prop
  /-- A literal run has a character. It reaches to the first opening brackets, or to the end of the text. -/
  | literal {text behind : List Char} (nonempty : text ≠ []) (untagged : ¬ ['[', '['] <:+: text ++ behind.take 1)
      (ends : behind = [] ∨ ['[', '['] <+: behind) : Raw (.literal text) text behind
  /-- Code does not start with a character that marks another tag. A tag reaches to its first closing brackets. -/
  | code {text behind : List Char} (unmarked : ∀ c ∈ text.head?, c ∉ ['~', '=', '#'])
      (inside : ¬ [']', ']'] <:+: text ++ [']']) : Raw (.code text) ("[[".toList ++ text ++ "]]".toList) behind
  | expression {text behind : List Char} (inside : ¬ [']', ']'] <:+: text ++ [']']) :
      Raw (.expression text) ("[[=".toList ++ text ++ "]]".toList) behind
  | comment {text behind : List Char} (inside : ¬ [']', ']'] <:+: text ++ [']']) :
      Raw (.comment text) ("[[#".toList ++ text ++ "]]".toList) behind
  /-- A line tag has its line for itself. Closing brackets at the end of the line are no code, and blanks are not,
      either, unless the brackets stand behind them. -/
  | lineCode {text close blanks ending behind : List Char} (inside : '\n' ∉ text ++ blanks)
      (closed : close = "]]".toList ∨ close = [] ∧ (∀ c ∈ text.getLast?, isBlank c = false) ∧ ¬ "]]".toList <:+ text)
      (blank : ∀ c ∈ blanks, isBlank c = true) (ends : LineEnd ending behind) :
      Raw (.lineCode text) ("[[~".toList ++ text ++ close ++ blanks ++ ending) behind

/-- **A text that is tiled** by the raw forms of segments, in their order, with a text behind it. -/
inductive Tiled : List Segment → List Char → List Char → Prop
  | nil {behind : List Char} : Tiled [] [] behind
  | cons {part : Segment} {parts : List Segment} {raw s behind : List Char} (first : part.Raw raw (s ++ behind))
      (others : Tiled parts s behind) : Tiled (part :: parts) (raw ++ s) behind

/-- **Brackets that are not closed**: they open no line tag, and no closing brackets follow. -/
def Unclosed (behind : List Char) : Prop :=
  behind.head? ≠ some '~' ∧ ¬ [']', ']'] <:+: behind

theorem Tiled.append (h : Tiled parts s (t ++ behind)) (h' : Tiled others t behind) :
    Tiled (parts ++ others) (s ++ t) behind := by
  generalize hrest : t ++ behind = rest at h
  induction h with
  | nil => exact h'
  | cons first _ ih =>
      subst hrest
      rw [List.append_assoc, List.cons_append]
      refine .cons ?_ (ih rfl)
      rw [List.append_assoc]
      exact first

namespace Segment

/-! ### Tags with two brackets at their end -/

theorem raw_ofBody (unmarked : body.head? ≠ some '~') (inside : ¬ [']', ']'] <:+: body ++ [']']) :
    (ofBody body).Raw ('[' :: '[' :: body ++ [']', ']']) behind := by
  have hinside : ∀ {c : Char} {text : List Char}, body = c :: text → ¬ [']', ']'] <:+: text ++ [']'] := by
    rintro c text rfl h
    exact inside (List.infix_cons_iff.mpr (.inr h))
  unfold ofBody
  split
  · exact .expression (hinside rfl)
  · exact .comment (hinside rfl)
  · next _ hexpression hcomment =>
    refine .code ?_ inside
    intro c hc
    obtain ⟨text, rfl⟩ := List.head?_eq_some_iff.mp hc
    simp only [List.mem_cons, List.not_mem_nil, or_false, not_or]
    refine ⟨?_, ?_, ?_⟩
    · rintro rfl
      exact unmarked rfl
    · rintro rfl
      exact hexpression _ rfl
    · rintro rfl
      exact hcomment _ rfl

/-! ### Line tags -/

theorem ofLine_closed (text : List Char) {blanks : List Char} (h : ∀ c ∈ blanks, isBlank c = true) :
    ofLine (text ++ "]]".toList ++ blanks) = .lineCode text := by
  have htrim : trimEnd (text ++ "]]".toList ++ blanks) = text ++ "]]".toList := by
    rw [trimEnd_append_right _ h]
    have hend := trimEnd_append (text ++ [']']) (c := ']') (by decide)
    simpa using hend
  unfold ofLine
  rw [htrim]
  simp

theorem trimEnd_eq_self (h : ∀ c ∈ text.getLast?, isBlank c = false) : trimEnd text = text := by
  induction text using List.reverseRecOn with
  | nil => rfl
  | append_singleton text c _ => exact trimEnd_append text (h c (by simp))

theorem ofLine_open {blanks : List Char} (hlast : ∀ c ∈ text.getLast?, isBlank c = false)
    (hopen : ¬ "]]".toList <:+ text) (h : ∀ c ∈ blanks, isBlank c = true) :
    ofLine (text ++ blanks) = .lineCode text := by
  unfold ofLine
  rw [trimEnd_append_right _ h, trimEnd_eq_self hlast]
  split
  · next u hu =>
    refine absurd ⟨u.reverse, ?_⟩ hopen
    rw [← List.reverse_reverse text, hu]
    simp
  · rw [List.reverse_reverse]

/-- A text that is trimmed does not end with a blank. -/
theorem not_isBlank_getLast?_trimEnd (s : List Char) : ∀ c ∈ (trimEnd s).getLast?, isBlank c = false := by
  intro c hc
  rw [trimEnd, List.getLast?_reverse] at hc
  obtain ⟨u, hu⟩ := List.head?_eq_some_iff.mp hc
  exact not_of_dropWhile hu

theorem raw_ofLine (hline : '\n' ∉ line) (ends : LineEnd ending behind) :
    (ofLine line).Raw ('[' :: '[' :: '~' :: line ++ ending) behind := by
  obtain ⟨blanks, hblanks, hsplit⟩ := exists_eq_trimEnd_append_blanks line
  by_cases hclose : "]]".toList <:+ trimEnd line
  · obtain ⟨text, htext⟩ := hclose
    rw [← htext] at hsplit
    subst hsplit
    rw [ofLine_closed text hblanks]
    have hinside : '\n' ∉ text ++ blanks := by
      simp at hline ⊢
      exact hline
    exact .lineCode hinside (.inl rfl) hblanks ends
  · have hlast := not_isBlank_getLast?_trimEnd line
    generalize trimEnd line = text at hclose hlast hsplit
    subst hsplit
    rw [ofLine_open hlast hclose hblanks]
    have hraw : '[' :: '[' :: '~' :: (text ++ blanks) ++ ending =
        "[[~".toList ++ text ++ [] ++ blanks ++ ending := by simp
    rw [hraw]
    exact .lineCode hline (.inr ⟨rfl, hlast, hclose⟩) hblanks ends

end Segment

/-! ## Cutting a tiled text -/

/-- A text without tags is one literal run, unless it is empty. -/
theorem segmentsFrom_of_no_tag (h : cutAtDouble? '[' s = none) : segmentsFrom p s = .ok (Segment.run s) := by
  rw [segmentsFrom]
  split
  · rfl
  · next hcut => cases h.symm.trans hcut
  · next _ hcut => cases h.symm.trans hcut

/-- The segments of a text with `before` in front of its first opening brackets and `behind` behind them. -/
def segmentsBehind (p : Position) (before behind : List Char) : Except SyntaxFault (List Segment) :=
  match behind with
  | '~' :: rest =>
    let line := firstLine rest
    (segmentsFrom (p.advance (before ++ '[' :: '[' :: '~' :: rest.take (line.length + 1)))
      (rest.drop (line.length + 1))).map (Segment.run before ++ Segment.ofLine line :: ·)
  | _ =>
    match cutAtDouble? ']' behind with
    | none => .error ⟨p.advance before, .unterminatedTag⟩
    | some (body, rest) =>
      (segmentsFrom (p.advance (before ++ '[' :: '[' :: body ++ [']', ']'])) rest).map
        (Segment.run before ++ Segment.ofBody body :: ·)

theorem segmentsBehind_line (p : Position) (before rest : List Char) : segmentsBehind p before ('~' :: rest) =
    (segmentsFrom (p.advance (before ++ '[' :: '[' :: '~' :: rest.take ((firstLine rest).length + 1)))
      (rest.drop ((firstLine rest).length + 1))).map
        (Segment.run before ++ Segment.ofLine (firstLine rest) :: ·) := rfl

theorem segmentsBehind_unmarked (p : Position) (before : List Char) (hmark : behind.head? ≠ some '~') :
    segmentsBehind p before behind =
      match cutAtDouble? ']' behind with
      | none => .error ⟨p.advance before, .unterminatedTag⟩
      | some (body, rest) =>
        (segmentsFrom (p.advance (before ++ '[' :: '[' :: body ++ [']', ']'])) rest).map
          (Segment.run before ++ Segment.ofBody body :: ·) := by
  unfold segmentsBehind
  split
  · exact absurd rfl hmark
  · rfl

theorem segmentsFrom_of_cut (hcut : cutAtDouble? '[' s = some (before, behind)) (p : Position) :
    segmentsFrom p s = segmentsBehind p before behind := by
  rw [segmentsFrom]
  split
  · next hnone => simp [hcut] at hnone
  · next heq =>
    obtain ⟨rfl, rfl⟩ : before = _ ∧ behind = _ := by simpa [hcut] using heq
    rfl
  · next hother heq =>
    obtain ⟨rfl, rfl⟩ : before = _ ∧ behind = _ := by simpa [hcut] using heq
    have hmark : behind.head? ≠ some '~' := by
      intro hhead
      obtain ⟨rest, hrest⟩ := List.head?_eq_some_iff.mp hhead
      exact hother rest hrest
    rw [segmentsBehind_unmarked p before hmark]
    split
    · next hclose => rw [hclose]
    · next hclose =>
      rw [hclose]
      rfl

/-- **What stands in front of the first tag** is a literal run. -/
theorem segmentsBehind_run (p : Position) (before behind : List Char) : segmentsBehind p before behind =
    (segmentsBehind (p.advance before) [] behind).map (Segment.run before ++ ·) := by
  have hmap : ∀ (part : Segment) (x : Except SyntaxFault (List Segment)),
      x.map (Segment.run before ++ part :: ·) = (x.map (part :: ·)).map (Segment.run before ++ ·) := by
    intro part x
    cases x <;> rfl
  by_cases hmark : behind.head? = some '~'
  · obtain ⟨rest, rfl⟩ := List.head?_eq_some_iff.mp hmark
    rw [segmentsBehind_line, segmentsBehind_line, Position.advance_append]
    exact hmap _ _
  · rw [segmentsBehind_unmarked _ _ hmark, segmentsBehind_unmarked _ _ hmark]
    cases cutAtDouble? ']' behind with
    | none => rfl
    | some cut =>
        dsimp only
        rw [List.append_assoc, Position.advance_append]
        exact hmap _ _

theorem cut_opening (behind : List Char) : cutAtDouble? '[' ('[' :: '[' :: behind) = some ([], behind) := by
  simp [cutAtDouble?]

theorem firstLine_append (hline : '\n' ∉ line) (ends : LineEnd ending behind) :
    firstLine (line ++ ending ++ behind) = line := by
  rw [List.append_assoc]
  refine takeWhile_run ?_ ?_
  · intro c hc
    exact decide_eq_true fun heq => hline (heq ▸ hc)
  · intro c hc
    cases ends with
    | newline =>
        obtain rfl : c = '\n' := by simpa using hc.symm
        rfl
    | endOfText => cases hc

theorem LineEnd.take_append (ends : LineEnd ending behind) (line : List Char) :
    (line ++ ending ++ behind).take (line.length + 1) = line ++ ending := by
  cases ends with
  | newline => exact List.take_left' (by simp)
  | endOfText => simp

theorem LineEnd.drop_append (ends : LineEnd ending behind) (line : List Char) :
    (line ++ ending ++ behind).drop (line.length + 1) = behind := by
  cases ends with
  | newline => exact List.drop_left' (by simp)
  | endOfText => simp

/-- **A line tag** is cut behind its line. -/
theorem segmentsFrom_line (p : Position) (hline : '\n' ∉ line) (ends : LineEnd ending behind) :
    segmentsFrom p ('[' :: '[' :: '~' :: line ++ ending ++ behind) =
      (segmentsFrom (p.advance ('[' :: '[' :: '~' :: line ++ ending)) behind).map (Segment.ofLine line :: ·) := by
  have hcut := cut_opening ('~' :: (line ++ ending ++ behind))
  show segmentsFrom p ('[' :: '[' :: '~' :: (line ++ ending ++ behind)) = _
  rw [segmentsFrom_of_cut hcut, segmentsBehind_line, firstLine_append hline ends, ends.take_append, ends.drop_append]
  rfl

/-- **A tag with closing brackets** is cut behind the first of them. -/
theorem segmentsFrom_body (p : Position) (hmark : body.head? ≠ some '~') (inside : ¬ [']', ']'] <:+: body ++ [']']) :
    segmentsFrom p ('[' :: '[' :: body ++ [']', ']'] ++ behind) =
      (segmentsFrom (p.advance ('[' :: '[' :: body ++ [']', ']'])) behind).map (Segment.ofBody body :: ·) := by
  have hclose : cutAtDouble? ']' (body ++ [']', ']'] ++ behind) = some (body, behind) :=
    cutAtDouble?_eq_some.mpr ⟨by simp, inside⟩
  have hhead : (body ++ [']', ']'] ++ behind).head? ≠ some '~' := by
    cases body with
    | nil => simp
    | cons c body => exact hmark
  have hcut := cut_opening (body ++ [']', ']'] ++ behind)
  show segmentsFrom p ('[' :: '[' :: (body ++ [']', ']'] ++ behind)) = _
  rw [segmentsFrom_of_cut hcut, segmentsBehind_unmarked p [] hhead, hclose]
  rfl

/-- **A raw form** is cut off in front of what is behind it. -/
theorem Segment.Raw.segmentsFrom (h : part.Raw raw behind) (p : Position) :
    segmentsFrom p (raw ++ behind) = (segmentsFrom (p.advance raw) behind).map (part :: ·) := by
  cases h with
  | literal nonempty untagged ends =>
      have hrun : Segment.run raw = [.literal raw] := if_neg (by simpa using nonempty)
      rcases ends with rfl | ⟨rest, rfl⟩
      · have hnone : cutAtDouble? '[' (raw ++ []) = none := cutAtDouble?_eq_none.mpr untagged
        have hempty : Inlay.segmentsFrom (p.advance raw) [] = .ok [] := segmentsFrom_of_no_tag rfl
        rw [segmentsFrom_of_no_tag hnone, List.append_nil, hrun, hempty]
        rfl
      · have hcut : cutAtDouble? '[' (raw ++ (['[', '['] ++ rest)) = some (raw, rest) :=
          cutAtDouble?_eq_some.mpr ⟨by simp, untagged⟩
        have hnext := segmentsFrom_of_cut (cut_opening rest) (p.advance raw)
        rw [segmentsFrom_of_cut hcut, segmentsBehind_run, hrun, ← hnext]
        rfl
  | @code text _ unmarked inside =>
      have hmark : text.head? ≠ some '~' := fun h => unmarked '~' h (by simp)
      have hbody : Segment.ofBody text = .code text := by
        unfold Segment.ofBody
        split
        · exact absurd (unmarked '=' rfl) (by simp)
        · exact absurd (unmarked '#' rfl) (by simp)
        · rfl
      rw [← hbody]
      exact segmentsFrom_body p hmark inside
  | @expression text _ inside =>
      have hmark : ('=' :: text).head? ≠ some '~' := by simp
      have hbody : ¬ [']', ']'] <:+: ('=' :: text) ++ [']'] := not_infix_cons inside (by simp)
      exact segmentsFrom_body p hmark hbody
  | @comment text _ inside =>
      have hmark : ('#' :: text).head? ≠ some '~' := by simp
      have hbody : ¬ [']', ']'] <:+: ('#' :: text) ++ [']'] := not_infix_cons inside (by simp)
      exact segmentsFrom_body p hmark hbody
  | @lineCode text close blanks ending _ inside closed blank ends =>
      have hline : '\n' ∉ text ++ close ++ blanks := by
        rcases closed with rfl | ⟨rfl, -⟩
        · simpa using inside
        · simpa using inside
      have hpart : Segment.ofLine (text ++ close ++ blanks) = .lineCode text := by
        rcases closed with rfl | ⟨rfl, hlast, hopen⟩
        · exact Segment.ofLine_closed text blank
        · rw [List.append_nil]
          exact Segment.ofLine_open hlast hopen blank
      rw [← hpart]
      exact segmentsFrom_line p hline ends

/-- **A tiled text is cut into its raw forms.** -/
theorem Tiled.segmentsFrom (h : Tiled parts s behind) (p : Position) :
    segmentsFrom p (s ++ behind) = (Inlay.segmentsFrom (p.advance s) behind).map (parts ++ ·) := by
  induction h generalizing p with
  | nil =>
      rw [Position.advance_nil, List.nil_append]
      cases Inlay.segmentsFrom p _ <;> rfl
  | @cons part parts raw s behind first _ ih =>
      rw [List.append_assoc, first.segmentsFrom, ih, Position.advance_append]
      cases Inlay.segmentsFrom _ behind <;> rfl

/-! ## Every text is cut -/

/-- **Where cutting comes to an end**: where no text is left, or at brackets that are not closed. -/
def AtEnd (behind : List Char) : Prop :=
  behind = [] ∨ ∃ inside, behind = '[' :: '[' :: inside ∧ Unclosed inside

theorem tiled_run (h : ¬ ['[', '['] <:+: before ++ ['[']) :
    Tiled (Segment.run before) before ('[' :: '[' :: behind) := by
  by_cases hempty : before = []
  · subst hempty
    exact .nil
  · have hrun : Segment.run before = [.literal before] := if_neg (by simpa using hempty)
    have hraw : (Segment.literal before).Raw before ('[' :: '[' :: behind) :=
      .literal hempty h (.inr ⟨behind, rfl⟩)
    have htiled := Tiled.cons (s := []) hraw .nil
    rwa [List.append_nil, ← hrun] at htiled

theorem exists_line (s : List Char) : ∃ line ending rest, s = line ++ ending ++ rest ∧ '\n' ∉ line ∧
    LineEnd ending rest := by
  obtain ⟨line, rest, rfl, hline, hrest⟩ := exists_run (fun c => c ≠ '\n') s
  have hinside : '\n' ∉ line := fun hmem => by simpa using hline _ hmem
  cases rest with
  | nil => exact ⟨line, [], [], by simp, hinside, .endOfText⟩
  | cons c rest =>
      obtain rfl : c = '\n' := by simpa using hrest c rfl
      exact ⟨line, ['\n'], rest, by simp, hinside, .newline⟩

/-- **Every text is tiled up to where cutting ends.** -/
theorem exists_tiled (s : List Char) : ∃ parts front behind, s = front ++ behind ∧ Tiled parts front behind ∧
    AtEnd behind := by
  induction hn : s.length using Nat.strongRecOn generalizing s with
  | ind n ih =>
      subst hn
      -- a tag behind a literal run, and the rest of the text
      have hafter : ∀ {before raw rest : List Char} {part : Segment}, s = before ++ (raw ++ rest) →
          Tiled (Segment.run before) before (raw ++ rest) → raw ≠ [] → part.Raw raw rest →
          ∃ parts front behind, s = front ++ behind ∧ Tiled parts front behind ∧ AtEnd behind := by
        intro before raw rest part hs hrun hne hraw
        have hshorter : rest.length < s.length := by
          have hpos := List.length_pos_iff.mpr hne
          rw [hs, List.length_append, List.length_append]
          omega
        obtain ⟨parts, front, behind, rfl, htiled, hend⟩ := ih _ hshorter rest rfl
        refine ⟨Segment.run before ++ part :: parts, before ++ (raw ++ front), behind, ?_, ?_, hend⟩
        · rw [hs]
          simp
        · refine Tiled.append ?_ (.cons hraw htiled)
          rwa [List.append_assoc]
      cases hcut : cutAtDouble? '[' s with
      | none =>
          by_cases hempty : s = []
          · subst hempty
            exact ⟨[], [], [], rfl, .nil, .inl rfl⟩
          · have huntagged : ¬ ['[', '['] <:+: s ++ [] := by
              rw [List.append_nil]
              exact cutAtDouble?_eq_none.mp hcut
            have hraw : (Segment.literal s).Raw s ([] ++ []) := .literal hempty huntagged (.inl rfl)
            exact ⟨[.literal s], s ++ [], [], by simp, .cons hraw .nil, .inl rfl⟩
      | some cut =>
          obtain ⟨before, inside⟩ := cut
          obtain ⟨hs, hfirst⟩ := cutAtDouble?_eq_some.mp hcut
          by_cases hmark : inside.head? = some '~'
          · obtain ⟨rest, rfl⟩ := List.head?_eq_some_iff.mp hmark
            obtain ⟨line, ending, rest, rfl, hline, hending⟩ := exists_line rest
            exact hafter (by simpa using hs) (tiled_run hfirst) (by simp) (Segment.raw_ofLine hline hending)
          · cases hclose : cutAtDouble? ']' inside with
            | none =>
                have hopen : Unclosed inside := ⟨hmark, cutAtDouble?_eq_none.mp hclose⟩
                exact ⟨Segment.run before, before, _, hs, tiled_run hfirst, .inr ⟨inside, rfl, hopen⟩⟩
            | some close =>
                obtain ⟨body, rest⟩ := close
                obtain ⟨rfl, hbody⟩ := cutAtDouble?_eq_some.mp hclose
                have hunmarked : body.head? ≠ some '~' := by
                  cases body with
                  | nil => simp
                  | cons c body => exact hmark
                exact hafter (by simpa using hs) (tiled_run hfirst) (by simp) (Segment.raw_ofBody hunmarked hbody)

/-! ## The segments of a source -/

theorem Unclosed.segmentsFrom (h : Unclosed behind) (p : Position) :
    segmentsFrom p ('[' :: '[' :: behind) = .error ⟨p, .unterminatedTag⟩ := by
  rw [segmentsFrom_of_cut (cut_opening behind), segmentsBehind_unmarked p [] h.1, cutAtDouble?_eq_none.mpr h.2]
  rfl

theorem segmentsFrom_eq_ok : segmentsFrom p s = .ok parts ↔ Tiled parts s [] := by
  have hempty : ∀ q : Position, segmentsFrom q [] = .ok [] := fun q => segmentsFrom_of_no_tag rfl
  constructor
  · intro h
    obtain ⟨parts', front, behind, rfl, htiled, rfl | ⟨inside, rfl, hopen⟩⟩ := exists_tiled s
    · rw [htiled.segmentsFrom, hempty] at h
      cases h
      simpa using htiled
    · rw [htiled.segmentsFrom, hopen.segmentsFrom] at h
      cases h
  · intro h
    have hcut := h.segmentsFrom p
    rw [List.append_nil, hempty] at hcut
    simpa [Except.map] using hcut

theorem segmentsFrom_eq_error : segmentsFrom p s = .error fault ↔ ∃ parts front behind,
    s = front ++ '[' :: '[' :: behind ∧ Tiled parts front ('[' :: '[' :: behind) ∧ Unclosed behind ∧
      fault = ⟨p.advance front, .unterminatedTag⟩ := by
  constructor
  · intro h
    obtain ⟨parts, front, behind, rfl, htiled, rfl | ⟨inside, rfl, hopen⟩⟩ := exists_tiled s
    · rw [htiled.segmentsFrom, segmentsFrom_of_no_tag rfl] at h
      cases h
    · rw [htiled.segmentsFrom, hopen.segmentsFrom] at h
      cases h
      exact ⟨parts, front, inside, rfl, htiled, hopen, rfl⟩
  · rintro ⟨parts, front, behind, rfl, htiled, hopen, rfl⟩
    rw [htiled.segmentsFrom, hopen.segmentsFrom]
    rfl

/-- A literal run does not start with opening brackets. -/
theorem Segment.Raw.not_prefix (h : (Segment.literal text).Raw raw behind) : ¬ ['[', '['] <+: raw ++ behind := by
  cases h with
  | literal nonempty untagged _ =>
      rintro ⟨t, ht⟩
      cases text with
      | nil => exact nonempty rfl
      | cons c text =>
          cases text with
          | nil =>
              cases behind with
              | nil => simp at ht
              | cons d behind =>
                  simp at ht
                  obtain ⟨rfl, rfl, -⟩ := ht
                  exact untagged (List.infix_refl _)
          | cons d text =>
              simp at ht
              obtain ⟨rfl, rfl, -⟩ := ht
              exact untagged ⟨[], text ++ behind.take 1, rfl⟩

/-- **No two literal runs are neighbours.** -/
theorem Tiled.isChain (h : Tiled parts s behind) : parts.IsChain fun a b => a.literal? = none ∨ b.literal? = none := by
  induction h with
  | nil => exact .nil
  | @cons part parts raw s behind first others ih =>
      cases others with
      | nil => exact .singleton part
      | @cons next parts raw' s _ second others =>
          refine .cons_cons ?_ ih
          cases part with
          | literal text =>
              cases next with
              | literal text' =>
                  rw [List.append_assoc] at first
                  cases first with
                  | literal _ _ ends =>
                      rcases ends with hnil | hopening
                      · cases second with
                        | literal nonempty => simp [nonempty] at hnil
                      · exact absurd hopening second.not_prefix
              | _ => exact .inr rfl
          | _ => exact .inl rfl

/-- **A source is its segments, written out.** Cutting fails exactly if behind segments in their raw forms it comes to
    opening brackets that are not closed, and it reports the line and the column of these. The segments of a source are
    those that tile it: their raw forms in order are the source. No two literal runs among them are neighbours. -/
theorem segments_tile_source (source : String) :
    (∀ e, listed source (segments source) = .error e ↔ ∃ parts front behind,
      source.toList = front ++ '[' :: '[' :: behind ∧ Tiled parts front ('[' :: '[' :: behind) ∧ Unclosed behind ∧
        e = .templateSyntax (newlines front + 1) ((front.reverse.takeWhile (· ≠ '\n')).length + 1)
          "Unterminated '[[' tag: expected ']]'" (numberedListing source)) ∧
    ∀ parts, listed source (segments source) = .ok parts ↔ Tiled parts source.toList [] ∧
      parts.IsChain fun a b => a.literal? = none ∨ b.literal? = none := by
  constructor
  · intro e
    rw [listed, mapError_eq_error, segments]
    constructor
    · rintro ⟨fault, hfault, rfl⟩
      obtain ⟨parts, front, behind, hsource, htiled, hopen, rfl⟩ := segmentsFrom_eq_error.mp hfault
      have hplace := Position.behind_advance front
      refine ⟨parts, front, behind, hsource, htiled, hopen, ?_⟩
      rw [← hplace.line, ← hplace.column]
      rfl
    · rintro ⟨parts, front, behind, hsource, htiled, hopen, rfl⟩
      have hplace := Position.behind_advance front
      refine ⟨_, segmentsFrom_eq_error.mpr ⟨parts, front, behind, hsource, htiled, hopen, rfl⟩, ?_⟩
      rw [← hplace.line, ← hplace.column]
      rfl
  · intro parts
    rw [listed, mapError_eq_ok, segments, segmentsFrom_eq_ok]
    exact ⟨fun h => ⟨h, h.isChain⟩, fun h => h.1⟩

example : listed "a\nbc[[=x" (segments "a\nbc[[=x") = .error (.templateSyntax 2 3
    "Unterminated '[[' tag: expected ']]'" "   1 | a\n   2 | bc[[=x\n") := by
  decide +kernel

end Inlay
