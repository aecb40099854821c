import Mathlib.Data.List.Basic
import Mathlib.Data.List.Forall2
import Inlay.Text.Blank
import Inlay.Text.Position
import Inlay.Proofs.Text.Words

/-!
# `Proofs.Text.Lines` — lines of a text and what stands in front of them

A text is cut at its newlines (`sourceLines`), so it has one line more than it has newlines. What happens to the
lines when texts are put together is said once, in `exists_sourceLines_append`: only the last line of the first
text and the first line of the second one become one line, and all others stay. The lemmas behind it say which
line a byte stands on (`lineAt`) and where a line starts (`beforeLine`).

The module ends with what the passes over a source do to its lines. A text that was made by deleting characters
other than newlines has, line by line, a part of each line (`forall₂_sublist_sourceLines`). A range that was replaced
by a text in one line and its own newlines leaves every line without a byte of it (`clearOf_of_disjoint`,
`getElem?_sourceLines_replace`).
-/

namespace Inlay

variable {s t u v x line : List Char} {c : Char} {k : Nat} {p : Position}

/-! ## Bytes and newlines -/

@[simp] theorem byteLength_nil : byteLength [] = 0 := rfl

@[simp] theorem byteLength_cons : byteLength (c :: s) = c.utf8Size + byteLength s := rfl

@[simp] theorem byteLength_append (s t : List Char) : byteLength (s ++ t) = byteLength s + byteLength t := by
  induction s with
  | nil => simp
  | cons c s ih => simp [ih, Nat.add_assoc]

theorem byteLength_eq_zero (h : byteLength s = 0) : s = [] := by
  cases s with
  | nil => rfl
  | cons c s =>
      have := c.utf8Size_pos
      rw [byteLength_cons] at h
      omega

theorem byteLength_mono (h : u <+: s) : byteLength u ≤ byteLength s := by
  obtain ⟨t, rfl⟩ := h
  rw [byteLength_append]
  exact Nat.le_add_right _ _

@[simp] theorem newlines_nil : newlines [] = 0 := rfl

@[simp] theorem newlines_append (s t : List Char) : newlines (s ++ t) = newlines s + newlines t :=
  List.count_append

@[simp] theorem newlines_cons_newline : newlines ('\n' :: s) = newlines s + 1 :=
  List.count_cons_self

theorem newlines_cons_of_ne (hc : c ≠ '\n') : newlines (c :: s) = newlines s :=
  List.count_cons_of_ne hc

theorem newlines_eq_zero : newlines s = 0 ↔ '\n' ∉ s :=
  List.count_eq_zero

theorem newlines_replicate (n : Nat) : newlines (List.replicate n '\n') = n :=
  List.count_replicate_self

/-- **An advanced position counts** the bytes and the newlines that it passed. -/
theorem advance_offset_line (p : Position) (s : List Char) :
    (p.advance s).offset = p.offset + byteLength s ∧ (p.advance s).line = p.line + newlines s := by
  induction s generalizing p with
  | nil => exact ⟨rfl, rfl⟩
  | cons c s ih =>
      obtain ⟨hoffset, hline⟩ := ih (p.next c)
      rw [Position.advance_cons, hoffset, hline, byteLength_cons]
      by_cases hc : c = '\n'
      · subst hc
        rw [newlines_cons_newline]
        show p.offset + Char.utf8Size '\n' + byteLength s = _ ∧ p.line + 1 + newlines s = _
        omega
      · rw [newlines_cons_of_ne hc, Position.next, if_neg hc]
        show p.offset + c.utf8Size + byteLength s = _ ∧ p.line + newlines s = _
        omega

/-- The line of a place stays one more than the newlines in front of it. -/
theorem line_advance (hline : p.line = newlines t + 1) (s : List Char) :
    (p.advance s).line = newlines (t ++ s) + 1 := by
  rw [(advance_offset_line p s).2, hline, newlines_append]
  omega

/-- Two places on one line stay on one line over the same text. -/
theorem line_advance_congr {p' : Position} (hline : p'.line = p.line) (s : List Char) :
    (p'.advance s).line = (p.advance s).line := by
  rw [(advance_offset_line p' s).2, (advance_offset_line p s).2, hline]

/-! ## Lines -/

/-- The lines of a text: what stands between its newlines. -/
def sourceLines (s : List Char) : List (List Char) :=
  pieces (· == '\n') s

/-- The text in front of line `k`, counted from zero. -/
def beforeLine (s : List Char) (k : Nat) : List Char :=
  ((sourceLines s).take k).flatMap (· ++ ['\n'])

/-- The line, counted from one, on which the byte at an offset stands. -/
def lineAt : List Char → Nat → Nat
  | [], _ => 1
  | c :: s, offset =>
    if offset < c.utf8Size then 1 else (if c = '\n' then 1 else 0) + lineAt s (offset - c.utf8Size)

@[simp] theorem sourceLines_nil : sourceLines [] = [[]] := rfl

@[simp] theorem sourceLines_newline : sourceLines ('\n' :: s) = [] :: sourceLines s :=
  pieces_cons_of_pos rfl

theorem sourceLines_cons {w : List Char} {ws : List (List Char)} (hc : c ≠ '\n') (h : sourceLines s = w :: ws) :
    sourceLines (c :: s) = (c :: w) :: ws :=
  pieces_cons_of_neg (beq_eq_false_iff_ne.mpr hc) h

theorem exists_sourceLines (s : List Char) : ∃ w ws, sourceLines s = w :: ws :=
  List.exists_cons_of_ne_nil (pieces_ne_nil _ s)

/-- **Lines of two texts put together.** All lines stay but the last one of the first text, which goes on as the
    first one of the second. -/
theorem exists_sourceLines_append (u : List Char) :
    ∃ front last, u = front.flatMap (· ++ ['\n']) ++ last ∧ front.length = newlines u ∧
      ∀ v w ws, sourceLines v = w :: ws → sourceLines (u ++ v) = front ++ (last ++ w) :: ws := by
  induction u with
  | nil => exact ⟨[], [], rfl, rfl, fun v w ws h => h⟩
  | cons c u ih =>
      obtain ⟨front, last, hu, hlen, happ⟩ := ih
      by_cases hc : c = '\n'
      · subst hc
        refine ⟨[] :: front, last, by simp [← hu], by simp [hlen], fun v w ws h => ?_⟩
        rw [List.cons_append, sourceLines_newline, happ v w ws h, List.cons_append]
      · rw [newlines_cons_of_ne hc]
        cases front with
        | nil =>
            refine ⟨[], c :: last, by simp_all, hlen, fun v w ws h => ?_⟩
            exact sourceLines_cons hc (happ v w ws h)
        | cons f front =>
            refine ⟨(c :: f) :: front, last, by simp [hu], hlen, fun v w ws h => ?_⟩
            exact sourceLines_cons hc (happ v w ws h)

/-- **A text has one line more than newlines.** -/
theorem length_sourceLines (s : List Char) : (sourceLines s).length = newlines s + 1 := by
  obtain ⟨front, last, -, hlen, happ⟩ := exists_sourceLines_append s
  have := congrArg List.length (happ [] [] [] rfl)
  simpa [hlen] using this

/-- Lines in front of the last line of the first text stay. -/
theorem getElem?_sourceLines_append_left (v : List Char) (h : k < newlines u) :
    (sourceLines (u ++ v))[k]? = (sourceLines u)[k]? := by
  obtain ⟨front, last, -, hlen, happ⟩ := exists_sourceLines_append u
  obtain ⟨w, ws, hv⟩ := exists_sourceLines v
  have hu := happ [] [] [] rfl
  rw [List.append_nil] at hu
  rw [happ v w ws hv, hu, List.getElem?_append_left (by omega), List.getElem?_append_left (by omega)]

/-- Lines behind the first line of the second text stay, moved by the newlines of the first. -/
theorem getElem?_sourceLines_append_right (v : List Char) (h : newlines u < k) :
    (sourceLines (u ++ v))[k]? = (sourceLines v)[k - newlines u]? := by
  obtain ⟨front, last, -, hlen, happ⟩ := exists_sourceLines_append u
  obtain ⟨w, ws, hv⟩ := exists_sourceLines v
  rw [happ v w ws hv, hv, List.getElem?_append_right (by omega), hlen]
  obtain ⟨j, hj⟩ : ∃ j, k - newlines u = j + 1 := ⟨k - newlines u - 1, by omega⟩
  rw [hj, List.getElem?_cons_succ, List.getElem?_cons_succ]

theorem not_mem_of_mem_sourceLines (h : line ∈ sourceLines s) : '\n' ∉ line := by
  intro hmem
  exact absurd (of_mem_pieces h '\n' hmem) (by decide)

/-- A text without newlines stands on one line of every text around it. -/
theorem exists_line_infix (hx : '\n' ∉ x) (u v : List Char) :
    ∃ line, (sourceLines (u ++ (x ++ v)))[newlines u]? = some line ∧ x <:+: line := by
  obtain ⟨front, last, -, hlen, happ⟩ := exists_sourceLines_append u
  obtain ⟨front', last', hlast', hlen', happ'⟩ := exists_sourceLines_append x
  obtain ⟨w, ws, hv⟩ := exists_sourceLines v
  -- `x` has a single line, which is all of it
  rw [newlines_eq_zero.mpr hx, List.length_eq_zero_iff] at hlen'
  subst hlen'
  obtain rfl : x = last' := hlast'
  refine ⟨last ++ (x ++ w), ?_, ⟨last, w, (List.append_assoc ..)⟩⟩
  rw [happ _ _ _ (happ' v w ws hv), ← hlen]
  rw [List.getElem?_append_right (Nat.le_refl _), Nat.sub_self, List.getElem?_cons_zero]

/-- **Where a line stands.** -/
theorem eq_beforeLine_append (h : (sourceLines s)[k]? = some line) :
    newlines (beforeLine s k) = k ∧
      ∃ rest, s = beforeLine s k ++ (line ++ rest) ∧ (rest = [] ∨ ∃ rest', rest = '\n' :: rest') := by
  induction s generalizing k line with
  | nil =>
      cases k with
      | zero =>
          cases h
          exact ⟨rfl, [], rfl, Or.inl rfl⟩
      | succ k => simp at h
  | cons c s ih =>
      by_cases hc : c = '\n'
      · subst hc
        cases k with
        | zero =>
            rw [sourceLines_newline] at h
            cases h
            exact ⟨rfl, '\n' :: s, rfl, Or.inr ⟨s, rfl⟩⟩
        | succ k =>
            rw [sourceLines_newline, List.getElem?_cons_succ] at h
            obtain ⟨hnew, rest, hs, hrest⟩ := ih h
            -- the newline ends line zero, and all other lines count one less without it
            have hbefore : beforeLine ('\n' :: s) (k + 1) = '\n' :: beforeLine s k := by
              simp [beforeLine]
            rw [hbefore, newlines_cons_newline, hnew]
            exact ⟨rfl, rest, by rw [List.cons_append, ← hs], hrest⟩
      · obtain ⟨w, ws, hs⟩ := exists_sourceLines s
        rw [sourceLines_cons hc hs] at h
        cases k with
        | zero =>
            cases h
            obtain ⟨-, rest, hsplit, hrest⟩ := @ih w 0 (by rw [hs]; rfl)
            exact ⟨rfl, rest, by rw [hsplit]; rfl, hrest⟩
        | succ k =>
            obtain ⟨hnew, rest, hsplit, hrest⟩ := @ih line (k + 1) (by rw [hs]; exact h)
            -- any other character only makes line zero longer
            have hbefore : beforeLine (c :: s) (k + 1) = c :: beforeLine s (k + 1) := by
              simp [beforeLine, sourceLines_cons hc hs, hs]
            rw [hbefore, newlines_cons_of_ne hc, hnew]
            exact ⟨rfl, rest, by rw [List.cons_append, ← hsplit], hrest⟩

theorem beforeLine_eq_nil_or (s : List Char) (k : Nat) :
    beforeLine s k = [] ∨ ∃ t, beforeLine s k = t ++ ['\n'] := by
  unfold beforeLine
  rcases List.eq_nil_or_concat' ((sourceLines s).take k) with h | ⟨front, last, h⟩
  · exact Or.inl (by rw [h]; rfl)
  · exact Or.inr ⟨front.flatMap (· ++ ['\n']) ++ last, by simp [h]⟩

/-- **The byte behind a text** stands on the line that the newlines of the text lead to. -/
theorem lineAt_append (u v : List Char) : lineAt (u ++ v) (byteLength u) = newlines u + 1 := by
  induction u with
  | nil =>
      cases v with
      | nil => rfl
      | cons c v => simp [lineAt, c.utf8Size_pos]
  | cons c u ih =>
      have := c.utf8Size_pos
      rw [List.cons_append, lineAt, byteLength_cons, if_neg (by omega), Nat.add_sub_cancel_left, ih]
      by_cases hc : c = '\n'
      · rw [hc, newlines_cons_newline, if_pos rfl, Nat.add_comm]
      · rw [newlines_cons_of_ne hc, if_neg hc, Nat.zero_add]

/-! ## Deleting from lines -/

/-- **Deleting characters other than newlines** leaves a part of each line. -/
theorem forall₂_sublist_sourceLines (h : t.Sublist s) (hn : newlines t = newlines s) :
    List.Forall₂ List.Sublist (sourceLines t) (sourceLines s) := by
  induction h with
  | slnil => exact .cons (List.Sublist.refl _) .nil
  | @cons t s c hts ih =>
      -- a newline cannot be deleted, the count would drop
      have hle : newlines t ≤ newlines s := hts.count_le '\n'
      have hc : c ≠ '\n' := by
        rintro rfl
        rw [newlines_cons_newline] at hn
        omega
      rw [newlines_cons_of_ne hc] at hn
      obtain ⟨w, ws, hs⟩ := exists_sourceLines s
      obtain ⟨w', ws', ht⟩ := exists_sourceLines t
      have hlines := ih hn
      rw [hs, ht] at hlines
      rw [sourceLines_cons hc hs, ht]
      cases hlines with
      | cons hw hws => exact .cons (hw.cons c) hws
  | @cons_cons t s c hts ih =>
      by_cases hc : c = '\n'
      · subst hc
        rw [newlines_cons_newline, newlines_cons_newline, Nat.add_right_cancel_iff] at hn
        rw [sourceLines_newline, sourceLines_newline]
        exact .cons (List.Sublist.refl _) (ih hn)
      · rw [newlines_cons_of_ne hc, newlines_cons_of_ne hc] at hn
        obtain ⟨w, ws, hs⟩ := exists_sourceLines s
        obtain ⟨w', ws', ht⟩ := exists_sourceLines t
        have hlines := ih hn
        rw [hs, ht] at hlines
        rw [sourceLines_cons hc hs, sourceLines_cons hc ht]
        cases hlines with
        | cons hw hws => exact .cons (hw.cons_cons c) hws

/-! ## Ranges and lines -/

/-- A line starts inside a text that has the newlines in front of it. -/
theorem beforeLine_prefix_of_le (h : (sourceLines (u ++ v))[k]? = some line) (hk : k ≤ newlines u) :
    beforeLine (u ++ v) k <+: u := by
  obtain ⟨hnew, rest, hsplit, -⟩ := eq_beforeLine_append h
  have hnil := beforeLine_eq_nil_or (u ++ v) k
  generalize beforeLine (u ++ v) k = before at *
  rcases List.prefix_or_prefix_of_prefix ⟨line ++ rest, hsplit.symm⟩ (List.prefix_append u v) with hpre | ⟨t, rfl⟩
  · exact hpre
  · -- what is in front of the line ends with a newline, of which there is none behind `u`
    rw [newlines_append] at hnew
    have ht : '\n' ∉ t := newlines_eq_zero.mp (by omega)
    rcases List.eq_nil_or_concat' t with rfl | ⟨t', c, rfl⟩
    · exact ⟨[], by simp⟩
    · rcases hnil with hnil | ⟨front, hfront⟩
      · simp at hnil
      · rw [← List.append_assoc] at hfront
        have hc := List.append_inj_right' hfront rfl
        rw [hc] at ht
        exact absurd (List.mem_append_right t' List.mem_cons_self) ht

/-- A line reaches at least to the end of a text that has no more newlines than stand in front of it. -/
theorem prefix_line_end (h : (sourceLines (u ++ v))[k]? = some line) (hk : newlines u ≤ k) :
    u <+: beforeLine (u ++ v) k ++ line := by
  obtain ⟨hnew, rest, hsplit, hrest⟩ := eq_beforeLine_append h
  generalize beforeLine (u ++ v) k = before at *
  rw [← List.append_assoc] at hsplit
  rcases List.prefix_or_prefix_of_prefix (List.prefix_append u v) ⟨rest, hsplit.symm⟩ with hpre | ⟨t, rfl⟩
  · exact hpre
  · -- the newline that ends the line would be one of `u`
    rw [List.append_assoc, List.append_cancel_left_eq] at hsplit
    rcases hrest with rfl | ⟨rest', rfl⟩
    · rw [List.append_eq_nil_iff] at hsplit
      exact ⟨[], by simp [hsplit.1]⟩
    · cases t with
      | nil => exact ⟨[], by simp⟩
      | cons c t =>
          rw [List.cons_append, List.cons.injEq] at hsplit
          rw [hsplit.1, newlines_append, newlines_append, newlines_cons_newline, hnew] at hk
          omega

/-- A line that is not in front of a range reaches behind the first character of the range. -/
theorem byteLength_lt_line_end (hx : x ≠ []) (hfirst : ∀ c ∈ x.head?, c ≠ '\n')
    (hline : (sourceLines (u ++ (x ++ v)))[k]? = some line) (hk : newlines u ≤ k) :
    byteLength u < byteLength (beforeLine (u ++ (x ++ v)) k) + byteLength line := by
  obtain ⟨c, x', rfl⟩ := List.exists_cons_of_ne_nil hx
  have hs : u ++ (c :: x' ++ v) = (u ++ [c]) ++ (x' ++ v) := by simp
  have hc : newlines [c] = 0 := newlines_cons_of_ne (hfirst c rfl)
  rw [hs] at hline ⊢
  have hle := byteLength_mono (prefix_line_end hline (by rw [newlines_append, hc]; exact hk))
  have := c.utf8Size_pos
  rw [byteLength_append, byteLength_append, byteLength_cons] at hle
  omega

/-- A line that is not behind a range starts in front of the last character of the range. -/
theorem byteLength_beforeLine_lt (hx : x ≠ []) (hlast : ∀ c ∈ x.getLast?, c ≠ '\n')
    (hline : (sourceLines (u ++ (x ++ v)))[k]? = some line) (hk : k ≤ newlines (u ++ x)) :
    byteLength (beforeLine (u ++ (x ++ v)) k) < byteLength u + byteLength x := by
  obtain ⟨x', c, rfl⟩ := (List.eq_nil_or_concat' x).resolve_left hx
  have hs : u ++ (x' ++ [c] ++ v) = (u ++ x') ++ ([c] ++ v) := by simp
  have hc : newlines [c] = 0 := newlines_cons_of_ne (hlast c (by simp))
  rw [← List.append_assoc, newlines_append, hc] at hk
  rw [hs] at hline ⊢
  have hle := byteLength_mono (beforeLine_prefix_of_le hline hk)
  have := c.utf8Size_pos
  rw [byteLength_append] at hle
  rw [byteLength_append, byteLength_cons]
  omega

/-- A line, counted from zero, is clear of a range that reaches from one line to another one: it is a line in front
    or a line behind, or an empty one between. -/
def ClearOf (first last k : Nat) (line : List Char) : Prop :=
  k < first ∨ last < k ∨ (line = [] ∧ first < k ∧ k < last)

/-- **A line without a byte of a range is clear of it**, if the range neither starts nor ends with a newline. -/
theorem clearOf_of_disjoint (hx : x ≠ []) (hfirst : ∀ c ∈ x.head?, c ≠ '\n') (hlast : ∀ c ∈ x.getLast?, c ≠ '\n')
    (hline : (sourceLines (u ++ (x ++ v)))[k]? = some line)
    (hdisjoint : ∀ offset, byteLength u ≤ offset → offset < byteLength u + byteLength x →
      ¬ (byteLength (beforeLine (u ++ (x ++ v)) k) ≤ offset ∧
        offset < byteLength (beforeLine (u ++ (x ++ v)) k) + byteLength line)) :
    ClearOf (newlines u) (newlines (u ++ x)) k line := by
  by_cases hu : k < newlines u
  · exact Or.inl hu
  by_cases hux : newlines (u ++ x) < k
  · exact Or.inr (Or.inl hux)
  rw [Nat.not_lt] at hu hux
  have hfar := byteLength_lt_line_end hx hfirst hline hu
  have hnear := byteLength_beforeLine_lt hx hlast hline hux
  have hpos : byteLength x ≠ 0 := fun hzero => hx (byteLength_eq_zero hzero)
  -- if the line is the first or the last one of the range, it has the first or the last byte of it
  have hfirstLine : newlines u = k → byteLength (beforeLine (u ++ (x ++ v)) k) ≤ byteLength u := fun hk =>
    byteLength_mono (beforeLine_prefix_of_le hline (Nat.le_of_eq hk.symm))
  have hlastLine : k = newlines (u ++ x) →
      byteLength u + byteLength x ≤ byteLength (beforeLine (u ++ (x ++ v)) k) + byteLength line := by
    intro hk
    rw [← List.append_assoc] at hline ⊢
    have hle := byteLength_mono (prefix_line_end hline (Nat.le_of_eq hk.symm))
    rwa [byteLength_append, byteLength_append] at hle
  generalize byteLength (beforeLine (u ++ (x ++ v)) k) = start at *
  have hempty : byteLength line = 0 := by
    have hnone := hdisjoint (max (byteLength u) start) (by omega) (by omega)
    omega
  refine Or.inr (Or.inr ⟨byteLength_eq_zero hempty, Nat.lt_of_le_of_ne hu ?_, Nat.lt_of_le_of_ne hux ?_⟩)
  · intro hk
    have := hfirstLine hk
    omega
  · intro hk
    have := hlastLine hk
    omega

theorem getElem?_sourceLines_replicate {n : Nat} (v : List Char) (h : k < n) :
    (sourceLines (List.replicate n '\n' ++ v))[k]? = some [] := by
  induction n generalizing k with
  | zero => exact absurd h (Nat.not_lt_zero k)
  | succ n ih =>
      rw [List.replicate_succ, List.cons_append, sourceLines_newline]
      cases k with
      | zero => rfl
      | succ k => exact ih (Nat.lt_of_succ_lt_succ h)

/-- **A range that is replaced** by a text in one line and its own newlines leaves the lines clear of it. -/
theorem getElem?_sourceLines_replace {t : List Char} (ht : '\n' ∉ t)
    (hline : (sourceLines (u ++ (x ++ v)))[k]? = some line)
    (hclear : ClearOf (newlines u) (newlines (u ++ x)) k line) :
    (sourceLines (u ++ (t ++ List.replicate (newlines x) '\n' ++ v)))[k]? = some line := by
  rw [← newlines_eq_zero] at ht
  rcases hclear with hk | hk | ⟨rfl, hu, hux⟩
  · rw [getElem?_sourceLines_append_left _ hk] at hline ⊢
    exact hline
  · have hy : newlines (t ++ List.replicate (newlines x) '\n') = newlines x := by
      rw [newlines_append, ht, newlines_replicate, Nat.zero_add]
    have huy : newlines (u ++ (t ++ List.replicate (newlines x) '\n')) = newlines (u ++ x) := by
      rw [newlines_append, hy, newlines_append]
    rw [← List.append_assoc, getElem?_sourceLines_append_right _ hk] at hline
    rw [← List.append_assoc, getElem?_sourceLines_append_right _ (huy ▸ hk), huy]
    exact hline
  · rw [newlines_append] at hux
    have hut : newlines (u ++ t) = newlines u := by
      rw [newlines_append, ht, Nat.add_zero]
    -- the line is one of the newlines behind the text
    rw [List.append_assoc, ← List.append_assoc u, getElem?_sourceLines_append_right _ (by omega), hut]
    exact getElem?_sourceLines_replicate v (by omega)

end Inlay
