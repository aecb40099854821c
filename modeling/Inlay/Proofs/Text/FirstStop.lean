import Mathlib.Data.List.Infix
import Inlay.Text.Comments

/-!
# `Proofs.Text.FirstStop` — through the first stop

A comment reaches from behind its opening through the first sign of its end, or to the end of the text if there is no
such sign (`Through`). That is said of characters and of bytes alike, and determines how far the comment reaches
(`Through.unique`).
-/

namespace Inlay

variable {α : Type} {stop s s' t t' u u' v v' w : List α} {a b x : α}

/-- **Through the first stop**: what reaches through the first `stop` in a text, or to the end of a text that has none,
    in front of what is left. -/
inductive Through (stop : List α) : List α → List α → Prop
  | first {s t : List α} (absent : ¬ stop <:+: s ++ stop.dropLast) : Through stop (s ++ stop) t
  | rest {s : List α} (absent : ¬ stop <:+: s) : Through stop s []

/-! ## Parts of a text -/

/-- A text that does not start with the first element of another one has it further on. -/
theorem infix_of_append (ha : a ∉ u) (h : a :: w <:+: u ++ v) : a :: w <:+: v := by
  induction u with
  | nil => exact h
  | cons x u ih =>
      rw [List.mem_cons, not_or] at ha
      rw [List.cons_append, List.infix_cons_iff] at h
      rcases h with h | h
      · exact absurd (List.cons_prefix_cons.mp h).1 ha.1
      · exact ih ha.2 h

/-! ## One way to stop -/

/-- The first stop of a text is not behind another one. -/
theorem length_le_of_first (hne : stop ≠ []) (h' : ¬ stop <:+: s' ++ stop.dropLast)
    (heq : s ++ stop ++ t = s' ++ stop ++ t') : s'.length ≤ s.length := by
  refine Nat.le_of_not_lt fun hlt => h' ?_
  -- `s ++ stop` would end in front of the last element of the other stop
  obtain ⟨front, last, hstop⟩ := List.eq_nil_or_concat' stop |>.resolve_left hne
  have hprefix : s ++ stop <+: s' ++ stop.dropLast := by
    have hleft : s ++ stop <+: s' ++ stop ++ t' := ⟨t, heq⟩
    have hright : s' ++ stop.dropLast <+: s' ++ stop ++ t' :=
      ⟨[last] ++ t', by rw [hstop, List.dropLast_concat]; simp⟩
    refine List.prefix_of_prefix_length_le hleft hright ?_
    rw [List.length_append, List.length_append, List.length_dropLast]
    omega
  exact (List.infix_append' s stop []).trans (by simpa using hprefix.isInfix)

theorem Through.unique (hne : stop ≠ []) (h : Through stop u v) (h' : Through stop u' v') (heq : u ++ v = u' ++ v') :
    u = u' ∧ v = v' := by
  cases h with
  | @first s _ absent =>
      cases h' with
      | @first s' _ absent' =>
          have hlength := Nat.le_antisymm (length_le_of_first hne absent heq.symm) (length_le_of_first hne absent' heq)
          exact List.append_inj heq (by rw [List.length_append, List.length_append, hlength])
      | rest absent' =>
          rw [List.append_nil] at heq
          exact absurd ⟨s, v, heq⟩ absent'
  | rest absent =>
      cases h' with
      | @first s' _ absent' =>
          rw [List.append_nil] at heq
          exact absurd ⟨s', v', heq.symm⟩ absent
      | rest absent' =>
          rw [List.append_nil, List.append_nil] at heq
          exact ⟨heq, rfl⟩

/-! ## Comments -/

/-- An element in front of a text in which there is no `[a, b]`. -/
theorem not_infix_cons (h : ¬ [a, b] <:+: s) (hstart : ∀ t, x = a → s = b :: t → False) : ¬ [a, b] <:+: x :: s := by
  rw [List.infix_cons_iff, not_or]
  refine ⟨?_, h⟩
  rintro ⟨t, ht⟩
  obtain ⟨rfl, rfl⟩ := List.cons.inj ht
  exact hstart t rfl rfl

/-- An element in front that is not the stop. -/
theorem Through.cons (hx : x ≠ a) (h : Through [a] u v) : Through [a] (x :: u) v := by
  have hcons : ∀ w : List α, ¬ [a] <:+: w → ¬ [a] <:+: x :: w := by
    intro w hw
    rw [List.singleton_infix_iff, List.mem_cons, not_or, ← List.singleton_infix_iff]
    exact ⟨Ne.symm hx, hw⟩
  cases h with
  | @first w _ absent => exact .first (s := x :: w) (hcons _ absent)
  | rest absent => exact .rest (hcons _ absent)

theorem through_spanLineComment (s : List Char) :
    Through ['\n'] (spanLineComment s).1 (spanLineComment s).2 := by
  fun_induction spanLineComment s with
  | case1 => exact .rest (by simp)
  | case2 s => exact .first (s := []) (by simp)
  | case3 c s hc inside rest hcut ih =>
      rw [hcut] at ih
      exact ih.cons hc

theorem through_spanBlockComment (s : List Char) :
    Through ['*', '/'] (spanBlockComment s).1 (spanBlockComment s).2 := by
  fun_induction spanBlockComment s with
  | case1 => exact .rest (by simp)
  | case2 s => exact .first (s := []) (by decide)
  | case3 c s hclose inside rest hcut ih =>
      have hs := spanBlockComment_append s
      rw [hcut] at ih hs
      cases ih with
      | @first u _ absent =>
          refine .first (s := c :: u) (not_infix_cons absent ?_)
          intro t hc ht
          -- what is in front of the closing starts like the text behind `c`
          cases u with
          | nil => cases ht
          | cons d u =>
              obtain rfl : d = '/' := (List.cons.inj ht).1
              exact hclose _ hc hs.symm
      | rest absent =>
          refine .rest (not_infix_cons absent ?_)
          rintro t hc rfl
          exact hclose _ hc hs.symm

end Inlay
