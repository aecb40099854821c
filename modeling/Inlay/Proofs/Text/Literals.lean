import Inlay.Text.Literal

/-!
# `Proofs.Text.Literals` — how a literal is written

The two kinds of literal as relations between what belongs to one behind its opening and what stands behind it
(`Quoted`, `Verbatim`). Cutting a literal from a text gives the one pair of texts that are related, so what is said
about literals elsewhere goes by induction on how they are written.
-/

namespace Inlay

variable {q c : Char} {s t : List Char}

/-- **A quoted literal** behind its opening quote `q`, in front of `t`. It ends with its quote, in front of a newline
    or with the text. -/
inductive Quoted (q : Char) : List Char → List Char → Prop where
  | closed {t : List Char} (escape : q ≠ '\\') (newline : q ≠ '\n') : Quoted q [q] t
  | newline {t : List Char} : Quoted q [] ('\n' :: t)
  | stop : Quoted q [] []
  | stopEscape : Quoted q ['\\'] []
  | escape {s t : List Char} (c : Char) (others : Quoted q s t) : Quoted q ('\\' :: c :: s) t
  | char {c : Char} {s t : List Char} (escape : c ≠ '\\') (newline : c ≠ '\n') (quote : c ≠ q)
      (others : Quoted q s t) : Quoted q (c :: s) t

/-- **A verbatim literal** behind its opening, in front of `t`. It ends with a quote that is not followed by another
    one, or with the text. -/
inductive Verbatim : List Char → List Char → Prop where
  | closed {t : List Char} (single : t.head? ≠ some '"') : Verbatim ['"'] t
  | stop : Verbatim [] []
  | double {s t : List Char} (others : Verbatim s t) : Verbatim ('"' :: '"' :: s) t
  | char {c : Char} {s t : List Char} (quote : c ≠ '"') (others : Verbatim s t) : Verbatim (c :: s) t

/-! ## Cutting -/

/-- What is neither a backslash alone nor one in front of a character is no backslash. -/
theorem ne_backslash (hnil : c = '\\' → s = [] → False) (hcons : ∀ e t, c = '\\' → s = e :: t → False) : c ≠ '\\' := by
  intro hc
  cases s with
  | nil => exact hnil hc rfl
  | cons e t => exact hcons e t hc rfl

theorem spanQuoted_cons (hc : c ≠ '\\') (q : Char) (s : List Char) : spanQuoted q (c :: s) =
    if c = '\n' then ([], c :: s) else if c = q then ([c], s)
    else (c :: (spanQuoted q s).1, (spanQuoted q s).2) := by
  rw [spanQuoted]
  · exact fun h => absurd h hc
  · exact fun _ _ h => absurd h hc

theorem spanVerbatim_cons (hc : c ≠ '"') (s : List Char) :
    spanVerbatim (c :: s) = (c :: (spanVerbatim s).1, (spanVerbatim s).2) := by
  rw [spanVerbatim]
  · exact fun _ h => absurd h hc
  · exact fun h => absurd h hc

theorem spanVerbatim_quote (hs : s.head? ≠ some '"') : spanVerbatim ('"' :: s) = (['"'], s) := by
  rw [spanVerbatim]
  rintro s' rfl
  exact hs rfl

theorem Quoted.spanQuoted (h : Quoted q s t) : Inlay.spanQuoted q (s ++ t) = (s, t) := by
  induction h with
  | closed escape newline => rw [List.singleton_append, spanQuoted_cons escape, if_neg newline, if_pos rfl]
  | newline | stop | stopEscape => rfl
  | @escape s t c _ ih =>
      show ('\\' :: c :: (Inlay.spanQuoted q (s ++ t)).1, (Inlay.spanQuoted q (s ++ t)).2) = _
      rw [ih]
  | char escape newline quote _ ih => rw [List.cons_append, spanQuoted_cons escape, if_neg newline, if_neg quote, ih]

/-- **What is cut is a quoted literal.** -/
theorem quoted_spanQuoted (q : Char) (s : List Char) : Quoted q (spanQuoted q s).1 (spanQuoted q s).2 := by
  fun_induction spanQuoted q s with
  | case1 => exact .stop
  | case2 => exact .stopEscape
  | case3 c s inside rest hcut ih =>
      rw [hcut] at ih
      exact .escape c ih
  | case4 s hnil hcons => exact .newline
  | case5 s hnil hcons hn => exact .closed (ne_backslash hnil hcons) hn
  | case6 c s hnil hcons hn hq inside rest hcut ih =>
      rw [hcut] at ih
      exact .char (ne_backslash hnil hcons) hn hq ih

theorem Verbatim.spanVerbatim (h : Verbatim s t) : Inlay.spanVerbatim (s ++ t) = (s, t) := by
  induction h with
  | closed single => exact spanVerbatim_quote single
  | stop => rfl
  | @double s t _ ih =>
      show ('"' :: '"' :: (Inlay.spanVerbatim (s ++ t)).1, (Inlay.spanVerbatim (s ++ t)).2) = _
      rw [ih]
  | char quote _ ih => rw [List.cons_append, spanVerbatim_cons quote, ih]

/-- **What is cut is a verbatim literal.** -/
theorem verbatim_spanVerbatim (s : List Char) : Verbatim (spanVerbatim s).1 (spanVerbatim s).2 := by
  fun_induction spanVerbatim s with
  | case1 => exact .stop
  | case2 s inside rest hcut ih =>
      rw [hcut] at ih
      exact .double ih
  | case3 s hs =>
      refine .closed ?_
      intro hhead
      cases s with
      | nil => cases hhead
      | cons d s =>
          obtain rfl : d = '"' := Option.some.inj hhead
          exact hs s rfl
  | case4 c s hdouble hc inside rest hcut ih =>
      rw [hcut] at ih
      exact .char (fun h => hc h) ih

/-! ## How a literal ends -/

/-- A quoted literal that something other than a newline follows ends with its quote. -/
theorem Quoted.getLast? {d : Char} (h : Quoted q s (d :: t)) (hd : d ≠ '\n') : s.getLast? = some q := by
  generalize hbehind : d :: t = behind at h
  induction h with
  | closed => rfl
  | newline =>
      cases hbehind
      exact absurd rfl hd
  | stop | stopEscape => cases hbehind
  | escape c _ ih =>
      have hlast := ih hbehind
      simp [List.getLast?_cons, hlast]
  | char _ _ _ _ ih =>
      have hlast := ih hbehind
      simp [List.getLast?_cons, hlast]

/-- A verbatim literal that something follows ends with a quote. -/
theorem Verbatim.getLast? {d : Char} (h : Verbatim s (d :: t)) : s.getLast? = some '"' := by
  generalize hbehind : d :: t = behind at h
  induction h with
  | closed => rfl
  | stop => cases hbehind
  | double _ ih =>
      have hlast := ih hbehind
      simp [List.getLast?_cons, hlast]
  | char _ _ ih =>
      have hlast := ih hbehind
      simp [List.getLast?_cons, hlast]

end Inlay
