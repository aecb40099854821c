/-!
# `Inlay.Text.Literal` — where a literal ends

Kernel source knows two kinds of literal. A **quoted** literal, in double or single quotes, lets a backslash
protect the next character and cannot span lines: one that is not closed ends in front of the newline. A
**verbatim** literal opens with an at sign and a double quote, may span lines, and writes a quote twice.
Both functions take the text behind the opening and cut it into what belongs to the literal and the rest.
-/

namespace Inlay

/-- Cuts the text behind an opening quote `q`. The first part holds the closing quote, if there is one. -/
def spanQuoted (q : Char) : List Char → List Char × List Char
  | [] => ([], [])
  | '\\' :: [] => (['\\'], [])
  | '\\' :: c :: s =>
    let (inside, rest) := spanQuoted q s
    ('\\' :: c :: inside, rest)
  | c :: s =>
    if c = '\n' then ([], c :: s)
    else if c = q then ([c], s)
    else
      let (inside, rest) := spanQuoted q s
      (c :: inside, rest)

/-- Cuts the text behind the opening of a verbatim literal. The first part holds the closing quote, if there is
    one. -/
def spanVerbatim : List Char → List Char × List Char
  | [] => ([], [])
  | '"' :: '"' :: s =>
    let (inside, rest) := spanVerbatim s
    ('"' :: '"' :: inside, rest)
  | '"' :: s => (['"'], s)
  | c :: s =>
    let (inside, rest) := spanVerbatim s
    (c :: inside, rest)

/-- Nothing is lost or reordered. -/
theorem spanQuoted_append (q : Char) (s : List Char) :
    (spanQuoted q s).1 ++ (spanQuoted q s).2 = s := by
  fun_induction spanQuoted q s <;> simp_all

/-- Nothing is lost or reordered. -/
theorem spanVerbatim_append (s : List Char) : (spanVerbatim s).1 ++ (spanVerbatim s).2 = s := by
  fun_induction spanVerbatim s <;> simp_all

theorem length_spanQuoted_le (q : Char) (s : List Char) : (spanQuoted q s).2.length ≤ s.length := by
  have h := congrArg List.length (spanQuoted_append q s)
  rw [List.length_append] at h
  omega

theorem length_spanVerbatim_le (s : List Char) : (spanVerbatim s).2.length ≤ s.length := by
  have h := congrArg List.length (spanVerbatim_append s)
  rw [List.length_append] at h
  omega

end Inlay
