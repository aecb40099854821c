import Inlay.Text.Blank
import Inlay.Template.Token

/-!
# `Inlay.Template.Segment` — source cut at its tags

A source is a sequence of literal runs and tags. A tag starts with two opening brackets; the character behind
them says what it is, and it ends with two closing brackets. A line tag, marked by a tilde, ends with its line
instead and takes the newline with it.
-/

namespace Inlay

/-- A piece of a source. -/
inductive Segment where
  /-- Text that is copied. -/
  | literal (text : List Char)
  /-- Code between brackets. -/
  | code (text : List Char)
  /-- Code up to the end of its line. -/
  | lineCode (text : List Char)
  /-- Text that is dropped. -/
  | comment (text : List Char)
  /-- An expression whose value is copied. -/
  | expression (text : List Char)
deriving DecidableEq, Repr

namespace Segment

/-- The text of a segment, without what marks it as a tag. -/
def text : Segment → List Char
  | literal t | code t | lineCode t | comment t | expression t => t

/-- The text of a literal run. -/
def literal? : Segment → Option (List Char)
  | literal t => some t
  | _ => none

/-- The tag with the text `body` between its brackets. -/
def ofBody : List Char → Segment
  | '=' :: t => expression t
  | '#' :: t => comment t
  | t => code t

/-- The line tag with the text `line` behind its tilde. The closing brackets are optional. -/
def ofLine (line : List Char) : Segment :=
  match (trimEnd line).reverse with
  | ']' :: ']' :: t => lineCode t.reverse
  | t => lineCode t.reverse

/-- A literal run, unless it is empty. -/
def run (text : List Char) : List Segment :=
  if text.isEmpty then [] else [literal text]

end Segment

/-! ## Cutting -/

/-- What stands before and behind the first `c` that is doubled. -/
def cutAtDouble? (c : Char) : List Char → Option (List Char × List Char)
  | [] => none
  | [_] => none
  | a :: b :: s =>
    if a = c ∧ b = c then some ([], s)
    else (cutAtDouble? c (b :: s)).map fun (before, behind) => (a :: before, behind)

/-- The cut loses the doubled character and nothing else. -/
theorem append_of_cutAtDouble? {c : Char} {s before behind : List Char}
    (h : cutAtDouble? c s = some (before, behind)) : s = before ++ c :: c :: behind := by
  induction s generalizing before with
  | nil => simp [cutAtDouble?] at h
  | cons a s ih =>
    cases s with
    | nil => simp [cutAtDouble?] at h
    | cons b s =>
      rw [cutAtDouble?] at h
      split at h
      · next hc =>
        obtain ⟨rfl, rfl⟩ := hc
        simp at h
        obtain ⟨rfl, rfl⟩ := h
        rfl
      · obtain ⟨⟨u, v⟩, huv, heq⟩ := Option.map_eq_some_iff.1 h
        simp at heq
        obtain ⟨rfl, rfl⟩ := heq
        rw [ih huv]
        rfl

/-- The characters of a text in front of its first newline. -/
def firstLine (s : List Char) : List Char :=
  s.takeWhile (· ≠ '\n')

/-- The segments of a text that starts at `p`. A tag that does not end is a fault at its start. -/
def segmentsFrom (p : Position) (s : List Char) : Except SyntaxFault (List Segment) :=
  match _cut : cutAtDouble? '[' s with
  | none => .ok (Segment.run s)
  | some (before, '~' :: behind) => do
    let line := firstLine behind
    let others ← segmentsFrom (p.advance (before ++ '[' :: '[' :: '~' :: behind.take (line.length + 1)))
      (behind.drop (line.length + 1))
    .ok (Segment.run before ++ Segment.ofLine line :: others)
  | some (before, behind) =>
    match _close : cutAtDouble? ']' behind with
    | none => .error ⟨p.advance before, .unterminatedTag⟩
    | some (body, rest) => do
      let others ← segmentsFrom (p.advance (before ++ '[' :: '[' :: body ++ [']', ']'])) rest
      .ok (Segment.run before ++ Segment.ofBody body :: others)
termination_by s.length
decreasing_by
  · have h := congrArg List.length (append_of_cutAtDouble? _cut)
    simp only [List.length_append, List.length_cons, List.length_drop] at h ⊢
    omega
  · have h := congrArg List.length (append_of_cutAtDouble? _cut)
    have hb := congrArg List.length (append_of_cutAtDouble? _close)
    simp only [List.length_append, List.length_cons] at h hb
    omega

/-- The segments of a source. -/
def segments (source : String) : Except SyntaxFault (List Segment) :=
  segmentsFrom {} source.toList

end Inlay
