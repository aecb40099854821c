import Inlay.Proofs.Text.Literals
import Inlay.Proofs.Text.Stripping
import Inlay.Proofs.Text.Utf8

/-!
# `Proofs.Text.BytePieces` — the pieces of a source in its bytes

The pieces of a source can be told from its bytes, where a backslash protects a byte and not a character. They are
given here by what they look like (`Begins`), not by how they are found: a text has one decomposition, and taking
comments out keeps of each piece what it should (`stripComments_keeps_pieces`).
-/

namespace Inlay

/-! ## Literals -/

/-- **The bytes of a quoted literal** behind its opening quote `q`, in front of other bytes: up to the next `q` that no
    backslash protects, up to a newline, or to the end. A backslash protects the byte behind it, whatever that is. -/
inductive QuotedBytes (q : UInt8) : Bytes → Bytes → Prop
  | closed {t : Bytes} : QuotedBytes q [q] t
  | newline {t : Bytes} : QuotedBytes q [] ('\n'.toUInt8 :: t)
  | stop : QuotedBytes q [] []
  | stopEscape : QuotedBytes q ['\\'.toUInt8] []
  | escape {s t : Bytes} (b : UInt8) (others : QuotedBytes q s t) : QuotedBytes q ('\\'.toUInt8 :: b :: s) t
  | byte {b : UInt8} {s t : Bytes} (escape : b ≠ '\\'.toUInt8) (newline : b ≠ '\n'.toUInt8) (quote : b ≠ q)
      (others : QuotedBytes q s t) : QuotedBytes q (b :: s) t

/-- **The bytes of a verbatim literal** behind its opening, in front of other bytes: up to the first quote that is not
    doubled, or to the end. -/
inductive VerbatimBytes : Bytes → Bytes → Prop
  | closed {t : Bytes} (single : t.head? ≠ some '"'.toUInt8) : VerbatimBytes ['"'.toUInt8] t
  | stop : VerbatimBytes [] []
  | double {s t : Bytes} (others : VerbatimBytes s t) : VerbatimBytes ('"'.toUInt8 :: '"'.toUInt8 :: s) t
  | byte {b : UInt8} {s t : Bytes} (quote : b ≠ '"'.toUInt8) (others : VerbatimBytes s t) : VerbatimBytes (b :: s) t

/-! ## Pieces -/

/-- A piece of the bytes of a source. -/
inductive BytePiece where
  /-- A quoted or verbatim literal. -/
  | literal (bytes : Bytes)
  /-- A line comment with its newline, or a block comment. -/
  | comment (bytes : Bytes)
  /-- Any other character. -/
  | other (c : Char)

namespace BytePiece

/-- All bytes of a piece. -/
def bytes : BytePiece → Bytes
  | literal u => u
  | comment u => u
  | other c => String.utf8EncodeChar c

/-- What should be left of a piece when comments go: all of it, and of a comment its newlines. -/
def kept : BytePiece → Bytes
  | literal u => u
  | comment u => u.filter (· == '\n'.toUInt8)
  | other c => String.utf8EncodeChar c

end BytePiece

/-- **The piece at the start** of some bytes, in front of the rest. What starts neither a literal nor a comment is a
    piece by itself. -/
inductive Begins : BytePiece → Bytes → Prop
  | verbatim {s t : Bytes} (inside : VerbatimBytes s t) : Begins (.literal ('@'.toUInt8 :: '"'.toUInt8 :: s)) t
  | quoted {q : Char} {s t : Bytes} (quote : q = '"' ∨ q = '\'') (inside : QuotedBytes q.toUInt8 s t) :
      Begins (.literal (q.toUInt8 :: s)) t
  | lineComment {s t : Bytes} (inside : Through ['\n'.toUInt8] s t) :
      Begins (.comment ('/'.toUInt8 :: '/'.toUInt8 :: s)) t
  | blockComment {s t : Bytes} (inside : Through ['*'.toUInt8, '/'.toUInt8] s t) :
      Begins (.comment ('/'.toUInt8 :: '*'.toUInt8 :: s)) t
  | other {c : Char} {t : Bytes} (quote : ¬(c = '"' ∨ c = '\'')) (verbatim : c = '@' → t.head? ≠ some '"'.toUInt8)
      (comment : c = '/' → t.head? ≠ some '/'.toUInt8 ∧ t.head? ≠ some '*'.toUInt8) : Begins (.other c) t

/-- **The pieces of some bytes**, from left to right. -/
inductive Decomposed : Bytes → List BytePiece → Prop
  | nil : Decomposed [] []
  | cons {p : BytePiece} {rest : Bytes} {ps : List BytePiece} (first : Begins p rest) (others : Decomposed rest ps) :
      Decomposed (p.bytes ++ rest) (p :: ps)

variable {q c : Char} {s t : List Char} {a b : UInt8} {u u' v v' w : Bytes} {p : BytePiece} {ps ps' : List BytePiece}

/-! ## One way to end a literal -/

/-- **A quoted literal ends in one way**: each rule says which bytes come next, and no two agree in that. -/
theorem QuotedBytes.unique (hescape : a ≠ '\\'.toUInt8) (hnewline : a ≠ '\n'.toUInt8) (h : QuotedBytes a u v)
    (h' : QuotedBytes a u' v') (heq : u ++ v = u' ++ v') : u = u' ∧ v = v' := by
  have hne : '\\'.toUInt8 ≠ '\n'.toUInt8 := by decide
  induction h generalizing u' with
  | closed => cases h' <;> grind
  | newline => cases h' <;> grind
  | stop => cases h' <;> grind
  | stopEscape => cases h' <;> grind
  | escape b _ ih => cases h' <;> grind
  | byte escape newline quote _ ih => cases h' <;> grind

/-- **A verbatim literal ends in one way.** -/
theorem VerbatimBytes.unique (h : VerbatimBytes u v) (h' : VerbatimBytes u' v') (heq : u ++ v = u' ++ v') :
    u = u' ∧ v = v' := by
  induction h generalizing u' with
  | closed single => cases h' <;> grind
  | stop => cases h' <;> grind
  | double _ ih => cases h' <;> grind
  | byte quote _ ih => cases h' <;> grind

/-! ## Literals of characters and of bytes -/

theorem QuotedBytes.append (hu : ∀ b ∈ u, b ≠ '\\'.toUInt8 ∧ b ≠ '\n'.toUInt8 ∧ b ≠ a) (h : QuotedBytes a v w) :
    QuotedBytes a (u ++ v) w := by
  induction u with
  | nil => exact h
  | cons b u ih =>
      rw [List.forall_mem_cons] at hu
      exact .byte hu.1.1 hu.1.2.1 hu.1.2.2 (ih hu.2)

theorem VerbatimBytes.append (hu : ∀ b ∈ u, b ≠ '"'.toUInt8) (h : VerbatimBytes v w) : VerbatimBytes (u ++ v) w := by
  induction u with
  | nil => exact h
  | cons b u ih =>
      rw [List.forall_mem_cons] at hu
      exact .byte hu.1 (ih hu.2)

/-- **A quoted literal** is one in bytes. -/
theorem Quoted.utf8 (hq : IsAscii q) (h : Quoted q s t) : QuotedBytes q.toUInt8 (Inlay.utf8 s) (Inlay.utf8 t) := by
  induction h with
  | closed =>
      rw [utf8_cons_of_isAscii hq]
      exact .closed
  | newline => exact .newline
  | stop => exact .stop
  | stopEscape => exact .stopEscape
  | @escape s t c _ ih =>
      -- the backslash protects the first byte of `c`, and the others need no protection
      obtain ⟨b, bs, hbytes, hwide⟩ := exists_utf8EncodeChar c
      rw [utf8_cons_of_isAscii (by decide), utf8_cons, hbytes, List.cons_append]
      refine .escape b (ih.append fun x hx => ?_)
      have hle := hwide x hx
      exact ⟨ne_toUInt8_of_le (by decide) hle, ne_toUInt8_of_le (by decide) hle, ne_toUInt8_of_le hq hle⟩
  | char escape newline quote _ ih =>
      rw [utf8_cons]
      refine ih.append fun b hb => ⟨?_, ?_, ?_⟩
      · exact ne_of_mem_utf8EncodeChar (by decide) escape hb
      · exact ne_of_mem_utf8EncodeChar (by decide) newline hb
      · exact ne_of_mem_utf8EncodeChar hq quote hb

/-- **A verbatim literal** is one in bytes. -/
theorem Verbatim.utf8 (h : Verbatim s t) : VerbatimBytes (Inlay.utf8 s) (Inlay.utf8 t) := by
  induction h with
  | closed single => exact .closed fun hhead => single ((head?_utf8 (by decide)).mp hhead)
  | stop => exact .stop
  | double _ ih => exact .double ih
  | char quote _ ih =>
      rw [utf8_cons]
      exact ih.append fun b hb => ne_of_mem_utf8EncodeChar (by decide) quote hb

/-! ## Comments of characters and of bytes -/

theorem through_utf8_spanLineComment (s : List Char) :
    Through ['\n'.toUInt8] (utf8 (spanLineComment s).1) (utf8 (spanLineComment s).2) :=
  (through_spanLineComment s).utf8 (List.forall_mem_singleton.mpr (by decide)) (List.cons_ne_nil _ _)

theorem through_utf8_spanBlockComment (s : List Char) :
    Through ['*'.toUInt8, '/'.toUInt8] (utf8 (spanBlockComment s).1) (utf8 (spanBlockComment s).2) := by
  refine (through_spanBlockComment s).utf8 ?_ (List.cons_ne_nil _ _)
  exact List.forall_mem_cons.mpr ⟨by decide, List.forall_mem_singleton.mpr (by decide)⟩

/-! ## Pieces of characters and of bytes -/

/-- The bytes of a piece. -/
def Piece.utf8 : Piece → BytePiece
  | literal s => .literal (Inlay.utf8 s)
  | comment s => .comment (Inlay.utf8 s)
  | other c => .other c

theorem Piece.bytes_utf8 (p : Piece) : p.utf8.bytes = Inlay.utf8 p.text := by
  cases p with
  | literal s => rfl
  | comment s => rfl
  | other c => exact (List.append_nil _).symm

theorem filter_utf8 (s : List Char) : (utf8 s).filter (· == '\n'.toUInt8) = utf8 (s.filter (· == '\n')) := by
  induction s with
  | nil => rfl
  | cons c s ih =>
      rw [utf8_cons, List.filter_append, ih]
      by_cases hc : c = '\n'
      · subst hc
        rfl
      · have hnone : (String.utf8EncodeChar c).filter (· == '\n'.toUInt8) = [] := by
          refine List.filter_eq_nil_iff.mpr fun b hb heq => ?_
          exact ne_of_mem_utf8EncodeChar (by decide) hc hb (beq_iff_eq.mp heq)
        rw [hnone, List.nil_append, List.filter_cons_of_neg (by simpa using hc)]

theorem Piece.kept_utf8 (p : Piece) : p.utf8.kept = Inlay.utf8 p.kept := by
  cases p with
  | literal s => rfl
  | comment s => exact filter_utf8 s
  | other c => exact (List.append_nil _).symm

/-- **The first piece of a text** is the piece at the start of its bytes. -/
theorem begins_firstPiece (c : Char) (s : List Char) : Begins (firstPiece c s).1.utf8 (utf8 (firstPiece c s).2) := by
  unfold firstPiece
  split
  · next s => exact .verbatim (verbatim_spanVerbatim s).utf8
  · next s => exact .lineComment (through_utf8_spanLineComment s)
  · next s => exact .blockComment (through_utf8_spanBlockComment s)
  · next hverbatim hline hblock =>
    split
    · next hquote =>
      have hc : IsAscii c := by rcases hquote with rfl | rfl <;> decide
      have hbegins := Begins.quoted hquote ((quoted_spanQuoted c s).utf8 hc)
      rwa [← utf8_cons_of_isAscii hc] at hbegins
    · next hquote =>
      refine .other hquote (fun hc hhead => ?_) (fun hc => ⟨fun hhead => ?_, fun hhead => ?_⟩)
      all_goals obtain ⟨t, rfl⟩ := List.head?_eq_some_iff.mp ((head?_utf8 (by decide)).mp hhead)
      · exact hverbatim t hc rfl
      · exact hline t hc rfl
      · exact hblock t hc rfl

/-- **The piece at the start of a text's bytes** is the first piece of the text. -/
theorem Begins.eq_firstPiece (h : Begins p v) (heq : p.bytes ++ v = utf8 (c :: s)) :
    p = (firstPiece c s).1.utf8 ∧ v = utf8 (firstPiece c s).2 := by
  cases h with
  | @verbatim u _ inside =>
      obtain ⟨t, ht, hu⟩ := of_utf8_eq_cons_cons (by decide) (by decide) heq.symm
      cases ht
      have hspan := (verbatim_spanVerbatim t).utf8
      obtain ⟨rfl, rfl⟩ := inside.unique hspan (by rw [← utf8_append, spanVerbatim_append, ← hu]; rfl)
      exact ⟨rfl, rfl⟩
  | @quoted q u _ quote inside =>
      have hq : IsAscii q := by rcases quote with rfl | rfl <;> decide
      have hescape : q.toUInt8 ≠ '\\'.toUInt8 := by rcases quote with rfl | rfl <;> decide
      have hnewline : q.toUInt8 ≠ '\n'.toUInt8 := by rcases quote with rfl | rfl <;> decide
      obtain ⟨t, ht, hu⟩ := of_utf8_eq_cons hq heq.symm
      cases ht
      have hspan := (quoted_spanQuoted c s).utf8 hq
      obtain ⟨rfl, rfl⟩ := inside.unique hescape hnewline hspan (by rw [← utf8_append, spanQuoted_append, ← hu]; rfl)
      rw [firstPiece_quote quote]
      exact ⟨congrArg BytePiece.literal (utf8_cons_of_isAscii hq _).symm, rfl⟩
  | @lineComment u _ inside =>
      obtain ⟨t, ht, hu⟩ := of_utf8_eq_cons_cons (by decide) (by decide) heq.symm
      cases ht
      have hspan := through_utf8_spanLineComment t
      obtain ⟨rfl, rfl⟩ := inside.unique (List.cons_ne_nil _ _) hspan
        (by rw [← utf8_append, spanLineComment_append, ← hu]; rfl)
      exact ⟨rfl, rfl⟩
  | @blockComment u _ inside =>
      obtain ⟨t, ht, hu⟩ := of_utf8_eq_cons_cons (by decide) (by decide) heq.symm
      cases ht
      have hspan := through_utf8_spanBlockComment t
      obtain ⟨rfl, rfl⟩ := inside.unique (List.cons_ne_nil _ _) hspan
        (by rw [← utf8_append, spanBlockComment_append, ← hu]; rfl)
      exact ⟨rfl, rfl⟩
  | other quote verbatim comment =>
      obtain ⟨rfl, rfl⟩ := utf8EncodeChar_append_inj heq
      rw [firstPiece_other quote (fun hc hhead => verbatim hc ((head?_utf8 (by decide)).mpr hhead)) fun hc =>
        ⟨fun hhead => (comment hc).1 ((head?_utf8 (by decide)).mpr hhead),
          fun hhead => (comment hc).2 ((head?_utf8 (by decide)).mpr hhead)⟩]
      exact ⟨rfl, rfl⟩

/-! ## The pieces of a text -/

theorem Begins.bytes_ne_nil (h : Begins p v) : p.bytes ≠ [] := by
  cases h with
  | other => exact String.utf8EncodeChar_ne_nil
  | _ => exact List.cons_ne_nil _ _

theorem decomposed_sourcePieces (s : List Char) : Decomposed (utf8 s) ((sourcePieces s).map Piece.utf8) := by
  fun_induction sourcePieces s with
  | case1 => exact .nil
  | case2 c s ih =>
      have h := Decomposed.cons (begins_firstPiece c s) ih
      rwa [Piece.bytes_utf8, ← utf8_append, firstPiece_append] at h

/-- **A text has one decomposition** into pieces, that of its bytes. -/
theorem Decomposed.eq_sourcePieces (h : Decomposed (utf8 s) ps) : ps = (sourcePieces s).map Piece.utf8 := by
  fun_induction sourcePieces s generalizing ps with
  | case1 =>
      generalize hb : utf8 [] = b at h
      cases h with
      | nil => rfl
      | cons first _ => exact absurd (List.append_eq_nil_iff.mp hb.symm).1 first.bytes_ne_nil
  | case2 c s ih =>
      generalize hb : utf8 (c :: s) = b at h
      cases h with
      | nil => exact absurd (List.append_eq_nil_iff.mp hb).1 String.utf8EncodeChar_ne_nil
      | cons first others =>
          obtain ⟨rfl, rfl⟩ := first.eq_firstPiece hb.symm
          rw [List.map_cons, ih others]

theorem utf8_flatMap {α : Type} (f : α → List Char) (xs : List α) :
    utf8 (xs.flatMap f) = xs.flatMap fun x => utf8 (f x) :=
  List.flatMap_assoc

/-- What should be left of a piece has all its newlines. -/
theorem BytePiece.count_kept (p : BytePiece) : p.kept.count '\n'.toUInt8 = p.bytes.count '\n'.toUInt8 := by
  cases p with
  | literal u => rfl
  | comment u => exact List.count_filter (by decide)
  | other c => rfl

theorem Decomposed.count_kept (h : Decomposed u ps) :
    (ps.flatMap BytePiece.kept).count '\n'.toUInt8 = u.count '\n'.toUInt8 := by
  induction h with
  | nil => rfl
  | @cons p _ _ _ _ ih => rw [List.flatMap_cons, List.count_append, List.count_append, ih, p.count_kept]

/-- **Taking comments out of a text deletes exactly its comments.** The bytes of a text have one decomposition into
    pieces. What is left of the text is what should be left of each piece, so it has as many newlines as the text. -/
theorem stripComments_keeps_pieces (s : List Char) :
    ∃ ps, Decomposed (utf8 s) ps ∧ (∀ ps', Decomposed (utf8 s) ps' → ps' = ps) ∧
      utf8 (stripComments s) = ps.flatMap BytePiece.kept ∧
      (utf8 (stripComments s)).count '\n'.toUInt8 = (utf8 s).count '\n'.toUInt8 := by
  have hkept : utf8 (stripComments s) = ((sourcePieces s).map Piece.utf8).flatMap BytePiece.kept := by
    rw [stripComments, utf8_flatMap, List.flatMap_map]
    exact congrArg (fun f => (sourcePieces s).flatMap f) (funext fun p => p.kept_utf8.symm)
  refine ⟨_, decomposed_sourcePieces s, fun ps h => h.eq_sourcePieces, hkept, ?_⟩
  rw [hkept, (decomposed_sourcePieces s).count_kept]

end Inlay
