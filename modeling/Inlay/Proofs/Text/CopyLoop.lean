import Inlay.Proofs.Text.ByteAccess
import Inlay.Proofs.Text.Seams

/-!
# `Proofs.Text.CopyLoop` — taking comments out with two offsets

Comments can be taken out by a loop over the bytes of a source. It keeps two offsets: its place, and the end of the last
comment, from where on the text is still to be copied. A round skips a literal, passes a single byte, or comes to a
comment, and then it copies what stands in front of it (`copyRound`). Each round gets ahead
(`place_lt_of_copyRound`), so the loop ends.

In front of a piece, what is written and what is still to be copied are together what is kept of the pieces so far. The
rounds over a piece keep this (`CopyState.Stands.piece`). So the loop takes no index and no slice that is none, and what
it writes is the source without its comments (`copyLoop_eq_stripComments`).
-/

namespace Inlay

variable {s t u v w stop done pending : List Char} {c : Char} {i k : Nat} {b : UInt8} {pre bs post : Bytes}

/-! ## Searching for a text -/

/-- The offset at which a text stands first. -/
def offsetOf? (stop : List Char) : List Char → Option Nat
  | [] => none
  | c :: s => if stop.isPrefixOf (c :: s) then some 0 else (offsetOf? stop s).map (c.utf8Size + ·)

theorem offsetOf?_eq_none (h : ¬ stop <:+: s) : offsetOf? stop s = none := by
  induction s with
  | nil => rfl
  | cons c s ih =>
      rw [List.infix_cons_iff, not_or] at h
      rw [offsetOf?, if_neg fun hstart => h.1 (List.isPrefixOf_iff_prefix.mp hstart), ih h.2]
      rfl

theorem offsetOf?_append (hne : stop ≠ []) (absent : ¬ stop <:+: u ++ stop.dropLast) (v : List Char) :
    offsetOf? stop (u ++ (stop ++ v)) = some (byteLength u) := by
  induction u with
  | nil =>
      obtain ⟨c, w, rfl⟩ := List.exists_cons_of_ne_nil hne
      rw [List.nil_append, List.cons_append, offsetOf?, if_pos]
      · rfl
      · exact List.isPrefixOf_iff_prefix.mpr (List.prefix_append (c :: w) v)
  | cons c u ih =>
      rw [List.cons_append, List.infix_cons_iff, not_or] at absent
      -- at `c` the text would end in front of the last character of the first one that stands there
      have hstart : ¬ stop <+: c :: (u ++ (stop ++ v)) := by
        intro hprefix
        refine absent.1 (List.prefix_of_prefix_length_le hprefix ?_ ?_)
        · rw [List.cons_prefix_cons, List.prefix_append_right_inj]
          exact ⟨rfl, (List.dropLast_prefix stop).trans (List.prefix_append stop v)⟩
        · rw [List.length_cons, List.length_append, List.length_dropLast]
          omega
      rw [List.cons_append, offsetOf?, if_neg fun h => hstart (List.isPrefixOf_iff_prefix.mp h), ih absent.2]
      rfl

/-- **A search for a stop** finds where the text up to it ends, or nothing if it reaches to the end. -/
theorem Through.offsetOf? (hne : stop ≠ []) (h : Through stop t v) :
    (∃ w, t = w ++ stop ∧ ¬ stop <:+: w ++ stop.dropLast ∧ Inlay.offsetOf? stop (t ++ v) = some (byteLength w)) ∨
      v = [] ∧ ¬ stop <:+: t ∧ Inlay.offsetOf? stop (t ++ v) = none := by
  cases h with
  | @first w _ absent =>
      refine Or.inl ⟨w, rfl, absent, ?_⟩
      rw [List.append_assoc]
      exact offsetOf?_append hne absent v
  | rest absent =>
      refine Or.inr ⟨rfl, absent, ?_⟩
      rw [List.append_nil]
      exact offsetOf?_eq_none absent

/-! ## The loop -/

/-- Where the loop stands, from where on the text is still to be copied, and what is written. -/
structure CopyState where
  place : Nat
  copyFrom : Nat
  out : List Char

namespace CopyState

/-- Copies what stands in front of a comment, writes what is left of it, and goes on behind it. -/
def leave (s : List Char) (state : CopyState) (stop : Nat) (left : List Char) : Access CopyState := do
  let front ← textIn s state.copyFrom state.place
  .ok ⟨stop, stop, state.out ++ front ++ left⟩

/-- Leaves a line comment, which becomes its newline. -/
def leaveLine (s : List Char) (state : CopyState) : Access CopyState := do
  let behind ← textFrom s state.place
  (offsetOf? ['\n'] behind).elim (state.leave s (utf8 s).length []) fun k =>
    state.leave s (state.place + k + 1) ['\n']

/-- Leaves a block comment, which becomes the newlines that are counted in it. -/
def leaveBlock (s : List Char) (state : CopyState) : Access CopyState := do
  let behind ← textFrom s (state.place + 2)
  let stop := (offsetOf? ['*', '/'] behind).elim (utf8 s).length fun k => state.place + 2 + k + 2
  let comment ← textIn s state.place stop
  state.leave s stop (List.replicate (newlines comment) '\n')

end CopyState

/-- **One round of the loop.** -/
def copyRound (s : List Char) (state : CopyState) : Access CopyState := do
  let b ← byteAt (utf8 s) state.place
  if b = '@'.toUInt8 ∧ (utf8 s)[state.place + 1]? = some '"'.toUInt8 then
    .ok { state with place := skipVerbatim (utf8 s) (state.place + 2) }
  else if b = '"'.toUInt8 ∨ b = '\''.toUInt8 then .ok { state with place := skipQuoted (utf8 s) b (state.place + 1) }
  else if b = '/'.toUInt8 ∧ (utf8 s)[state.place + 1]? = some '/'.toUInt8 then state.leaveLine s
  else if b = '/'.toUInt8 ∧ (utf8 s)[state.place + 1]? = some '*'.toUInt8 then state.leaveBlock s
  else .ok { state with place := state.place + 1 }

/-! ### Rounds get ahead -/

theorem min_le_skipQuoted (bytes : Bytes) (quote : UInt8) (i : Nat) :
    min i bytes.length ≤ skipQuoted bytes quote i := by
  fun_induction skipQuoted bytes quote i <;> omega

theorem min_le_skipVerbatim (bytes : Bytes) (i : Nat) : min i bytes.length ≤ skipVerbatim bytes i := by
  fun_induction skipVerbatim bytes i <;> omega

variable {state state' : CopyState}

theorem CopyState.place_of_leave {left : List Char} (h : state.leave s i left = .ok state') : state'.place = i := by
  obtain ⟨front, -, h⟩ := bind_eq_ok.mp h
  cases h
  rfl

/-- **A round gets ahead.** -/
theorem place_lt_of_copyRound (inside : state.place < (utf8 s).length) (h : copyRound s state = .ok state') :
    state.place < state'.place := by
  obtain ⟨b, -, h⟩ := bind_eq_ok.mp h
  split at h
  · next hverbatim =>
    cases h
    have hnext := (List.getElem?_eq_some_iff.mp hverbatim.2).1
    have hskip := min_le_skipVerbatim (utf8 s) (state.place + 2)
    show state.place < skipVerbatim (utf8 s) (state.place + 2)
    omega
  split at h
  · cases h
    have hskip := min_le_skipQuoted (utf8 s) b (state.place + 1)
    show state.place < skipQuoted (utf8 s) b (state.place + 1)
    omega
  split at h
  · obtain ⟨behind, -, h⟩ := bind_eq_ok.mp h
    cases hoffset : offsetOf? ['\n'] behind with
    | none =>
        rw [hoffset] at h
        rwa [CopyState.place_of_leave h]
    | some k =>
        rw [hoffset] at h
        rw [CopyState.place_of_leave h]
        omega
  split at h
  · obtain ⟨behind, -, h⟩ := bind_eq_ok.mp h
    obtain ⟨comment, -, h⟩ := bind_eq_ok.mp h
    rw [CopyState.place_of_leave h]
    cases offsetOf? ['*', '/'] behind with
    | none => exact inside
    | some k =>
        show state.place < state.place + 2 + k + 2
        omega
  · cases h
    exact Nat.lt_succ_self _

/-- **The loop**, and behind it what is left to be copied. -/
def copyLoop (s : List Char) (state : CopyState) : Access (List Char) :=
  if _inside : state.place < (utf8 s).length then
    match _round : copyRound s state with
    | .error why => .error why
    | .ok state' => copyLoop s state'
  else do
    let rest ← textFrom s state.copyFrom
    .ok (state.out ++ rest)
termination_by (utf8 s).length - state.place
decreasing_by
  have hahead := place_lt_of_copyRound _inside _round
  omega

theorem copyLoop_of_round (inside : state.place < (utf8 s).length) (h : copyRound s state = .ok state') :
    copyLoop s state = copyLoop s state' := by
  rw [copyLoop, dif_pos inside]
  split
  · next why herror => cases h.symm.trans herror
  · next state'' hok => rw [Except.ok.inj (h.symm.trans hok)]

/-! ## Rounds over a piece -/

/-- A byte that starts nothing is passed. -/
theorem copyLoop_skip (hb : (utf8 s)[state.place]? = some b)
    (verbatim : b = '@'.toUInt8 → (utf8 s)[state.place + 1]? ≠ some '"'.toUInt8)
    (quote : ¬(b = '"'.toUInt8 ∨ b = '\''.toUInt8))
    (comment : b = '/'.toUInt8 → (utf8 s)[state.place + 1]? ≠ some '/'.toUInt8 ∧
      (utf8 s)[state.place + 1]? ≠ some '*'.toUInt8) :
    copyLoop s state = copyLoop s { state with place := state.place + 1 } := by
  refine copyLoop_of_round (List.getElem?_eq_some_iff.mp hb).1 ?_
  have hverbatim : ¬(b = '@'.toUInt8 ∧ (utf8 s)[state.place + 1]? = some '"'.toUInt8) :=
    fun ⟨hat, hnext⟩ => verbatim hat hnext
  have hline : ¬(b = '/'.toUInt8 ∧ (utf8 s)[state.place + 1]? = some '/'.toUInt8) :=
    fun ⟨hslash, hnext⟩ => (comment hslash).1 hnext
  have hblock : ¬(b = '/'.toUInt8 ∧ (utf8 s)[state.place + 1]? = some '*'.toUInt8) :=
    fun ⟨hslash, hnext⟩ => (comment hslash).2 hnext
  simp only [copyRound, byteAt, hb, bind, Except.bind, if_neg hverbatim, if_neg quote, if_neg hline, if_neg hblock]

/-- The bytes of wide characters are passed one by one. -/
theorem copyLoop_skip_wide (hbytes : utf8 s = pre ++ (bs ++ post)) (wide : ∀ b ∈ bs, 128 ≤ b.toNat) (k : Nat)
    (out : List Char) : copyLoop s ⟨pre.length, k, out⟩ = copyLoop s ⟨pre.length + bs.length, k, out⟩ := by
  induction bs generalizing pre with
  | nil => rfl
  | cons b bs ih =>
      rw [List.forall_mem_cons] at wide
      have hb : (utf8 s)[pre.length]? = some b := by
        rw [hbytes, List.getElem?_append_right (Nat.le_refl _), Nat.sub_self]
        rfl
      have hother : ∀ d : Char, IsAscii d → b ≠ d.toUInt8 := fun d hd => ne_toUInt8_of_le hd wide.1
      have hround : copyLoop s ⟨pre.length, k, out⟩ = copyLoop s ⟨pre.length + 1, k, out⟩ := by
        apply copyLoop_skip hb
        · exact fun hat => absurd hat (hother '@' (by decide))
        · exact not_or.mpr ⟨hother '"' (by decide), hother '\'' (by decide)⟩
        · exact fun hslash => absurd hslash (hother '/' (by decide))
      have hbehind : utf8 s = pre ++ [b] ++ (bs ++ post) := by
        rw [hbytes, List.append_assoc]
        rfl
      have hrounds := ih hbehind wide.2
      rw [List.length_append, List.length_singleton, Nat.add_assoc, Nat.add_comm 1] at hrounds
      rw [hround, List.length_cons, ← hrounds]

theorem Piece.kept_comment (t : List Char) : (Piece.comment t).kept = List.replicate (newlines t) '\n' :=
  List.filter_beq '\n'

/-- **A state in front of `v`**: `done` is copied or left out, and `pending` is still to be copied. -/
structure CopyState.Stands (s done pending v : List Char) (state : CopyState) : Prop where
  copied : Cursor s done (pending ++ v) state.copyFrom
  place : state.place = state.copyFrom + byteLength pending

namespace CopyState.Stands

/-- The place is a cursor, too. -/
theorem cursor (h : state.Stands s done pending v) : Cursor s (done ++ pending) v state.place := by
  rw [h.place]
  exact h.copied.move

theorem inside (h : state.Stands s done pending (c :: v)) : state.place < (utf8 s).length := by
  have hpos := c.utf8Size_pos
  rw [h.cursor.length_eq, byteLength_cons]
  omega

/-- What is kept is still to be copied. -/
theorem keep (h : state.Stands s done pending (w ++ v)) :
    CopyState.Stands s done (pending ++ w) v { state with place := state.place + byteLength w } where
  copied := by
    rw [List.append_assoc]
    exact h.copied
  place := by
    rw [byteLength_append, ← Nat.add_assoc, ← h.place]

/-- **Leaving a comment** copies what is still to be copied. -/
theorem leave (h : state.Stands s done pending (w ++ v)) (left : List Char) :
    state.leave s (state.place + byteLength w) left =
      .ok ⟨state.place + byteLength w, state.place + byteLength w, state.out ++ pending ++ left⟩ := by
  have hfront := h.copied.textIn
  rw [← h.place] at hfront
  rw [CopyState.leave, hfront]
  rfl

/-- A verbatim literal takes one round. -/
theorem verbatim (h : state.Stands s done pending ('@' :: '"' :: w ++ v)) (literal : Verbatim w v) :
    copyRound s state = .ok { state with place := state.place + byteLength ('@' :: '"' :: w) } := by
  obtain ⟨hat, hnext, hskip⟩ := h.cursor.atVerbatim literal
  rw [← hskip]
  simp only [copyRound, hat, hnext, bind, Except.bind, and_self, if_true]

/-- A quoted literal takes one round. -/
theorem quoted (h : state.Stands s done pending (c :: w ++ v)) (quote : c = '"' ∨ c = '\'') (literal : Quoted c w v) :
    copyRound s state = .ok { state with place := state.place + byteLength (c :: w) } := by
  obtain ⟨hbyte, hskip⟩ := h.cursor.atQuoted quote literal
  have hat : ¬ c.toUInt8 = '@'.toUInt8 := by rcases quote with rfl | rfl <;> decide
  have hquote : c.toUInt8 = '"'.toUInt8 ∨ c.toUInt8 = '\''.toUInt8 := quote.imp (congrArg _) (congrArg _)
  rw [← hskip]
  simp only [copyRound, hbyte, hat, hquote, bind, Except.bind, false_and, if_false, if_true]

theorem copyRound_line (h : state.Stands s done pending ('/' :: '/' :: v)) : copyRound s state = state.leaveLine s := by
  have hslash := h.cursor.byteAt (by decide)
  have hnext := ((h.cursor.moveChar (by decide)).getElem?_eq_iff (d := '/') (by decide)).mpr rfl
  have hother : ¬('/'.toUInt8 = '"'.toUInt8 ∨ '/'.toUInt8 = '\''.toUInt8) := by decide
  have hat : ¬ '/'.toUInt8 = '@'.toUInt8 := by decide
  simp only [copyRound, hslash, hnext, hother, hat, bind, Except.bind, false_and, and_self, if_true, if_false]

theorem copyRound_block (h : state.Stands s done pending ('/' :: '*' :: v)) :
    copyRound s state = state.leaveBlock s := by
  have hslash := h.cursor.byteAt (by decide)
  have hnext := ((h.cursor.moveChar (by decide)).getElem?_eq_iff (d := '*') (by decide)).mpr rfl
  have hother : ¬('/'.toUInt8 = '"'.toUInt8 ∨ '/'.toUInt8 = '\''.toUInt8) := by decide
  have hat : ¬ '/'.toUInt8 = '@'.toUInt8 := by decide
  have hstar : ¬ some '*'.toUInt8 = some '/'.toUInt8 := by decide
  simp only [copyRound, hslash, hnext, hother, hat, hstar, bind, Except.bind, false_and, and_false, and_self, if_true,
    if_false]

/-- **A line comment** is left with its newline. -/
theorem lineComment (h : state.Stands s done pending (w ++ v)) (comment : Through ['\n'] w v) :
    state.leaveLine s = .ok ⟨state.place + byteLength w, state.place + byteLength w,
      state.out ++ pending ++ (Piece.comment w).kept⟩ := by
  rw [CopyState.leaveLine, h.cursor.textFrom, Piece.kept_comment]
  rcases comment.offsetOf? (List.cons_ne_nil _ _) with ⟨u, rfl, absent, hoffset⟩ | ⟨rfl, absent, hoffset⟩
  · have hline : newlines (u ++ ['\n']) = 1 := by
      rw [List.dropLast_singleton, List.append_nil, List.singleton_infix_iff] at absent
      rw [newlines_append, newlines_eq_zero.mpr absent]
      rfl
    have hstop : state.place + byteLength u + 1 = state.place + byteLength (u ++ ['\n']) := by
      rw [byteLength_append, ← Nat.add_assoc]
      rfl
    show (offsetOf? ['\n'] (u ++ ['\n'] ++ v)).elim _ _ = _
    rw [hoffset, hline, Option.elim_some, hstop]
    exact h.leave ['\n']
  · have hlines : newlines w = 0 := by
      rw [List.singleton_infix_iff] at absent
      exact newlines_eq_zero.mpr absent
    have hstop : (utf8 s).length = state.place + byteLength w := by
      rw [h.cursor.length_eq, List.append_nil]
    show (offsetOf? ['\n'] (w ++ [])).elim _ _ = _
    rw [hoffset, hlines, Option.elim_none, hstop]
    exact h.leave []

/-- **A block comment** becomes its newlines. -/
theorem blockComment (h : state.Stands s done pending ('/' :: '*' :: w ++ v))
    (comment : Through ['*', '/'] w v) :
    state.leaveBlock s = .ok ⟨state.place + byteLength ('/' :: '*' :: w), state.place + byteLength ('/' :: '*' :: w),
      state.out ++ pending ++ (Piece.comment ('/' :: '*' :: w)).kept⟩ := by
  have hbehind : textFrom s (state.place + 2) = .ok (w ++ v) :=
    ((h.cursor.moveChar (by decide)).moveChar (by decide)).textFrom
  have hlength : ∀ u : List Char, state.place + byteLength ('/' :: '*' :: u) = state.place + 2 + byteLength u := by
    intro u
    rw [byteLength_cons, byteLength_cons, ← Nat.add_assoc, ← Nat.add_assoc]
    rfl
  have hstop : ((offsetOf? ['*', '/'] (w ++ v)).elim (utf8 s).length fun k => state.place + 2 + k + 2) =
      state.place + byteLength ('/' :: '*' :: w) := by
    rcases comment.offsetOf? (List.cons_ne_nil _ _) with ⟨u, rfl, -, hoffset⟩ | ⟨rfl, -, hoffset⟩
    · rw [hoffset, hlength, byteLength_append, ← Nat.add_assoc]
      rfl
    · rw [hoffset, Option.elim_none, h.cursor.length_eq, List.append_nil]
  rw [CopyState.leaveBlock, hbehind, Piece.kept_comment]
  show (textIn s state.place ((offsetOf? ['*', '/'] (w ++ v)).elim (utf8 s).length fun k => state.place + 2 + k + 2) >>=
    fun comment => state.leave s _ (List.replicate (newlines comment) '\n')) = _
  rw [hstop, h.cursor.textIn]
  exact h.leave _

/-- A single character takes a round for each of its bytes. -/
theorem other (h : state.Stands s done pending (c :: v)) (quote : ¬(c = '"' ∨ c = '\''))
    (verbatim : c = '@' → v.head? ≠ some '"') (comment : c = '/' → v.head? ≠ some '/' ∧ v.head? ≠ some '*') :
    copyLoop s state = copyLoop s { state with place := state.place + byteLength [c] } := by
  rw [byteLength_cons, byteLength_nil, Nat.add_zero]
  by_cases hascii : IsAscii c
  · obtain ⟨hdouble, hsingle⟩ := not_or.mp quote
    have hnext := h.cursor.moveChar hascii
    have heq : ∀ d : Char, IsAscii d → c.toUInt8 = d.toUInt8 → c = d := fun d hd hsame =>
      Classical.byContradiction fun hne => toUInt8_ne_toUInt8 hascii hd hne hsame
    rw [utf8Size_eq_one hascii]
    apply copyLoop_skip ((h.cursor.getElem?_eq_iff hascii).mpr rfl)
    · intro hat
      exact mt (hnext.getElem?_eq_iff (by decide)).mp (verbatim (heq '@' (by decide) hat))
    · exact not_or.mpr ⟨mt (heq '"' (by decide)) hdouble, mt (heq '\'' (by decide)) hsingle⟩
    · intro hslash
      obtain ⟨hline, hblock⟩ := comment (heq '/' (by decide) hslash)
      exact ⟨mt (hnext.getElem?_eq_iff (by decide)).mp hline, mt (hnext.getElem?_eq_iff (by decide)).mp hblock⟩
  · obtain ⟨htext, hplace⟩ := h.cursor
    have hbytes : utf8 s = utf8 (done ++ pending) ++ (String.utf8EncodeChar c ++ utf8 v) := by
      rw [htext, utf8_append, utf8_cons]
    have hskip := copyLoop_skip_wide hbytes (fun b hb => le_of_mem_utf8EncodeChar hascii hb) state.copyFrom state.out
    rwa [length_utf8, String.length_utf8EncodeChar, ← hplace] at hskip

/-- A state behind a comment has nothing to copy yet. -/
theorem behind (h : state.Stands s done pending (w ++ v)) (out : List Char) :
    CopyState.Stands s (done ++ pending ++ w) [] v ⟨state.place + byteLength w, state.place + byteLength w, out⟩ where
  copied := h.cursor.move
  place := rfl

/-- **The rounds over a piece** add what is kept of it to what is written and to be copied. -/
theorem piece (h : state.Stands s done pending (c :: t)) : ∃ done' pending' state',
    CopyState.Stands s done' pending' (firstPiece c t).2 state' ∧ copyLoop s state = copyLoop s state' ∧
      state'.out ++ pending' = state.out ++ pending ++ (firstPiece c t).1.kept := by
  have hinside := h.inside
  -- behind a literal or a character there is more to be copied, and behind a comment nothing yet
  unfold firstPiece
  split
  · next t =>
    dsimp only
    rw [← spanVerbatim_append t] at h
    exact ⟨_, _, _, h.keep, copyLoop_of_round hinside (h.verbatim (verbatim_spanVerbatim t)),
      (List.append_assoc _ _ _).symm⟩
  · next t =>
    dsimp only
    have hround := h.copyRound_line
    rw [← spanLineComment_append t] at h
    have hthrough := ((through_spanLineComment t).cons (x := '/') (by decide)).cons (x := '/') (by decide)
    exact ⟨_, [], _, h.behind _, copyLoop_of_round hinside (hround.trans (h.lineComment hthrough)), List.append_nil _⟩
  · next t =>
    dsimp only
    have hround := h.copyRound_block
    rw [← spanBlockComment_append t] at h
    have hleave := h.blockComment (through_spanBlockComment t)
    exact ⟨_, [], _, h.behind _, copyLoop_of_round hinside (hround.trans hleave), List.append_nil _⟩
  · next hverbatim hline hblock =>
    split
    · next hquote =>
      rw [← spanQuoted_append c t] at h
      exact ⟨_, _, _, h.keep, copyLoop_of_round hinside (h.quoted hquote (quoted_spanQuoted c t)),
        (List.append_assoc _ _ _).symm⟩
    · next hquote =>
      refine ⟨_, _, _, h.keep (w := [c]), h.other hquote ?_ ?_, (List.append_assoc _ _ _).symm⟩
      · intro hc hhead
        obtain ⟨u, rfl⟩ := List.head?_eq_some_iff.mp hhead
        exact hverbatim u hc rfl
      · refine fun hc => ⟨fun hhead => ?_, fun hhead => ?_⟩
        all_goals obtain ⟨u, rfl⟩ := List.head?_eq_some_iff.mp hhead
        · exact hline u hc rfl
        · exact hblock u hc rfl

/-- **The loop from a state on** writes the rest without its comments. -/
theorem copyLoop_eq (h : state.Stands s done pending v) :
    copyLoop s state = .ok (state.out ++ pending ++ stripComments v) := by
  fun_induction sourcePieces v generalizing done pending state with
  | case1 =>
      have hend : ¬ state.place < (utf8 s).length := by
        rw [h.cursor.length_eq, byteLength_nil]
        exact Nat.lt_irrefl _
      have hrest := h.copied.textFrom
      rw [List.append_nil] at hrest
      rw [copyLoop, dif_neg hend, hrest, stripComments_nil, List.append_nil]
      rfl
  | case2 c t ih =>
      obtain ⟨done', pending', state', hstands, hloop, hkept⟩ := h.piece
      rw [hloop, ih hstands, stripComments_cons, ← List.append_assoc, hkept]

end CopyState.Stands

/-- **Copying with two offsets takes the comments out**, with no access outside of the source. -/
theorem copyLoop_eq_stripComments (s : List Char) : copyLoop s ⟨0, 0, []⟩ = .ok (stripComments s) := by
  have hstart : CopyState.Stands s [] [] s ⟨0, 0, []⟩ := ⟨.start s, rfl⟩
  exact hstart.copyLoop_eq

end Inlay
