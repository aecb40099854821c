import Inlay.Error
import Inlay.Proofs.Fallible
import Inlay.Proofs.Text.BytePieces
import Inlay.Proofs.Text.Slices
import Inlay.Proofs.Text.Words

/-!
# `Proofs.Text.ByteAccess` — a text read by offsets

A scan that keeps its place in a text as a number of bytes can go wrong: an index may lie behind the end, a slice may
start behind its own end or cut a character in two. Here every index and every slice is checked, and a scan that takes
one that is none stops `outside`.

A cursor says where an offset stands, as the text in front of it and the text behind (`Cursor`). At a cursor all
accesses are legal that stay within the text behind, and runs and searches lead to the next cursor.
-/

namespace Inlay

variable {s t u v w : List Char} {c d : Char} {i lo hi : Nat} {p : Char → Bool} {class? : UInt8 → Bool}
  {bytes pre : Bytes} {quote : UInt8}

/-! ## Checked accesses -/

/-- Why a scan stops before its end. -/
inductive Stop where
  /-- It takes an index or a slice that is none of the text. -/
  | outside
  /-- It reports a fault. -/
  | fault (e : Error)

/-- A result, or why there is none. -/
abbrev Access := Except Stop

/-- The byte at an index. -/
def byteAt (bytes : Bytes) (i : Nat) : Access UInt8 :=
  match bytes[i]? with
  | some b => .ok b
  | none => .error .outside

/-- The bytes from an index on. -/
def bytesFrom (bytes : Bytes) (lo : Nat) : Access Bytes :=
  if lo ≤ bytes.length then .ok (bytes.drop lo) else .error .outside

/-- The bytes from an index up to another one. -/
def bytesIn (bytes : Bytes) (lo hi : Nat) : Access Bytes :=
  if lo ≤ hi ∧ hi ≤ bytes.length then .ok ((bytes.drop lo).take (hi - lo)) else .error .outside

/-- The text from an offset on, at which a character must start or the text end. -/
def textFrom (s : List Char) (lo : Nat) : Access (List Char) :=
  match cutAt? lo s with
  | some (_, behind) => .ok behind
  | none => .error .outside

/-- The text up to an offset, at which a character must start or the text end. -/
def textTo (s : List Char) (hi : Nat) : Access (List Char) :=
  match cutAt? hi s with
  | some (front, _) => .ok front
  | none => .error .outside

/-- The text from an offset up to another one. -/
def textIn (s : List Char) (lo hi : Nat) : Access (List Char) :=
  match slice? s lo hi with
  | some inside => .ok inside
  | none => .error .outside

/-! ## Bytes of a text -/

theorem length_utf8 (s : List Char) : (utf8 s).length = byteLength s := by
  induction s with
  | nil => rfl
  | cons c s ih => rw [utf8_cons, List.length_append, String.length_utf8EncodeChar, ih, byteLength_cons]

/-- Different texts have different bytes. -/
theorem utf8_injective (h : utf8 s = utf8 t) : s = t := by
  induction s generalizing t with
  | nil =>
      cases t with
      | nil => rfl
      | cons c t => exact absurd (List.append_eq_nil_iff.mp h.symm).1 String.utf8EncodeChar_ne_nil
  | cons c s ih =>
      cases t with
      | nil => exact absurd (List.append_eq_nil_iff.mp h).1 String.utf8EncodeChar_ne_nil
      | cons d t =>
          obtain ⟨rfl, hrest⟩ := utf8EncodeChar_append_inj h
          rw [ih hrest]

/-- Different ASCII characters have different bytes. -/
theorem toUInt8_ne_toUInt8 (hc : IsAscii c) (hd : IsAscii d) (hne : c ≠ d) : c.toUInt8 ≠ d.toUInt8 := by
  apply ne_of_mem_utf8EncodeChar hd hne
  rw [utf8EncodeChar_of_isAscii hc]
  exact List.mem_singleton_self _

/-! ## Cursors -/

/-- **An offset in a text** with `u` in front of it and `v` behind it. -/
structure Cursor (s u v : List Char) (i : Nat) : Prop where
  text : s = u ++ v
  place : i = byteLength u

namespace Cursor

theorem start (s : List Char) : Cursor s [] s 0 :=
  ⟨rfl, rfl⟩

/-- **A cursor moves** behind a part of the text behind it. -/
theorem move (h : Cursor s u (w ++ v) i) : Cursor s (u ++ w) v (i + byteLength w) := by
  obtain ⟨rfl, rfl⟩ := h
  exact ⟨(List.append_assoc u w v).symm, (byteLength_append u w).symm⟩

theorem moveChar (h : Cursor s u (c :: v) i) (hc : IsAscii c) : Cursor s (u ++ [c]) v (i + 1) := by
  have hmove := h.move (w := [c])
  rwa [byteLength_cons, byteLength_nil, utf8Size_eq_one hc] at hmove

theorem drop_utf8 (h : Cursor s u v i) : (utf8 s).drop i = utf8 v := by
  obtain ⟨rfl, rfl⟩ := h
  rw [utf8_append, ← length_utf8, List.drop_left]

theorem length_eq (h : Cursor s u v i) : (utf8 s).length = i + byteLength v := by
  obtain ⟨rfl, rfl⟩ := h
  rw [length_utf8, byteLength_append]

theorem le_length (h : Cursor s u v i) : i ≤ (utf8 s).length := by
  rw [h.length_eq]
  exact Nat.le_add_right _ _

theorem getElem?_utf8 (h : Cursor s u v i) : (utf8 s)[i]? = (utf8 v).head? := by
  rw [← h.drop_utf8, List.head?_drop]

/-- An ASCII byte stands at a cursor where its character does. -/
theorem getElem?_eq_iff (h : Cursor s u v i) (hd : IsAscii d) : (utf8 s)[i]? = some d.toUInt8 ↔ v.head? = some d := by
  rw [h.getElem?_utf8]
  exact head?_utf8 hd

/-! ### Legal accesses -/

theorem byteAt (h : Cursor s u (c :: v) i) (hc : IsAscii c) : Inlay.byteAt (utf8 s) i = .ok c.toUInt8 := by
  rw [Inlay.byteAt, (h.getElem?_eq_iff hc).mpr rfl]

theorem bytesFrom (h : Cursor s u v i) : Inlay.bytesFrom (utf8 s) i = .ok (utf8 v) := by
  rw [Inlay.bytesFrom, if_pos h.le_length, h.drop_utf8]

theorem bytesIn (h : Cursor s u (w ++ v) i) : Inlay.bytesIn (utf8 s) i (i + byteLength w) = .ok (utf8 w) := by
  rw [Inlay.bytesIn, if_pos ⟨Nat.le_add_right _ _, h.move.le_length⟩, h.drop_utf8, Nat.add_sub_cancel_left, utf8_append,
    ← length_utf8, List.take_left]

theorem textFrom (h : Cursor s u v i) : Inlay.textFrom s i = .ok v := by
  obtain ⟨rfl, rfl⟩ := h
  rw [Inlay.textFrom, cutAt?_eq_some.mpr ⟨rfl, rfl⟩]

theorem textTo (h : Cursor s u v i) : Inlay.textTo s i = .ok u := by
  obtain ⟨rfl, rfl⟩ := h
  rw [Inlay.textTo, cutAt?_eq_some.mpr ⟨rfl, rfl⟩]

theorem textIn (h : Cursor s u (w ++ v) i) : Inlay.textIn s i (i + byteLength w) = .ok w := by
  obtain ⟨rfl, rfl⟩ := h
  rw [Inlay.textIn, ← byteLength_append, slice?_append]

/-- The line of a cursor is that of the text in front of it. -/
theorem lineAt (h : Cursor s u v i) : Inlay.lineAt s i = newlines u + 1 := by
  obtain ⟨rfl, rfl⟩ := h
  exact lineAt_append u v

end Cursor

/-! ## Runs -/

/-- Where the run of bytes ends that starts at an index. -/
def runEnd (class? : UInt8 → Bool) (bytes : Bytes) (start : Nat) : Access Nat := do
  let behind ← bytesFrom bytes start
  match behind.findIdx? fun b => !class? b with
  | some k => .ok (start + k)
  | none => .ok bytes.length

/-- **A class of ASCII characters** told from bytes. -/
structure ByteClass (p : Char → Bool) (class? : UInt8 → Bool) : Prop where
  ascii : ∀ c, p c = true → IsAscii c
  same : ∀ c, IsAscii c → class? c.toUInt8 = p c
  wide : ∀ b : UInt8, 128 ≤ b.toNat → class? b = false

namespace ByteClass

/-- The bytes of a character that is not of the class are not of the class either. -/
theorem of_mem (h : ByteClass p class?) (hc : p c = false) {b : UInt8} (hb : b ∈ String.utf8EncodeChar c) :
    class? b = false := by
  by_cases hascii : IsAscii c
  · rw [utf8EncodeChar_of_isAscii hascii, List.mem_singleton] at hb
    rw [hb, h.same c hascii, hc]
  · exact h.wide b (le_of_mem_utf8EncodeChar hascii hb)

theorem of_mem_utf8 (h : ByteClass p class?) (hw : ∀ c ∈ w, p c = true) : ∀ b ∈ utf8 w, class? b = true := by
  intro b hb
  obtain ⟨c, hc, hb⟩ := List.mem_flatMap.mp hb
  have hascii := h.ascii c (hw c hc)
  rw [utf8EncodeChar_of_isAscii hascii, List.mem_singleton] at hb
  rw [hb, h.same c hascii, hw c hc]

/-- A run that is not continued ends at its last byte. -/
theorem findIdx?_utf8 (h : ByteClass p class?) (hw : ∀ c ∈ w, p c = true) (hv : ∀ c ∈ v.head?, p c = false) :
    (utf8 (w ++ v)).findIdx? (fun b => !class? b) = if v = [] then none else some (byteLength w) := by
  have hrun : (utf8 w).findIdx? (fun b => !class? b) = none := by
    refine List.findIdx?_eq_none_iff.mpr fun b hb => ?_
    rw [h.of_mem_utf8 hw b hb]
    rfl
  rw [utf8_append, List.findIdx?_append, hrun, Option.none_or, length_utf8]
  cases v with
  | nil => rfl
  | cons c v =>
      obtain ⟨b, bs, hbytes, -⟩ := exists_utf8EncodeChar c
      have hb : class? b = false := h.of_mem (hv c rfl) (hbytes ▸ List.mem_cons_self)
      rw [utf8_cons, hbytes, List.cons_append, List.findIdx?_cons, hb, if_neg (List.cons_ne_nil c v)]
      exact congrArg some (Nat.zero_add _)

end ByteClass

/-- **A run of characters** ends where the run of their bytes does. -/
theorem Cursor.runEnd (h : Cursor s u (w ++ v) i) (hclass : ByteClass p class?) (hw : ∀ c ∈ w, p c = true)
    (hv : ∀ c ∈ v.head?, p c = false) : Inlay.runEnd class? (utf8 s) i = .ok (i + byteLength w) := by
  have hfind := hclass.findIdx?_utf8 hw hv
  rw [Inlay.runEnd, h.bytesFrom]
  show (match (utf8 (w ++ v)).findIdx? fun b => !class? b with
    | some k => .ok (i + k)
    | none => .ok (utf8 s).length : Access Nat) = _
  rw [hfind]
  cases v with
  | nil =>
      have hmove := h.move
      rw [hmove.text, List.append_nil, length_utf8, ← hmove.place]
      rfl
  | cons c v => rfl

/-! ## Searches -/

/-- The offset of the first character of a class. -/
def firstOffset? (p : Char → Bool) : List Char → Option Nat
  | [] => none
  | c :: s => if p c then some 0 else (firstOffset? p s).map (c.utf8Size + ·)

/-- The offset of the last character of a class. -/
def lastOffset? (p : Char → Bool) : List Char → Option Nat
  | [] => none
  | c :: s =>
    match lastOffset? p s with
    | some k => some (c.utf8Size + k)
    | none => if p c then some 0 else none

theorem firstOffset?_eq_none (hw : ∀ c ∈ w, p c = false) : firstOffset? p w = none := by
  induction w with
  | nil => rfl
  | cons c w ih =>
      rw [List.forall_mem_cons] at hw
      rw [firstOffset?, hw.1, if_neg Bool.false_ne_true, ih hw.2]
      rfl

theorem firstOffset?_append (hw : ∀ c ∈ w, p c = false) (hc : p c = true) (v : List Char) :
    firstOffset? p (w ++ c :: v) = some (byteLength w) := by
  induction w with
  | nil =>
      rw [List.nil_append, firstOffset?, if_pos hc]
      rfl
  | cons d w ih =>
      rw [List.forall_mem_cons] at hw
      rw [List.cons_append, firstOffset?, hw.1, if_neg Bool.false_ne_true, ih hw.2]
      rfl

theorem lastOffset?_eq_none (hw : ∀ c ∈ w, p c = false) : lastOffset? p w = none := by
  induction w with
  | nil => rfl
  | cons c w ih =>
      rw [List.forall_mem_cons] at hw
      rw [lastOffset?, ih hw.2]
      exact if_neg (Bool.eq_false_iff.mp hw.1)

theorem lastOffset?_append (hc : p c = true) (hv : ∀ c ∈ v, p c = false) (w : List Char) :
    lastOffset? p (w ++ c :: v) = some (byteLength w) := by
  induction w with
  | nil =>
      rw [List.nil_append, lastOffset?, lastOffset?_eq_none hv]
      exact if_pos hc
  | cons d w ih =>
      rw [List.cons_append, lastOffset?, ih]
      rfl

/-! ## Literals -/

/-- The index behind a literal with the given quote, of which the inside starts at an index. -/
def skipQuoted (bytes : Bytes) (quote : UInt8) (i : Nat) : Nat :=
  if h : i < bytes.length then
    if bytes[i] = '\\'.toUInt8 then skipQuoted bytes quote (i + 2)
    else if bytes[i] = '\n'.toUInt8 then i
    else if bytes[i] = quote then i + 1
    else skipQuoted bytes quote (i + 1)
  else bytes.length
termination_by bytes.length - i

/-- The index behind a verbatim literal, of which the inside starts at an index. -/
def skipVerbatim (bytes : Bytes) (i : Nat) : Nat :=
  if h : i < bytes.length then
    if bytes[i] = '"'.toUInt8 then
      if bytes[i + 1]? = some '"'.toUInt8 then skipVerbatim bytes (i + 2) else i + 1
    else skipVerbatim bytes (i + 1)
  else bytes.length
termination_by bytes.length - i

theorem skipQuoted_of_le (h : bytes.length ≤ i) : skipQuoted bytes quote i = bytes.length := by
  rw [skipQuoted, dif_neg (Nat.not_lt.mpr h)]

theorem skipVerbatim_of_le (h : bytes.length ≤ i) : skipVerbatim bytes i = bytes.length := by
  rw [skipVerbatim, dif_neg (Nat.not_lt.mpr h)]

theorem skipQuoted_cons (pre : Bytes) (b : UInt8) (rest : Bytes) : skipQuoted (pre ++ b :: rest) quote pre.length =
    if b = '\\'.toUInt8 then skipQuoted (pre ++ b :: rest) quote (pre.length + 2)
    else if b = '\n'.toUInt8 then pre.length
    else if b = quote then pre.length + 1
    else skipQuoted (pre ++ b :: rest) quote (pre.length + 1) := by
  have hlt : pre.length < (pre ++ b :: rest).length := by
    rw [List.length_append, List.length_cons]
    omega
  rw [skipQuoted, dif_pos hlt, List.getElem_append_right (Nat.le_refl _)]
  simp only [Nat.sub_self, List.getElem_cons_zero]

theorem skipVerbatim_cons (pre : Bytes) (b : UInt8) (rest : Bytes) : skipVerbatim (pre ++ b :: rest) pre.length =
    if b = '"'.toUInt8 then
      if rest.head? = some '"'.toUInt8 then skipVerbatim (pre ++ b :: rest) (pre.length + 2) else pre.length + 1
    else skipVerbatim (pre ++ b :: rest) (pre.length + 1) := by
  have hlt : pre.length < (pre ++ b :: rest).length := by
    rw [List.length_append, List.length_cons]
    omega
  have hnext : (pre ++ b :: rest)[pre.length + 1]? = rest.head? := by
    rw [List.getElem?_append_right (Nat.le_add_right _ _), Nat.add_sub_cancel_left, List.getElem?_cons_succ,
      List.head?_eq_getElem?]
  rw [skipVerbatim, dif_pos hlt, hnext, List.getElem_append_right (Nat.le_refl _)]
  simp only [Nat.sub_self, List.getElem_cons_zero]

/-- **Skipping a quoted literal** comes to its end, also where a backslash is the last byte. -/
theorem QuotedBytes.skipQuoted (hescape : quote ≠ '\\'.toUInt8) (hnewline : quote ≠ '\n'.toUInt8) {x y : Bytes}
    (h : QuotedBytes quote x y) (pre : Bytes) :
    Inlay.skipQuoted (pre ++ (x ++ y)) quote pre.length = (pre ++ x).length := by
  induction h generalizing pre with
  | @closed t =>
      rw [List.singleton_append, skipQuoted_cons, if_neg hescape, if_neg hnewline, if_pos rfl, List.length_append]
      rfl
  | @newline t =>
      rw [List.nil_append, skipQuoted_cons, if_neg (by decide), if_pos rfl, List.append_nil]
  | stop => rw [List.append_nil, List.append_nil, skipQuoted_of_le (Nat.le_refl _)]
  | stopEscape =>
      rw [List.append_nil, skipQuoted_cons, if_pos rfl, skipQuoted_of_le]
      rw [List.length_append, List.length_singleton]
      omega
  | @escape x y b _ ih =>
      have hbehind := ih (pre ++ ['\\'.toUInt8, b])
      rw [List.length_append, List.append_assoc] at hbehind
      rw [List.cons_append, List.cons_append, skipQuoted_cons, if_pos rfl]
      simpa using hbehind
  | @byte b x y hb hb' hb'' _ ih =>
      have hbehind := ih (pre ++ [b])
      rw [List.length_append, List.append_assoc] at hbehind
      rw [List.cons_append, skipQuoted_cons, if_neg hb, if_neg hb', if_neg hb'']
      simpa using hbehind

/-- **Skipping a verbatim literal** comes to its end. -/
theorem VerbatimBytes.skipVerbatim {x y : Bytes} (h : VerbatimBytes x y) (pre : Bytes) :
    Inlay.skipVerbatim (pre ++ (x ++ y)) pre.length = (pre ++ x).length := by
  induction h generalizing pre with
  | @closed t single =>
      rw [List.singleton_append, skipVerbatim_cons, if_pos rfl, if_neg single, List.length_append]
      rfl
  | stop => rw [List.append_nil, List.append_nil, skipVerbatim_of_le (Nat.le_refl _)]
  | @double x y _ ih =>
      have hbehind := ih (pre ++ ['"'.toUInt8, '"'.toUInt8])
      rw [List.length_append, List.append_assoc] at hbehind
      rw [List.cons_append, List.cons_append, skipVerbatim_cons, if_pos rfl, List.head?_cons, if_pos rfl]
      simpa using hbehind
  | @byte b x y hb _ ih =>
      have hbehind := ih (pre ++ [b])
      rw [List.length_append, List.append_assoc] at hbehind
      rw [List.cons_append, skipVerbatim_cons, if_neg hb]
      simpa using hbehind

theorem Cursor.skipQuoted (h : Cursor s u (w ++ v) i) (hc : c = '"' ∨ c = '\'') (literal : Quoted c w v) :
    Inlay.skipQuoted (utf8 s) c.toUInt8 i = i + byteLength w := by
  have hascii : IsAscii c := by rcases hc with rfl | rfl <;> decide
  have hescape : c.toUInt8 ≠ '\\'.toUInt8 := by rcases hc with rfl | rfl <;> decide
  have hnewline : c.toUInt8 ≠ '\n'.toUInt8 := by rcases hc with rfl | rfl <;> decide
  have hskip := (literal.utf8 hascii).skipQuoted hescape hnewline (utf8 u)
  obtain ⟨rfl, rfl⟩ := h
  rwa [← utf8_append, ← utf8_append, ← utf8_append, length_utf8, length_utf8, byteLength_append] at hskip

theorem Cursor.skipVerbatim (h : Cursor s u (w ++ v) i) (literal : Verbatim w v) :
    Inlay.skipVerbatim (utf8 s) i = i + byteLength w := by
  have hskip := literal.utf8.skipVerbatim (utf8 u)
  obtain ⟨rfl, rfl⟩ := h
  rwa [← utf8_append, ← utf8_append, ← utf8_append, length_utf8, length_utf8, byteLength_append] at hskip

/-- **In front of a quoted literal** there is its quote, and a skip behind that ends behind the literal. -/
theorem Cursor.atQuoted (h : Cursor s u (c :: w ++ v) i) (quote : c = '"' ∨ c = '\'') (literal : Quoted c w v) :
    Inlay.byteAt (utf8 s) i = .ok c.toUInt8 ∧
      Inlay.skipQuoted (utf8 s) c.toUInt8 (i + 1) = i + byteLength (c :: w) := by
  have hascii : IsAscii c := by rcases quote with rfl | rfl <;> decide
  have hskip := (h.moveChar hascii).skipQuoted quote literal
  refine ⟨h.byteAt hascii, hskip.trans ?_⟩
  rw [byteLength_cons, utf8Size_eq_one hascii, Nat.add_assoc]

/-- **In front of a verbatim literal** there are its mark and its quote, and a skip behind them ends behind the
    literal. -/
theorem Cursor.atVerbatim (h : Cursor s u ('@' :: '"' :: w ++ v) i) (literal : Verbatim w v) :
    Inlay.byteAt (utf8 s) i = .ok '@'.toUInt8 ∧ (utf8 s)[i + 1]? = some '"'.toUInt8 ∧
      Inlay.skipVerbatim (utf8 s) (i + 2) = i + byteLength ('@' :: '"' :: w) := by
  have hquote := h.moveChar (by decide)
  have hskip := (hquote.moveChar (by decide)).skipVerbatim literal
  refine ⟨h.byteAt (by decide), (hquote.getElem?_eq_iff (d := '"') (by decide)).mpr rfl, hskip.trans ?_⟩
  rw [byteLength_cons, byteLength_cons, ← Nat.add_assoc, ← Nat.add_assoc]
  rfl

end Inlay
