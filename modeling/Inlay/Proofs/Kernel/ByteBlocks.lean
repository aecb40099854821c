import Inlay.Proofs.Kernel.ByteParameters
import Inlay.Proofs.Kernel.Flaws

/-!
# `Proofs.Kernel.ByteBlocks` — blocks by offsets

A block is read by offsets from its introducer on: runs of bytes lead over blanks and names, searches to the ends of the
list and of the body. Each part leads from one cursor to the next, and where the part is missing the flaw is that of the
text (`Cursor.parseBlock_flawed`). A block that is well written is read to its end, with all slices in the text
(`Cursor.parseBlock`), but for the parameters, which are read by offsets themselves.
-/

namespace Inlay

variable {α : Type} {p : Position} {c : Char} {i line : Nat} {flaw : BlockFlaw} {t : BlockText}
  {s u v rest beforeName name beforeList list beforeBody body ending introducer : List Char}

/-! ## Classes of bytes -/

/-- The digits. -/
def isDigitByte (b : UInt8) : Bool :=
  '0'.toUInt8 ≤ b && b ≤ '9'.toUInt8

/-- The bytes of words. -/
def isWordByte (b : UInt8) : Bool :=
  ('A'.toUInt8 ≤ b && b ≤ 'Z'.toUInt8) || ('a'.toUInt8 ≤ b && b ≤ 'z'.toUInt8) || isDigitByte b || b == '_'.toUInt8

/-- The blanks. -/
def isBlankByte (b : UInt8) : Bool :=
  b == ' '.toUInt8 || b == '\t'.toUInt8 || b == '\n'.toUInt8 || b == '\x0c'.toUInt8 || b == '\r'.toUInt8

/-- A class of bytes is given by a table. -/
theorem ByteClass.of_table {p : Char → Bool} {class? : UInt8 → Bool} (ascii : ∀ c, p c = true → IsAscii c)
    (table : ∀ n : Fin 256, class? (UInt8.ofNat n) = (decide (n.val < 128) && p (Char.ofNat n))) :
    ByteClass p class? where
  ascii := ascii
  same := by
    intro c hc
    have hentry := table ⟨c.toNat, Nat.lt_trans hc (by decide)⟩
    simp only [decide_eq_true (show c.toNat < 128 from hc), Bool.true_and, Char.ofNat_toNat] at hentry
    exact hentry
  wide := by
    intro b hb
    have hentry := table ⟨b.toNat, b.toNat_lt⟩
    simp only [decide_eq_false (Nat.not_lt.mpr hb), Bool.false_and, UInt8.ofNat_toNat] at hentry
    exact hentry

theorem isAscii_of_isAsciiWord (h : isAsciiWord c = true) : IsAscii c := by
  have hword : (c.isAlpha = true ∨ c.isDigit = true) ∨ c = '_' := by
    simpa [isAsciiWord, Char.isAlphanum] using h
  rw [isAlpha_iff, Char.isDigit_iff_toNat] at hword
  show c.toNat < 128
  rcases hword with ((hupper | hlower) | hdigit) | rfl
  · omega
  · omega
  · exact Nat.lt_of_le_of_lt hdigit.2 (by decide)
  · decide

theorem byteClass_word : ByteClass isAsciiWord isWordByte :=
  .of_table (fun _ => isAscii_of_isAsciiWord) (by decide +kernel)

theorem byteClass_blank : ByteClass isAsciiBlank isBlankByte :=
  .of_table (fun c hc => isAsciiBlank_cases (P := IsAscii) hc (by decide) (by decide) (by decide) (by decide)
    (by decide)) (by decide +kernel)

theorem byteClass_digit : ByteClass Char.isDigit isDigitByte :=
  .of_table (fun _ hc => isAscii_of_isAsciiWord (isAsciiWord_of_isDigit hc)) (by decide +kernel)

/-! ## The parts of a block -/

/-- Reports what is missing from the block whose introducer stands on a line. -/
def missing (line : Nat) (flaw : BlockFlaw) : Access α :=
  .error (.fault (.malformedBlock line flaw.message))

/-- Where the name starts and ends that stands behind an offset. -/
def nameAt (s : List Char) (line after : Nat) : Access (Nat × Nat) := do
  let lo ← runEnd isBlankByte (utf8 s) after
  let hi ← runEnd isWordByte (utf8 s) lo
  if hi = lo then missing line .name
  else
    let b ← byteAt (utf8 s) lo
    if isDigitByte b then missing line .name else .ok (lo, hi)

/-- Where the parameter list starts and ends that stands behind an offset. -/
def listAt (s : List Char) (line after : Nat) : Access (Nat × Nat) := do
  let parenthesis ← runEnd isBlankByte (utf8 s) after
  if (utf8 s)[parenthesis]? ≠ some '('.toUInt8 then missing line .list
  else
    let behind ← textFrom s (parenthesis + 1)
    match firstOffset? endsList behind with
    | none => missing line .listEnd
    | some k =>
      let b ← byteAt (utf8 s) (parenthesis + 1 + k)
      if b = ')'.toUInt8 then .ok (parenthesis + 1, parenthesis + 1 + k) else missing line .listEnd

/-- Where the opening and the closing brace stand behind an offset. -/
def bracesAt (s : List Char) (line after : Nat) : Access (Nat × Nat) := do
  let brace ← runEnd isBlankByte (utf8 s) after
  if (utf8 s)[brace]? ≠ some '{'.toUInt8 then missing line .body
  else
    let behind ← textFrom s (brace + 1)
    match firstOffset? (· == '}') behind with
    | none => missing line .bodyEnd
    | some k => .ok (brace, brace + 1 + k)

/-- Where a block ends of which the closing brace stands in front of an offset. -/
def endAt (s : List Char) (after : Nat) : Access Nat := do
  let behind ← textFrom s after
  let trailing := behind.dropWhile isLineBlank
  if trailing.head? = some ';' then .ok (after + (byteLength behind - byteLength trailing + 1)) else .ok after

/-! ### Names -/

theorem not_isAsciiBlank_of_identifier (h : isIdentifier name = true) (v : List Char) :
    ∀ c ∈ (name ++ v).head?, isAsciiBlank c = false := by
  obtain ⟨d, name, rfl⟩ := List.exists_cons_of_ne_nil (ne_nil_of_isIdentifier h)
  intro c hc
  obtain rfl : d = c := Option.some.inj hc
  exact not_isAsciiBlank_of_isAsciiWord (isAsciiWord_of_mem_identifier h List.mem_cons_self)

theorem Cursor.nameAt (h : Cursor s u (beforeName ++ (name ++ v)) i) (blank : ∀ c ∈ beforeName, isAsciiBlank c = true)
    (identifier : isIdentifier name = true) (ends : ∀ c ∈ v.head?, isAsciiWord c = false) (line : Nat) :
    Inlay.nameAt s line i = .ok (i + byteLength beforeName, i + byteLength beforeName + byteLength name) := by
  obtain ⟨hword, hstart⟩ := isIdentifier_iff.mp identifier
  have hblanks := h.runEnd byteClass_blank blank (not_isAsciiBlank_of_identifier identifier v)
  have hname := h.move.runEnd byteClass_word hword ends
  obtain ⟨c, name, rfl⟩ := List.exists_cons_of_ne_nil (ne_nil_of_isIdentifier identifier)
  have hascii : IsAscii c := isAscii_of_isAsciiWord (hword c List.mem_cons_self)
  have hfirst := h.move.byteAt hascii
  have hdigit : isDigitByte c.toUInt8 = false := by
    rw [byteClass_digit.same c hascii]
    simpa using hstart
  have hne : ¬ i + byteLength beforeName + byteLength (c :: name) = i + byteLength beforeName := by
    have hpos := c.utf8Size_pos
    rw [byteLength_cons]
    omega
  simp only [Inlay.nameAt, hblanks, hname, hfirst, bind, Except.bind, hdigit, Bool.false_eq_true, if_neg hne, if_false]

theorem Cursor.nameAt_missing (h : Cursor s u (beforeName ++ v) i) (blank : ∀ c ∈ beforeName, isAsciiBlank c = true)
    (stop : ∀ c ∈ v.head?, isAsciiBlank c = false) (none : ∀ c ∈ v.head?, isAsciiWord c = true → c.isDigit = true)
    (line : Nat) : Inlay.nameAt s line i = missing line .name := by
  have hblanks := h.runEnd byteClass_blank blank stop
  obtain ⟨name, v, rfl, hword, hends⟩ := exists_run isAsciiWord v
  have hname := h.move.runEnd byteClass_word hword hends
  cases name with
  | nil => simp only [Inlay.nameAt, hblanks, hname, bind, Except.bind, byteLength_nil, Nat.add_zero, if_true]
  | cons c name =>
      have hc := hword c List.mem_cons_self
      have hascii : IsAscii c := isAscii_of_isAsciiWord hc
      have hfirst := h.move.byteAt hascii
      have hdigit : isDigitByte c.toUInt8 = true := by
        rw [byteClass_digit.same c hascii]
        exact none c rfl hc
      simp only [Inlay.nameAt, hblanks, hname, hfirst, bind, Except.bind, hdigit, if_true, ite_self]

/-! ### Parameter lists -/

/-- What stands behind blanks is no blank if it is a sign. -/
theorem not_isAsciiBlank_head (hc : isAsciiBlank c = false) (v : List Char) :
    ∀ d ∈ (c :: v).head?, isAsciiBlank d = false :=
  fun _ hd => Option.some.inj hd ▸ hc

theorem Cursor.listAt (h : Cursor s u (beforeList ++ '(' :: (list ++ ')' :: v)) i)
    (blank : ∀ c ∈ beforeList, isAsciiBlank c = true) (listed : ∀ c ∈ list, endsList c = false) (line : Nat) :
    Inlay.listAt s line i =
      .ok (i + byteLength beforeList + 1, i + byteLength beforeList + 1 + byteLength list) := by
  have hblanks := h.runEnd byteClass_blank blank (not_isAsciiBlank_head rfl _)
  have hopen := (h.move.getElem?_eq_iff (d := '(') (by decide)).mpr rfl
  have hinside := h.move.moveChar (by decide)
  have hfirst : firstOffset? endsList (list ++ ')' :: v) = some (byteLength list) :=
    firstOffset?_append listed rfl v
  have hclose := hinside.move.byteAt (by decide)
  simp only [Inlay.listAt, hblanks, hopen, hinside.textFrom, hfirst, hclose, bind, Except.bind, ne_eq,
    not_true_eq_false, if_false, if_true]

theorem Cursor.listAt_missing (h : Cursor s u (beforeList ++ v) i) (blank : ∀ c ∈ beforeList, isAsciiBlank c = true)
    (stop : ∀ c ∈ v.head?, isAsciiBlank c = false) (none : v.head? ≠ some '(') (line : Nat) :
    Inlay.listAt s line i = missing line .list := by
  have hblanks := h.runEnd byteClass_blank blank stop
  have hopen := mt (h.move.getElem?_eq_iff (d := '(') (by decide)).mp none
  simp only [Inlay.listAt, hblanks, hopen, bind, Except.bind, ne_eq, not_false_eq_true, if_true]

theorem Cursor.listAt_unended (h : Cursor s u (beforeList ++ '(' :: (list ++ v)) i)
    (blank : ∀ c ∈ beforeList, isAsciiBlank c = true) (listed : ∀ c ∈ list, endsList c = false)
    (stop : ∀ c ∈ v.head?, endsList c = true) (none : v.head? ≠ some ')') (line : Nat) :
    Inlay.listAt s line i = missing line .listEnd := by
  have hblanks := h.runEnd byteClass_blank blank (not_isAsciiBlank_head rfl _)
  have hopen := (h.move.getElem?_eq_iff (d := '(') (by decide)).mpr rfl
  have hinside := h.move.moveChar (by decide)
  cases v with
  | nil =>
      have hfirst : firstOffset? endsList (list ++ []) = Option.none := by
        rw [List.append_nil]
        exact firstOffset?_eq_none listed
      simp only [Inlay.listAt, hblanks, hopen, hinside.textFrom, hfirst, bind, Except.bind, ne_eq, not_true_eq_false,
        if_false]
  | cons c v =>
      have hc := stop c rfl
      have hascii : IsAscii c := by
        have hsign : ((c = ')' ∨ c = '{') ∨ c = '}') ∨ c = ';' := by simpa [endsList] using hc
        rcases hsign with ((rfl | rfl) | rfl) | rfl <;> decide
      have hfirst : firstOffset? endsList (list ++ c :: v) = some (byteLength list) :=
        firstOffset?_append listed hc v
      have hend := hinside.move.byteAt hascii
      have hne : ¬ c.toUInt8 = ')'.toUInt8 :=
        toUInt8_ne_toUInt8 hascii (by decide) fun hc => none (congrArg some hc)
      simp only [Inlay.listAt, hblanks, hopen, hinside.textFrom, hfirst, hend, hne, bind, Except.bind, ne_eq,
        not_true_eq_false, if_false]

/-! ### Bodies -/

theorem Cursor.bracesAt (h : Cursor s u (beforeBody ++ '{' :: (body ++ '}' :: v)) i)
    (blank : ∀ c ∈ beforeBody, isAsciiBlank c = true) (inside : ∀ c ∈ body, c ≠ '}') (line : Nat) :
    Inlay.bracesAt s line i =
      .ok (i + byteLength beforeBody, i + byteLength beforeBody + 1 + byteLength body) := by
  have hblanks := h.runEnd byteClass_blank blank (not_isAsciiBlank_head rfl _)
  have hopen := (h.move.getElem?_eq_iff (d := '{') (by decide)).mpr rfl
  have hinside := h.move.moveChar (by decide)
  have hfirst : firstOffset? (· == '}') (body ++ '}' :: v) = some (byteLength body) :=
    firstOffset?_append (fun c hc => beq_eq_false_iff_ne.mpr (inside c hc)) rfl v
  simp only [Inlay.bracesAt, hblanks, hopen, hinside.textFrom, hfirst, bind, Except.bind, ne_eq, not_true_eq_false,
    if_false]

theorem Cursor.bracesAt_missing (h : Cursor s u (beforeBody ++ v) i) (blank : ∀ c ∈ beforeBody, isAsciiBlank c = true)
    (stop : ∀ c ∈ v.head?, isAsciiBlank c = false) (none : v.head? ≠ some '{') (line : Nat) :
    Inlay.bracesAt s line i = missing line .body := by
  have hblanks := h.runEnd byteClass_blank blank stop
  have hopen := mt (h.move.getElem?_eq_iff (d := '{') (by decide)).mp none
  simp only [Inlay.bracesAt, hblanks, hopen, bind, Except.bind, ne_eq, not_false_eq_true, if_true]

theorem Cursor.bracesAt_unended (h : Cursor s u (beforeBody ++ '{' :: body) i)
    (blank : ∀ c ∈ beforeBody, isAsciiBlank c = true) (none : '}' ∉ body) (line : Nat) :
    Inlay.bracesAt s line i = missing line .bodyEnd := by
  have hblanks := h.runEnd byteClass_blank blank (not_isAsciiBlank_head rfl _)
  have hopen := (h.move.getElem?_eq_iff (d := '{') (by decide)).mpr rfl
  have hinside := h.move.moveChar (by decide)
  have hfirst : firstOffset? (· == '}') body = Option.none :=
    firstOffset?_eq_none fun c hc => beq_eq_false_iff_ne.mpr fun heq => none (heq ▸ hc)
  simp only [Inlay.bracesAt, hblanks, hopen, hinside.textFrom, hfirst, bind, Except.bind, ne_eq, not_true_eq_false,
    if_false]

theorem Cursor.endAt (h : Cursor s u (ending ++ rest) i) (hending : BlockText.Ending ending rest) :
    Inlay.endAt s i = .ok (i + byteLength ending) := by
  rw [Inlay.endAt, h.textFrom]
  show (if ((ending ++ rest).dropWhile isLineBlank).head? = some ';' then
    .ok (i + (byteLength (ending ++ rest) - byteLength ((ending ++ rest).dropWhile isLineBlank) + 1))
    else .ok i : Access Nat) = _
  cases hending with
  | @semicolon blanks _ blank =>
      have hdrop : (blanks ++ [';'] ++ rest).dropWhile isLineBlank = ';' :: rest := by
        rw [List.append_assoc]
        exact dropWhile_run blank fun c hc => Option.some.inj hc ▸ rfl
      have hsemicolon : Char.utf8Size ';' = 1 := rfl
      rw [hdrop, List.head?_cons, if_pos rfl]
      simp only [byteLength_append, byteLength_cons, byteLength_nil, hsemicolon]
      congr 1
      omega
  | absent other =>
      rw [List.nil_append, if_neg, byteLength_nil]
      · rfl
      · intro hhead
        obtain ⟨v, hv⟩ := List.head?_eq_some_iff.mp hhead
        apply other (rest.takeWhile isLineBlank) v fun c => of_mem_takeWhile
        rw [← hv, List.takeWhile_append_dropWhile]

/-! ## The whole block -/

/-- A block as it is reported: what it says, and its place in bytes and lines. -/
structure PlacedBlock where
  name : String
  params : List Param
  body : String
  start : Nat
  length : Nat
  startLine : Nat
  headerLines : Nat
  spanLines : Nat

/-- What is reported of a block. -/
def Block.placed (b : Block) : PlacedBlock :=
  ⟨b.name, b.params, b.body, b.start, b.length, b.startLine, b.headerLines, b.spanLines⟩

/-- Reads the block whose introducer starts at one offset and ends at another. -/
def parseBlock (width : PointerWidth) (s : List Char) (start after : Nat) : Access PlacedBlock := do
  let line := lineAt s start
  let (nameStart, nameEnd) ← nameAt s line after
  let name ← textIn s nameStart nameEnd
  let (listStart, listEnd) ← listAt s line nameEnd
  let (brace, bodyEnd) ← bracesAt s line (listEnd + 1)
  let stop ← endAt s (bodyEnd + 1)
  let params ← parseParams width (String.ofList name) s listStart listEnd
  let body ← textIn s (brace + 1) bodyEnd
  let header ← textIn s start brace
  let span ← textIn s start stop
  .ok ⟨String.ofList name, params, String.ofList body, start, stop - start, line, newlines header, newlines span⟩

/-- **A flaw is reported** where the introducer opens no block. -/
theorem Cursor.parseBlock_flawed (h : Cursor s u (introducer ++ v) i) (flawed : BlockText.Flawed v flaw)
    (width : PointerWidth) :
    Inlay.parseBlock width s i (i + byteLength introducer) = missing (newlines u + 1) flaw := by
  rw [Inlay.parseBlock, h.lineAt]
  have hbehind := h.move
  cases flawed with
  | name blank stop none => simp only [hbehind.nameAt_missing blank stop none, bind, Except.bind, missing]
  | @list beforeName name beforeList v named ends stop none =>
      have hname := hbehind.nameAt named.beforeName named.name ends
      have hlist := hbehind.move.move.listAt_missing named.beforeList stop none
      simp only [hname, hbehind.move.textIn, hlist, bind, Except.bind, missing]
  | @listEnd beforeName name beforeList list v named listed stop none =>
      have hname := hbehind.nameAt named.beforeName named.name
        (BlockText.not_isAsciiWord_of_head named.beforeList (d := '(') rfl (list ++ v))
      have hlist := hbehind.move.move.listAt_unended named.beforeList listed stop none
      simp only [hname, hbehind.move.textIn, hlist, bind, Except.bind, missing]
  | @body beforeName name beforeList list beforeBody v named listed blank stop none =>
      have hname := hbehind.nameAt named.beforeName named.name
        (BlockText.not_isAsciiWord_of_head named.beforeList (d := '(') rfl (list ++ ')' :: (beforeBody ++ v)))
      have hlist := hbehind.move.move.listAt named.beforeList listed
      have hbody := ((hbehind.move.move.move.moveChar (by decide)).move.moveChar (by decide)).bracesAt_missing
        blank stop none
      simp only [hname, hbehind.move.textIn, hlist, hbody, bind, Except.bind, missing]
  | @bodyEnd beforeName name beforeList list beforeBody body named listed blank none =>
      have hname := hbehind.nameAt named.beforeName named.name
        (BlockText.not_isAsciiWord_of_head named.beforeList (d := '(') rfl
          (list ++ ')' :: (beforeBody ++ '{' :: body)))
      have hlist := hbehind.move.move.listAt named.beforeList listed
      have hbody := ((hbehind.move.move.move.moveChar (by decide)).move.moveChar (by decide)).bracesAt_unended
        blank none
      simp only [hname, hbehind.move.textIn, hlist, hbody, bind, Except.bind, missing]

theorem BlockText.chars_append (t : BlockText) (rest : List Char) : t.chars ++ rest =
    t.introducer ++ (t.beforeName ++ (t.name ++ (t.beforeList ++ '(' :: (t.list ++ ')' :: (t.beforeBody ++
      '{' :: (t.body ++ '}' :: (t.ending ++ rest))))))) := by
  simp [chars, header, opening]

/-- **A block is read** to its end, with its parameters, where it is well written. -/
theorem Cursor.parseBlock (h : Cursor s u (t.chars ++ rest) i) (written : t.Written rest) (hoffset : p.offset = i)
    (hline : p.line = newlines u + 1) (width : PointerWidth) :
    Inlay.parseBlock width s i (i + byteLength t.introducer) =
      checked ((Param.readList width (String.ofList t.name) (p.advance t.opening) t.list).map fun params =>
        Block.placed ⟨p, t, params⟩) := by
  have hparts := h
  rw [t.chars_append] at hparts
  have hname := hparts.move.nameAt written.beforeName written.name
    (BlockText.not_isAsciiWord_of_head written.beforeList (d := '(') rfl (t.list ++ ')' :: (t.beforeBody ++
      '{' :: (t.body ++ '}' :: (t.ending ++ rest)))))
  have hlistAt := hparts.move.move.move.listAt written.beforeList written.list
  have hlist := hparts.move.move.move.move.moveChar (by decide)
  have hbraces := (hlist.move.moveChar (by decide)).bracesAt written.beforeBody written.body
  have hbody := (hlist.move.moveChar (by decide)).move.moveChar (by decide)
  have hend := (hbody.move.moveChar (by decide)).endAt written.ending
  have hlineList : (p.advance t.opening).line =
      newlines (u ++ t.introducer ++ t.beforeName ++ t.name ++ t.beforeList ++ ['(']) + 1 := by
    rw [line_advance hline]
    simp [BlockText.opening]
  have hparams := hlist.parseParams hlineList width (String.ofList t.name)
  -- the slices that start with the introducer
  have hone : Char.utf8Size '(' = 1 ∧ Char.utf8Size ')' = 1 ∧ Char.utf8Size '{' = 1 ∧ Char.utf8Size '}' = 1 :=
    ⟨rfl, rfl, rfl, rfl⟩
  have hbrace : i + byteLength t.introducer + byteLength t.beforeName + byteLength t.name + byteLength t.beforeList +
      1 + byteLength t.list + 1 + byteLength t.beforeBody = i + byteLength t.header := by
    simp only [BlockText.header, BlockText.opening, byteLength_append, byteLength_cons, byteLength_nil, hone]
    omega
  have hstop : i + byteLength t.header + 1 + byteLength t.body + 1 + byteLength t.ending = i + byteLength t.chars := by
    simp only [BlockText.chars, byteLength_append, byteLength_cons, hone]
    omega
  have hheader : Cursor s u (t.header ++ '{' :: (t.body ++ '}' :: (t.ending ++ rest))) i := by
    refine ⟨h.text.trans (congrArg (u ++ ·) ?_), h.place⟩
    simp [BlockText.chars]
  rw [hbrace] at hbraces hbody hend
  rw [hstop] at hend
  rw [Inlay.parseBlock, h.lineAt]
  simp only [hname, hparts.move.move.textIn, hlistAt, hbraces, hend, hparams, hbody.textIn, hheader.textIn, h.textIn,
    bind, Except.bind, Nat.add_sub_cancel_left]
  cases Param.readList width (String.ofList t.name) (p.advance t.opening) t.list with
  | error e => rfl
  | ok params =>
      rw [← hline, ← hoffset]
      rfl

end Inlay
