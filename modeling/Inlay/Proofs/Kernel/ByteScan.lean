import Inlay.Proofs.Kernel.ByteBlocks
import Inlay.Proofs.Kernel.FirstFault
import Inlay.Proofs.Kernel.Layout

/-!
# `Proofs.Kernel.ByteScan` — the scan by offsets

The scan for blocks goes over the bytes of a source: in each round it skips a literal or a word, reads a block, or
passes a single byte (`scanRound`), until its place is behind the last one (`Scans`). A unit of the text takes at most a
round for each of its bytes, and behind it the scan stands at a character again, though rounds start inside of
characters, too. So the scan ends, with no more rounds than there are bytes and with what is found by characters. It
takes no index or slice that is none, but for one case: a parameter that is not divided (`byte_scan_stays_inside`).
-/

namespace Inlay

variable {f : BlockFinder} {p : Position} {c : Char} {b : UInt8} {i n n' : Nat} {t : BlockText}
  {s u v w rest : List Char} {bs pre post : Bytes} {blocks : List PlacedBlock}
  {out out' : Access (List PlacedBlock)}

/-! ## The loop -/

/-- Where a scan stands, and the blocks that it has found. -/
structure ScanState where
  place : Nat
  blocks : List PlacedBlock

/-- **One round of the scan.** -/
def scanRound (f : BlockFinder) (s : List Char) (state : ScanState) : Access ScanState := do
  let b ← byteAt (utf8 s) state.place
  if b = '@'.toUInt8 ∧ (utf8 s)[state.place + 1]? = some '"'.toUInt8 then
    .ok { state with place := skipVerbatim (utf8 s) (state.place + 2) }
  else if b = '"'.toUInt8 ∨ b = '\''.toUInt8 then .ok { state with place := skipQuoted (utf8 s) b (state.place + 1) }
  else if isWordByte b then
    let stop ← runEnd isWordByte (utf8 s) state.place
    let word ← bytesIn (utf8 s) state.place stop
    if word = utf8 f.introducer.toList then
      let block ← parseBlock f.width s state.place stop
      .ok ⟨block.start + block.length, state.blocks ++ [block]⟩
    else .ok { state with place := stop }
  else .ok { state with place := state.place + 1 }

/-- **The scan from a state on**: how many rounds it takes and what it comes to. -/
inductive Scans (f : BlockFinder) (s : List Char) : ScanState → Nat → Access (List PlacedBlock) → Prop where
  | ends {state : ScanState} (behind : ¬ state.place < (utf8 s).length) : Scans f s state 0 (.ok state.blocks)
  | stops {state : ScanState} {why : Stop} (inside : state.place < (utf8 s).length)
      (round : scanRound f s state = .error why) : Scans f s state 1 (.error why)
  | again {state state' : ScanState} {n : Nat} {out : Access (List PlacedBlock)}
      (inside : state.place < (utf8 s).length) (round : scanRound f s state = .ok state')
      (others : Scans f s state' n out) : Scans f s state (n + 1) out

/-- **The scan ends in one way.** -/
theorem Scans.unique {state : ScanState} (h : Scans f s state n out) (h' : Scans f s state n' out') :
    n' = n ∧ out' = out := by
  induction h generalizing n' with
  | ends behind =>
      cases h' with
      | ends => exact ⟨rfl, rfl⟩
      | stops inside | again inside => exact absurd inside behind
  | stops inside round =>
      cases h' with
      | ends behind => exact absurd inside behind
      | stops _ round' =>
          rw [round] at round'
          cases round'
          exact ⟨rfl, rfl⟩
      | again _ round' =>
          rw [round] at round'
          cases round'
  | again inside round _ ih =>
      cases h' with
      | ends behind => exact absurd inside behind
      | stops _ round' =>
          rw [round] at round'
          cases round'
      | again _ round' others =>
          rw [round] at round'
          cases round'
          obtain ⟨rfl, rfl⟩ := ih others
          exact ⟨rfl, rfl⟩

/-! ## One round -/

theorem Cursor.lt_length (h : Cursor s u (c :: v) i) : i < (utf8 s).length := by
  have hpos := c.utf8Size_pos
  rw [h.length_eq, byteLength_cons]
  omega

/-- A byte that starts nothing is passed. -/
theorem scanRound_other (hb : (utf8 s)[i]? = some b) (verbatim : b = '@'.toUInt8 → (utf8 s)[i + 1]? ≠ some '"'.toUInt8)
    (quote : ¬(b = '"'.toUInt8 ∨ b = '\''.toUInt8)) (word : isWordByte b = false) :
    scanRound f s ⟨i, blocks⟩ = .ok ⟨i + 1, blocks⟩ := by
  have hverbatim : ¬(b = '@'.toUInt8 ∧ (utf8 s)[i + 1]? = some '"'.toUInt8) := fun ⟨hat, hnext⟩ => verbatim hat hnext
  simp only [scanRound, byteAt, hb, bind, Except.bind, if_neg hverbatim, if_neg quote, word, Bool.false_eq_true,
    if_false]

/-- A verbatim literal takes one round. -/
theorem Cursor.scanRound_verbatim (h : Cursor s u ('@' :: '"' :: w ++ v) i) (literal : Verbatim w v) :
    scanRound f s ⟨i, blocks⟩ = .ok ⟨i + byteLength ('@' :: '"' :: w), blocks⟩ := by
  obtain ⟨hat, hnext, hskip⟩ := h.atVerbatim literal
  rw [← hskip]
  simp only [scanRound, hat, hnext, bind, Except.bind, and_self, if_true]

/-- A quoted literal takes one round. -/
theorem Cursor.scanRound_quoted (h : Cursor s u (c :: w ++ v) i) (quote : c = '"' ∨ c = '\'') (literal : Quoted c w v) :
    scanRound f s ⟨i, blocks⟩ = .ok ⟨i + byteLength (c :: w), blocks⟩ := by
  obtain ⟨hbyte, hskip⟩ := h.atQuoted quote literal
  have hat : ¬ c.toUInt8 = '@'.toUInt8 := by rcases quote with rfl | rfl <;> decide
  have hquote : c.toUInt8 = '"'.toUInt8 ∨ c.toUInt8 = '\''.toUInt8 := quote.imp (congrArg _) (congrArg _)
  rw [← hskip]
  simp only [scanRound, hbyte, hat, hquote, bind, Except.bind, false_and, if_false, if_true]

/-- The first byte of a word starts no literal. -/
theorem toUInt8_of_word (hc : isAsciiWord c = true) : isWordByte c.toUInt8 = true ∧ c.toUInt8 ≠ '@'.toUInt8 ∧
    ¬(c.toUInt8 = '"'.toUInt8 ∨ c.toUInt8 = '\''.toUInt8) := by
  have hword : isWordByte c.toUInt8 = true := by rw [byteClass_word.same c (isAscii_of_isAsciiWord hc), hc]
  have hother : ∀ d : UInt8, isWordByte d = false → c.toUInt8 ≠ d := by
    rintro d hd rfl
    rw [hword] at hd
    cases hd
  exact ⟨hword, hother _ (by decide), not_or.mpr ⟨hother _ (by decide), hother _ (by decide)⟩⟩

/-- **A word** is compared with the introducer. -/
theorem Cursor.scanRound_word (h : Cursor s u (c :: w ++ v) i) (word : ∀ d ∈ c :: w, isAsciiWord d = true)
    (ends : ∀ d ∈ v.head?, isAsciiWord d = false) (f : BlockFinder) (blocks : List PlacedBlock) :
    scanRound f s ⟨i, blocks⟩ =
      if c :: w = f.introducer.toList then (do
        let block ← Inlay.parseBlock f.width s i (i + byteLength (c :: w))
        .ok ⟨block.start + block.length, blocks ++ [block]⟩ : Access ScanState)
      else .ok ⟨i + byteLength (c :: w), blocks⟩ := by
  have hc := word c List.mem_cons_self
  obtain ⟨hword, hat, hquote⟩ := toUInt8_of_word hc
  have hfirst := h.byteAt (isAscii_of_isAsciiWord hc)
  have hend := h.runEnd byteClass_word word ends
  have hsame : utf8 (c :: w) = utf8 f.introducer.toList ↔ c :: w = f.introducer.toList :=
    ⟨utf8_injective, congrArg utf8⟩
  simp only [scanRound, hfirst, hat, hquote, hword, hend, h.bytesIn, hsame, bind, Except.bind, false_and, if_false,
    if_true]

/-! ## Units -/

/-- A single byte takes one round. -/
theorem Scans.skip (hb : (utf8 s)[i]? = some b) (verbatim : b = '@'.toUInt8 → (utf8 s)[i + 1]? ≠ some '"'.toUInt8)
    (quote : ¬(b = '"'.toUInt8 ∨ b = '\''.toUInt8)) (word : isWordByte b = false)
    (h : Scans f s ⟨i + 1, blocks⟩ n out) : Scans f s ⟨i, blocks⟩ (n + 1) out := by
  obtain ⟨hlt, -⟩ := List.getElem?_eq_some_iff.mp hb
  exact .again hlt (scanRound_other hb verbatim quote word) h

/-- The bytes of wide characters take one round each. -/
theorem Scans.skip_wide (hbytes : utf8 s = pre ++ (bs ++ post)) (wide : ∀ b ∈ bs, 128 ≤ b.toNat)
    (h : Scans f s ⟨pre.length + bs.length, blocks⟩ n out) : Scans f s ⟨pre.length, blocks⟩ (bs.length + n) out := by
  induction bs generalizing pre n with
  | nil =>
      rw [List.length_nil, Nat.zero_add]
      exact h
  | cons b bs ih =>
      rw [List.forall_mem_cons] at wide
      have hbehind : Scans f s ⟨(pre ++ [b]).length, blocks⟩ (bs.length + n) out := by
        apply ih _ wide.2
        · rw [List.length_append, List.length_singleton, Nat.add_assoc, Nat.add_comm 1]
          exact h
        · rw [hbytes, List.append_assoc]
          rfl
      rw [List.length_append] at hbehind
      have hb : (utf8 s)[pre.length]? = some b := by
        rw [hbytes, List.getElem?_append_right (Nat.le_refl _), Nat.sub_self]
        rfl
      rw [List.length_cons, Nat.add_right_comm]
      apply hbehind.skip hb
      · intro heq
        exact absurd heq (ne_toUInt8_of_le (by decide) wide.1)
      · exact not_or.mpr ⟨ne_toUInt8_of_le (by decide) wide.1, ne_toUInt8_of_le (by decide) wide.1⟩
      · exact byteClass_word.wide b wide.1

/-- **A single character** takes a round for each of its bytes. -/
theorem Scans.skip_char (h : Cursor s u (c :: v) i) (quote : ¬(c = '"' ∨ c = '\'')) (word : isAsciiWord c = false)
    (verbatim : c = '@' → v.head? ≠ some '"') (others : Scans f s ⟨i + c.utf8Size, blocks⟩ n out) :
    Scans f s ⟨i, blocks⟩ (c.utf8Size + n) out := by
  by_cases hascii : IsAscii c
  · rw [utf8Size_eq_one hascii] at others ⊢
    obtain ⟨hdouble, hsingle⟩ := not_or.mp quote
    rw [Nat.add_comm]
    apply others.skip ((h.getElem?_eq_iff hascii).mpr rfl)
    · intro heq
      have hat : c = '@' := Classical.byContradiction fun hne => toUInt8_ne_toUInt8 hascii (by decide) hne heq
      exact mt ((h.moveChar hascii).getElem?_eq_iff (by decide)).mp (verbatim hat)
    · exact not_or.mpr ⟨toUInt8_ne_toUInt8 hascii (by decide) hdouble,
        toUInt8_ne_toUInt8 hascii (by decide) hsingle⟩
    · rw [byteClass_word.same c hascii, word]
  · obtain ⟨rfl, rfl⟩ := h
    have hbytes : utf8 (u ++ c :: v) = utf8 u ++ (String.utf8EncodeChar c ++ utf8 v) := by rw [utf8_append, utf8_cons]
    rw [← length_utf8, ← String.length_utf8EncodeChar] at others ⊢
    exact others.skip_wide hbytes fun b hb => le_of_mem_utf8EncodeChar hascii hb

/-- **A unit that is not the introducer** takes at most a round for each of its bytes. -/
theorem Scans.unit (h : Cursor s u (c :: w ++ v) i) (unit : IsUnit (c :: w) v)
    (other : isAsciiWord c = true → c :: w ≠ f.introducer.toList)
    (others : Scans f s ⟨i + byteLength (c :: w), blocks⟩ n out) :
    ∃ k, k ≤ byteLength (c :: w) ∧ Scans f s ⟨i, blocks⟩ (k + n) out := by
  have hpos : 1 ≤ byteLength (c :: w) := by
    have := c.utf8Size_pos
    rw [byteLength_cons]
    omega
  cases unit with
  | verbatim literal => exact ⟨1, hpos, Nat.add_comm n 1 ▸ .again h.lt_length (h.scanRound_verbatim literal) others⟩
  | quoted quote literal =>
      exact ⟨1, hpos, Nat.add_comm n 1 ▸ .again h.lt_length (h.scanRound_quoted quote literal) others⟩
  | word start all ends =>
      have hround := h.scanRound_word (List.forall_mem_cons.mpr ⟨start, all⟩) ends f blocks
      rw [if_neg (other start)] at hround
      exact ⟨1, hpos, Nat.add_comm n 1 ▸ .again h.lt_length hround others⟩
  | single quote word verbatim =>
      rw [byteLength_cons, byteLength_nil, Nat.add_zero] at others
      exact ⟨c.utf8Size, Nat.le_add_right _ _, others.skip_char h quote word verbatim⟩

/-! ## The whole scan -/

/-- The round at an introducer is the reading of its block. -/
theorem BlockFinder.Opens.scanRound (opens : f.Opens v) (h : Cursor s u (f.introducer.toList ++ v) i)
    (blocks : List PlacedBlock) :
    Inlay.scanRound f s ⟨i, blocks⟩ = (do
      let block ← parseBlock f.width s i (i + byteLength f.introducer.toList)
      .ok ⟨block.start + block.length, blocks ++ [block]⟩ : Access ScanState) ∧ i < (utf8 s).length := by
  obtain ⟨c, w, hi, hc, -⟩ := opens.exists_unit
  have hword := opens.word.2
  rw [hi] at h hword ⊢
  have hround := h.scanRound_word hword opens.ends f blocks
  rw [if_pos hi.symm] at hround
  exact ⟨hround, h.lt_length⟩

/-- What stands behind the introducer of a block lets it open one. -/
theorem BlockFinder.opens_of_written (opens : t.introducer = f.introducer.toList)
    (word : t.introducer ≠ [] ∧ ∀ c ∈ t.introducer, isAsciiWord c = true) (separated : t.beforeName ≠ [])
    (written : t.Written rest) (v : List Char) : f.Opens (t.beforeName ++ v) := by
  refine ⟨opens ▸ word, fun c hc => ?_⟩
  obtain ⟨d, blanks, hd⟩ := List.exists_cons_of_ne_nil separated
  rw [hd] at hc
  obtain rfl : d = c := Option.some.inj hc
  exact not_isAsciiWord_of_isAsciiBlank (written.beforeName d (hd ▸ List.mem_cons_self))

/-- **The round at a block** reads its parameters and comes to its end. -/
theorem BlockFinder.scanRound_block (h : Cursor s u (t.chars ++ rest) i) (hoffset : p.offset = i)
    (hline : p.line = newlines u + 1) (opens : t.introducer = f.introducer.toList)
    (word : t.introducer ≠ [] ∧ ∀ c ∈ t.introducer, isAsciiWord c = true) (separated : t.beforeName ≠ [])
    (written : t.Written rest) (blocks : List PlacedBlock) :
    scanRound f s ⟨i, blocks⟩ = checked ((Param.readList f.width (String.ofList t.name) (p.advance t.opening)
      t.list).map fun params => ⟨i + byteLength t.chars, blocks ++ [Block.placed ⟨p, t, params⟩]⟩) ∧
    i < (utf8 s).length := by
  have hparse := h.parseBlock written hoffset hline f.width
  rw [t.chars_append, opens] at h
  obtain ⟨hround, hinside⟩ := (opens_of_written opens word separated written _).scanRound h blocks
  refine ⟨?_, hinside⟩
  rw [hround, ← opens, hparse, ← hoffset]
  cases Param.readList f.width (String.ofList t.name) (p.advance t.opening) t.list <;> rfl

/-- A block in front of what is found is one more of the blocks that were found. -/
theorem checked_map_cons (x : Except Error (List Block)) (b : Block) (blocks : List PlacedBlock) :
    checked ((x.map (b :: ·)).map fun found => blocks ++ found.map Block.placed) =
      checked (x.map fun found => blocks ++ [b.placed] ++ found.map Block.placed) := by
  cases x with
  | error e => rfl
  | ok found => exact congrArg Except.ok (List.append_cons _ _ _)

/-- **The scan by offsets** from a cursor on comes to what is found from there on, with at most a round for each
    byte. -/
theorem BlockFinder.scans_from (f : BlockFinder) (h : Cursor s u v i) (hoffset : p.offset = i)
    (hline : p.line = newlines u + 1) (blocks : List PlacedBlock) : ∃ n, n ≤ byteLength v ∧
      Scans f s ⟨i, blocks⟩ n (checked ((f.blocksFrom p v).map fun found => blocks ++ found.map Block.placed)) := by
  induction v using f.ahead_induction generalizing u i p blocks with
  | nothing =>
      have hend : ¬ i < (utf8 s).length := by
        rw [h.length_eq]
        exact Nat.lt_irrefl i
      have hnone : f.blocksFrom p [] = .ok [] := by
        rw [blocksFrom, extractFrom]
        rfl
      rw [hnone]
      refine ⟨0, Nat.le_refl 0, ?_⟩
      show Scans f s ⟨i, blocks⟩ 0 (.ok (blocks ++ []))
      rw [List.append_nil]
      exact .ends hend
  | unit c w behind unit other ih =>
      have hplace := advance_offset_line p (c :: w)
      obtain ⟨n, hn, hscans⟩ := ih h.move (hplace.1.trans (congrArg (· + _) hoffset)) (line_advance hline _) blocks
      obtain ⟨k, hk, hscans⟩ := hscans.unit h unit other
      rw [blocksFrom_unit unit other]
      refine ⟨k + n, ?_, hscans⟩
      rw [byteLength_append]
      omega
  | flawed v flaw opens cut =>
      obtain ⟨hround, hinside⟩ := opens.scanRound h blocks
      rw [h.parseBlock_flawed (BlockText.cut_eq_error.mp cut)] at hround
      have herror : f.blocksFrom p (f.introducer.toList ++ v) = .error (.malformedBlock p.line flaw.message) :=
        blocksFrom_eq_error.mpr (extractFrom_flawed opens cut p)
      rw [herror, hline]
      refine ⟨1, ?_, .stops hinside hround⟩
      rw [h.length_eq] at hinside
      omega
  | block t rest opens word separated written ih =>
      obtain ⟨hround, hinside⟩ := f.scanRound_block h hoffset hline opens word separated written blocks
      have hpos : 1 ≤ byteLength (t.chars ++ rest) := by
        have hlength := h.length_eq
        omega
      cases hlist : Param.readList f.width (String.ofList t.name) (p.advance t.opening) t.list with
      | error e =>
          have herror : f.blocksFrom p (t.chars ++ rest) = .error e :=
            blocksFrom_eq_error.mpr (extractFrom_unread opens word separated written hlist)
          rw [hlist] at hround
          rw [herror]
          exact ⟨1, hpos, .stops hinside hround⟩
      | ok params =>
          have hplace := advance_offset_line p t.chars
          obtain ⟨n, hn, hscans⟩ := ih h.move (hplace.1.trans (congrArg (· + _) hoffset)) (line_advance hline _)
            (blocks ++ [Block.placed ⟨p, t, params⟩])
          have hchars : byteLength t.chars ≠ 0 := fun hzero => t.chars_ne_nil (byteLength_eq_zero hzero)
          rw [hlist] at hround
          rw [blocksFrom_block opens word separated written hlist, checked_map_cons]
          refine ⟨n + 1, ?_, .again hinside hround hscans⟩
          rw [byteLength_append]
          omega

/-! ## Where the scan leaves the text -/

/-- **The scan meets a parameter that is not divided**, the one of `t` behind the parameters `sound`: the last blank or
    star of it takes more than one byte. -/
structure BlockFinder.Meets (f : BlockFinder) (source front : List Char) (t : BlockText) (rest : List Char)
    (sound : List (List Char)) (piece : List Char) : Prop where
  /-- The block stands in the source. -/
  text : source = front ++ (t.chars ++ rest)
  /-- What is in front of it is scanned. -/
  scanned : ∃ blocks, Scanned f {} front (t.chars ++ rest) blocks
  /-- It is a block of the finder. -/
  opens : t.introducer = f.introducer.toList
  word : t.introducer ≠ [] ∧ ∀ c ∈ t.introducer, isAsciiWord c = true
  separated : t.beforeName ≠ []
  /-- It is well written, with parameters. -/
  written : t.Written rest
  listed : trim t.list ≠ [] ∧ trim t.list ≠ "void".toList
  /-- The parameter is one of them, and those in front of it can be read. -/
  reached : ∃ others, pieces (· == ',') t.list = sound ++ piece :: others
  readable : ∃ params, Param.readAll f.width (String.ofList t.name) (({} : Position).advance (front ++ t.opening)) 0
    sound = .ok params
  /-- It is not divided. -/
  indivisible : Param.Indivisible (trim piece)

/-- **An extraction fails for want of a division** exactly if the scan meets a parameter that is not divided. -/
theorem BlockFinder.extract_eq_indivisible {text : String} : f.extract text = .error .indivisibleParameter ↔
    ∃ front t rest sound piece, f.Meets text.toList front t rest sound piece := by
  rw [extract_eq_error]
  constructor
  · rintro ⟨front, blocks, behind, htext, hscanned, hfaulty⟩
    cases hfaulty with
    | @parameter t rest _ opens word separated written listed first =>
        have hread := (Param.readAll_eq_error (line_behind (front ++ t.opening))).mpr first
        obtain ⟨sound, piece, others, params, heq, hsound, hpiece⟩ :=
          (Param.readAll_eq_indivisible (line_behind (front ++ t.opening))).mp hread
        exact ⟨front, t, rest, sound, piece, htext, ⟨blocks, hscanned⟩, opens, word, separated, written, listed,
          ⟨others, heq⟩, ⟨params, hsound⟩, hpiece⟩
  · rintro ⟨front, t, rest, sound, piece, h⟩
    obtain ⟨blocks, hscanned⟩ := h.scanned
    obtain ⟨others, hlist⟩ := h.reached
    obtain ⟨params, hsound⟩ := h.readable
    refine ⟨front, blocks, t.chars ++ rest, h.text, hscanned, ?_⟩
    apply Faulty.parameter h.opens h.word h.separated h.written h.listed
    apply (Param.readAll_eq_error (line_behind (front ++ t.opening))).mp
    exact (Param.readAll_eq_indivisible (line_behind (front ++ t.opening))).mpr
      ⟨sound, piece, others, params, hlist, hsound, h.indivisible⟩

/-- **The scan by offsets ends and stays inside of the text.** It takes at most as many rounds as there are bytes and
    comes to what is found by characters. So all indices and slices that it takes are those of the text, which start
    and end at characters, except exactly where it meets a parameter that is not divided. -/
theorem byte_scan_stays_inside (f : BlockFinder) (source : String) :
    (∃ n out, n ≤ byteLength source.toList ∧ Scans f source.toList ⟨0, []⟩ n out) ∧
    ∀ n out, Scans f source.toList ⟨0, []⟩ n out →
      n ≤ byteLength source.toList ∧
      out = checked ((f.extract source).map fun e => e.blocks.map Block.placed) ∧
      (out = .error .outside ↔ ∃ front t rest sound piece, f.Meets source.toList front t rest sound piece) := by
  obtain ⟨n, hn, hscans⟩ := f.scans_from (.start source.toList) (p := {}) rfl rfl []
  have hresult : checked ((f.blocksFrom {} source.toList).map fun found => [] ++ found.map Block.placed) =
      checked ((f.extract source).map fun e => e.blocks.map Block.placed) := by
    rw [BlockFinder.blocksFrom, BlockFinder.extract]
    cases f.extractFrom {} source.toList <;> rfl
  rw [hresult] at hscans
  refine ⟨⟨n, _, hn, hscans⟩, ?_⟩
  intro n' out hout
  obtain ⟨rfl, rfl⟩ := hscans.unique hout
  refine ⟨hn, rfl, ?_⟩
  rw [checked_eq_outside, map_eq_error, BlockFinder.extract_eq_indivisible]

/-- A block behind wide characters and a literal with a backslash in front of one, and a backslash as the last byte. -/
def amongWide : String :=
  "'\\é'é asm f(int x)\x7bé\x7d\"\\"

/-- Between wide characters a block is found in its bytes. A parameter whose name stands behind a wide blank is met, and
    there the scan leaves the text. -/
theorem wide_blank_leaves_text :
    (∃ n, Scans ⟨"asm", .bits64⟩ amongWide.toList ⟨0, []⟩ n
      (.ok [⟨"f", [⟨0, "int", .i32, some "x"⟩], "é", 8, 16, 1, 0, 0⟩])) ∧
    (∃ n, Scans ⟨"asm", .bits64⟩ "asm f(int\u00a0x)\x7b\x7d".toList ⟨0, []⟩ n (.error .outside)) ∧
    ∃ front t rest sound piece,
      BlockFinder.Meets ⟨"asm", .bits64⟩ "asm f(int\u00a0x)\x7b\x7d".toList front t rest sound piece := by
  have hfound : (BlockFinder.extract ⟨"asm", .bits64⟩ amongWide).map (fun e => e.blocks.map Block.placed) =
      .ok [⟨"f", [⟨0, "int", .i32, some "x"⟩], "é", 8, 16, 1, 0, 0⟩] := by
    cbv
  have hwide : BlockFinder.extract ⟨"asm", .bits64⟩ "asm f(int\u00a0x)\x7b\x7d" = .error .indivisibleParameter := by
    cbv
  obtain ⟨⟨n, out, -, hscans⟩, hall⟩ := byte_scan_stays_inside ⟨"asm", .bits64⟩ amongWide
  obtain ⟨⟨k, out', -, hleaves⟩, hall'⟩ := byte_scan_stays_inside ⟨"asm", .bits64⟩ "asm f(int\u00a0x)\x7b\x7d"
  obtain ⟨-, rfl, -⟩ := hall n out hscans
  obtain ⟨-, rfl, hmeets⟩ := hall' k out' hleaves
  rw [hfound] at hscans
  rw [hwide] at hleaves hmeets
  exact ⟨⟨n, hscans⟩, ⟨k, hleaves⟩, hmeets.mp rfl⟩

end Inlay
