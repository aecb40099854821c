import Mathlib
import Inlay.Proofs.Kernel.Scanned

/-!
# `Proofs.Kernel.OpaqueLiterals` — what a literal holds does not matter

Two scans that start on the same line in front of the same text find the same there, wherever they start: the same
error, or blocks that differ only in their places (`blocksFrom_moved`). The scan takes a quoted literal as one unit,
whatever it holds, so behind it both scans are in front of the same text. What two sources with other contents of one
literal are taken apart to differs by no more than the length of the literal (`literal_is_opaque`).
-/

namespace Inlay

variable {f : BlockFinder} {p p' : Position} {q : Char} {a b c c' s : List Char} {width : PointerWidth}
  {function : String} {index m n : Nat} {blocks : List Block}

/-! ## Where a list stands -/

namespace Param

/-- Of the place of a parameter, only its line is reported. -/
theorem read_congr (hline : p'.line = p.line) (piece : List Char) :
    read width function p' index piece = read width function p index piece := by
  unfold read
  rw [line_advance_congr hline]

theorem readAll_congr (hline : p'.line = p.line) (pieces : List (List Char)) :
    readAll width function p' index pieces = readAll width function p index pieces := by
  induction pieces generalizing p p' index with
  | nil => rfl
  | cons piece others ih =>
      rw [readAll, readAll, read_congr hline, ih (line_advance_congr hline (piece ++ [',']))]

/-- **What is read of a list depends on its line**, and on nothing else of its place. -/
theorem readList_congr (hline : p'.line = p.line) (list : List Char) :
    readList width function p' list = readList width function p list := by
  unfold readList
  rw [readAll_congr hline]

end Param

/-! ## Two scans of one text -/

/-- **The same block in another place**: it is `n - m` bytes further behind, on the same line. -/
structure Block.MovedBy (m n : Nat) (b b' : Block) : Prop where
  text : b'.text = b.text
  params : b'.params = b.params
  startLine : b'.startLine = b.startLine
  start : b'.start + m = b.start + n

/-- **The same is found in another place**: the same error, or the same blocks. -/
inductive SameMovedBy (m n : Nat) : Except Error (List Block) → Except Error (List Block) → Prop where
  | error (e : Error) : SameMovedBy m n (.error e) (.error e)
  | ok {blocks blocks' : List Block} (moved : List.Forall₂ (Block.MovedBy m n) blocks blocks') :
      SameMovedBy m n (.ok blocks) (.ok blocks')

/-- A place moved stays moved over any text. -/
theorem advance_moved (hline : p'.line = p.line) (hoffset : p'.offset + m = p.offset + n) (s : List Char) :
    (p'.advance s).line = (p.advance s).line ∧ (p'.advance s).offset + m = (p.advance s).offset + n := by
  obtain ⟨ho, hl⟩ := advance_offset_line p s
  obtain ⟨ho', hl'⟩ := advance_offset_line p' s
  rw [ho, hl, ho', hl', hline]
  exact ⟨rfl, by omega⟩

namespace BlockFinder

/-- **Two scans of one text** that start on the same line find the same. -/
theorem blocksFrom_moved (f : BlockFinder) (s : List Char) (hline : p'.line = p.line)
    (hoffset : p'.offset + m = p.offset + n) : SameMovedBy m n (f.blocksFrom p s) (f.blocksFrom p' s) := by
  induction s using f.ahead_induction generalizing p p' with
  | nothing =>
      rw [blocksFrom, extractFrom, blocksFrom, extractFrom]
      exact .ok .nil
  | unit c u behind unit other ih =>
      obtain ⟨hl, ho⟩ := advance_moved hline hoffset (c :: u)
      rw [blocksFrom_unit unit other, blocksFrom_unit unit other]
      exact ih hl ho
  | flawed s flaw opens cut =>
      have h := blocksFrom_eq_error.mpr (extractFrom_flawed opens cut p)
      have h' := blocksFrom_eq_error.mpr (extractFrom_flawed opens cut p')
      rw [hline] at h'
      rw [h, h']
      exact .error _
  | block t rest opens word separated written ih =>
      have hlist : Param.readList f.width (String.ofList t.name) (p'.advance t.opening) t.list =
          Param.readList f.width (String.ofList t.name) (p.advance t.opening) t.list :=
        Param.readList_congr (line_advance_congr hline t.opening) t.list
      cases hread : Param.readList f.width (String.ofList t.name) (p.advance t.opening) t.list with
      | error e =>
          rw [hread] at hlist
          rw [blocksFrom_eq_error.mpr (extractFrom_unread opens word separated written hread),
            blocksFrom_eq_error.mpr (extractFrom_unread opens word separated written hlist)]
          exact .error e
      | ok params =>
          rw [hread] at hlist
          obtain ⟨hl, ho⟩ := advance_moved hline hoffset t.chars
          have hothers := ih hl ho
          rw [blocksFrom_block opens word separated written hread,
            blocksFrom_block opens word separated written hlist]
          -- the block, and what is found behind it
          generalize f.blocksFrom (p.advance t.chars) rest = found at hothers
          generalize f.blocksFrom (p'.advance t.chars) rest = found' at hothers
          cases hothers with
          | error e => exact .error e
          | ok moved => exact .ok (.cons ⟨rfl, rfl, hline, hoffset⟩ moved)

end BlockFinder

/-! ## Behind a literal -/

/-- What is closed by the first quote is a quoted literal. -/
theorem quoted_of_free (hq : q = '"' ∨ q = '\'') (hc : ∀ x ∈ c, x ≠ q ∧ x ≠ '\\' ∧ x ≠ '\n') :
    Quoted q (c ++ [q]) b := by
  induction c with
  | nil =>
      have hplain : q ≠ '\\' ∧ q ≠ '\n' := by
        rcases hq with rfl | rfl <;> decide
      exact .closed hplain.1 hplain.2
  | cons x c ih =>
      obtain ⟨hquote, hescape, hnewline⟩ := hc x List.mem_cons_self
      exact .char hescape hnewline hquote (ih fun y hy => hc y (List.mem_cons_of_mem x hy))

/-- **What is found in a source with a literal**: what was found in front of it, and what is found behind it. -/
theorem BlockFinder.blocksFrom_literal (hq : q = '"' ∨ q = '\'') (hc : ∀ x ∈ c, x ≠ q ∧ x ≠ '\\' ∧ x ≠ '\n')
    (reached : Scanned f p a (q :: (c ++ q :: b)) blocks) :
    f.blocksFrom p (a ++ q :: (c ++ q :: b)) =
      (f.blocksFrom (p.advance (a ++ q :: (c ++ [q]))) b).map (blocks ++ ·) := by
  have hunit : IsUnit (q :: (c ++ [q])) b := .quoted hq (quoted_of_free hq hc)
  have hother : isAsciiWord q = true → q :: (c ++ [q]) ≠ f.introducer.toList := by
    intro hword
    exact absurd hq (not_quote_of_isAsciiWord hword)
  have hbehind : q :: (c ++ q :: b) = q :: (c ++ [q]) ++ b := by simp
  rw [blocksFrom_scanned reached, hbehind, blocksFrom_unit hunit hother, Position.advance_append]

/-- No block starts in front of the place where the scan starts. -/
theorem TakenApart.le_start {cuts : List (List Char × Block)} {rest : List Char} (h : TakenApart f p s cuts rest) :
    ∀ b ∈ cuts.map (·.2), p.offset ≤ b.start := by
  induction h with
  | rest => exact fun b hb => nomatch hb
  | @block p gap s rest t params cuts passes opens word separated written list others ih =>
      have hgap := (advance_offset_line p gap).1
      have hblock := (advance_offset_line (p.advance gap) t.chars).1
      intro b hb
      rcases List.mem_cons.mp hb with rfl | hb
      · show p.offset ≤ (p.advance gap).offset
        omega
      · have hle := ih b hb
        omega

/-- Two literals without newlines leave the line as it is, and the offset apart by what they hold. -/
theorem advance_literal (hc : ∀ x ∈ c, x ≠ '\n') (hc' : ∀ x ∈ c', x ≠ '\n') (p : Position) (a : List Char) (q : Char) :
    (p.advance (a ++ q :: (c' ++ [q]))).line = (p.advance (a ++ q :: (c ++ [q]))).line ∧
      (p.advance (a ++ q :: (c' ++ [q]))).offset + byteLength c =
        (p.advance (a ++ q :: (c ++ [q]))).offset + byteLength c' := by
  have hnewlines : ∀ d : List Char, (∀ x ∈ d, x ≠ '\n') →
      newlines (a ++ q :: (d ++ [q])) = newlines (a ++ [q] ++ [q]) := by
    intro d hd
    have hzero : newlines d = 0 := newlines_eq_zero.mpr fun hmem => hd '\n' hmem rfl
    rw [List.append_cons, newlines_append, newlines_append d, hzero, Nat.zero_add, newlines_append (a ++ [q])]
  obtain ⟨ho, hl⟩ := advance_offset_line p (a ++ q :: (c ++ [q]))
  obtain ⟨ho', hl'⟩ := advance_offset_line p (a ++ q :: (c' ++ [q]))
  rw [hl', hl, ho', ho, hnewlines c hc, hnewlines c' hc']
  refine ⟨rfl, ?_⟩
  rw [byteLength_append, byteLength_append, byteLength_cons, byteLength_cons, byteLength_append, byteLength_append]
  omega

/-- Warnings do not say where a block stands. -/
theorem warnings_of_moved {blocks' : List Block} (h : List.Forall₂ (Block.MovedBy m n) blocks blocks') :
    blocks'.flatMap Block.warnings = blocks.flatMap Block.warnings := by
  induction h with
  | nil => rfl
  | cons moved _ ih =>
      rw [List.flatMap_cons, List.flatMap_cons, ih, Block.warnings, Block.warnings, Block.name, Block.name, moved.text,
        moved.params]

/-- **What a literal holds does not matter** to what is extracted, if the scan comes to its quote outside of literals
    and blocks: not an introducer or a brace in it, not the other quote, not the signs of a comment. The blocks in front
    of the literal are the same, and those behind it are moved by the difference in length. A scanned text does not end
    with an at sign in front of a double quote, since the two of them would open a verbatim literal. -/
theorem literal_is_opaque (hq : q = '"' ∨ q = '\'') (hc : ∀ x ∈ c, x ≠ q ∧ x ≠ '\\' ∧ x ≠ '\n')
    (hc' : ∀ x ∈ c', x ≠ q ∧ x ≠ '\\' ∧ x ≠ '\n') (reached : Scanned f {} a (q :: (c ++ q :: b)) blocks) :
    (∃ error, f.extract (String.ofList (a ++ q :: (c ++ q :: b))) = .error error ∧
      f.extract (String.ofList (a ++ q :: (c' ++ q :: b))) = .error error) ∨
    ∃ e e', f.extract (String.ofList (a ++ q :: (c ++ q :: b))) = .ok e ∧
      f.extract (String.ofList (a ++ q :: (c' ++ q :: b))) = .ok e' ∧
      e'.warnings = e.warnings ∧
      ∃ after after', e.blocks = blocks ++ after ∧ e'.blocks = blocks ++ after' ∧
        (∀ b ∈ blocks, b.stop ≤ byteLength a) ∧
        (∀ b ∈ after, byteLength (a ++ q :: (c ++ [q])) ≤ b.start) ∧
        List.Forall₂ (Block.MovedBy (byteLength c) (byteLength c')) after after' := by
  have hblank : isLineBlank q = false := by
    rcases hq with rfl | rfl <;> rfl
  have reached' : Scanned f {} a (q :: (c' ++ q :: b)) blocks := reached.exchange hblank _
  have hfound := BlockFinder.blocksFrom_literal hq hc reached
  have hfound' := BlockFinder.blocksFrom_literal hq hc' reached'
  -- the two scans behind the literal
  obtain ⟨hline, hoffset⟩ := advance_literal (fun x hx => (hc x hx).2.2) (fun x hx => (hc' x hx).2.2) {} a q
  have hmoved := f.blocksFrom_moved b hline hoffset
  generalize hafter : f.blocksFrom (({} : Position).advance (a ++ q :: (c ++ [q]))) b = found at hfound hmoved
  generalize f.blocksFrom (({} : Position).advance (a ++ q :: (c' ++ [q]))) b = found' at hfound' hmoved
  unfold BlockFinder.extract
  rw [String.toList_ofList, String.toList_ofList]
  cases hmoved with
  | error error =>
      exact Or.inl ⟨error, BlockFinder.blocksFrom_eq_error.mp hfound, BlockFinder.blocksFrom_eq_error.mp hfound'⟩
  | @ok after after' moved =>
      obtain ⟨e, he, hblocks⟩ := BlockFinder.blocksFrom_eq_ok.mp hfound
      obtain ⟨e', he', hblocks'⟩ := BlockFinder.blocksFrom_eq_ok.mp hfound'
      refine Or.inr ⟨e, e', he, he', ?_, after, after', hblocks, hblocks', ?_, ?_, moved⟩
      · rw [Extraction.warnings, Extraction.warnings, hblocks, hblocks', List.flatMap_append, List.flatMap_append,
          warnings_of_moved moved]
      · intro b hb
        have hle := reached.stop_le b hb
        rwa [show ({} : Position).offset = 0 from rfl, Nat.zero_add] at hle
      · intro b' hb
        obtain ⟨x, hx, rfl⟩ := BlockFinder.blocksFrom_eq_ok.mp hafter
        have hle := (BlockFinder.takenApart_of_extractFrom hx).le_start b' hb
        rwa [(advance_offset_line {} _).1, show ({} : Position).offset = 0 from rfl, Nat.zero_add] at hle

/-- The block in front of the literal. -/
def frontBlock : Block :=
  ⟨{}, ⟨"asm".toList, [' '], ['f'], [], [], [], [], []⟩, []⟩

/-- The scan reads the block and the sign behind it. -/
theorem scanned_frontBlock : Scanned ⟨"asm", .bits64⟩ {} "asm f()\x7b\x7d=".toList
    ('"' :: ("asm g()\x7b".toList ++ '"' :: ";asm h(int a)\x7b\x7d".toList)) [frontBlock] := by
  have hcut : BlockText.cut "asm".toList
      (" f()\x7b\x7d=".toList ++ '"' :: ("asm g()\x7b".toList ++ '"' :: ";asm h(int a)\x7b\x7d".toList)) =
      .ok (frontBlock.text, ['='] ++ '"' :: ("asm g()\x7b".toList ++ '"' :: ";asm h(int a)\x7b\x7d".toList)) := by
    cbv
  have hword : "asm".toList ≠ [] ∧ ∀ c ∈ "asm".toList, isAsciiWord c = true :=
    ⟨by decide, List.all_eq_true.mp (by decide)⟩
  refine .block (t := frontBlock.text) rfl hword (by decide) (BlockText.cut_eq_ok.mp hcut).2.1 rfl ?_
  refine .unit (s := []) (.single (by decide) rfl fun h => ?_) (fun h => ?_) .nil
  · exact absurd h (by decide)
  · exact absurd h (by decide)

/-- **An introducer and a brace in a literal are text.** Without them the second block is found with the same
    parameters, eight bytes earlier. -/
theorem introducer_in_literal_is_text :
    Scanned ⟨"asm", .bits64⟩ {} "asm f()\x7b\x7d=".toList
      ('"' :: ("asm g()\x7b".toList ++ '"' :: ";asm h(int a)\x7b\x7d".toList)) [frontBlock] ∧
    ∃ e e', BlockFinder.extract ⟨"asm", .bits64⟩
        "asm f()\x7b\x7d=\"asm g()\x7b\";asm h(int a)\x7b\x7d" = .ok e ∧
      BlockFinder.extract ⟨"asm", .bits64⟩ "asm f()\x7b\x7d=\"\";asm h(int a)\x7b\x7d" = .ok e' ∧
      e'.warnings = e.warnings ∧
      ∃ after after', e.blocks = [frontBlock] ++ after ∧ e'.blocks = [frontBlock] ++ after' ∧
        after.map Block.name = ["h"] ∧ List.Forall₂ (Block.MovedBy 8 0) after after' := by
  refine ⟨scanned_frontBlock, ?_⟩
  have hc : ∀ x ∈ "asm g()\x7b".toList, x ≠ '"' ∧ x ≠ '\\' ∧ x ≠ '\n' := by
    have hall : "asm g()\x7b".toList.all (fun x => x != '"' && x != '\\' && x != '\n') = true := rfl
    intro x hx
    simpa [and_assoc] using List.all_eq_true.mp hall x hx
  have hnone : ∀ x ∈ ([] : List Char), x ≠ '"' ∧ x ≠ '\\' ∧ x ≠ '\n' :=
    fun x hx => nomatch hx
  have hopaque := literal_is_opaque (Or.inl rfl) hc hnone scanned_frontBlock
  have hwith : "asm f()\x7b\x7d=".toList ++ '"' :: ("asm g()\x7b".toList ++ '"' :: ";asm h(int a)\x7b\x7d".toList) =
      "asm f()\x7b\x7d=\"asm g()\x7b\";asm h(int a)\x7b\x7d".toList := by
    rfl
  have hwithout : "asm f()\x7b\x7d=".toList ++ '"' :: ([] ++ '"' :: ";asm h(int a)\x7b\x7d".toList) =
      "asm f()\x7b\x7d=\"\";asm h(int a)\x7b\x7d".toList := by
    rfl
  rw [hwith, hwithout, String.ofList_toList, String.ofList_toList] at hopaque
  -- neither ends with an error
  have hnames : (BlockFinder.extract ⟨"asm", .bits64⟩
      "asm f()\x7b\x7d=\"asm g()\x7b\";asm h(int a)\x7b\x7d").map (fun e => e.blocks.map Block.name) =
      .ok (["f"] ++ ["h"]) := by
    cbv
  obtain ⟨x, hx, hnames⟩ := map_eq_ok.mp hnames
  rcases hopaque with ⟨error, herror, -⟩ | ⟨e, e', he, he', hwarnings, after, after', hblocks, hblocks', -, -, hmoved⟩
  · rw [hx] at herror
    cases herror
  · obtain rfl : x = e := Except.ok.inj (hx.symm.trans he)
    refine ⟨x, e', he, he', hwarnings, after, after', hblocks, hblocks', ?_, hmoved⟩
    rw [hblocks, List.map_append] at hnames
    exact List.append_cancel_left hnames

end Inlay
