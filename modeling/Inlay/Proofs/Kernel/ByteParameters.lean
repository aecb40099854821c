import Inlay.Proofs.Kernel.ParameterFaults
import Inlay.Proofs.Text.ByteAccess

/-!
# `Proofs.Kernel.ByteParameters` — parameters by offsets

A parameter list is read in its source by offsets, piece by piece, and each piece is split one byte behind the last
separator. All of this stays within the text but for that byte: where the separator takes more of them, it lies inside
of a character (`splitParam_eq`). So reading by offsets gives what reading by characters gives (`Cursor.parseParams`),
with an access outside of the text in place of the failure to divide a parameter (`checked`).
-/

namespace Inlay

variable {α β : Type} {width : PointerWidth} {function : String} {p : Position} {c : Char} {i index : Nat}
  {s u v w piece list : List Char}

/-! ## Results in terms of accesses -/

/-- What is reported of an error by a scan by offsets: that a parameter is not divided shows as an access. -/
def Error.stop : Error → Stop
  | .indivisibleParameter => .outside
  | e => .fault e

/-- A result as a scan by offsets comes to it. -/
def checked (x : Except Error α) : Access α :=
  x.mapError Error.stop

theorem checked_bind (x : Except Error α) (f : α → Except Error β) :
    checked (x >>= f) = checked x >>= fun a => checked (f a) := by
  cases x <;> rfl

/-! ## One parameter -/

/-- The type and the name of a parameter, which is cut one byte behind its last separator. -/
def splitParam (piece : List Char) : Access (String × Option String) :=
  match lastOffset? Param.isSeparator piece with
  | none => .ok (Param.joinWords piece, none)
  | some k => do
    let front ← textTo piece (k + 1)
    let candidate ← textFrom piece (k + 1)
    if !(trim front).isEmpty && isIdentifier candidate && !RegisterType.isTypeWord (String.ofList candidate) then
      .ok (Param.joinWords (trim front), some (String.ofList candidate))
    else .ok (Param.joinWords piece, none)

/-- There is no cut behind the first byte of a character with more of them. -/
theorem cutAt?_inside (hc : c.utf8Size ≠ 1) (w v : List Char) : cutAt? (byteLength w + 1) (w ++ c :: v) = none := by
  cases hcut : cutAt? (byteLength w + 1) (w ++ c :: v) with
  | none => rfl
  | some cut =>
      obtain ⟨x, y⟩ := cut
      obtain ⟨heq, hbytes⟩ := cutAt?_eq_some.mp hcut
      rcases List.append_eq_append_iff.mp heq with ⟨z, rfl, hz⟩ | ⟨z, rfl, -⟩
      · rw [byteLength_append, Nat.add_left_cancel_iff] at hbytes
        cases z with
        | nil => cases hbytes
        | cons d z =>
            obtain ⟨rfl, -⟩ := List.cons.inj hz
            have hpos := c.utf8Size_pos
            rw [byteLength_cons] at hbytes
            omega
      · rw [byteLength_append] at hbytes
        omega

/-- **Splitting a parameter by offsets** is splitting it, and leaves the text where it is not divided. -/
theorem splitParam_eq (piece : List Char) : splitParam piece = checked (Param.split piece) := by
  obtain ⟨front, word, rfl, hlast, hword⟩ := Param.exists_lastWord piece
  cases hend : front.getLast? with
  | none =>
      obtain rfl := List.getLast?_eq_none_iff.mp hend
      rw [List.nil_append, splitParam, lastOffset?_eq_none hword, Param.split, Param.cutLast?_eq_none hword]
      rfl
  | some c =>
      have hc : Param.isSeparator c = true := hlast c hend
      have hcut := Param.cutLast?_append ⟨c, hend, hc⟩ hword
      obtain ⟨w, rfl⟩ := List.getLast?_eq_some_iff.mp hend
      rw [List.append_assoc, List.singleton_append] at hcut ⊢
      rw [splitParam, lastOffset?_append hc hword, Param.split, hcut]
      by_cases hone : c.utf8Size = 1
      · have hcursor : Cursor (w ++ c :: word) (w ++ [c]) word (byteLength w + 1) := by
          refine ⟨by rw [List.append_assoc, List.singleton_append], ?_⟩
          rw [byteLength_append, byteLength_cons, byteLength_nil, hone]
        have hjoin : Param.joinWords (trim (w ++ [c])) = Param.joinWords (w ++ [c]) := joinWords_eq (words_trim _)
        have hany : ((w ++ [c]).getLast?.any fun c => decide (c.utf8Size ≠ 1)) = false := by
          rw [hend, Option.any_some, decide_eq_false (not_not_intro hone)]
        simp only [hcursor.textTo, hcursor.textFrom, hany, Bool.false_eq_true, if_false]
        show (if _ then .ok (Param.joinWords (trim (w ++ [c])), some (String.ofList word)) else
          .ok (Param.joinWords (w ++ c :: word), none) : Access (String × Option String)) = _
        rw [hjoin]
        split <;> rfl
      · have hany : ((w ++ [c]).getLast?.any fun c => decide (c.utf8Size ≠ 1)) = true := by
          rw [hend, Option.any_some, decide_eq_true hone]
        simp only [textTo, cutAt?_inside hone, hany, if_true]
        rfl

/-- Reads parameter `index` of `function` from a piece of the text `s` that starts at an offset. -/
def paramAt (width : PointerWidth) (function : String) (s : List Char) (index offset : Nat) (piece : List Char) :
    Access Param := do
  let line := lineAt s (offset + (byteLength piece - byteLength (trimStart piece)))
  if (trim piece).isEmpty then
    .error (.fault (.malformedBlock line s!"empty parameter {index} in function {function}"))
  else
    let (declaredType, given) ← splitParam (trim piece)
    match RegisterType.ofDeclared? width declaredType with
    | some registerType => .ok ⟨index, declaredType, registerType, given⟩
    | none => .error (.fault (.unknownParameterType function declaredType line))

/-- **Reading a parameter by offsets** is reading it. -/
theorem Cursor.paramAt (h : Cursor s u (piece ++ v) i) (hline : p.line = newlines u + 1) :
    Inlay.paramAt width function s index i piece = checked (Param.read width function p index piece) := by
  have hsplit : piece.takeWhile isBlank ++ trimStart piece = piece := List.takeWhile_append_dropWhile
  have hblanks : byteLength piece - byteLength (trimStart piece) = byteLength (piece.takeWhile isBlank) := by
    have hlength := congrArg byteLength hsplit
    rw [byteLength_append] at hlength
    omega
  have hplace : Inlay.lineAt s (i + (byteLength piece - byteLength (trimStart piece))) =
      (p.advance (piece.takeWhile isBlank)).line := by
    rw [← hsplit, List.append_assoc] at h
    rw [hblanks, h.move.lineAt, line_advance hline]
  rw [Inlay.paramAt, Param.read, hplace]
  dsimp only
  split
  · rfl
  · rw [splitParam_eq, checked_bind]
    refine bind_congr fun (declaredType, given) => ?_
    cases RegisterType.ofDeclared? width declaredType <;> rfl

/-! ## All parameters -/

/-- Reads the parameters from number `index` on, from pieces of which the first starts at an offset. -/
def paramsAt (width : PointerWidth) (function : String) (s : List Char) (index offset : Nat) :
    List (List Char) → Access (List Param)
  | [] => .ok []
  | piece :: others => do
    let param ← paramAt width function s index offset piece
    let params ← paramsAt width function s (index + 1) (offset + byteLength piece + 1) others
    .ok (param :: params)

/-- Reads the parameter list that stands from one offset up to another. -/
def parseParams (width : PointerWidth) (function : String) (s : List Char) (lo hi : Nat) : Access (List Param) := do
  let list ← textIn s lo hi
  let bare := String.ofList (trim list)
  if bare == "" || bare == "void" then .ok []
  else paramsAt width function s 0 lo (pieces (· == ',') list)

theorem Cursor.paramsAt (h : Cursor s u (list ++ v) i) (hline : p.line = newlines u + 1) :
    Inlay.paramsAt width function s index i (pieces (· == ',') list) =
      checked (Param.readAll width function p index (pieces (· == ',') list)) := by
  induction list using runs_induction (· == ',') generalizing u i p index with
  | run w hw =>
      rw [pieces_run hw, Inlay.paramsAt, h.paramAt hline, Param.readAll, checked_bind]
      rfl
  | cut w c rest hw hc ih =>
      obtain rfl : c = ',' := beq_iff_eq.mp hc
      rw [List.append_assoc] at h
      have hlineBehind : (p.advance (w ++ [','])).line = newlines (u ++ w ++ [',']) + 1 := by
        rw [line_advance hline, List.append_assoc]
      have hbehind : Inlay.paramsAt width function s (index + 1) _ (pieces (· == ',') rest) = _ :=
        ih (h.move.moveChar (by decide)) hlineBehind
      rw [pieces_run_append hw hc, Inlay.paramsAt, h.paramAt hline, Param.readAll, checked_bind]
      refine bind_congr fun param => ?_
      rw [checked_bind, hbehind]
      rfl

/-- **Reading a parameter list by offsets** is reading it. -/
theorem Cursor.parseParams (h : Cursor s u (list ++ v) i) (hline : p.line = newlines u + 1) (width : PointerWidth)
    (function : String) : Inlay.parseParams width function s i (i + byteLength list) =
      checked (Param.readList width function p list) := by
  rw [Inlay.parseParams, h.textIn, Param.readList]
  show (if _ then .ok [] else Inlay.paramsAt width function s 0 i (pieces (· == ',') list) : Access (List Param)) = _
  rw [h.paramsAt hline]
  split <;> rfl

/-! ## Parameters that are not divided -/

/-- An access outside of the text stands for a parameter that is not divided, and for nothing else. -/
theorem checked_eq_outside {x : Except Error α} : checked x = .error .outside ↔ x = .error .indivisibleParameter := by
  cases x with
  | ok a => constructor <;> intro h <;> cases h
  | error e =>
      constructor
      · intro h
        cases e with
        | indivisibleParameter => rfl
        | _ => cases h
      · intro h
        cases h
        rfl

/-- **Parameters cannot be read for want of a division** exactly if one of them is not divided and those in front of it
    can be read. -/
theorem Param.readAll_eq_indivisible {before : List Char} {pieces : List (List Char)}
    (hline : p.line = newlines before + 1) :
    readAll width function p index pieces = .error .indivisibleParameter ↔ ∃ sound piece others params,
      pieces = sound ++ piece :: others ∧ readAll width function p index sound = .ok params ∧
      Indivisible (trim piece) := by
  induction pieces generalizing p index before with
  | nil =>
      constructor
      · intro h
        cases h
      · rintro ⟨sound, piece, others, params, h, -⟩
        cases sound <;> cases h
  | cons piece pieces ih =>
      have hothers := line_advance hline (piece ++ [','])
      rw [readAll, bind_eq_error, read_eq_error hline]
      constructor
      · rintro (hfault | ⟨param, hread, h⟩)
        · cases hfault with
          | indivisible indivisible => exact ⟨[], piece, pieces, [], rfl, rfl, indivisible⟩
        · rcases bind_eq_error.mp h with h | ⟨params, -, h⟩
          · obtain ⟨sound, piece', others, params, rfl, hsound, hpiece⟩ := (ih hothers).mp h
            refine ⟨piece :: sound, piece', others, param :: params, rfl, ?_, hpiece⟩
            rw [readAll, hread]
            show (do let params ← readAll width function _ (index + 1) sound; .ok (param :: params)) = _
            rw [hsound]
            rfl
          · cases h
      · rintro ⟨sound, piece', others, params, heq, hsound, hpiece⟩
        cases sound with
        | nil =>
            cases heq
            exact Or.inl (.indivisible hpiece)
        | cons first sound =>
            cases heq
            obtain ⟨param, hread, h⟩ := bind_eq_ok.mp hsound
            obtain ⟨params', hparams, -⟩ := bind_eq_ok.mp h
            refine Or.inr ⟨param, hread, bind_eq_error.mpr (Or.inl ?_)⟩
            exact (ih hothers).mpr ⟨sound, piece', others, params', rfl, hparams, hpiece⟩

end Inlay
