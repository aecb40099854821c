import Inlay.Patch.Anchor

/-!
# `Inlay.Patch.Report` — writing machine code over dummies

Blocks are patched in order. Each one takes the first anchor that is still there: an anchor that was written over
is gone, and one that a block found but could not use stays in the binary and is claimed, so that no later block
takes it. The report says for every block what became of it.
-/

namespace Inlay

/-- Machine code to be written. -/
structure Patch where
  /-- The function that it is the code of. -/
  function : String
  code : Bytes
deriving DecidableEq, Repr

/-- What became of a patch. -/
inductive PatchOutcome where
  /-- The code was written. -/
  | applied (function : String) (offset length : Nat)
  /-- No anchor was left. -/
  | anchorNotFound (function : String)
  /-- There is an anchor, but no code. -/
  | emptyCode (function : String) (offset : Nat)
  /-- The code is longer than what is left of the binary behind the anchor. -/
  | overflow (function : String) (offset length available : Nat)
deriving DecidableEq, Repr

namespace PatchOutcome

/-- Whether code was written. -/
def isApplied : PatchOutcome → Bool
  | applied .. => true
  | _ => false

/-- An offset in warnings. -/
def offsetText (offset : Nat) : String :=
  "0x" ++ String.ofList (hexDigits offset)

/-- The warning about a patch that was skipped. -/
def warning? : PatchOutcome → Option String
  | applied .. => none
  | anchorNotFound function => some (Error.anchorNotFound function).message
  | emptyCode function offset =>
    some s!"Machine code of {function} is empty; dummy at offset {offsetText offset} left unpatched"
  | overflow function offset length available =>
    some (s!"Machine code of {function} ({length} bytes) does not fit at offset {offsetText offset}, " ++
      s!"{available} bytes available; block skipped")

/-- The anchor that a patch found and did not write over. -/
def claimed? : PatchOutcome → Option Nat
  | emptyCode _ offset | overflow _ offset .. => some offset
  | _ => none

end PatchOutcome

/-- A patched binary, and what became of every patch. -/
structure PatchReport where
  binary : Bytes
  outcomes : List PatchOutcome
deriving DecidableEq, Repr

namespace PatchReport

/-- How many patches were written. -/
def applied (r : PatchReport) : Nat :=
  r.outcomes.countP PatchOutcome.isApplied

end PatchReport

/-- Bytes with `code` written over what stands at `offset`. -/
def overwrite (binary : Bytes) (offset : Nat) (code : Bytes) : Bytes :=
  binary.take offset ++ code ++ binary.drop (offset + code.length)

theorem length_overwrite {binary code : Bytes} {offset : Nat} (h : offset + code.length ≤ binary.length) :
    (overwrite binary offset code).length = binary.length := by
  simp only [overwrite, List.length_append, List.length_take, List.length_drop]
  omega

namespace Anchor

/-- The first offset of the anchor that is not claimed. -/
def unclaimed? (a : Anchor) (binary : Bytes) (claimed : List Nat) : Option Nat :=
  (a.occurrences binary).find? fun offset => !claimed.contains offset

/-- What becomes of the next patch of a binary. -/
def outcome (a : Anchor) (binary : Bytes) (claimed : List Nat) (p : Patch) : PatchOutcome :=
  match a.unclaimed? binary claimed with
  | none => .anchorNotFound p.function
  | some offset =>
    if p.code.isEmpty then .emptyCode p.function offset
    else if offset + p.code.length > binary.length then
      .overflow p.function offset p.code.length (binary.length - offset)
    else .applied p.function offset p.code.length

/-- The binary after a patch. -/
def written (binary : Bytes) (p : Patch) : PatchOutcome → Bytes
  | .applied _ offset _ => overwrite binary offset p.code
  | _ => binary

/-- Patches a binary in which the offsets `claimed` are taken. -/
def patchFrom (a : Anchor) (binary : Bytes) (claimed : List Nat) : List Patch → PatchReport
  | [] => ⟨binary, []⟩
  | p :: patches =>
    let o := a.outcome binary claimed p
    let report := a.patchFrom (written binary p o) (o.claimed?.toList ++ claimed) patches
    { report with outcomes := o :: report.outcomes }

/-- Patches a binary. The result has the same length. -/
def patch (a : Anchor) (binary : Bytes) (patches : List Patch) : PatchReport :=
  a.patchFrom binary [] patches

end Anchor

end Inlay
