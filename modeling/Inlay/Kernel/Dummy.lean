import Inlay.Text.Hex

/-!
# `Inlay.Kernel.Dummy` — kernels that keep a place

The device compiler never sees assembly. In place of a block it compiles a dummy: a kernel with the same name and
as many parameters, which uses at least as many registers and has at least as much code as the block. Its first
two statements load a literal and its successor, so that its code can be found again in the binary. A dummy is
put on a single line, so it is written without comments and directives.
-/

namespace Inlay

/-- What a dummy consists of. -/
structure Dummy where
  /-- The name of the kernel. -/
  name : String
  /-- How many parameters it has. -/
  params : Nat
  /-- How many vector values it declares. -/
  vectors : Nat
  /-- How many scalar values it declares. -/
  scalars : Nat
  /-- How many multiplications its loop holds. -/
  products : Nat
  /-- The literal that its first statement loads. -/
  literal : UInt32
deriving DecidableEq, Repr

namespace Dummy

/-- How dummies are made. -/
structure Style where
  /-- Fewer vector values than this are never declared. -/
  minVectors : Nat
  /-- The literal that marks the start of the code. -/
  literal : UInt32
deriving DecidableEq, Repr

/-- The number of the work item that passes the early exit; no launch is that large. -/
def guardItem : UInt32 := 0x7FFFFFF3

/-- The dummy for a block that uses `vectors` and `scalars` registers and `words` words of code. Two vector
    values hold the literals, and a multiplication takes two words. -/
def sized (style : Style) (name : String) (params vectors scalars words : Nat) : Dummy where
  name := name
  params := params
  vectors := max (max vectors style.minVectors) 2
  scalars := max scalars 1
  products := max ((words + 1) / 2) 1
  literal := style.literal

/-! ## Text -/

/-- The name of vector value `k`. -/
def vector (k : Nat) : String := s!"v{k}"

/-- The name of scalar value `k`. -/
def scalar (k : Nat) : String := s!"s{k}"

/-- The name of parameter `k`. -/
def param (k : Nat) : String := s!"p{k}"

/-- The line that declares the kernel. -/
def signature (d : Dummy) : String :=
  let params := String.intercalate ", " ((List.range d.params).map fun k => "__global float* " ++ param k)
  s!"__kernel void {d.name}({params})"

/-- A statement that loads a literal into vector value `k`. -/
def loadLine (k : Nat) (literal : UInt32) : String :=
  s!"    float {vector k} = as_float(0x{hexWord literal}u);"

/-- The statement that declares scalar value `k`. -/
def scalarLine (k : Nat) : String :=
  s!"    uint {scalar k} = get_group_id(0) * {2 * k + 3}u + {k}u;"

/-- The statement that declares vector value `k` from the one before. -/
def vectorLine (k : Nat) : String :=
  s!"    float {vector k} = {vector (k - 1)} * (float)(gid + {k}u);"

/-- The multiplication with number `j`, which goes round the values. -/
def productLine (d : Dummy) (j : Nat) : String :=
  let a := vector (j % d.vectors)
  let b := vector ((j + 1) % d.vectors)
  let c := vector ((j + 2) % d.vectors)
  s!"        {a} = mad({b}, {c}, (float)({scalar (j % d.scalars)} ^ i));"

/-- The statement that uses every value. Without a parameter there is nowhere to write it. -/
def writeLines (d : Dummy) : List String :=
  if d.params = 0 then []
  else
    let vectors := String.intercalate " + " ((List.range d.vectors).map vector)
    let scalars := String.intercalate " ^ " ((List.range d.scalars).map scalar)
    [s!"    {param 0}[0] = {vectors} + (float)({scalars});"]

/-- The lines of a dummy. -/
def lines (d : Dummy) : List String :=
  [d.signature, "\x7b", loadLine 0 d.literal, loadLine 1 (d.literal + 1), "    uint gid = get_global_id(0);",
    s!"    if (gid != 0x{hexWord guardItem}u) return;"] ++
  (List.range d.scalars).map scalarLine ++
  (List.range' 2 (d.vectors - 2)).map vectorLine ++
  ["    for (uint i = 0; i < s0 % 7u; i++) \x7b"] ++
  (List.range d.products).map d.productLine ++
  ["    \x7d"] ++ d.writeLines ++ ["\x7d"]

/-- The text of a dummy. -/
def text (d : Dummy) : String :=
  String.intercalate "\n" d.lines

end Dummy

end Inlay
