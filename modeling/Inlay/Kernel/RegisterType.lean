import Inlay.Text.Blank

/-!
# `Inlay.Kernel.RegisterType` — declared types and the registers they take

A block parameter is declared with a type of the kernel language; the assembler sees the register type that it
stands for. Qualifiers and spacing do not matter, and every pointer is an unsigned number as wide as an address
of the device.
-/

namespace Inlay

/-- The type of a register. -/
inductive RegisterType where
  | i8 | u8 | i16 | u16 | i32 | u32 | i64 | u64 | f32 | f64 | bool
deriving DecidableEq, Repr

/-- The width of an address. -/
inductive PointerWidth where
  | bits32 | bits64
deriving DecidableEq, Repr

/-- Addresses are wide unless something else is said. -/
instance : Inhabited PointerWidth := ⟨.bits64⟩

namespace PointerWidth

/-- The number of bytes in an address. -/
def bytes : PointerWidth → Nat
  | bits32 => 4
  | bits64 => 8

/-- The width with a given number of bytes. -/
def ofBytes? : Nat → Option PointerWidth
  | 4 => some bits32
  | 8 => some bits64
  | _ => none

/-- The wording for a number of bytes that no address has. -/
def unsupported (n : Nat) : String :=
  s!"pointer width must be 4 or 8 bytes, got {n}"

/-- The unsigned number that holds an address. -/
def registerType : PointerWidth → RegisterType
  | bits32 => .u32
  | bits64 => .u64

theorem ofBytes?_bytes (w : PointerWidth) : ofBytes? w.bytes = some w := by
  cases w <;> rfl

end PointerWidth

namespace RegisterType

/-- How a register type is written. -/
def text : RegisterType → String
  | i8 => "i8"
  | u8 => "u8"
  | i16 => "i16"
  | u16 => "u16"
  | i32 => "i32"
  | u32 => "u32"
  | i64 => "i64"
  | u64 => "u64"
  | f32 => "f32"
  | f64 => "f64"
  | bool => "bool"

/-- The name of a register type. -/
def name : RegisterType → String
  | i8 => "I8"
  | u8 => "U8"
  | i16 => "I16"
  | u16 => "U16"
  | i32 => "I32"
  | u32 => "U32"
  | i64 => "I64"
  | u64 => "U64"
  | f32 => "F32"
  | f64 => "F64"
  | bool => "Bool"

/-- The number of bytes that a register type takes. -/
def size : RegisterType → Nat
  | i8 | u8 | bool => 1
  | i16 | u16 => 2
  | i32 | u32 | f32 => 4
  | i64 | u64 | f64 => 8

/-! ## Declared types -/

/-- Words that say where a value lives or how it may be used, but not what it is. -/
def qualifiers : List String :=
  ["__global", "global", "__local", "local", "__constant", "constant", "__private", "private",
    "const", "volatile", "restrict"]

/-- The type that a single word names. -/
def ofWord? : String → Option RegisterType
  | "char" | "int8_t" | "sbyte" => some i8
  | "uchar" | "uint8_t" | "byte" => some u8
  | "short" | "int16_t" => some i16
  | "ushort" | "uint16_t" => some u16
  | "int" | "int32_t" => some i32
  | "uint" | "uint32_t" => some u32
  | "long" | "int64_t" => some i64
  | "ulong" | "uint64_t" | "size_t" => some u64
  | "float" => some f32
  | "double" => some f64
  | "bool" => some bool
  | _ => none

/-- The type that words without qualifiers and stars stand for. A sign in front of a word reads as part of it. -/
def ofWords? : List String → Option RegisterType
  | ["unsigned"] => some u32
  | ["signed"] => some i32
  | ["unsigned", word] => ofWord? ("u" ++ word)
  | ["signed", word] => ofWord? word
  | [word] => ofWord? word
  | _ => none

/-- The words of a text other than qualifiers. -/
def plainWords (text : List Char) : List String :=
  ((words text).map String.ofList).filter fun w => !qualifiers.contains w

/-- The register type of a declared type, if it has one. A star makes it an address if there is a word besides
    the qualifiers. -/
def ofDeclared? (width : PointerWidth) (declared : String) : Option RegisterType :=
  let s := declared.toList
  if s.contains '*' then
    if (plainWords (s.map fun c => if c = '*' then ' ' else c)).isEmpty then none
    else some width.registerType
  else ofWords? (plainWords s)

/-- Whether a word can only be part of a type, and never the name of a parameter. -/
def isTypeWord (word : String) : Bool :=
  qualifiers.contains word || word == "unsigned" || word == "signed" ||
    (ofDeclared? default word).isSome

end RegisterType

end Inlay
