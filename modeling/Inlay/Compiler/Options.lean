import Inlay.Json.Codec
import Inlay.Kernel.Extraction
import Inlay.Patch.Anchor
import Inlay.Template.Evaluation

/-!
# `Inlay.Compiler.Options` — what can be set

The options of a compiler, when they can be run with, and their JSON. Options that are not written take their
standard values, except the two parts of an anchor, which go together.
-/

namespace Inlay

/-- The options of a compiler. -/
structure Options where
  /-- The word that opens an embedded block. -/
  introducer : String
  /-- How wide addresses of the device are. -/
  pointerWidth : PointerWidth
  /-- The least number of vector values in a dummy. -/
  minVectors : Nat
  /-- The rounds that loops may begin while a source is expanded. -/
  iterationLimit : Nat
  /-- Whether a pool of workers may assemble the blocks. -/
  parallel : Bool
  /-- What marks the code of a dummy. -/
  anchor : Anchor
deriving DecidableEq, Repr

namespace Options

/-- The word that opens a block if nothing else is said. -/
def standardIntroducer : String := "__asm4GCN"

/-- Below this number of vector values a device compiler tends to shrink a dummy. -/
def standardMinVectors : Nat := 15

/-- The options if nothing else is said. -/
def standard : Options where
  introducer := standardIntroducer
  pointerWidth := default
  minVectors := standardMinVectors
  iterationLimit := defaultIterationLimit
  parallel := true
  anchor := .standard

/-- Refuses options that a compiler cannot run with. -/
def validate (o : Options) : Except Error Unit :=
  if !isIdentifier o.introducer.toList then
    .error (.invalidOptions s!"introducer '{o.introducer}' is not an identifier")
  else if o.iterationLimit = 0 then .error (.invalidOptions "template iteration limit must be positive")
  else o.anchor.validate

/-- What the options say about finding blocks. -/
def finder (o : Options) : BlockFinder :=
  ⟨o.introducer, o.pointerWidth⟩

/-! ## JSON -/

/-- Bytes as an array of numbers. -/
def bytesJson (bytes : Bytes) : Json :=
  .array (bytes.map fun b => .number b.toNat)

/-- The JSON of options. -/
def toJson (o : Options) : Json :=
  .object [
    ("introducer", .string o.introducer),
    ("pointer_width", .number o.pointerWidth.bytes),
    ("min_vector_registers", .number o.minVectors),
    ("template_iteration_limit", .number o.iterationLimit),
    ("parallel_assembly", .bool o.parallel),
    ("anchor", .object [("signature", bytesJson o.anchor.signature), ("mask", bytesJson o.anchor.mask)])]

/-- The JSON text of options, without blanks. -/
def toJsonText (o : Options) : String :=
  Json.Codec.standard.write o.toJson

/-- The greatest number that fits in 64 bits, and so the greatest that an option may be. -/
def greatestNumber : Nat := UInt64.size - 1

/-- A number of one byte. -/
def byteShape : Json.Shape UInt8 :=
  .converted (.natural 255) fun n => .ok n.toUInt8

/-- The width of an address, as a number of bytes. A number that is none is refused. -/
def pointerWidthShape : Json.Shape PointerWidth :=
  .converted (.natural 255) fun n =>
    match PointerWidth.ofBytes? n with
    | some w => .ok w
    | none => .error (PointerWidth.unsupported n)

/-- An anchor, with both of its parts. -/
def anchorShape : Json.Shape Anchor :=
  .record
    (.cons "signature" (.array byteShape) (fun v a => { a with signature := v }) <|
      .cons "mask" (.array byteShape) (fun v a => { a with mask := v }) .nil)
    ⟨[], []⟩ true

/-- A number that an option may be. -/
def numberShape : Json.Shape Nat :=
  .natural (UInt64.ofNat greatestNumber)

/-- The fields of options. -/
def fields : Json.Fields Options :=
  .cons "introducer" .string (fun v o => { o with introducer := v }) <|
    .cons "pointer_width" pointerWidthShape (fun v o => { o with pointerWidth := v }) <|
    .cons "min_vector_registers" numberShape (fun v o => { o with minVectors := v }) <|
    .cons "template_iteration_limit" numberShape (fun v o => { o with iterationLimit := v }) <|
    .cons "parallel_assembly" .boolean (fun v o => { o with parallel := v }) <|
    .cons "anchor" anchorShape (fun v o => { o with anchor := v }) .nil

/-- Options, of which those that are not written are standard. -/
def shape : Json.Shape Options :=
  .record fields standard false

/-- Why a text gives no options. -/
inductive Fault where
  /-- It cannot be read. -/
  | json (fault : Json.Fault)
  /-- A compiler cannot run with what it says. -/
  | invalid (cause : Error)
deriving DecidableEq, Repr

/-- The wording of a fault. A text of the wrong form has none of its own. -/
def Fault.message? : Fault → Option String
  | json .malformed => none
  | json (.refused reason) => some reason
  | invalid cause => some cause.message

/-- The options that a text says to a codec, if a compiler can run with them. -/
def fromJson (codec : Json.Codec) (text : String) : Except Fault Options := do
  let o ← (codec.read shape text).mapError .json
  o.validate.mapError .invalid
  .ok o

/-- The options that a JSON text says, if a compiler can run with them. -/
def ofJsonText (text : String) : Except Fault Options :=
  fromJson .standard text

end Options

end Inlay
