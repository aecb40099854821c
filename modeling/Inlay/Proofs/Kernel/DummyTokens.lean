import Inlay.Proofs.Kernel.DummyText
import Inlay.Proofs.Kernel.KernelTokens

/-!
# `Proofs.Kernel.DummyTokens` — the tokens of a dummy

A dummy is read line by line: each of its lines has the tokens that are listed here, whatever its numbers are, and the
newline behind it keeps them apart from those of the next (`Dummy.kernelTokens_text`).
-/

namespace Inlay

open KernelToken

namespace Dummy

variable {d : Dummy} {e : List Char} {b : List KernelToken}

/-! ## The tokens of the lines -/

/-- The line that declares the kernel. -/
def signatureTokens (d : Dummy) : List KernelToken :=
  [.name "__kernel", .name "void", .name d.name, .mark "("] ++
    ([.mark ","].intercalate ((List.range d.params).map fun k =>
      [.name "__global", .name "float", .mark "*", .name (param k)]) ++ [.mark ")"])

/-- A statement that loads a literal into vector value `k`. -/
def loadTokens (k : Nat) (literal : UInt32) : List KernelToken :=
  [.name "float", .name (vector k), .mark "=", .name "as_float", .mark "(", .number s!"0x{hexWord literal}u",
    .mark ")", .mark ";"]

/-- The early exit. -/
def exitTokens : List KernelToken :=
  [.name "uint", .name "gid", .mark "=", .name "get_global_id", .mark "(", .number "0", .mark ")", .mark ";",
    .name "if", .mark "(", .name "gid", .mark "!=", .number s!"0x{hexWord guardItem}u", .mark ")", .name "return",
    .mark ";"]

/-- The statement that declares scalar value `k`. -/
def scalarTokens (k : Nat) : List KernelToken :=
  [.name "uint", .name (scalar k), .mark "=", .name "get_group_id", .mark "(", .number "0", .mark ")", .mark "*",
    .number s!"{2 * k + 3}u", .mark "+", .number s!"{k}u", .mark ";"]

/-- The statement that declares vector value `k` from the one before. -/
def vectorTokens (k : Nat) : List KernelToken :=
  [.name "float", .name (vector k), .mark "=", .name (vector (k - 1)), .mark "*", .mark "(", .name "float", .mark ")",
    .mark "(", .name "gid", .mark "+", .number s!"{k}u", .mark ")", .mark ";"]

/-- The head of the loop, whose length is not known when it is compiled. -/
def loopTokens : List KernelToken :=
  [.name "for", .mark "(", .name "uint", .name "i", .mark "=", .number "0", .mark ";", .name "i", .mark "<",
    .name "s0", .mark "%", .number "7u", .mark ";", .name "i", .mark "++", .mark ")", .mark "\x7b"]

/-- A multiplication. -/
def madTokens (target first second whole : String) : List KernelToken :=
  [.name target, .mark "=", .name "mad", .mark "(", .name first, .mark ",", .name second, .mark ",", .mark "(",
    .name "float", .mark ")", .mark "(", .name whole, .mark "^", .name "i", .mark ")", .mark ")", .mark ";"]

/-- The multiplication with number `j`. -/
def productTokens (d : Dummy) (j : Nat) : List KernelToken :=
  madTokens (vector (j % d.vectors)) (vector ((j + 1) % d.vectors)) (vector ((j + 2) % d.vectors))
    (scalar (j % d.scalars))

/-- The value that uses every value. -/
def sumTokens (d : Dummy) : List KernelToken :=
  [.mark "+"].intercalate ((List.range d.vectors).map fun k => [.name (vector k)]) ++
    ([.mark "+", .mark "(", .name "float", .mark ")", .mark "("] ++
      ([.mark "^"].intercalate ((List.range d.scalars).map fun k => [.name (scalar k)]) ++ [.mark ")"]))

/-- The statement that writes it, if there is somewhere to write it. -/
def writeTokens (d : Dummy) : List KernelToken :=
  if d.params = 0 then []
  else [.name (param 0), .mark "[", .number "0", .mark "]", .mark "="] ++ (d.sumTokens ++ [.mark ";"])

/-- The statements in front of the loop. -/
def setupTokens (d : Dummy) : List KernelToken :=
  loadTokens 0 d.literal ++ loadTokens 1 (d.literal + 1) ++ exitTokens ++
    (List.range d.scalars).flatMap scalarTokens ++ (List.range' 2 (d.vectors - 2)).flatMap vectorTokens

/-- The loop and what it holds. -/
def wholeLoopTokens (d : Dummy) : List KernelToken :=
  loopTokens ++ (List.range d.products).flatMap d.productTokens ++ [.mark "\x7d"]

/-- The statements between the braces. -/
def bodyTokens (d : Dummy) : List KernelToken :=
  d.setupTokens ++ d.wholeLoopTokens ++ d.writeTokens

/-- All of them. -/
def tokens (d : Dummy) : List KernelToken :=
  d.signatureTokens ++ .mark "\x7b" :: (d.bodyTokens ++ [.mark "\x7d"])

/-! ## Numbered names and numbers -/

theorem toList_vector (k : Nat) : (vector k).toList = 'v' :: (toString k).toList := by
  unfold vector
  rw [String.toList_append]
  rfl

theorem toList_scalar (k : Nat) : (scalar k).toList = 's' :: (toString k).toList := by
  unfold scalar
  rw [String.toList_append]
  rfl

theorem toList_param (k : Nat) : (param k).toList = 'p' :: (toString k).toList := by
  unfold param
  rw [String.toList_append]
  rfl

/-- A letter with a number behind it is one name. -/
theorem reads_numbered {x : String} {letter : Char} {n : Nat} (hx : x.toList = letter :: (toString n).toList)
    (hletter : (letter.isAlpha || letter == '_') = true) (he : Reads e b) (hbreak : e.head?.any isBreak = true) :
    Reads (x.toList ++ e) (.name x :: b) := by
  refine .name ?_ he hbreak
  rw [hx]
  show ((letter.isAlpha || letter == '_') && (toString n).toList.all isAsciiWord) = true
  rw [hletter, Bool.true_and, List.all_eq_true]
  intro c hc
  exact isAsciiWord_of_isDigit (isDigit_of_mem_toString hc)

theorem reads_vector (k : Nat) (he : Reads e b) (hbreak : e.head?.any isBreak = true) :
    Reads ((vector k).toList ++ e) (.name (vector k) :: b) :=
  reads_numbered (toList_vector k) rfl he hbreak

theorem reads_scalar (k : Nat) (he : Reads e b) (hbreak : e.head?.any isBreak = true) :
    Reads ((scalar k).toList ++ e) (.name (scalar k) :: b) :=
  reads_numbered (toList_scalar k) rfl he hbreak

theorem reads_param (k : Nat) (he : Reads e b) (hbreak : e.head?.any isBreak = true) :
    Reads ((param k).toList ++ e) (.name (param k) :: b) :=
  reads_numbered (toList_param k) rfl he hbreak

/-- A count, marked as one without a sign. -/
theorem reads_count (n : Nat) (he : Reads e b) (hbreak : e.head?.any isBreak = true) :
    Reads ((s!"{n}u").toList ++ e) (.number s!"{n}u" :: b) := by
  have hchars : (s!"{n}u").toList = (toString n).toList ++ ['u'] := by
    rw [String.toList_append]
    rfl
  refine .number ?_ ?_ he hbreak
  · rw [hchars]
    cases hdigits : (toString n).toList with
    | nil => exact absurd hdigits (toList_toString_ne_nil n)
    | cons c digits => exact isDigit_of_mem_toString (hdigits ▸ List.mem_cons_self)
  · rw [hchars]
    intro c hc
    rcases List.mem_append.mp hc with hc | hc
    · exact isAsciiWord_of_isDigit (isDigit_of_mem_toString hc)
    · rw [List.mem_singleton.mp hc]
      rfl

/-- A literal in base sixteen. -/
theorem reads_hexWord (w : UInt32) (he : Reads e b) (hbreak : e.head?.any isBreak = true) :
    Reads ((s!"0x{hexWord w}u").toList ++ e) (.number s!"0x{hexWord w}u" :: b) := by
  have hchars : (s!"0x{hexWord w}u").toList = '0' :: 'x' :: ((hexWord w).toList ++ ['u']) := by
    rw [String.toList_append, String.toList_append]
    rfl
  refine .number ?_ ?_ he hbreak
  · rw [hchars]
    rfl
  · rw [hchars]
    have hword : ∀ d < 16, isAsciiWord (Nat.digitChar d).toUpper = true := by decide
    intro c hc
    simp only [List.mem_cons, List.mem_append, List.not_mem_nil, or_false] at hc
    rcases hc with rfl | rfl | hc | rfl
    · rfl
    · rfl
    · exact forall_mem_hexWord (P := fun c => isAsciiWord c = true) hword w c hc
    · rfl

/-! ## The lines -/

/-- A line, with the newline that ends it. -/
def ended (line : String) : List Char :=
  line.toList ++ ['\n']

/-- Names with an operator between them. -/
theorem toList_intercalate_names (op : String) (f : Nat → String) (ks : List Nat) :
    (String.intercalate op (ks.map f)).toList = op.toList.intercalate (ks.map fun k => (f k).toList) := by
  rw [String.toList_intercalate, List.map_map]
  rfl

theorem reads_signature (d : Dummy) (hname : isIdentifier d.name.toList = true) :
    Reads (ended d.signature) d.signatureTokens := by
  have hline : ended d.signature = "__kernel void ".toList ++ (d.name.toList ++ (['('] ++
      ([',', ' '].intercalate ((List.range d.params).map fun k => "__global float* ".toList ++ (param k).toList) ++
        ")\n".toList))) := by
    show ("__kernel void " ++ d.name ++ "(" ++
      String.intercalate ", " ((List.range d.params).map fun k => "__global float* " ++ param k) ++ ")").toList ++
        ['\n'] = _
    simp only [String.toList_append, toList_intercalate_names, List.append_assoc]
    rfl
  rw [hline]
  refine .append (a := [.name "__kernel", .name "void"]) (.of_break rfl rfl) (.name hname ?_ rfl)
  refine .append (a := [.mark "("]) (.of_break rfl rfl) ?_
  refine .intercalate (.of_break rfl rfl) rfl (.of_break rfl rfl) rfl (fun k e b he hbreak => ?_) _
  rw [List.append_assoc]
  exact .append (a := [.name "__global", .name "float", .mark "*"]) (.of_break rfl rfl)
    (reads_param k he hbreak)

theorem reads_loadLine (k : Nat) (w : UInt32) :
    Reads (ended (loadLine k w)) (loadTokens k w) := by
  have hline : ended (loadLine k w) = "    float ".toList ++ ((vector k).toList ++
      (" = as_float(".toList ++ ((s!"0x{hexWord w}u").toList ++ ");\n".toList))) := by
    simp only [ended, loadLine, String.toList_append, List.append_assoc]
    rfl
  rw [hline]
  refine .append (a := [.name "float"]) (.of_break rfl rfl) (reads_vector k ?_ rfl)
  refine .append (a := [.mark "=", .name "as_float", .mark "("]) (.of_break rfl rfl) (reads_hexWord w ?_ rfl)
  exact .of_break rfl rfl

theorem reads_exitLines : Reads (ended "    uint gid = get_global_id(0);" ++
    ended s!"    if (gid != 0x{hexWord guardItem}u) return;") exitTokens := by
  have hline : ended s!"    if (gid != 0x{hexWord guardItem}u) return;" =
      "    if (gid != ".toList ++ ((s!"0x{hexWord guardItem}u").toList ++ ") return;\n".toList) := by
    simp only [ended, String.toList_append, List.append_assoc]
    rfl
  rw [hline]
  refine .append (a := [.name "uint", .name "gid", .mark "=", .name "get_global_id", .mark "(", .number "0", .mark ")",
    .mark ";"]) (.of_break rfl rfl) ?_
  refine .append (a := [.name "if", .mark "(", .name "gid", .mark "!="]) (.of_break rfl rfl)
    (reads_hexWord guardItem ?_ rfl)
  exact .of_break rfl rfl

theorem reads_scalarLine (k : Nat) : Reads (ended (scalarLine k)) (scalarTokens k) := by
  have hline : ended (scalarLine k) = "    uint ".toList ++ ((scalar k).toList ++
      (" = get_group_id(0) * ".toList ++ ((s!"{2 * k + 3}u").toList ++
        (" + ".toList ++ ((s!"{k}u").toList ++ ";\n".toList))))) := by
    simp only [ended, scalarLine, String.toList_append, List.append_assoc]
    rfl
  rw [hline]
  refine .append (a := [.name "uint"]) (.of_break rfl rfl) (reads_scalar k ?_ rfl)
  refine .append (a := [.mark "=", .name "get_group_id", .mark "(", .number "0", .mark ")", .mark "*"])
    (.of_break rfl rfl) (reads_count (2 * k + 3) ?_ rfl)
  refine .append (a := [.mark "+"]) (.of_break rfl rfl) (reads_count k ?_ rfl)
  exact .of_break rfl rfl

theorem reads_vectorLine (k : Nat) : Reads (ended (vectorLine k)) (vectorTokens k) := by
  have hline : ended (vectorLine k) = "    float ".toList ++ ((vector k).toList ++
      (" = ".toList ++ ((vector (k - 1)).toList ++
        (" * (float)(gid + ".toList ++ ((s!"{k}u").toList ++ ");\n".toList))))) := by
    simp only [ended, vectorLine, String.toList_append, List.append_assoc]
    rfl
  rw [hline]
  refine .append (a := [.name "float"]) (.of_break rfl rfl) (reads_vector k ?_ rfl)
  refine .append (a := [.mark "="]) (.of_break rfl rfl) (reads_vector (k - 1) ?_ rfl)
  refine .append (a := [.mark "*", .mark "(", .name "float", .mark ")", .mark "(", .name "gid", .mark "+"])
    (.of_break rfl rfl) (reads_count k ?_ rfl)
  exact .of_break rfl rfl

theorem reads_productLine (d : Dummy) (j : Nat) :
    Reads (ended (d.productLine j)) (d.productTokens j) := by
  have hline : ended (d.productLine j) = "        ".toList ++ ((vector (j % d.vectors)).toList ++
      (" = mad(".toList ++ ((vector ((j + 1) % d.vectors)).toList ++ (", ".toList ++
        ((vector ((j + 2) % d.vectors)).toList ++ (", (float)(".toList ++ ((scalar (j % d.scalars)).toList ++
          " ^ i));\n".toList))))))) := by
    simp only [ended, productLine, String.toList_append, List.append_assoc]
    rfl
  rw [hline]
  refine .append (a := []) (.of_break rfl rfl) (reads_vector _ ?_ rfl)
  refine .append (a := [.mark "=", .name "mad", .mark "("]) (.of_break rfl rfl) (reads_vector _ ?_ rfl)
  refine .append (a := [.mark ","]) (.of_break rfl rfl) (reads_vector _ ?_ rfl)
  refine .append (a := [.mark ",", .mark "(", .name "float", .mark ")", .mark "("]) (.of_break rfl rfl)
    (reads_scalar _ ?_ rfl)
  exact .of_break rfl rfl

theorem reads_writeLines (d : Dummy) : Reads (d.writeLines.flatMap ended) d.writeTokens := by
  have hline : ∀ vectors scalars : String, ended s!"    {param 0}[0] = {vectors} + (float)({scalars});" =
      "    ".toList ++ ((param 0).toList ++ ("[0] = ".toList ++ (vectors.toList ++ (" + (float)(".toList ++
        (scalars.toList ++ ");\n".toList))))) := by
    intro vectors scalars
    simp only [ended, String.toList_append, List.append_assoc]
    rfl
  unfold writeLines writeTokens
  by_cases hparams : d.params = 0
  · rw [if_pos hparams, if_pos hparams]
    exact .nil
  · rw [if_neg hparams, if_neg hparams, List.flatMap_singleton, hline, toList_intercalate_names,
      toList_intercalate_names]
    refine .append (a := []) (.of_break rfl rfl) (reads_param 0 ?_ rfl)
    refine .append (a := [.mark "[", .number "0", .mark "]", .mark "="]) (.of_break rfl rfl) ?_
    rw [sumTokens, List.append_assoc, List.append_assoc, List.append_assoc]
    refine .intercalate (.of_break rfl rfl) rfl ?_ rfl (fun k _ _ => reads_vector k) _
    refine .append (.of_break rfl rfl) ?_
    exact .intercalate (.of_break rfl rfl) rfl (.of_break rfl rfl) rfl (fun k _ _ => reads_scalar k) _

/-! ## The text -/

/-- Lines with newlines between them. -/
theorem toList_intercalate_concat (lines : List String) (last : String) :
    (String.intercalate "\n" (lines ++ [last])).toList =
      lines.flatMap ended ++ last.toList := by
  induction lines with
  | nil => rfl
  | cons line lines ih =>
    have hne : lines ++ [last] ≠ [] := by simp
    rw [List.cons_append, String.intercalate_cons_of_ne_nil hne, String.toList_append, String.toList_append, ih,
      List.flatMap_cons]
    simp only [ended, List.append_assoc]
    rfl

/-- **The tokens of a dummy.** -/
theorem kernelTokens_text (d : Dummy) (hname : isIdentifier d.name.toList = true) :
    kernelTokens d.text.toList = d.tokens := by
  have hopen : Reads (ended "\x7b") [.mark "\x7b"] := .of_break rfl rfl
  have hloop : Reads (ended "    for (uint i = 0; i < s0 % 7u; i++) \x7b") loopTokens := .of_break rfl rfl
  have hclose : Reads (ended "    \x7d") [.mark "\x7d"] := .of_break rfl rfl
  have hend : Reads "\x7d".toList [.mark "\x7d"] := .of_break rfl rfl
  have hscalars : Reads ((List.range d.scalars).flatMap fun k => ended (scalarLine k)) _ :=
    .flatMap fun k _ => reads_scalarLine k
  have hvectors : Reads ((List.range' 2 (d.vectors - 2)).flatMap fun k => ended (vectorLine k)) _ :=
    .flatMap fun k _ => reads_vectorLine k
  have hproducts : Reads ((List.range d.products).flatMap fun j => ended (d.productLine j)) _ :=
    .flatMap fun j _ => d.reads_productLine j
  have hbody := (reads_loadLine 0 d.literal).append ((reads_loadLine 1 (d.literal + 1)).append
    (reads_exitLines.append (hscalars.append (hvectors.append (hloop.append (hproducts.append
      (hclose.append d.reads_writeLines)))))))
  have htext := (d.reads_signature hname).append (hopen.append (hbody.append hend))
  rw [text, lines, toList_intercalate_concat]
  simp only [List.flatMap_append, List.flatMap_cons, List.flatMap_nil, List.flatMap_map, List.append_nil,
    List.append_assoc] at htext ⊢
  rw [htext.kernelTokens_eq]
  simp only [tokens, bodyTokens, setupTokens, wholeLoopTokens, List.append_assoc, List.cons_append, List.nil_append]

end Dummy

end Inlay
