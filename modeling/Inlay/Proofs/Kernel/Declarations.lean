import Inlay.Proofs.Kernel.KernelTokens

/-!
# `Proofs.Kernel.Declarations` — what a kernel declares, mentions and encloses

What a device compiler asks of a kernel is said here of its tokens: which variables they declare (`declarations`), that
the first mention of a variable declares it (`DeclaredFirst`), which numbered names they mention (`numberedNames`), and
that brackets are closed in the reverse order in which they were opened (`Balanced`). All of it is found piece by piece:
what two pieces declare is what they declare together if the first does not end with a name (`declarations_append`),
and what they mention and enclose needs no condition.
-/

namespace Inlay

open KernelToken

variable {a b tokens : List KernelToken} {w : String}

/-- Pieces with another between them: the first, and then each behind that one. -/
theorem intercalate_cons_map (a : List KernelToken) (f : Nat → List KernelToken) (k : Nat) (ks : List Nat) :
    a.intercalate ((k :: ks).map f) = f k ++ ks.flatMap fun l => a ++ f l := by
  induction ks generalizing k with
  | nil => rw [List.map_singleton, List.intercalate_singleton, List.flatMap_nil, List.append_nil]
  | cons l ks ih =>
    have hrest := ih l
    rw [List.map_cons] at hrest
    rw [List.map_cons, List.map_cons, List.intercalate_cons_cons, hrest, List.flatMap_cons, List.append_assoc,
      List.append_assoc]

/-! ## Declarations -/

/-- The words for types that hold one value. -/
def typeWords : List String :=
  ["bool", "char", "uchar", "short", "ushort", "int", "uint", "long", "ulong", "size_t", "half", "float", "double"]

/-- The type and the name that a token and the next one declare. -/
def declares? : KernelToken → Option KernelToken → Option (String × String)
  | .name type, some (.name w) => if type ∈ typeWords then some (type, w) else none
  | _, _ => none

/-- **The variables that are declared**, each with its type: a word for a type right in front of a name. -/
def declarations : List KernelToken → List (String × String)
  | [] => []
  | t :: rest => (declares? t rest.head?).toList ++ declarations rest

/-- Between two pieces nothing is declared if the first does not end with a type. -/
theorem declarations_append_of (h : ∀ t ∈ a.getLast?, declares? t b.head? = none) :
    declarations (a ++ b) = declarations a ++ declarations b := by
  induction a with
  | nil => rfl
  | cons t rest ih =>
    rw [List.cons_append, declarations, declarations, List.append_assoc]
    -- only the last token of the first piece sees the second
    cases rest with
    | nil =>
      have hlast : declares? t none = none := by cases t <;> rfl
      rw [List.nil_append, h t rfl, List.head?_nil, hlast]
      rfl
    | cons u rest =>
      rw [ih (by rwa [List.getLast?_cons_cons] at h)]
      rfl

/-- Whether a piece ends with something else than a name. -/
def endsApart (tokens : List KernelToken) : Bool :=
  match tokens.getLast? with
  | some (.name _) => false
  | _ => true

theorem endsApart_append (ha : endsApart a = true) (hb : endsApart b = true) : endsApart (a ++ b) = true := by
  unfold endsApart
  rw [List.getLast?_append]
  cases hlast : b.getLast? with
  | none => exact ha
  | some t =>
    rw [endsApart, hlast] at hb
    exact hb

theorem endsApart_flatMap {f : Nat → List KernelToken} (hf : ∀ k, endsApart (f k) = true) (ks : List Nat) :
    endsApart (ks.flatMap f) = true := by
  induction ks with
  | nil => rfl
  | cons k ks ih => exact endsApart_append (hf k) ih

theorem declarations_append (h : endsApart a = true) : declarations (a ++ b) = declarations a ++ declarations b := by
  refine declarations_append_of fun t ht => ?_
  rw [Option.mem_def] at ht
  rw [endsApart, ht] at h
  cases t with
  | name => cases h
  | _ => rfl

theorem declarations_append_mark (m : String) :
    declarations (a ++ .mark m :: b) = declarations a ++ declarations (.mark m :: b) := by
  refine declarations_append_of fun t _ => ?_
  cases t <;> rfl

theorem declarations_flatMap {f : Nat → List KernelToken} (hf : ∀ k, endsApart (f k) = true) (ks : List Nat) :
    declarations (ks.flatMap f) = ks.flatMap fun k => declarations (f k) := by
  induction ks with
  | nil => rfl
  | cons k ks ih => rw [List.flatMap_cons, declarations_append (hf k), ih, List.flatMap_cons]

/-- Names with marks between them declare nothing. -/
theorem declarations_intercalate {f : Nat → String} (m : String) (ks : List Nat) :
    declarations ([.mark m].intercalate (ks.map fun k => [.name (f k)])) = [] := by
  induction ks with
  | nil => rfl
  | cons k ks ih =>
    cases ks with
    | nil => rfl
    | cons l ks =>
      rw [List.map_cons, List.map_cons, List.intercalate_cons_cons]
      exact ih

/-- **The first mention of a name declares it**: nothing mentions it before, nor does the value that it gets. -/
def DeclaredFirst (type w : String) (tokens : List KernelToken) : Prop :=
  ∃ front value back, tokens = front ++ [.name type, .name w, .mark "="] ++ value ++ .mark ";" :: back ∧
    .name w ∉ front ∧ .name w ∉ value ∧ .mark ";" ∉ value

namespace DeclaredFirst

variable {type : String} {k : Nat}

/-- What follows does not matter. -/
theorem before (h : DeclaredFirst type w a) (b : List KernelToken) : DeclaredFirst type w (a ++ b) := by
  obtain ⟨front, value, back, rfl, hfront, hvalue, hend⟩ := h
  refine ⟨front, value, back ++ b, ?_, hfront, hvalue, hend⟩
  simp only [List.append_assoc, List.cons_append]

/-- Nor does what stands in front and does not mention the name. -/
theorem behind (h : DeclaredFirst type w b) (ha : .name w ∉ a) : DeclaredFirst type w (a ++ b) := by
  obtain ⟨front, value, back, rfl, hfront, hvalue, hend⟩ := h
  refine ⟨a ++ front, value, back, ?_, ?_, hvalue, hend⟩
  · simp only [List.append_assoc]
  · rw [List.mem_append]
    exact not_or.mpr ⟨ha, hfront⟩

/-- **One of several numbered statements declares it**, and those with smaller numbers do not mention it. -/
theorem flatMap {f : Nat → List KernelToken} (h : DeclaredFirst type w (f k)) (hsmaller : ∀ j < k, .name w ∉ f j)
    {s n : Nat} (hs : s ≤ k) (hk : k < s + n) : DeclaredFirst type w ((List.range' s n).flatMap f) := by
  induction n generalizing s with
  | zero => omega
  | succ n ih =>
    rw [List.range'_succ, List.flatMap_cons]
    by_cases heq : s = k
    · rw [heq]
      exact h.before _
    · exact (ih (by omega) (by omega)).behind (hsmaller s (by omega))

end DeclaredFirst

/-! ## Numbered names -/

/-- Whether a word is a letter with a number. -/
def isNumbered (w : String) : Bool :=
  match w.toList with
  | c :: digits => c.isAlpha && !digits.isEmpty && digits.all Char.isDigit
  | [] => false

/-- The name that a token is. -/
def name? : KernelToken → Option String
  | .name w => some w
  | _ => none

/-- The names that are mentioned. -/
def names (tokens : List KernelToken) : List String :=
  tokens.filterMap name?

/-- **The numbered names that are mentioned**, each as often as it is. -/
def numberedNames (tokens : List KernelToken) : List String :=
  (names tokens).filter isNumbered

theorem mem_names : w ∈ names tokens ↔ .name w ∈ tokens := by
  unfold names
  rw [List.mem_filterMap]
  constructor
  · rintro ⟨t, ht, hname⟩
    cases t with
    | name x =>
      cases hname
      exact ht
    | _ => cases hname
  · exact fun h => ⟨.name w, h, rfl⟩

theorem names_append : names (a ++ b) = names a ++ names b :=
  List.filterMap_append

theorem names_flatMap {f : Nat → List KernelToken} (ks : List Nat) :
    names (ks.flatMap f) = ks.flatMap fun k => names (f k) :=
  List.filterMap_flatMap

/-- Names with marks between them. -/
theorem names_intercalate {f : Nat → String} (ha : names a = []) (ks : List Nat) :
    names (a.intercalate (ks.map fun k => [.name (f k)])) = ks.map f := by
  cases ks with
  | nil => rfl
  | cons k ks =>
    have hpiece : ∀ l, names (a ++ [.name (f l)]) = [f l] := by
      intro l
      rw [names_append, ha]
      rfl
    rw [intercalate_cons_map, names_append, names_flatMap]
    simp only [hpiece, List.map_eq_flatMap]
    rfl

theorem numberedNames_append : numberedNames (a ++ b) = numberedNames a ++ numberedNames b := by
  unfold numberedNames
  rw [names_append, List.filter_append]

theorem numberedNames_flatMap {f : Nat → List KernelToken} (ks : List Nat) :
    numberedNames (ks.flatMap f) = ks.flatMap fun k => numberedNames (f k) := by
  unfold numberedNames
  rw [names_flatMap, List.filter_flatMap]

theorem numberedNames_intercalate {f : Nat → String} (ha : names a = []) (hf : ∀ k, isNumbered (f k) = true)
    (ks : List Nat) : numberedNames (a.intercalate (ks.map fun k => [.name (f k)])) = ks.map f := by
  unfold numberedNames
  rw [names_intercalate ha, List.filter_eq_self]
  intro w hw
  obtain ⟨k, -, rfl⟩ := List.mem_map.mp hw
  exact hf k

/-- A name without a number is none with one. -/
theorem ne_of_isNumbered {x y : String} (hx : isNumbered x = false) (hy : isNumbered y = true) : x ≠ y := by
  rintro rfl
  rw [hx] at hy
  cases hy

/-- A numbered name that is none of them is not mentioned. -/
theorem not_mem_of_numberedNames (hw : isNumbered w = true) (h : w ∉ numberedNames tokens) : .name w ∉ tokens := by
  intro hmem
  exact h (List.mem_filter.mpr ⟨mem_names.mpr hmem, hw⟩)

/-! ## Brackets -/

/-- The bracket that closes another. -/
def closing? (m : String) : Option String :=
  if m = "(" then some ")" else if m = "[" then some "]" else if m = "\x7b" then some "\x7d" else none

/-- The brackets that are still to be closed behind a token, the next one first. -/
def enclose (pending : List String) : KernelToken → Option (List String)
  | .mark m =>
    match closing? m with
    | some close => some (close :: pending)
    | none =>
      if m ∈ [")", "]", "\x7d"] then (if pending.head? = some m then some pending.tail else none)
      else some pending
  | _ => some pending

/-- **Brackets that are opened here are closed here**, in the reverse order, and no others. -/
def Balanced (tokens : List KernelToken) : Prop :=
  ∀ pending, tokens.foldlM enclose pending = some pending

namespace Balanced

theorem nil : Balanced [] := fun _ => rfl

theorem append (ha : Balanced a) (hb : Balanced b) : Balanced (a ++ b) := by
  intro pending
  rw [List.foldlM_append, ha pending]
  exact hb pending

theorem flatMap {f : Nat → List KernelToken} (hf : ∀ k, Balanced (f k)) (ks : List Nat) : Balanced (ks.flatMap f) := by
  induction ks with
  | nil => exact nil
  | cons k ks ih => exact (hf k).append ih

theorem intercalate {f : Nat → List KernelToken} (ha : Balanced a) (hf : ∀ k, Balanced (f k)) (ks : List Nat) :
    Balanced (a.intercalate (ks.map f)) := by
  cases ks with
  | nil => exact nil
  | cons k ks =>
    rw [intercalate_cons_map]
    exact (hf k).append (flatMap (fun l => ha.append (hf l)) ks)

/-- What stands in a pair of brackets. -/
theorem group (left right : String) (hclosing : closing? left = some right) (hright : closing? right = none)
    (hmem : right ∈ [")", "]", "\x7d"]) (ha : Balanced a) :
    Balanced (KernelToken.mark left :: (a ++ [KernelToken.mark right])) := by
  intro pending
  have hopen : enclose pending (.mark left) = some (right :: pending) := by
    rw [enclose, hclosing]
  have hclose : enclose (right :: pending) (.mark right) = some pending := by
    rw [enclose, hright]
    simp only [hmem, if_true, List.head?_cons, List.tail_cons]
  rw [List.foldlM_cons, hopen]
  show (a ++ [KernelToken.mark right]).foldlM enclose (right :: pending) = some pending
  rw [List.foldlM_append, ha]
  show [KernelToken.mark right].foldlM enclose (right :: pending) = some pending
  rw [List.foldlM_cons, hclose]
  rfl

end Balanced

end Inlay
