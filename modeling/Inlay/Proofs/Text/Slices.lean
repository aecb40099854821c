import Inlay.Proofs.Text.Lines

/-!
# `Proofs.Text.Slices` — parts of a text by their bytes

Places in a text are reported as numbers of bytes, and not every number is the place of a character. Cutting a text
behind so many bytes fails inside of a character and behind the end (`cutAt?_eq_some`), so a slice that exists starts
and ends at characters of the text (`slice?_eq_some`).
-/

namespace Inlay

variable {s t u v : List Char} {n lo hi : Nat}

/-- Cuts a text behind its first `n` bytes. There is no cut inside of a character or behind the end. -/
def cutAt? : Nat → List Char → Option (List Char × List Char)
  | 0, s => some ([], s)
  | _ + 1, [] => none
  | n + 1, c :: s =>
    if c.utf8Size ≤ n + 1 then (cutAt? (n + 1 - c.utf8Size) s).map fun (u, v) => (c :: u, v)
    else none

/-- The part of a text from byte `lo` up to byte `hi`, if a character starts at either or the text ends there. -/
def slice? (s : List Char) (lo hi : Nat) : Option (List Char) :=
  if lo ≤ hi then do
    let (_, behind) ← cutAt? lo s
    let (inside, _) ← cutAt? (hi - lo) behind
    some inside
  else none

/-- **A cut** is one behind whole characters that take so many bytes. -/
theorem cutAt?_eq_some : cutAt? n s = some (u, v) ↔ s = u ++ v ∧ byteLength u = n := by
  constructor
  · intro h
    fun_induction cutAt? n s generalizing u with
    | case1 s =>
        cases h
        exact ⟨rfl, rfl⟩
    | case2 => cases h
    | case3 n c s hle ih =>
        obtain ⟨⟨w, v'⟩, hcut, heq⟩ := Option.map_eq_some_iff.mp h
        cases heq
        obtain ⟨rfl, hbytes⟩ := ih hcut
        refine ⟨rfl, ?_⟩
        rw [byteLength_cons, hbytes]
        omega
    | case4 => cases h
  · rintro ⟨rfl, rfl⟩
    induction u with
    | nil => rw [byteLength_nil, cutAt?]; rfl
    | cons c u ih =>
        have hpos := c.utf8Size_pos
        obtain ⟨n, hn⟩ : ∃ n, byteLength (c :: u) = n + 1 := by
          refine ⟨byteLength (c :: u) - 1, ?_⟩
          rw [byteLength_cons]
          omega
        have hrest : n + 1 - c.utf8Size = byteLength u := by
          rw [byteLength_cons] at hn
          omega
        have hle : c.utf8Size ≤ n + 1 := by
          rw [byteLength_cons] at hn
          omega
        rw [hn, List.cons_append, cutAt?, if_pos hle, hrest, ih]
        rfl

/-- **A slice** has whole characters in front of it, which take the bytes up to its start. -/
theorem slice?_eq_some : slice? s lo hi = some t ↔
    ∃ u v, s = u ++ (t ++ v) ∧ byteLength u = lo ∧ byteLength (u ++ t) = hi := by
  unfold slice?
  constructor
  · intro h
    by_cases hle : lo ≤ hi
    · rw [if_pos hle] at h
      obtain ⟨⟨u, behind⟩, hfront, h⟩ := Option.bind_eq_some_iff.mp h
      obtain ⟨⟨inside, v⟩, hinside, h⟩ := Option.bind_eq_some_iff.mp h
      cases h
      obtain ⟨rfl, hu⟩ := cutAt?_eq_some.mp hfront
      obtain ⟨rfl, ht⟩ := cutAt?_eq_some.mp hinside
      refine ⟨u, v, rfl, hu, ?_⟩
      rw [byteLength_append, hu, ht]
      omega
    · rw [if_neg hle] at h
      cases h
  · rintro ⟨u, v, rfl, rfl, rfl⟩
    have hfront : cutAt? (byteLength u) (u ++ (t ++ v)) = some (u, t ++ v) := cutAt?_eq_some.mpr ⟨rfl, rfl⟩
    have hinside : cutAt? (byteLength t) (t ++ v) = some (t, v) := cutAt?_eq_some.mpr ⟨rfl, rfl⟩
    rw [byteLength_append, if_pos (Nat.le_add_right _ _), Nat.add_sub_cancel_left, hfront]
    show (cutAt? (byteLength t) (t ++ v) >>= fun p => some p.1) = some t
    rw [hinside]
    rfl

/-- A part that stands in a text is the slice from where it stands. -/
theorem slice?_append (u t v : List Char) : slice? (u ++ (t ++ v)) (byteLength u) (byteLength (u ++ t)) = some t :=
  slice?_eq_some.mpr ⟨u, v, rfl, rfl, rfl⟩

/-- **Several slices** one behind the other: between each two neighbours of `cuts`, from `lo` on. -/
def slices? (s : List Char) (lo : Nat) : List Nat → Option (List (List Char))
  | [] => some []
  | hi :: cuts => do
    let part ← slice? s lo hi
    let parts ← slices? s hi cuts
    some (part :: parts)

theorem slices?_cons {part : List Char} {parts : List (List Char)} {cuts : List Nat} (h : slice? s lo hi = some part)
    (hs : slices? s hi cuts = some parts) : slices? s lo (hi :: cuts) = some (part :: parts) := by
  rw [slices?, h]
  show (slices? s hi cuts >>= fun parts => some (part :: parts)) = _
  rw [hs]
  rfl

end Inlay
