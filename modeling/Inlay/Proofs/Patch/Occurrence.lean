import Inlay.Patch.Report

/-!
# `Proofs.Patch.Occurrence` — where an anchor is, said without the search

The patcher walks over a binary and collects the offsets of an anchor. This module says the same thing byte by
byte (`MatchesAt`) and proves that the walk finds exactly these offsets, in increasing order, so that the offset
which the next patch takes is the least one that matches and is not claimed (`IsFirstFree`). Whether an anchor is
at an offset depends on the bytes of its window alone, which is what lets a match survive a write elsewhere.
-/

namespace Inlay

namespace Anchor

variable {a : Anchor} {bytes bytes' : Bytes} {claimed : List Nat} {x y : Nat}

/-- **The anchor is at offset `x`**: behind `x` every byte of the signature is met by a byte that agrees with it
    in the bits of the mask. An anchor that is empty or has a mask of another length is nowhere. -/
def MatchesAt (a : Anchor) (bytes : Bytes) (x : Nat) : Prop :=
  a.signature ≠ [] ∧ a.signature.length = a.mask.length ∧
    ∀ (y : Nat) (s m : UInt8), a.signature[y]? = some s → a.mask[y]? = some m →
      ∃ b, bytes[x + y]? = some b ∧ b &&& m = s &&& m

/-- **The next offset to be taken**: the least one with a match that no patch has claimed. -/
structure IsFirstFree (a : Anchor) (bytes : Bytes) (claimed : List Nat) (x : Nat) : Prop where
  matchesAt : a.MatchesAt bytes x
  unclaimed : x ∉ claimed
  least : ∀ y, a.MatchesAt bytes y → y ∉ claimed → x ≤ y

/-! ## The window of a match -/

theorem MatchesAt.add_length_le (h : a.MatchesAt bytes x) : x + a.signature.length ≤ bytes.length := by
  obtain ⟨hne, hlen, hbytes⟩ := h
  have hpos : 0 < a.signature.length := List.length_pos_iff.mpr hne
  obtain ⟨b, hb, -⟩ := hbytes (a.signature.length - 1) _ _
    (List.getElem?_eq_getElem (by omega)) (List.getElem?_eq_getElem (by omega))
  have := (List.getElem?_eq_some_iff.mp hb).1
  omega

theorem MatchesAt.lt_add_length (h : a.MatchesAt bytes x) : x < x + a.signature.length :=
  Nat.lt_add_of_pos_right (List.length_pos_iff.mpr h.1)

/-- **A match depends on its window alone.** -/
theorem MatchesAt.congr (h : a.MatchesAt bytes x)
    (hw : ∀ k, x ≤ k → k < x + a.signature.length → bytes'[k]? = bytes[k]?) : a.MatchesAt bytes' x := by
  obtain ⟨hne, hlen, hbytes⟩ := h
  refine ⟨hne, hlen, fun y s m hs hm => ?_⟩
  have hy : y < a.signature.length := (List.getElem?_eq_some_iff.mp hs).1
  rw [hw (x + y) (by omega) (by omega)]
  exact hbytes y s m hs hm

/-! ## The walk finds exactly the matches -/

theorem agrees_iff {signature mask : Bytes} :
    agrees signature mask bytes = true ↔
      signature.length = mask.length ∧
        ∀ (y : Nat) (s m : UInt8), signature[y]? = some s → mask[y]? = some m →
          ∃ b, bytes[y]? = some b ∧ b &&& m = s &&& m := by
  induction signature generalizing mask bytes with
  | nil => cases mask <;> simp [agrees]
  | cons s signature ih =>
      cases mask with
      | nil => simp [agrees]
      | cons m mask =>
          cases bytes with
          | nil =>
              simp only [agrees, Bool.false_eq_true, false_iff, not_and]
              intro _ h
              obtain ⟨b, hb, -⟩ := h 0 s m rfl rfl
              simp at hb
          | cons b bytes =>
              simp only [agrees, Bool.and_eq_true, beq_iff_eq, ih, List.length_cons, Nat.add_right_cancel_iff]
              constructor
              · rintro ⟨hb, hlen, h⟩
                refine ⟨hlen, fun y s' m' hs hm => ?_⟩
                cases y with
                | zero =>
                    simp only [List.getElem?_cons_zero, Option.some.injEq] at hs hm
                    subst hs hm
                    exact ⟨b, rfl, hb⟩
                | succ y => exact h y s' m' hs hm
              · rintro ⟨hlen, h⟩
                obtain ⟨b', hb', heq⟩ := h 0 s m rfl rfl
                simp only [List.getElem?_cons_zero, Option.some.injEq] at hb'
                exact ⟨hb' ▸ heq, hlen, fun y s' m' hs hm => h (y + 1) s' m' hs hm⟩

theorem startsHere_iff : a.startsHere bytes = true ↔ a.MatchesAt bytes 0 := by
  simp [startsHere, MatchesAt, agrees_iff]

theorem not_matchesAt_nil : ¬ a.MatchesAt [] x := fun h => by
  have := h.add_length_le
  have := h.lt_add_length
  simp only [List.length_nil] at *
  omega

theorem matchesAt_cons_succ {b : UInt8} : a.MatchesAt (b :: bytes) (x + 1) ↔ a.MatchesAt bytes x := by
  simp only [MatchesAt, Nat.add_right_comm x 1, List.getElem?_cons_succ]

theorem mem_occurrencesFrom {i : Nat} :
    y ∈ a.occurrencesFrom i bytes ↔ ∃ x, y = i + x ∧ a.MatchesAt bytes x := by
  induction bytes generalizing i with
  | nil => simp [occurrencesFrom, not_matchesAt_nil]
  | cons b bytes ih =>
      -- the offsets behind the first byte come from the rest, moved by one
      have hrest : (∃ x, y = i + 1 + x ∧ a.MatchesAt bytes x) ↔
          ∃ x, y = i + (x + 1) ∧ a.MatchesAt (b :: bytes) (x + 1) := by
        simp only [matchesAt_cons_succ, Nat.add_right_comm i 1, Nat.add_assoc]
      have hsplit : (∃ x, y = i + x ∧ a.MatchesAt (b :: bytes) x) ↔
          (y = i ∧ a.MatchesAt (b :: bytes) 0) ∨ ∃ x, y = i + (x + 1) ∧ a.MatchesAt (b :: bytes) (x + 1) := by
        constructor
        · rintro ⟨x, hx, h⟩
          cases x with
          | zero => exact Or.inl ⟨hx, h⟩
          | succ x => exact Or.inr ⟨x, hx, h⟩
        · rintro (⟨hx, h⟩ | ⟨x, hx, h⟩)
          · exact ⟨0, hx, h⟩
          · exact ⟨x + 1, hx, h⟩
      rw [hsplit, ← hrest, ← ih, ← startsHere_iff, occurrencesFrom]
      split <;> simp_all

/-- **The occurrences are the offsets that match.** -/
theorem mem_occurrences : x ∈ a.occurrences bytes ↔ a.MatchesAt bytes x := by
  simp [occurrences, mem_occurrencesFrom]

theorem pairwise_occurrencesFrom (a : Anchor) (i : Nat) (bytes : Bytes) :
    (a.occurrencesFrom i bytes).Pairwise (· < ·) := by
  induction bytes generalizing i with
  | nil => exact List.Pairwise.nil
  | cons b bytes ih =>
      rw [occurrencesFrom]
      split
      · refine List.Pairwise.cons (fun y hy => ?_) (ih (i + 1))
        obtain ⟨x, rfl, -⟩ := mem_occurrencesFrom.mp hy
        omega
      · exact ih (i + 1)

/-- **The occurrences come in increasing order.** -/
theorem pairwise_occurrences (a : Anchor) (bytes : Bytes) : (a.occurrences bytes).Pairwise (· < ·) :=
  a.pairwise_occurrencesFrom 0 bytes

/-! ## The first free match -/

theorem IsFirstFree.unique (hx : a.IsFirstFree bytes claimed x) (hy : a.IsFirstFree bytes claimed y) : x = y :=
  Nat.le_antisymm (hx.least y hy.matchesAt hy.unclaimed) (hy.least x hx.matchesAt hx.unclaimed)

theorem isFirstFree_of_unclaimed? (h : a.unclaimed? bytes claimed = some x) : a.IsFirstFree bytes claimed x := by
  obtain ⟨hfree, before, behind, hsplit, hbefore⟩ := List.find?_eq_some_iff_append.mp h
  have hmem : x ∈ a.occurrences bytes := List.mem_of_find?_eq_some h
  refine ⟨mem_occurrences.mp hmem, by simpa using hfree, fun y hy hyc => ?_⟩
  have hsorted := a.pairwise_occurrences bytes
  rw [hsplit, List.pairwise_append] at hsorted
  rw [← mem_occurrences, hsplit] at hy
  rcases List.mem_append.mp hy with hy | hy
  · -- what stands before the first free match is claimed
    exact absurd (by simpa using hbefore y hy) hyc
  · rcases List.mem_cons.mp hy with rfl | hy
    · exact Nat.le_refl _
    · exact Nat.le_of_lt ((List.pairwise_cons.mp hsorted.2.1).1 y hy)

theorem claimed_of_unclaimed? (h : a.unclaimed? bytes claimed = none) (hx : a.MatchesAt bytes x) :
    x ∈ claimed := by
  have := List.find?_eq_none.mp h x (mem_occurrences.mpr hx)
  simpa using this

theorem unclaimed?_eq_some : a.unclaimed? bytes claimed = some x ↔ a.IsFirstFree bytes claimed x := by
  refine ⟨isFirstFree_of_unclaimed?, fun hx => ?_⟩
  cases h : a.unclaimed? bytes claimed with
  | none => exact absurd (claimed_of_unclaimed? h hx.matchesAt) hx.unclaimed
  | some y => rw [(isFirstFree_of_unclaimed? h).unique hx]

/-! ## The search that starts again -/

theorem find?_eq_unclaimed? (a : Anchor) (bytes : Bytes) : a.find? bytes = a.unclaimed? bytes [] := by
  unfold find? unclaimed?
  cases a.occurrences bytes <;> rfl

theorem matchesAt_drop {n : Nat} : a.MatchesAt (bytes.drop n) x ↔ a.MatchesAt bytes (n + x) := by
  simp only [MatchesAt, List.getElem?_drop, Nat.add_assoc]

/-- The search for the next offset to be taken, from an offset on. It asks for the first match alone, and starts again
    behind a match that is claimed. -/
def searchFrom? (a : Anchor) (bytes : Bytes) (claimed : List Nat) (start : Nat) : Option Nat :=
  if _inside : start < bytes.length then
    match a.find? (bytes.drop start) with
    | none => none
    | some i =>
      if claimed.contains (start + i) then a.searchFrom? bytes claimed (start + i + 1) else some (start + i)
  else none
termination_by bytes.length - start
decreasing_by omega

/-- The first match behind an offset is where a search of the rest finds it. -/
theorem matchesAt_of_find?_drop {i : Nat} (h : a.find? (bytes.drop x) = some i) :
    a.MatchesAt bytes (x + i) ∧ ∀ y, a.MatchesAt bytes y → x ≤ y → x + i ≤ y := by
  rw [find?_eq_unclaimed?, unclaimed?_eq_some] at h
  refine ⟨matchesAt_drop.mp h.matchesAt, fun y hy hxy => ?_⟩
  obtain ⟨k, rfl⟩ := Nat.exists_eq_add_of_le hxy
  exact Nat.add_le_add_left (h.least k (matchesAt_drop.mpr hy) List.not_mem_nil) x

theorem not_matchesAt_of_find?_drop (h : a.find? (bytes.drop x) = none) (hy : x ≤ y) : ¬ a.MatchesAt bytes y := by
  obtain ⟨k, rfl⟩ := Nat.exists_eq_add_of_le hy
  rw [find?_eq_unclaimed?] at h
  exact fun hmatch => List.not_mem_nil (claimed_of_unclaimed? h (matchesAt_drop.mpr hmatch))

/-- **The search from an offset on** finds the first free match, if all matches in front of the offset are claimed. -/
theorem searchFrom?_eq_some {start : Nat} (hfront : ∀ y, a.MatchesAt bytes y → y < start → y ∈ claimed) :
    a.searchFrom? bytes claimed start = some x ↔ a.IsFirstFree bytes claimed x := by
  fun_induction searchFrom? a bytes claimed start with
  | case1 start inside hnone =>
      refine iff_of_false (Option.some_ne_none x ∘ Eq.symm) fun hx => ?_
      have hbehind : start ≤ x := Nat.le_of_not_lt fun hlt => hx.unclaimed (hfront x hx.matchesAt hlt)
      exact not_matchesAt_of_find?_drop hnone hbehind hx.matchesAt
  | case2 start inside i hfound hclaimed ih =>
      refine ih fun y hy hlt => ?_
      -- the claimed match is the only one between the two starts
      obtain ⟨-, hleast⟩ := matchesAt_of_find?_drop hfound
      rcases Nat.lt_or_ge y start with hbefore | hbehind
      · exact hfront y hy hbefore
      · have heq : y = start + i := Nat.le_antisymm (Nat.le_of_lt_succ hlt) (hleast y hy hbehind)
        exact heq ▸ List.contains_iff_mem.mp hclaimed
  | case3 start inside i hfound hfree =>
      obtain ⟨hmatch, hleast⟩ := matchesAt_of_find?_drop hfound
      have hfirst : a.IsFirstFree bytes claimed (start + i) := by
        refine ⟨hmatch, fun hmem => hfree (List.contains_iff_mem.mpr hmem), fun y hy hyc => ?_⟩
        exact hleast y hy (Nat.le_of_not_lt fun hlt => hyc (hfront y hy hlt))
      rw [Option.some.injEq]
      exact ⟨fun heq => heq ▸ hfirst, hfirst.unique⟩
  | case4 start outside =>
      refine iff_of_false (Option.some_ne_none x ∘ Eq.symm) fun hx => ?_
      have hend := hx.matchesAt.add_length_le
      have hnext := hx.matchesAt.lt_add_length
      exact hx.unclaimed (hfront x hx.matchesAt (by omega))

/-- **Searching again and again is looking through all matches.** -/
theorem searchFrom?_zero (a : Anchor) (bytes : Bytes) (claimed : List Nat) :
    a.searchFrom? bytes claimed 0 = a.unclaimed? bytes claimed := by
  refine Option.ext fun x => ?_
  rw [searchFrom?_eq_some fun y _ hy => absurd hy (Nat.not_lt_zero y), unclaimed?_eq_some]

end Anchor

end Inlay
