import Mathlib.Data.List.Basic
import Inlay.Text.Blank

/-!
# `Proofs.Text.Words` — runs and words

A text is read in runs: characters of one class up to the first character of another (`takeWhile_run`). Cutting it at
every character of a class leaves its words (`wordsBy`). What is said about words here goes by one induction: a text
is a run alone, or a run, a character that ends it and more text (`runs_induction`).

Cutting words further, at more characters, gives the words of the text itself (`wordsBy_eq_flatMap`), so it does not
matter what stands between them. Trimming a text keeps its words, too.
-/

namespace Inlay

variable {p q : Char → Bool} {s t u v : List Char} {c : Char}

/-! ## Runs -/

theorem of_mem_takeWhile (h : c ∈ s.takeWhile p) : p c = true :=
  List.all_eq_true.mp (List.all_takeWhile) c h

theorem not_of_dropWhile (h : s.dropWhile p = c :: v) : p c = false := by
  have hhead := List.head?_dropWhile_not p s
  rw [h] at hhead
  exact hhead

/-- What holds of the last characters of two texts holds of the last one of both together. -/
theorem forall_getLast?_append {P : Char → Prop} (hs : ∀ c ∈ s.getLast?, P c) (ht : ∀ c ∈ t.getLast?, P c) :
    ∀ c ∈ (s ++ t).getLast?, P c := by
  intro c hc
  rw [List.getLast?_append, Option.mem_def, Option.or_eq_some_iff] at hc
  rcases hc with hc | ⟨-, hc⟩
  · exact ht c hc
  · exact hs c hc

/-- **A run is taken** if it is not continued. -/
theorem takeWhile_run (hu : ∀ c ∈ u, p c = true) (hv : ∀ c ∈ v.head?, p c = false) :
    (u ++ v).takeWhile p = u := by
  rw [List.takeWhile_append_of_pos hu]
  cases v with
  | nil => exact List.append_nil u
  | cons c v => rw [List.takeWhile_cons, hv c rfl, if_neg Bool.false_ne_true, List.append_nil]

/-- **A run is dropped** if it is not continued. -/
theorem dropWhile_run (hu : ∀ c ∈ u, p c = true) (hv : ∀ c ∈ v.head?, p c = false) :
    (u ++ v).dropWhile p = v := by
  rw [List.dropWhile_append_of_pos hu]
  cases v with
  | nil => rfl
  | cons c v => rw [List.dropWhile_cons, hv c rfl, if_neg Bool.false_ne_true]

/-- A text starts with a run that ends where it must. -/
theorem exists_run (p : Char → Bool) (s : List Char) :
    ∃ u v, s = u ++ v ∧ (∀ c ∈ u, p c = true) ∧ ∀ c ∈ v.head?, p c = false := by
  refine ⟨s.takeWhile p, s.dropWhile p, List.takeWhile_append_dropWhile.symm, fun c => of_mem_takeWhile, ?_⟩
  intro c hc
  obtain ⟨v, hv⟩ := List.head?_eq_some_iff.mp hc
  exact not_of_dropWhile hv

/-- **Induction on the runs of a text**: a run alone, or a run in front of a character that ends it and a text. -/
theorem runs_induction (p : Char → Bool) {motive : List Char → Prop}
    (run : ∀ u, (∀ c ∈ u, p c = false) → motive u)
    (cut : ∀ u c v, (∀ c ∈ u, p c = false) → p c = true → motive v → motive (u ++ c :: v)) (s : List Char) :
    motive s := by
  induction hn : s.length using Nat.strongRecOn generalizing s with
  | ind n ih =>
      subst hn
      have hsplit := List.takeWhile_append_dropWhile (p := fun c => !p c) (l := s)
      have hrun : ∀ c ∈ s.takeWhile fun c => !p c, p c = false := by
        intro c hc
        simpa using of_mem_takeWhile hc
      cases hrest : s.dropWhile fun c => !p c with
      | nil =>
          rw [hrest, List.append_nil] at hsplit
          rw [← hsplit]
          exact run _ hrun
      | cons c v =>
          have hc : p c = true := by simpa using not_of_dropWhile hrest
          rw [hrest] at hsplit
          have hlength : v.length < s.length := by
            rw [← hsplit, List.length_append, List.length_cons]
            omega
          rw [← hsplit]
          exact cut _ c v hrun hc (ih v.length hlength v rfl)

/-! ## Pieces -/

theorem pieces_cons_of_pos (hc : p c = true) : pieces p (c :: s) = [] :: pieces p s := by
  rw [pieces, if_pos hc]

theorem pieces_cons_of_neg {w : List Char} {ws : List (List Char)} (hc : p c = false) (h : pieces p s = w :: ws) :
    pieces p (c :: s) = (c :: w) :: ws := by
  rw [pieces, hc, if_neg Bool.false_ne_true, h]

/-- A run is one piece. -/
theorem pieces_run (hu : ∀ c ∈ u, p c = false) : pieces p u = [u] := by
  induction u with
  | nil => rfl
  | cons c u ih =>
      have hu' : ∀ c ∈ u, p c = false := fun d hd => hu d (List.mem_cons_of_mem c hd)
      exact pieces_cons_of_neg (hu c List.mem_cons_self) (ih hu')

/-- A run that ends is the first piece. -/
theorem pieces_run_append (hu : ∀ c ∈ u, p c = false) (hc : p c = true) :
    pieces p (u ++ c :: v) = u :: pieces p v := by
  induction u with
  | nil => exact pieces_cons_of_pos hc
  | cons d u ih =>
      have hu' : ∀ c ∈ u, p c = false := fun d hd => hu d (List.mem_cons_of_mem _ hd)
      exact pieces_cons_of_neg (hu d List.mem_cons_self) (ih hu')

/-- **Pieces of two texts** with a character between them that ends both. -/
theorem pieces_append_cons (hc : p c = true) (u v : List Char) :
    pieces p (u ++ c :: v) = pieces p u ++ pieces p v := by
  induction u using runs_induction p with
  | run u hu => rw [pieces_run hu, pieces_run_append hu hc, List.singleton_append]
  | cut u d w hu hd ih =>
      rw [List.append_assoc, List.cons_append, pieces_run_append hu hd, ih, pieces_run_append hu hd, List.cons_append]

theorem pieces_ne_nil (p : Char → Bool) (s : List Char) : pieces p s ≠ [] := by
  induction s using runs_induction p with
  | run u hu =>
      rw [pieces_run hu]
      exact List.cons_ne_nil u []
  | cut u c v hu hc ih =>
      rw [pieces_run_append hu hc]
      exact List.cons_ne_nil u _

/-- No character of a piece ends it. -/
theorem of_mem_pieces {w : List Char} (hw : w ∈ pieces p s) : ∀ c ∈ w, p c = false := by
  induction s using runs_induction p with
  | run u hu =>
      rw [pieces_run hu, List.mem_singleton] at hw
      rw [hw]
      exact hu
  | cut u c v hu hc ih =>
      rw [pieces_run_append hu hc, List.mem_cons] at hw
      rcases hw with rfl | hw
      · exact hu
      · exact ih hw

/-- **Pieces that were joined** are cut again. -/
theorem pieces_intercalate (hc : p c = true) {us : List (List Char)} (hne : us ≠ [])
    (hus : ∀ u ∈ us, ∀ d ∈ u, p d = false) : pieces p ([c].intercalate us) = us := by
  induction us with
  | nil => exact absurd rfl hne
  | cons u us ih =>
      have hu := hus u List.mem_cons_self
      cases us with
      | nil =>
          show pieces p (u ++ []) = [u]
          rw [List.append_nil, pieces_run hu]
      | cons u' us =>
          have hothers := ih (List.cons_ne_nil u' us) fun w hw => hus w (List.mem_cons_of_mem u hw)
          rw [List.intercalate_cons_cons, List.append_assoc, List.singleton_append, pieces_run_append hu hc, hothers]

/-- **Pieces of a changed text**, if only characters that end pieces were changed, and to such. -/
theorem pieces_map {g : Char → Char} (hg : ∀ c, p (g c) = q c) (hkeep : ∀ c, q c = false → g c = c) (s : List Char) :
    pieces p (s.map g) = pieces q s := by
  induction s using runs_induction q with
  | run u hu =>
      have hmap : u.map g = u := by
        rw [List.map_congr_left fun c hc => hkeep c (hu c hc), List.map_id']
      rw [hmap, pieces_run hu, pieces_run]
      intro c hc
      rw [← hkeep c (hu c hc), hg, hu c hc]
  | cut u c v hu hc ih =>
      have hmap : u.map g = u := by
        rw [List.map_congr_left fun c hc => hkeep c (hu c hc), List.map_id']
      have hu' : ∀ c ∈ u, p c = false := by
        intro c hc
        rw [← hkeep c (hu c hc), hg, hu c hc]
      rw [List.map_append, List.map_cons, hmap, pieces_run_append hu' ((hg c).trans hc), ih, pieces_run_append hu hc]

/-- Joined texts hold what is in one of them or in the text between them. -/
theorem mem_intercalate {us : List (List Char)} (h : c ∈ s.intercalate us) :
    c ∈ s ∨ ∃ u ∈ us, c ∈ u := by
  induction us with
  | nil => cases h
  | cons u us ih =>
      cases us with
      | nil =>
          rw [List.intercalate_singleton] at h
          exact Or.inr ⟨u, List.mem_cons_self, h⟩
      | cons u' us =>
          rw [List.intercalate_cons_cons, List.mem_append, List.mem_append] at h
          rcases h with (h | h) | h
          · exact Or.inr ⟨u, List.mem_cons_self, h⟩
          · exact Or.inl h
          · refine (ih h).imp_right ?_
            rintro ⟨w, hw, hc⟩
            exact ⟨w, List.mem_cons_of_mem u hw, hc⟩

/-! ## Words -/

/-- The words of a text that is cut at the characters that satisfy `p`. -/
def wordsBy (p : Char → Bool) (s : List Char) : List (List Char) :=
  (pieces p s).filter fun w => !w.isEmpty

theorem words_eq_wordsBy (s : List Char) : words s = wordsBy isBlank s := rfl

@[simp] theorem wordsBy_nil : wordsBy p [] = [] := rfl

theorem wordsBy_append_cons (hc : p c = true) (u v : List Char) :
    wordsBy p (u ++ c :: v) = wordsBy p u ++ wordsBy p v := by
  unfold wordsBy
  rw [pieces_append_cons hc, List.filter_append]

theorem wordsBy_cons (hc : p c = true) (s : List Char) : wordsBy p (c :: s) = wordsBy p s :=
  wordsBy_append_cons hc [] s

/-- A run that is not empty is one word. -/
theorem wordsBy_run (hne : u ≠ []) (hu : ∀ c ∈ u, p c = false) : wordsBy p u = [u] := by
  have hempty : u.isEmpty = false := by simpa using hne
  unfold wordsBy
  rw [pieces_run hu, List.filter_cons, hempty]
  rfl

/-- Characters that end words hold none. -/
theorem wordsBy_eq_nil (hu : ∀ c ∈ u, p c = true) : wordsBy p u = [] := by
  induction u with
  | nil => rfl
  | cons c u ih =>
      rw [wordsBy_cons (hu c List.mem_cons_self)]
      exact ih fun d hd => hu d (List.mem_cons_of_mem c hd)

/-- In front of a text, characters that end words change nothing. -/
theorem wordsBy_append_left (hu : ∀ c ∈ u, p c = true) (s : List Char) : wordsBy p (u ++ s) = wordsBy p s := by
  induction u with
  | nil => rfl
  | cons c u ih =>
      rw [List.cons_append, wordsBy_cons (hu c List.mem_cons_self)]
      exact ih fun d hd => hu d (List.mem_cons_of_mem c hd)

/-- Nor do they behind it. -/
theorem wordsBy_append_right (s : List Char) (hu : ∀ c ∈ u, p c = true) : wordsBy p (s ++ u) = wordsBy p s := by
  cases u with
  | nil => rw [List.append_nil]
  | cons c u =>
      have hu' : ∀ c ∈ u, p c = true := fun d hd => hu d (List.mem_cons_of_mem c hd)
      rw [wordsBy_append_cons (hu c List.mem_cons_self), wordsBy_eq_nil hu', List.append_nil]

/-- **Words of words.** Cutting at more characters can be done word by word. -/
theorem wordsBy_eq_flatMap (hpq : ∀ c, p c = true → q c = true) (s : List Char) :
    wordsBy q s = (wordsBy p s).flatMap (wordsBy q) := by
  have hrun : ∀ u, (∀ c ∈ u, p c = false) → wordsBy q u = (wordsBy p u).flatMap (wordsBy q) := by
    intro u hu
    by_cases hne : u = []
    · rw [hne]
      rfl
    · rw [wordsBy_run hne hu, List.flatMap_singleton]
  induction s using runs_induction p with
  | run u hu => exact hrun u hu
  | cut u c v hu hc ih =>
      rw [wordsBy_append_cons (hpq c hc), wordsBy_append_cons hc, List.flatMap_append, hrun u hu, ih]

theorem wordsBy_map {g : Char → Char} (hg : ∀ c, p (g c) = q c) (hkeep : ∀ c, q c = false → g c = c) (s : List Char) :
    wordsBy p (s.map g) = wordsBy q s := by
  unfold wordsBy
  rw [pieces_map hg hkeep]

/-- The words of texts that were joined. -/
theorem wordsBy_intercalate (hc : p c = true) (us : List (List Char)) :
    wordsBy p ([c].intercalate us) = us.flatMap (wordsBy p) := by
  induction us with
  | nil => rfl
  | cons u us ih =>
      cases us with
      | nil =>
          show wordsBy p (u ++ []) = wordsBy p u ++ []
          rw [List.append_nil, List.append_nil]
      | cons u' us =>
          rw [List.intercalate_cons_cons, List.append_assoc, List.singleton_append, wordsBy_append_cons hc, ih]
          rfl

/-- The words of a text together are its characters that end no word. -/
theorem flatten_wordsBy (p : Char → Bool) (s : List Char) : (wordsBy p s).flatten = s.filter fun c => !p c := by
  have hrun : ∀ u, (∀ c ∈ u, p c = false) → (wordsBy p u).flatten = u.filter fun c => !p c := by
    intro u hu
    have hkept : (u.filter fun c => !p c) = u := by
      rw [List.filter_eq_self]
      intro c hc
      rw [hu c hc]
      rfl
    rw [hkept]
    by_cases hne : u = []
    · rw [hne]
      rfl
    · rw [wordsBy_run hne hu, List.flatten_singleton]
  induction s using runs_induction p with
  | run u hu => exact hrun u hu
  | cut u c v hu hc ih =>
      have hdrop : ((c :: v).filter fun c => !p c) = v.filter fun c => !p c :=
        List.filter_cons_of_neg (by rw [hc]; exact Bool.false_ne_true)
      rw [wordsBy_append_cons hc, List.flatten_append, List.filter_append, hrun u hu, ih, hdrop]

/-- The characters of a word are characters of the text. -/
theorem mem_of_mem_wordsBy {w : List Char} (hw : w ∈ wordsBy p s) (hc : c ∈ w) : c ∈ s := by
  have hmem : c ∈ (wordsBy p s).flatten := List.mem_flatten.mpr ⟨w, hw, hc⟩
  rw [flatten_wordsBy] at hmem
  exact List.mem_of_mem_filter hmem

/-- A character that ends no word is in a text if it is in one of the words. -/
theorem mem_of_flatten_wordsBy (hc : p c = false) (h : wordsBy p s = wordsBy p t) : c ∈ s ↔ c ∈ t := by
  have hfilter : (s.filter fun c => !p c) = t.filter fun c => !p c := by
    rw [← flatten_wordsBy, ← flatten_wordsBy, h]
  have hmem : ∀ u : List Char, c ∈ u ↔ c ∈ u.filter fun c => !p c := by
    intro u
    rw [List.mem_filter, hc]
    exact ⟨fun hu => ⟨hu, rfl⟩, fun hu => hu.1⟩
  rw [hmem s, hmem t, hfilter]

/-! ## Trimming -/

theorem trimStart_append_left (hu : ∀ c ∈ u, isBlank c = true) (s : List Char) :
    trimStart (u ++ s) = trimStart s :=
  List.dropWhile_append_of_pos hu

theorem trimEnd_append_right (s : List Char) (hu : ∀ c ∈ u, isBlank c = true) : trimEnd (s ++ u) = trimEnd s := by
  have hu' : ∀ c ∈ u.reverse, isBlank c = true := fun c hc => hu c (List.mem_reverse.mp hc)
  unfold trimEnd
  rw [List.reverse_append, List.dropWhile_append_of_pos hu']

/-- A text in which a word starts is trimmed in front of that word only. -/
theorem trimStart_append (hs : ¬ ∀ c ∈ s, isBlank c = true) (t : List Char) :
    trimStart (s ++ t) = trimStart s ++ t := by
  have hne : (s.dropWhile isBlank).isEmpty = false := by
    rw [List.isEmpty_eq_false_iff]
    intro hnil
    refine hs fun c hc => ?_
    have hall := List.takeWhile_append_dropWhile (p := isBlank) (l := s)
    rw [hnil, List.append_nil] at hall
    rw [← hall] at hc
    exact of_mem_takeWhile hc
  unfold trimStart
  rw [List.dropWhile_append, hne, if_neg Bool.false_ne_true]

/-- A text that ends with a word is not trimmed at its end. -/
theorem trimEnd_append (s : List Char) (hc : isBlank c = false) : trimEnd (s ++ [c]) = s ++ [c] := by
  unfold trimEnd
  rw [List.reverse_concat, List.dropWhile_cons, hc, if_neg Bool.false_ne_true, List.reverse_cons, List.reverse_reverse]

theorem exists_eq_append_trimStart (s : List Char) :
    ∃ u, (∀ c ∈ u, isBlank c = true) ∧ s = u ++ trimStart s :=
  ⟨s.takeWhile isBlank, fun _ => of_mem_takeWhile, List.takeWhile_append_dropWhile.symm⟩

theorem exists_eq_trimEnd_append_blanks (s : List Char) :
    ∃ u, (∀ c ∈ u, isBlank c = true) ∧ s = trimEnd s ++ u := by
  refine ⟨(s.reverse.takeWhile isBlank).reverse, ?_, ?_⟩
  · intro c hc
    exact of_mem_takeWhile (List.mem_reverse.mp hc)
  · have hsplit := List.takeWhile_append_dropWhile (p := isBlank) (l := s.reverse)
    rw [trimEnd, ← List.reverse_append, hsplit, List.reverse_reverse]

theorem mem_of_mem_trim (h : c ∈ trim s) : c ∈ s := by
  have hstart : c ∈ trimStart s :=
    List.mem_reverse.mp ((List.dropWhile_sublist _).mem (List.mem_reverse.mp h))
  exact (List.dropWhile_sublist _).mem hstart

theorem words_trimStart (s : List Char) : words (trimStart s) = words s := by
  obtain ⟨u, hu, hs⟩ := exists_eq_append_trimStart s
  conv => rhs; rw [hs]
  exact (wordsBy_append_left hu _).symm

theorem words_trimEnd (s : List Char) : words (trimEnd s) = words s := by
  obtain ⟨u, hu, hs⟩ := exists_eq_trimEnd_append_blanks s
  conv => rhs; rw [hs]
  exact (wordsBy_append_right _ hu).symm

/-- **Trimming keeps the words.** -/
theorem words_trim (s : List Char) : words (trim s) = words s := by
  rw [trim, words_trimEnd, words_trimStart]

/-- Only blanks are trimmed away. -/
theorem trim_eq_nil_iff : trim s = [] ↔ ∀ c ∈ s, isBlank c = true := by
  constructor
  · intro h
    obtain ⟨u, hu, hs⟩ := exists_eq_append_trimStart s
    obtain ⟨v, hv, hend⟩ := exists_eq_trimEnd_append_blanks (trimStart s)
    rw [show trimEnd (trimStart s) = [] from h, List.nil_append] at hend
    intro c hc
    rw [hs, hend] at hc
    exact (List.mem_append.mp hc).elim (hu c) (hv c)
  · intro hall
    have hstart : trimStart s = [] := by
      have hnil := trimStart_append_left hall []
      rwa [List.append_nil] at hnil
    rw [trim, hstart]
    rfl

/-- Blanks around a text are trimmed. -/
theorem trim_append (hu : ∀ c ∈ u, isBlank c = true) (s : List Char) (hv : ∀ c ∈ v, isBlank c = true) :
    trim (u ++ s ++ v) = trim s := by
  by_cases hs : ∀ c ∈ s, isBlank c = true
  · rw [trim_eq_nil_iff.mpr hs, trim_eq_nil_iff]
    intro c hc
    rcases List.mem_append.mp hc with hc | hc
    · rcases List.mem_append.mp hc with hc | hc
      · exact hu c hc
      · exact hs c hc
    · exact hv c hc
  · rw [trim, List.append_assoc, trimStart_append_left hu, trimStart_append hs, trimEnd_append_right _ hv, trim]

end Inlay
