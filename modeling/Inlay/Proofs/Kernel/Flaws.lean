import Inlay.Proofs.Kernel.Written

/-!
# `Proofs.Kernel.Flaws` — what is missing from a block

A text behind an introducer is either a block or has a flaw: the first part that a block must have and that does not
stand where it belongs (`BlockText.Flawed`). The parts in front of it are there, as they are in a block. Cutting a block
fails exactly with that flaw (`BlockText.cut_eq_error`).
-/

namespace Inlay

namespace BlockText

variable {introducer beforeName name beforeList s : List Char} {flaw : BlockFlaw}

/-- What stands in front of a parameter list: blanks, a name and blanks. -/
structure Named (beforeName name beforeList : List Char) : Prop where
  beforeName : ∀ c ∈ beforeName, isAsciiBlank c = true
  name : isIdentifier name = true
  beforeList : ∀ c ∈ beforeList, isAsciiBlank c = true

/-- **The flaw of a text** that is no block: its first part that is missing. What stands in place of the part is neither
    the part nor something that belongs to the part in front. -/
inductive Flawed : List Char → BlockFlaw → Prop where
  /-- No word, or one that starts with a digit. -/
  | name {beforeName s : List Char} (blank : ∀ c ∈ beforeName, isAsciiBlank c = true)
      (stop : ∀ c ∈ s.head?, isAsciiBlank c = false)
      (missing : ∀ c ∈ s.head?, isAsciiWord c = true → c.isDigit = true) : Flawed (beforeName ++ s) .name
  /-- No parenthesis behind the name. -/
  | list {beforeName name beforeList s : List Char} (named : Named beforeName name beforeList)
      (ends : ∀ c ∈ (beforeList ++ s).head?, isAsciiWord c = false) (stop : ∀ c ∈ s.head?, isAsciiBlank c = false)
      (missing : s.head? ≠ some '(') : Flawed (beforeName ++ (name ++ (beforeList ++ s))) .list
  /-- No parenthesis behind the list: a brace or a semicolon comes first, or the end of the text. -/
  | listEnd {beforeName name beforeList list s : List Char} (named : Named beforeName name beforeList)
      (listed : ∀ c ∈ list, endsList c = false) (stop : ∀ c ∈ s.head?, endsList c = true)
      (missing : s.head? ≠ some ')') : Flawed (beforeName ++ (name ++ (beforeList ++ '(' :: (list ++ s)))) .listEnd
  /-- No brace behind the list. -/
  | body {beforeName name beforeList list beforeBody s : List Char} (named : Named beforeName name beforeList)
      (listed : ∀ c ∈ list, endsList c = false) (blank : ∀ c ∈ beforeBody, isAsciiBlank c = true)
      (stop : ∀ c ∈ s.head?, isAsciiBlank c = false) (missing : s.head? ≠ some '{') :
      Flawed (beforeName ++ (name ++ (beforeList ++ '(' :: (list ++ ')' :: (beforeBody ++ s))))) .body
  /-- No brace behind the body. -/
  | bodyEnd {beforeName name beforeList list beforeBody body : List Char} (named : Named beforeName name beforeList)
      (listed : ∀ c ∈ list, endsList c = false) (blank : ∀ c ∈ beforeBody, isAsciiBlank c = true)
      (missing : '}' ∉ body) :
      Flawed (beforeName ++ (name ++ (beforeList ++ '(' :: (list ++ ')' :: (beforeBody ++ '{' :: body))))) .bodyEnd

/-! ## A block or a flaw -/

/-- **Behind an introducer there is a block or a flaw.** -/
theorem exists_flaw_or_written (introducer s : List Char) : (∃ flaw, Flawed s flaw) ∨
    ∃ (t : BlockText) (rest : List Char), t.introducer = introducer ∧ t.Written rest ∧
      introducer ++ s = t.chars ++ rest := by
  obtain ⟨beforeName, s, rfl, hbefore, hstop⟩ := exists_run isAsciiBlank s
  obtain ⟨name, s, rfl, hword, hends⟩ := exists_run isAsciiWord s
  by_cases hname : isIdentifier name = true
  case neg =>
    refine Or.inl ⟨_, .name hbefore hstop fun c hc hcword => ?_⟩
    cases name with
    | nil =>
        rw [hends c hc] at hcword
        cases hcword
    | cons d name =>
        obtain rfl : d = c := Option.some.inj hc
        by_contra hdigit
        exact hname (isIdentifier_iff.mpr ⟨hword, by simpa using hdigit⟩)
  obtain ⟨beforeList, s, rfl, hgap, hstop⟩ := exists_run isAsciiBlank s
  have hnamed : Named beforeName name beforeList := ⟨hbefore, hname, hgap⟩
  by_cases hopen : s.head? = some '('
  case neg => exact Or.inl ⟨_, .list hnamed hends hstop hopen⟩
  obtain ⟨s, rfl⟩ := List.head?_eq_some_iff.mp hopen
  obtain ⟨list, s, rfl, hlist, hstop⟩ := exists_run (fun c => !endsList c) s
  have hlisted : ∀ c ∈ list, endsList c = false := fun c hc => by simpa using hlist c hc
  by_cases hclose : s.head? = some ')'
  case neg => exact Or.inl ⟨_, .listEnd hnamed hlisted (fun c hc => by simpa using hstop c hc) hclose⟩
  obtain ⟨s, rfl⟩ := List.head?_eq_some_iff.mp hclose
  obtain ⟨beforeBody, s, rfl, hblank, hstop⟩ := exists_run isAsciiBlank s
  by_cases hbrace : s.head? = some '{'
  case neg => exact Or.inl ⟨_, .body hnamed hlisted hblank hstop hbrace⟩
  obtain ⟨s, rfl⟩ := List.head?_eq_some_iff.mp hbrace
  by_cases hbody : '}' ∈ s
  case neg => exact Or.inl ⟨_, .bodyEnd hnamed hlisted hblank hbody⟩
  obtain ⟨body, s, rfl, hnot⟩ := List.eq_append_cons_of_mem hbody
  obtain ⟨hending, heq⟩ := cutEnding_eq_iff.mp (show cutEnding s = ((cutEnding s).1, (cutEnding s).2) from rfl)
  refine Or.inr ⟨⟨introducer, beforeName, name, beforeList, list, beforeBody, body, (cutEnding s).1⟩, (cutEnding s).2,
    rfl, ⟨hbefore, hname, hgap, hlisted, hblank, fun c hc heq => hnot (heq ▸ hc), hending⟩, ?_⟩
  conv => lhs; rw [heq]
  simp [chars, header, opening]

/-- The parts in front of a list are found where they stand. -/
theorem Named.runs (h : Named beforeName name beforeList) (ends : ∀ c ∈ (beforeList ++ s).head?, isAsciiWord c = false)
    (stop : ∀ c ∈ s.head?, isAsciiBlank c = false) :
    (beforeName ++ (name ++ (beforeList ++ s))).takeWhile isAsciiBlank = beforeName ∧
    (beforeName ++ (name ++ (beforeList ++ s))).dropWhile isAsciiBlank = name ++ (beforeList ++ s) ∧
    (name ++ (beforeList ++ s)).takeWhile isAsciiWord = name ∧
    (name ++ (beforeList ++ s)).dropWhile isAsciiWord = beforeList ++ s ∧
    (beforeList ++ s).takeWhile isAsciiBlank = beforeList ∧ (beforeList ++ s).dropWhile isAsciiBlank = s ∧
    (name.isEmpty || name.head?.any Char.isDigit) = false := by
  obtain ⟨hword, hstart⟩ := isIdentifier_iff.mp h.name
  have hname : ∀ c ∈ (name ++ (beforeList ++ s)).head?, isAsciiBlank c = false := by
    obtain ⟨d, name, rfl⟩ := List.exists_cons_of_ne_nil (ne_nil_of_isIdentifier h.name)
    intro c hc
    obtain rfl : d = c := Option.some.inj hc
    exact not_isAsciiBlank_of_isAsciiWord (hword d List.mem_cons_self)
  exact ⟨takeWhile_run h.beforeName hname, dropWhile_run h.beforeName hname, takeWhile_run hword ends,
    dropWhile_run hword ends, takeWhile_run h.beforeList stop, dropWhile_run h.beforeList stop, hstart⟩

/-- **A text with a flaw cannot be cut.** -/
theorem Flawed.cut (h : Flawed s flaw) : BlockText.cut introducer s = .error flaw := by
  have hopen : ∀ v, ∀ c ∈ ('(' :: v).head?, isAsciiBlank c = false := fun v c hc => Option.some.inj hc ▸ rfl
  have hclose : ∀ v, ∀ c ∈ (')' :: v).head?, (!endsList c) = false := fun v c hc => Option.some.inj hc ▸ rfl
  have hbrace : ∀ v, ∀ c ∈ ('{' :: v).head?, isAsciiBlank c = false := fun v c hc => Option.some.inj hc ▸ rfl
  have hlist : ∀ {list : List Char}, (∀ c ∈ list, endsList c = false) → ∀ c ∈ list, (!endsList c) = true :=
    fun listed c hc => by rw [listed c hc]; rfl
  unfold BlockText.cut
  cases h with
  | @name beforeName s blank stop missing =>
      have hmissing :
          ((s.takeWhile isAsciiWord).isEmpty || (s.takeWhile isAsciiWord).head?.any Char.isDigit) = true := by
        cases s with
        | nil => rfl
        | cons c s =>
            by_cases hc : isAsciiWord c = true
            · simp [hc, missing c rfl hc]
            · simp [hc]
      simp only [dropWhile_run blank stop, hmissing, if_true]
  | @list beforeName name beforeList s named ends stop missing =>
      obtain ⟨-, hdrop, htake, hdrop', -, hdrop'', hname⟩ := named.runs ends stop
      simp only [hdrop, htake, hname, hdrop', hdrop'', Bool.false_eq_true, if_false]
      split
      · exact absurd rfl missing
      · rfl
  | @listEnd beforeName name beforeList list s named listed stop missing =>
      obtain ⟨-, hdrop, htake, hdrop', -, hdrop'', hname⟩ :=
        named.runs (not_isAsciiWord_of_head named.beforeList (d := '(') rfl (list ++ s)) (hopen _)
      have hstop : ∀ c ∈ s.head?, (!endsList c) = false := fun c hc => by rw [stop c hc]; rfl
      simp only [hdrop, htake, hname, hdrop', hdrop'', dropWhile_run (hlist listed) hstop, Bool.false_eq_true, if_false]
      split
      · exact absurd rfl missing
      · rfl
  | @body beforeName name beforeList list beforeBody s named listed blank stop missing =>
      obtain ⟨-, hdrop, htake, hdrop', -, hdrop'', hname⟩ :=
        named.runs (not_isAsciiWord_of_head named.beforeList (d := '(') rfl _)
          (hopen (list ++ ')' :: (beforeBody ++ s)))
      simp only [hdrop, htake, hname, hdrop', hdrop'', dropWhile_run (hlist listed) (hclose _),
        dropWhile_run blank stop, Bool.false_eq_true, if_false]
      split
      · exact absurd rfl missing
      · rfl
  | @bodyEnd beforeName name beforeList list beforeBody body named listed blank missing =>
      obtain ⟨-, hdrop, htake, hdrop', -, hdrop'', hname⟩ := named.runs
        (not_isAsciiWord_of_head named.beforeList (d := '(') rfl _) (hopen (list ++ ')' :: (beforeBody ++ '{' :: body)))
      have hbody : ∀ c ∈ body, decide (c ≠ '}') = true := fun c hc => decide_eq_true fun heq => missing (heq ▸ hc)
      have hend := dropWhile_run (v := []) hbody (fun c hc => nomatch hc)
      rw [List.append_nil] at hend
      simp only [hdrop, htake, hname, hdrop', hdrop'', dropWhile_run (hlist listed) (hclose _),
        dropWhile_run blank (hbrace body), hend, Bool.false_eq_true, if_false]

/-- **Cutting a block** fails exactly with the flaw of the text. -/
theorem cut_eq_error : cut introducer s = .error flaw ↔ Flawed s flaw := by
  refine ⟨fun h => ?_, Flawed.cut⟩
  rcases exists_flaw_or_written introducer s with ⟨flaw', hflawed⟩ | ⟨t, rest, hwritten⟩
  · have heq : cut introducer s = .error flaw' := hflawed.cut
    rw [h] at heq
    cases heq
    exact hflawed
  · rw [cut_eq_ok.mpr hwritten] at h
    cases h

end BlockText

end Inlay
