import Inlay.Json.Basic
import Inlay.Json.Reader
import Inlay.Proofs.Fallible
import Inlay.Proofs.Text.Digits
import Inlay.Proofs.Text.Words

/-!
# `Proofs.Json.RoundTrip` — what is written is read

A reader takes a written value off a text if it finds the value and stops behind it, whatever goes on there
(`Reader.Takes`). Behind a number the text must not go on with a further digit, so the rest is said to be closed:
it is at its end, or at a comma or a closing bracket. Numbers, truth values, strings and arrays are taken as they are
written, so is what is made of a value, and a record takes an object in which each of its fields is taken, whichever of
the others are missing (`Record.Fills`, `Record.Fills.takes`).
-/

namespace Inlay.Json

open Reader

variable {α σ : Type} {rest : List Char}

/-! ## Taking a value -/

/-- **A text is closed** if it does not go on with a value that stands in front of it. -/
def Closed (rest : List Char) : Prop :=
  ∀ c ∈ rest.head?, c = ',' ∨ c = ']' ∨ c = '}'

theorem closed_nil : Closed [] := by
  intro c hc
  cases hc

theorem closed_comma (rest : List Char) : Closed (',' :: rest) := by
  rintro c ⟨⟩
  exact Or.inl rfl

theorem closed_bracket (rest : List Char) : Closed (']' :: rest) := by
  rintro c ⟨⟩
  exact Or.inr (Or.inl rfl)

theorem closed_brace (rest : List Char) : Closed ('}' :: rest) := by
  rintro c ⟨⟩
  exact Or.inr (Or.inr rfl)

/-- What goes on in front of a closed text is nothing that a comma or a bracket is not. -/
theorem Closed.head (h : Closed rest) {p : Char → Bool} (hp : (p ',' || p ']' || p '}') = false) :
    ∀ c ∈ rest.head?, p c = false := by
  intro c hc
  obtain ⟨⟨hcomma, hbracket⟩, hbrace⟩ : (p ',' = false ∧ p ']' = false) ∧ p '}' = false := by simpa using hp
  rcases h c hc with rfl | rfl | rfl
  · exact hcomma
  · exact hbracket
  · exact hbrace

/-- **A reader takes the text `written` as the value `a`**, in front of every closed text. -/
def Reader.Takes (value : Reader α) (written : List Char) (a : α) : Prop :=
  ∀ rest, Closed rest → value (written ++ rest) = .ok (a, rest)

theorem Reader.readText_eq_ok {value : Reader α} {text : String} {a : α} :
    Reader.readText value text = .ok a ↔
      ∃ rest, value text.toList = .ok (a, rest) ∧ (skipSpaces rest).isEmpty = true := by
  rw [Reader.readText, bind_eq_ok]
  constructor
  · rintro ⟨⟨b, rest⟩, hread, h⟩
    dsimp only at h
    split at h
    · next hend =>
      cases h
      exact ⟨rest, hread, hend⟩
    · cases h
  · rintro ⟨rest, hread, hend⟩
    exact ⟨(a, rest), hread, if_pos hend⟩

/-- A whole text that is taken is read. -/
theorem Reader.Takes.readText {value : Reader α} {written : List Char} {a : α} (h : value.Takes written a) :
    Reader.readText value (String.ofList written) = .ok a := by
  have hall := h [] closed_nil
  rw [List.append_nil] at hall
  rw [Reader.readText, String.toList_ofList, hall]
  rfl

/-! ## Blanks and marks -/

theorem skipSpaces_cons {c : Char} (hc : isSpace c = false) (rest : List Char) : skipSpaces (c :: rest) = c :: rest :=
  List.dropWhile_cons_of_neg (Bool.eq_false_iff.mp hc)

theorem mark_self {c : Char} (hc : isSpace c = false) (rest : List Char) : mark c (c :: rest) = .ok rest := by
  rw [mark, skipSpaces_cons hc]
  exact if_pos rfl

theorem isSpace_of_isDigit {c : Char} (hc : c.isDigit = true) : isSpace c = false := by
  apply Bool.eq_false_iff.mpr
  intro h
  obtain ((rfl | rfl) | rfl) | rfl : ((c = ' ' ∨ c = '\n') ∨ c = '\t') ∨ c = '\r' := by
    simpa [isSpace] using h
  all_goals exact absurd hc (by decide)

/-! ## Numbers and truth values -/

/-- Only zero is written with a zero in front. -/
theorem eq_zero_of_head?_toDigits {n : Nat} (h : (Nat.toDigits 10 n).head? = some '0') : n = 0 := by
  induction n using Nat.strongRecOn with
  | ind n ih =>
      rw [Nat.toDigits_eq_if (by decide)] at h
      by_cases hn : n < 10
      · rw [if_pos hn] at h
        have hall : ∀ d : Fin 10, Nat.digitChar d = '0' → d.val = 0 := by decide
        exact hall ⟨n, hn⟩ (Option.some.inj h)
      · rw [if_neg hn, List.head?_append_of_ne_nil _ Nat.toDigits_ne_nil] at h
        have hzero := ih (n / 10) (by omega) h
        omega

theorem takes_natural {n limit : Nat} (hn : n ≤ limit) : (natural limit).Takes (number n).compact n := by
  intro rest hrest
  have hdigits : ∀ c ∈ Nat.toDigits 10 n, c.isDigit = true := fun c =>
    Nat.isDigit_of_mem_toDigits (by decide) (by decide)
  have hskip : skipSpaces (Nat.toDigits 10 n ++ rest) = Nat.toDigits 10 n ++ rest := by
    obtain ⟨d, ds, heq⟩ := List.exists_cons_of_ne_nil (Nat.toDigits_ne_nil (n := n) (b := 10))
    rw [heq] at hdigits ⊢
    exact skipSpaces_cons (isSpace_of_isDigit (hdigits d List.mem_cons_self)) _
  have hend : ∀ c ∈ rest.head?, c.isDigit = false := hrest.head rfl
  have hvalue : (Nat.toDigits 10 n).foldl (fun n c => 10 * n + (c.toNat - 48)) 0 = n := Nat.ofDigitChars_ten_toDigits
  have hzero : ((Nat.toDigits 10 n).head? == some '0' && (Nat.toDigits 10 n).length != 1) = false := by
    by_cases hhead : (Nat.toDigits 10 n).head? = some '0'
    · rw [eq_zero_of_head?_toDigits hhead]
      rfl
    · rw [beq_eq_false_iff_ne.mpr hhead]
      rfl
  have hgoesOn : rest.head?.any (fun c => c == '.' || c == 'e' || c == 'E') = false := by
    cases rest with
    | nil => rfl
    | cons c rest => exact hrest.head (p := fun c => c == '.' || c == 'e' || c == 'E') rfl c rfl
  have hempty : (Nat.toDigits 10 n).isEmpty = false := List.isEmpty_eq_false_iff.mpr Nat.toDigits_ne_nil
  simp only [compact, natural, hskip, takeWhile_run hdigits hend, dropWhile_run hdigits hend, hvalue, hempty, hzero,
    hgoesOn, Nat.not_lt.mpr hn]
  rfl

theorem takes_boolean (b : Bool) : boolean.Takes (bool b).compact b := by
  intro rest _
  cases b <;> rfl

/-! ## Strings -/

/-- **The ways to write a character**: behind a backslash, with its digits, or as it is. -/
theorem escape_cases (c : Char) :
    (∃ e, escape c = ['\\', e] ∧ e ≠ 'u' ∧ unescape? e = some c) ∨
    (c.toNat < 32 ∧ escape c = '\\' :: 'u' :: (hexPadded 4 c.toNat).toList) ∨
    (c ≠ '"' ∧ c ≠ '\\' ∧ 32 ≤ c.toNat ∧ escape c = [c]) := by
  fun_cases escape c with
  | case1 | case2 | case3 | case4 | case5 | case6 | case7 =>
      subst_vars
      exact Or.inl ⟨_, rfl, by decide, rfl⟩
  | case8 => exact Or.inr (Or.inl ⟨‹_›, rfl⟩)
  | case9 hquote hslash _ _ _ _ _ hlarge => exact Or.inr (Or.inr ⟨hquote, hslash, Nat.le_of_not_lt hlarge, rfl⟩)

theorem stringBody_named {c x : Char} {s text rest : List Char} (hc : c ≠ 'u') (hx : unescape? c = some x)
    (h : stringBody s = .ok (text, rest)) : stringBody ('\\' :: c :: s) = .ok (x :: text, rest) := by
  simp [stringBody, hc, hx, h]
  rfl

theorem stringBody_plain {c : Char} {s text rest : List Char} (hquote : c ≠ '"') (hslash : c ≠ '\\')
    (hlarge : 32 ≤ c.toNat) (h : stringBody s = .ok (text, rest)) : stringBody (c :: s) = .ok (c :: text, rest) := by
  simp [stringBody, hslash, Nat.not_lt.mpr hlarge, h]
  rfl

theorem stringBody_coded {c : Char} {s text rest : List Char} (hc : c.toNat < 32)
    (h : stringBody s = .ok (text, rest)) :
    stringBody ('\\' :: 'u' :: (hexPadded 4 c.toNat).toList ++ s) = .ok (c :: text, rest) := by
  have hall : ∀ n : Fin 32, (hexPadded 4 n).toList = ['0', '0', (n.val / 16).digitChar, (n.val % 16).digitChar] ∧
      fourDigits? '0' '0' (n.val / 16).digitChar (n.val % 16).digitChar = some n.val := by decide
  obtain ⟨hdigits, hnumber⟩ := hall ⟨c.toNat, hc⟩
  have hlow : isLowHalf c.toNat = false := by
    simp only [isLowHalf, Bool.and_eq_false_iff, decide_eq_false_iff_not]
    omega
  have hhigh : isHighHalf c.toNat = false := by
    simp only [isHighHalf, Bool.and_eq_false_iff, decide_eq_false_iff_not]
    omega
  have hcoded : codedChar '0' '0' (c.toNat / 16).digitChar (c.toNat % 16).digitChar s = .ok (c, s) := by
    rw [codedChar, hnumber]
    simp [hlow, hhigh]
  rw [hdigits, List.cons_append, List.cons_append, List.cons_append, List.cons_append, List.cons_append,
    List.cons_append, List.nil_append, stringBody]
  split
  · rename_i fault heq
    cases hcoded.symm.trans heq
  · rename_i x behind heq
    cases hcoded.symm.trans heq
    rw [h]
    rfl

/-- **The characters of a string** are read up to the closing quote. -/
theorem stringBody_flatMap_escape (s rest : List Char) :
    stringBody (s.flatMap escape ++ '"' :: rest) = .ok (s, rest) := by
  induction s with
  | nil => rw [List.flatMap_nil, List.nil_append, stringBody]
  | cons c s ih =>
      rw [List.flatMap_cons, List.append_assoc]
      rcases escape_cases c with ⟨e, hwritten, hu, hread⟩ | ⟨hsmall, hwritten⟩ | ⟨hquote, hslash, hlarge, hwritten⟩
      · rw [hwritten]
        exact stringBody_named hu hread ih
      · rw [hwritten]
        exact stringBody_coded hsmall ih
      · rw [hwritten]
        exact stringBody_plain hquote hslash hlarge ih

theorem string_quote (s : String) (rest : List Char) : Reader.string (quote s ++ rest) = .ok (s, rest) := by
  have hmark : mark '"' (quote s ++ rest) = .ok (s.toList.flatMap escape ++ '"' :: rest) := by
    rw [quote, List.cons_append, List.cons_append, List.append_assoc]
    exact mark_self (by decide) _
  have hbody := stringBody_flatMap_escape s.toList rest
  refine (bind_of_ok hmark _).trans ((bind_of_ok hbody _).trans ?_)
  show Except.ok (String.ofList s.toList, rest) = _
  rw [String.ofList_toList]

theorem takes_string (s : String) : Reader.string.Takes (Json.string s).compact s :=
  fun rest _ => string_quote s rest

/-! ## Values in a row -/

/-- **A value opens** with a character that is neither blank nor a closing bracket. -/
theorem exists_open (v : Json) : ∃ c w, v.compact = c :: w ∧ isSpace c = false ∧ c ≠ ']' := by
  cases v with
  | number n =>
      obtain ⟨d, ds, heq⟩ := List.exists_cons_of_ne_nil (Nat.toDigits_ne_nil (n := n) (b := 10))
      have hd : d.isDigit = true :=
        Nat.isDigit_of_mem_toDigits (by decide) (by decide) (heq ▸ List.mem_cons_self)
      refine ⟨d, ds, heq, isSpace_of_isDigit hd, ?_⟩
      rintro rfl
      exact absurd hd (by decide)
  | bool b => cases b <;> exact ⟨_, _, rfl, by decide, by decide⟩
  | string | array | object => exact ⟨_, _, rfl, by decide, by decide⟩

theorem compactItems_eq_map (vs : List Json) : compactItems vs = vs.map compact := by
  induction vs with
  | nil => rfl
  | cons v vs ih => rw [compactItems, ih, List.map_cons]

theorem compactMembers_eq_map (ms : List (String × Json)) :
    compactMembers ms = ms.map fun (name, v) => quote name ++ ':' :: v.compact := by
  induction ms with
  | nil => rfl
  | cons m ms ih => rw [compactMembers, ih, List.map_cons]

theorem commas_cons_cons (s t : List Char) (texts : List (List Char)) :
    commas (s :: t :: texts) = s ++ ',' :: commas (t :: texts) :=
  rfl

/-- A row of texts starts with the first of them. -/
theorem exists_commas_cons (s : List Char) (texts : List (List Char)) : ∃ t, commas (s :: texts) = s ++ t := by
  cases texts with
  | nil => exact ⟨[], (List.append_nil s).symm⟩
  | cons t texts => exact ⟨_, commas_cons_cons s t texts⟩

/-- There is a character for each text, up to the last one. -/
theorem length_le_length_commas (texts : List (List Char)) (s : List Char) :
    texts.length ≤ (commas texts ++ s).length + 1 := by
  induction texts with
  | nil => exact Nat.zero_le _
  | cons t texts ih =>
      cases texts with
      | nil => exact Nat.le_add_left _ _
      | cons u texts =>
          rw [commas_cons_cons, List.append_assoc, List.length_append, List.cons_append, List.length_cons,
            List.length_cons (a := ',')]
          omega

theorem items_commas {item : Reader α} {vs : List Json} {xs : List α} {n : Nat}
    (hitems : List.Forall₂ (fun v x => item.Takes v.compact x) vs xs) (hne : vs ≠ []) (hn : vs.length ≤ n)
    (rest : List Char) : items item n (commas (compactItems vs) ++ ']' :: rest) = .ok (xs, rest) := by
  induction hitems generalizing n with
  | nil => exact absurd rfl hne
  | @cons v x vs xs hx hothers ih =>
      obtain ⟨n, rfl⟩ : ∃ k, n = k + 1 := Nat.exists_eq_add_one.mpr (Nat.lt_of_lt_of_le (Nat.succ_pos _) hn)
      cases vs with
      | nil =>
          cases hothers
          rw [compactItems, compactItems, commas, items, hx (']' :: rest) (closed_bracket rest)]
          rfl
      | cons w ws =>
          have hone := hx (',' :: (commas (compactItems (w :: ws)) ++ ']' :: rest)) (closed_comma _)
          have hbehind := ih (List.cons_ne_nil w ws) (Nat.le_of_succ_le_succ hn)
          rw [compactItems, compactItems, commas_cons_cons, List.append_assoc, List.cons_append, items]
          rw [compactItems] at hone hbehind
          exact (bind_of_ok hone _).trans (bind_of_ok hbehind _)

theorem takes_array {item : Reader α} {vs : List Json} {xs : List α}
    (hitems : List.Forall₂ (fun v x => item.Takes v.compact x) vs xs) :
    (Reader.array item).Takes (array vs).compact xs := by
  intro rest _
  rw [compact, List.cons_append, List.cons_append, List.append_assoc]
  simp only [Reader.array, mark_self (c := '[') (by decide)]
  cases vs with
  | nil =>
      cases hitems
      rfl
  | cons v vs =>
      have hfuel := length_le_length_commas (compactItems (v :: vs)) (']' :: rest)
      rw [compactItems_eq_map, List.length_map, ← compactItems_eq_map] at hfuel
      have hread := items_commas hitems (List.cons_ne_nil v vs) hfuel rest
      obtain ⟨c, w, hopen, hspace, hbracket⟩ := exists_open v
      obtain ⟨t, hrow⟩ := exists_commas_cons v.compact (compactItems vs)
      rw [compactItems, hrow, hopen, List.cons_append, List.cons_append] at hread ⊢
      simp only [bind, Except.bind, skipSpaces_cons hspace]
      split
      · rename_i heq
        exact absurd (List.cons.inj heq).1 hbracket
      · exact hread

/-! ## Conversions -/

/-- What is made of a value that is taken. -/
theorem Reader.Takes.converted {β : Type} {value : Reader α} {convert : α → Except String β} {written : List Char}
    {a : α} {b : β} (h : value.Takes written a) (hb : convert a = .ok b) :
    (Reader.converted value convert).Takes written b := by
  intro rest hrest
  simp only [Reader.converted, h rest hrest, hb, bind, Except.bind]

/-! ## Records -/

theorem Field.takes_of {value : Reader α} {put : α → σ → σ} {written : List Char} {a : α} {x : σ} (name : String)
    (h : value.Takes written a) : Reader.Takes ((Field.of name value put).read x) written (put a x) := by
  intro rest hrest
  exact congrArg (Except.map _) (h rest hrest)

namespace Record

/-- **The members of an object take a record from `x` to `y`**, one field after the other. -/
inductive Fills (r : Record σ) : List (String × Json) → σ → σ → Prop
  | none {x : σ} : Fills r [] x x
  | next {f : Field σ} {name : String} {v : Json} {ms : List (String × Json)} {x y z : σ}
      (known : r.fields.find? (·.name == name) = some f) (value : Reader.Takes (f.read x) v.compact y)
      (others : Fills r ms y z) : Fills r ((name, v) :: ms) x z

/-- The names of the members of an object. -/
def names (ms : List (String × Json)) : List String :=
  ms.map Prod.fst

variable {r : Record σ} {ms : List (String × Json)} {x y z : σ}

/-- **One member**: its field is put in its place, and the object ends or goes on behind it. -/
theorem members_member {f : Field σ} {name : String} {seen : List String} {written s : List Char}
    (known : r.fields.find? (·.name == name) = some f) (hseen : name ∉ seen)
    (value : f.read x (written ++ s) = .ok (y, s)) (n : Nat) :
    r.members (n + 1) seen x (quote name ++ ':' :: written ++ s) =
      match skipSpaces s with
      | '}' :: s => .ok ((name :: seen, y), s)
      | ',' :: s => r.members n (name :: seen) y s
      | _ => .error .malformed := by
  have hcontains : seen.contains name = false := by simpa using hseen
  rw [List.append_assoc, List.cons_append]
  simp only [members, string_quote, known, hcontains, mark_self (c := ':') (by decide), bind, Except.bind,
    Bool.false_eq_true, if_false]
  exact bind_of_ok value _

/-- **The members of an object** are read to its end. -/
theorem Fills.members (h : r.Fills ms x z) {n : Nat} {seen : List String} (hne : ms ≠ []) (hn : ms.length ≤ n)
    (hnodup : (names ms).Nodup) (hnew : ∀ name ∈ names ms, name ∉ seen) (rest : List Char) :
    r.members n seen x (commas (compactMembers ms) ++ '}' :: rest) = .ok (((names ms).reverse ++ seen, z), rest) := by
  induction h generalizing n seen with
  | none => exact absurd rfl hne
  | @next f name v ms x y z known value others ih =>
      obtain ⟨n, rfl⟩ : ∃ k, n = k + 1 := Nat.exists_eq_add_one.mpr (Nat.lt_of_lt_of_le (Nat.succ_pos _) hn)
      obtain ⟨hname, hnodup⟩ := List.nodup_cons.mp hnodup
      have hseen : name ∉ seen := hnew name List.mem_cons_self
      cases ms with
      | nil =>
          cases others
          rw [compactMembers, compactMembers, commas,
            members_member known hseen (value ('}' :: rest) (closed_brace rest)) n, skipSpaces_cons (by decide)]
          rfl
      | cons m ms =>
          have hothersNew : ∀ name' ∈ names (m :: ms), name' ∉ name :: seen := by
            intro name' hmem hin
            rcases List.mem_cons.mp hin with rfl | hin
            · exact hname hmem
            · exact hnew name' (List.mem_cons_of_mem name hmem) hin
          have hothers := ih (List.cons_ne_nil m ms) (Nat.le_of_succ_le_succ hn) hnodup hothersNew
          obtain ⟨other, v'⟩ := m
          rw [compactMembers, compactMembers, commas_cons_cons, List.append_assoc, List.cons_append,
            members_member known hseen (value (',' :: _) (closed_comma _)) n, skipSpaces_cons (by decide)]
          rw [compactMembers] at hothers
          exact hothers.trans (by simp [names])

/-- **An object is taken** if its members fill the record: fields that it does not have stay as they are. -/
theorem Fills.takes (h : r.Fills ms x z) (hnodup : (names ms).Nodup)
    (hall : r.allRequired = true → ∀ f ∈ r.fields, f.name ∈ names ms) :
    Reader.Takes (r.read x) (object ms).compact z := by
  intro rest _
  have hrequired : (r.allRequired && !r.fields.all fun f => (names ms).reverse.contains f.name) = false := by
    by_cases hr : r.allRequired = true
    · have hfields : (r.fields.all fun f => (names ms).reverse.contains f.name) = true := by
        simpa using hall hr
      rw [hr, hfields]
      rfl
    · rw [Bool.eq_false_iff.mpr hr]
      rfl
  rw [compact, List.cons_append, List.cons_append, List.append_assoc, List.cons_append, List.nil_append, read,
    skipSpaces_cons (by decide)]
  cases ms with
  | nil =>
      cases h
      show (if (r.allRequired && !r.fields.all fun f => [].contains f.name) = true then .error .malformed
        else .ok (x, rest) : Reading (σ × List Char)) = _
      exact if_neg (Bool.eq_false_iff.mp hrequired)
  | cons m ms =>
      have hfuel := length_le_length_commas (compactMembers (m :: ms)) ('}' :: rest)
      rw [compactMembers_eq_map, List.length_map, ← compactMembers_eq_map] at hfuel
      have hnew : ∀ name ∈ names (m :: ms), name ∉ ([] : List String) := fun _ _ => List.not_mem_nil
      have hmembers := h.members (List.cons_ne_nil m ms) hfuel hnodup hnew rest
      obtain ⟨name, v⟩ := m
      obtain ⟨t, hrow⟩ := exists_commas_cons (quote name ++ ':' :: v.compact) (compactMembers ms)
      rw [compactMembers, hrow, quote, List.cons_append, List.cons_append, List.cons_append, List.cons_append]
        at hmembers ⊢
      rw [List.append_nil] at hmembers
      exact (bind_of_ok hmembers _).trans (if_neg (Bool.eq_false_iff.mp hrequired))

end Record

end Inlay.Json
