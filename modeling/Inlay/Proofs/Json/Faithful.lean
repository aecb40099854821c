import Mathlib.Data.List.Forall2
import Inlay.Json.Codec
import Inlay.Proofs.Json.RoundTrip

/-!
# `Proofs.Json.Faithful` — what may be assumed of a codec

What a JSON value says for a shape is a matter of both alone, not of how it is written (`Shape.Reads`). A codec is
faithful if it reads what it has written: strings, truth values, whole numbers, arrays and objects, and what is made of
them (`Codec.Faithful`). Arrays and objects need not be read inside of more than a hundred others. A faithful codec
then reads a value of any shape as what the value says (`Codec.Faithful.read_write`).

The standard codec is faithful (`Codec.standard_faithful`).
-/

namespace Inlay.Json

/-! ## What a value says -/

/-- The names of some fields. -/
def Fields.names {σ : Type} : Fields σ → List String
  | .nil => []
  | .cons name _ _ others => name :: others.names

mutual

/-- **What a value says for a shape.** -/
def Shape.Reads : {α : Type} → Shape α → Json → α → Prop
  | _, .string, v, s => v = .string s
  | _, .boolean, v, b => v = .bool b
  | _, .natural limit, v, n => v = .number n ∧ n ≤ limit.toNat
  | _, .array item, v, xs => ∃ vs, v = .array vs ∧ List.Forall₂ (fun v x => item.Reads v x) vs xs
  | _, .converted inner convert, v, b => ∃ a, inner.Reads v a ∧ convert a = .ok b
  | _, .record fields start allRequired, v, x => ∃ ms, v = .object ms ∧ fields.Fill ms start x ∧
      (Record.names ms).Nodup ∧ (allRequired = true → ∀ name ∈ fields.names, name ∈ Record.names ms)

/-- **The members of an object fill the fields of a record**, from `x` to `z`: they come in the order of the fields, and
    a field without a member stays as it is. -/
def Fields.Fill : {σ : Type} → Fields σ → List (String × Json) → σ → σ → Prop
  | _, .nil, ms, x, z => ms = [] ∧ z = x
  | _, .cons name shape put others, ms, x, z =>
      (∃ v a ms', ms = (name, v) :: ms' ∧ shape.Reads v a ∧ others.Fill ms' (put a x) z) ∨
        name ∉ Record.names ms ∧ others.Fill ms x z

end

mutual

/-- How many arrays and objects are written one inside of the other. -/
def Shape.depth : {α : Type} → Shape α → Nat
  | _, .string | _, .boolean | _, .natural _ => 0
  | _, .array item => item.depth + 1
  | _, .converted inner _ => inner.depth
  | _, .record fields _ _ => fields.depth + 1

/-- How many arrays and objects are written one inside of the other in a field. -/
def Fields.depth : {σ : Type} → Fields σ → Nat
  | _, .nil => 0
  | _, .cons _ shape _ others => max shape.depth others.depth

end

/-! ## Faithful codecs -/

/-- The number of arrays and objects one inside of the other that a codec has to read. -/
def deepest : Nat := 127

/-- **A codec is faithful** if it reads each kind of value as what has been written. -/
structure Codec.Faithful (codec : Codec) : Prop where
  string (s : String) : codec.read .string (codec.write (.string s)) = .ok s
  boolean (b : Bool) : codec.read .boolean (codec.write (.bool b)) = .ok b
  natural {limit : UInt64} {n : Nat} (small : n ≤ limit.toNat) :
    codec.read (.natural limit) (codec.write (.number n)) = .ok n
  array {α : Type} {item : Shape α} {vs : List Json} {xs : List α} (shallow : (Shape.array item).depth ≤ deepest)
    (items : List.Forall₂ (fun v x => item.Reads v x) vs xs) :
    codec.read (.array item) (codec.write (.array vs)) = .ok xs
  /-- What is made of another value is made of what is read. -/
  converted {α β : Type} {inner : Shape α} {convert : α → Except String β} {text : String} {a : α} {b : β}
    (read : codec.read inner text = .ok a) (made : convert a = .ok b) :
    codec.read (.converted inner convert) text = .ok b
  /-- Fields that may be missing are as the record says. -/
  object {σ : Type} {fields : Fields σ} {start x : σ} {allRequired : Bool} {ms : List (String × Json)}
    (shallow : (Shape.record fields start allRequired).depth ≤ deepest) (filled : fields.Fill ms start x)
    (distinct : (Record.names ms).Nodup)
    (required : allRequired = true → ∀ name ∈ fields.names, name ∈ Record.names ms) :
    codec.read (.record fields start allRequired) (codec.write (.object ms)) = .ok x

/-- **A faithful codec reads a written value** as what the value says. -/
theorem Codec.Faithful.read_write {codec : Codec} (faithful : codec.Faithful) : {α : Type} → (shape : Shape α) →
    shape.depth ≤ deepest → {v : Json} → {a : α} → shape.Reads v a → codec.read shape (codec.write v) = .ok a
  | _, .string, _, _, s, h => by
      cases h
      exact faithful.string s
  | _, .boolean, _, _, b, h => by
      cases h
      exact faithful.boolean b
  | _, .natural limit, _, _, n, h => by
      obtain ⟨rfl, hsmall⟩ := h
      exact faithful.natural hsmall
  | _, .array item, shallow, _, _, h => by
      obtain ⟨vs, rfl, hitems⟩ := h
      exact faithful.array shallow hitems
  | _, .converted inner convert, shallow, _, _, h => by
      -- this is written as what it is made of, so what is assumed of the inner shape is needed
      obtain ⟨a, hinner, hmade⟩ := h
      exact faithful.converted (faithful.read_write inner shallow hinner) hmade
  | _, .record fields start allRequired, shallow, _, _, h => by
      obtain ⟨ms, rfl, hfilled, hdistinct, hrequired⟩ := h
      exact faithful.object shallow hfilled hdistinct hrequired

/-! ## The standard codec -/

theorem Fields.names_readers : {σ : Type} → (fields : Fields σ) → fields.readers.map Field.name = fields.names
  | _, .nil => rfl
  | _, .cons name _ _ others => congrArg (name :: ·) others.names_readers

/-- The first field of a name is the one that is found. -/
theorem find?_append_cons {σ : Type} {pre behind : List (Field σ)} {f : Field σ} (hpre : ∀ g ∈ pre, g.name ≠ f.name) :
    (pre ++ f :: behind).find? (·.name == f.name) = some f := by
  have hnone : pre.find? (·.name == f.name) = none := by simpa using hpre
  rw [List.find?_append, hnone, List.find?_cons_of_pos (by simp)]
  rfl

mutual

/-- **The reader of a shape takes a value** that says something for the shape. -/
theorem Shape.Reads.takes : {α : Type} → (shape : Shape α) → {v : Json} → {a : α} → shape.Reads v a →
    shape.reader.Takes v.compact a
  | _, .string, _, s, h => by
      cases h
      exact takes_string s
  | _, .boolean, _, b, h => by
      cases h
      exact takes_boolean b
  | _, .natural limit, _, n, h => by
      obtain ⟨rfl, hsmall⟩ := h
      exact takes_natural hsmall
  | _, .array item, _, xs, h => by
      obtain ⟨vs, rfl, hitems⟩ := h
      exact takes_array (hitems.imp fun v x hx => Shape.Reads.takes item hx)
  | _, .converted inner convert, _, b, h => by
      obtain ⟨a, hinner, hmade⟩ := h
      exact (Shape.Reads.takes inner hinner).converted hmade
  | _, .record fields start allRequired, _, x, h => by
      obtain ⟨ms, rfl, hfilled, hdistinct, hrequired⟩ := h
      have hfills : Record.Fills ⟨[] ++ fields.readers, allRequired⟩ ms start x :=
        Fields.Fill.fills fields hfilled hdistinct [] (List.forall_mem_nil _)
      refine hfills.takes hdistinct fun hall f hf => hrequired hall f.name ?_
      rw [← fields.names_readers]
      exact List.mem_map_of_mem hf

/-- **Members that fill some fields** fill a record of which these are the last ones. -/
theorem Fields.Fill.fills : {σ : Type} → (fields : Fields σ) → {ms : List (String × Json)} → {x z : σ} →
    fields.Fill ms x z → (Record.names ms).Nodup → {allRequired : Bool} → (pre : List (Field σ)) →
    (∀ f ∈ pre, f.name ∉ Record.names ms) → Record.Fills ⟨pre ++ fields.readers, allRequired⟩ ms x z
  | _, .nil, _, _, _, h, _, _, _, _ => by
      obtain ⟨rfl, rfl⟩ := h
      exact .none
  | _, .cons name shape put others, ms, _, _, h, hdistinct, _, pre, hpre => by
      let f : Field _ := .of name shape.reader put
      have hfields : pre ++ f :: others.readers = pre ++ [f] ++ others.readers := by simp
      rcases h with ⟨v, a, ms, rfl, hvalue, hothers⟩ | ⟨hmissing, hothers⟩
      · obtain ⟨hname, hdistinct⟩ := List.nodup_cons.mp hdistinct
        have hnew : ∀ g ∈ pre ++ [f], g.name ∉ Record.names ms := by
          intro g hg
          rcases List.mem_append.mp hg with hg | hg
          · exact fun hmem => hpre g hg (List.mem_cons_of_mem name hmem)
          · rwa [List.mem_singleton.mp hg]
        refine .next (find?_append_cons (f := f) fun g hg hg' => ?_)
          (Field.takes_of name (Shape.Reads.takes shape hvalue)) ?_
        · exact hpre g hg (hg' ▸ List.mem_cons_self)
        · rw [Fields.readers, hfields]
          exact Fields.Fill.fills others hothers hdistinct (pre ++ [f]) hnew
      · have hnew : ∀ g ∈ pre ++ [f], g.name ∉ Record.names ms := by
          intro g hg
          rcases List.mem_append.mp hg with hg | hg
          · exact hpre g hg
          · rwa [List.mem_singleton.mp hg]
        rw [Fields.readers, hfields]
        exact Fields.Fill.fills others hothers hdistinct (pre ++ [f]) hnew

end

/-- **The standard codec is faithful.** -/
theorem Codec.standard_faithful : Codec.standard.Faithful where
  string s := (takes_string s).readText
  boolean b := (takes_boolean b).readText
  natural small := (takes_natural small).readText
  array _ items := (takes_array (items.imp fun _ _ => Shape.Reads.takes _)).readText
  converted read made := by
    obtain ⟨rest, hread, hend⟩ := Reader.readText_eq_ok.mp read
    refine Reader.readText_eq_ok.mpr ⟨rest, ?_, hend⟩
    simp only [Shape.reader, Reader.converted, hread, made, bind, Except.bind]
  object {_ fields start x allRequired ms} _ filled distinct required := by
    have hreads : (Shape.record fields start allRequired).Reads (.object ms) x :=
      ⟨ms, rfl, filled, distinct, required⟩
    exact (Shape.Reads.takes _ hreads).readText

end Inlay.Json
