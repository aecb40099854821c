import Inlay.Compiler.Options
import Inlay.Proofs.Json.Faithful

/-!
# `Proofs.Compiler.OptionsJson` — options in writing

Options that a compiler can run with are read from their own JSON, and from any part of it: a member that is left out
leaves its field standard (`options_survive_json`). That holds of every codec that reads what it has written. The JSON
of options says them for their shape, field by field (`reads_keepMembers`), and since an option is valid by itself,
options of which some are replaced by standard ones are valid, too.
-/

namespace Inlay

open Json

/-- An object with those of its members whose names are kept. -/
def Json.keepMembers (keeps : String → Bool) : Json → Json
  | .object ms => .object (ms.filter (keeps ·.1))
  | v => v

namespace Options

variable {o : Options} {keeps : String → Bool}

/-- The options of which the names are kept, and standard ones in place of the others. -/
def keeping (keeps : String → Bool) (o : Options) : Options where
  introducer := if keeps "introducer" then o.introducer else standard.introducer
  pointerWidth := if keeps "pointer_width" then o.pointerWidth else standard.pointerWidth
  minVectors := if keeps "min_vector_registers" then o.minVectors else standard.minVectors
  iterationLimit := if keeps "template_iteration_limit" then o.iterationLimit else standard.iterationLimit
  parallel := if keeps "parallel_assembly" then o.parallel else standard.parallel
  anchor := if keeps "anchor" then o.anchor else standard.anchor

/-! ## Fields -/

theorem reads_pointerWidth (w : PointerWidth) : pointerWidthShape.Reads (.number w.bytes) w := by
  have hbyte : w.bytes ≤ 255 := by cases w <;> decide
  refine ⟨w.bytes, ⟨rfl, hbyte⟩, ?_⟩
  dsimp only
  rw [PointerWidth.ofBytes?_bytes]

theorem reads_byte (b : UInt8) : byteShape.Reads (.number b.toNat) b := by
  have hbyte : b.toNat ≤ 255 := Nat.le_of_lt_succ b.toNat_lt
  refine ⟨b.toNat, ⟨rfl, hbyte⟩, ?_⟩
  dsimp only
  rw [Nat.toUInt8_eq, UInt8.ofNat_toNat]

theorem reads_bytes (bytes : Bytes) : (Shape.array byteShape).Reads (bytesJson bytes) bytes := by
  refine ⟨_, rfl, ?_⟩
  induction bytes with
  | nil => exact .nil
  | cons b bytes ih => exact .cons (reads_byte b) ih

/-- The JSON of an anchor. -/
def anchorJson (a : Anchor) : Json :=
  .object [("signature", bytesJson a.signature), ("mask", bytesJson a.mask)]

theorem reads_anchor (a : Anchor) : anchorShape.Reads (anchorJson a) a := by
  refine ⟨_, rfl, ?_, show ["signature", "mask"].Nodup by decide, fun _ _ h => h⟩
  exact .inl ⟨_, _, _, rfl, reads_bytes a.signature, .inl ⟨_, _, _, rfl, reads_bytes a.mask, rfl, rfl⟩⟩

theorem reads_number {n : Nat} (h : n ≤ greatestNumber) : numberShape.Reads (.number n) n :=
  ⟨rfl, h⟩

/-- The members of options. -/
def members (o : Options) : List (String × Json) :=
  [("introducer", .string o.introducer), ("pointer_width", .number o.pointerWidth.bytes),
    ("min_vector_registers", .number o.minVectors), ("template_iteration_limit", .number o.iterationLimit),
    ("parallel_assembly", .bool o.parallel), ("anchor", anchorJson o.anchor)]

theorem toJson_eq (o : Options) : o.toJson = .object o.members :=
  rfl

theorem nodup_names_members (o : Options) : (Record.names o.members).Nodup := by
  show ["introducer", "pointer_width", "min_vector_registers", "template_iteration_limit", "parallel_assembly",
    "anchor"].Nodup
  decide

/-- A member of which the field is `a` is kept, or it is dropped and the field stays `d`. -/
theorem fill_kept {α σ : Type} {name : String} {shape : Shape α} {put : α → σ → σ} {others : Fields σ} {v : Json}
    {ms : List (String × Json)} {a d : α} {x z : σ} (reads : shape.Reads v a) (missing : put d x = x)
    (distinct : (Record.names ((name, v) :: ms)).Nodup)
    (rest : (Record.names ms).Nodup →
      others.Fill (ms.filter (keeps ·.1)) (put (if keeps name then a else d) x) z) :
    (Fields.cons name shape put others).Fill (((name, v) :: ms).filter (keeps ·.1)) x z := by
  obtain ⟨hnew, hdistinct⟩ := List.nodup_cons.mp distinct
  have hrest := rest hdistinct
  by_cases hkept : keeps name = true
  · rw [if_pos hkept] at hrest
    rw [List.filter_cons, if_pos hkept]
    exact .inl ⟨v, a, _, rfl, reads, hrest⟩
  · rw [if_neg hkept, missing] at hrest
    rw [List.filter_cons, if_neg hkept]
    exact .inr ⟨fun hmem => hnew ((List.filter_sublist.map Prod.fst).subset hmem), hrest⟩

/-- **The members that are kept** take the standard options to those that keep them. -/
theorem fill_members (hvectors : o.minVectors ≤ greatestNumber) (hlimit : o.iterationLimit ≤ greatestNumber)
    (keeps : String → Bool) : fields.Fill (o.members.filter (keeps ·.1)) standard (o.keeping keeps) := by
  refine fill_kept (d := standard.introducer) rfl rfl o.nodup_names_members fun h => ?_
  refine fill_kept (d := standard.pointerWidth) (reads_pointerWidth _) rfl h fun h => ?_
  refine fill_kept (d := standard.minVectors) (reads_number hvectors) rfl h fun h => ?_
  refine fill_kept (d := standard.iterationLimit) (reads_number hlimit) rfl h fun h => ?_
  refine fill_kept (d := standard.parallel) rfl rfl h fun h => ?_
  exact fill_kept (d := standard.anchor) (reads_anchor _) rfl h fun _ => ⟨rfl, rfl⟩

/-- **The members of options that are kept** say the options that keep them. -/
theorem reads_keepMembers (hvectors : o.minVectors ≤ greatestNumber) (hlimit : o.iterationLimit ≤ greatestNumber)
    (keeps : String → Bool) : shape.Reads (o.toJson.keepMembers keeps) (o.keeping keeps) := by
  refine ⟨_, rfl, fill_members hvectors hlimit keeps, ?_, nofun⟩
  exact (List.filter_sublist.map Prod.fst).nodup o.nodup_names_members

theorem depth_shape : shape.depth ≤ deepest := by
  decide

/-! ## Validity -/

/-- Options are valid if each of three fields is. -/
theorem validate_eq_ok : o.validate = .ok () ↔
    isIdentifier o.introducer.toList = true ∧ o.iterationLimit ≠ 0 ∧ o.anchor.validate = .ok () := by
  rw [validate]
  by_cases hintroducer : isIdentifier o.introducer.toList = true
  · by_cases hlimit : o.iterationLimit = 0
    · simp [hintroducer, hlimit]
    · simp [hintroducer, hlimit]
  · simp [hintroducer]

theorem validate_standard : standard.validate = .ok () :=
  rfl

/-- Standard options in place of some of them leave valid options valid. -/
theorem validate_keeping (h : o.validate = .ok ()) (keeps : String → Bool) : (o.keeping keeps).validate = .ok () := by
  obtain ⟨hintroducer, hlimit, hanchor⟩ := validate_eq_ok.mp h
  obtain ⟨hintroducer', hlimit', hanchor'⟩ := validate_eq_ok.mp validate_standard
  apply validate_eq_ok.mpr
  refine ⟨?_, ?_, ?_⟩
  · show isIdentifier (if keeps "introducer" then o.introducer else standard.introducer).toList = true
    split
    · exact hintroducer
    · exact hintroducer'
  · show (if keeps "template_iteration_limit" then o.iterationLimit else standard.iterationLimit) ≠ 0
    split
    · exact hlimit
    · exact hlimit'
  · show (if keeps "anchor" then o.anchor else standard.anchor).validate = .ok ()
    split
    · exact hanchor
    · exact hanchor'

/-! ## Texts -/

/-- **Valid options with some standard ones** are read from the members that are kept. -/
theorem fromJson_keepMembers {codec : Codec} (faithful : codec.Faithful) (h : o.validate = .ok ())
    (hvectors : o.minVectors ≤ greatestNumber) (hlimit : o.iterationLimit ≤ greatestNumber) (keeps : String → Bool) :
    fromJson codec (codec.write (o.toJson.keepMembers keeps)) = .ok (o.keeping keeps) := by
  have hread := faithful.read_write shape depth_shape (reads_keepMembers hvectors hlimit keeps)
  rw [fromJson, hread]
  show (do (o.keeping keeps).validate.mapError .invalid; .ok (o.keeping keeps) : Except Fault Options) = _
  rw [validate_keeping h]
  rfl

theorem keepMembers_true (o : Options) : o.toJson.keepMembers (fun _ => true) = o.toJson := by
  rw [toJson_eq, keepMembers, List.filter_true]

/-- **Options survive JSON.** Options that a compiler can run with, of which no number is greater than 64 bits allow,
    are read from their own JSON text by every codec that reads what it has written. From a text in which any of the
    members are left out, the options are read that are standard in these fields and the same in all others. -/
theorem options_survive_json (codec : Codec) (faithful : codec.Faithful) (o : Options) (valid : o.validate = .ok ())
    (vectors : o.minVectors ≤ greatestNumber) (limit : o.iterationLimit ≤ greatestNumber) :
    fromJson codec (codec.write o.toJson) = .ok o ∧
    ∀ keeps, fromJson codec (codec.write (o.toJson.keepMembers keeps)) = .ok (o.keeping keeps) := by
  have hkeep := fromJson_keepMembers faithful valid vectors limit
  constructor
  · have hall := hkeep fun _ => true
    rwa [keepMembers_true] at hall
  · exact hkeep

/-- Options of which none is standard, with the greatest numbers that there are. -/
def farthest : Options where
  introducer := "_Inline9"
  pointerWidth := .bits32
  minVectors := greatestNumber
  iterationLimit := greatestNumber
  parallel := false
  anchor := ⟨[0, 255, 7], [255, 0, 9]⟩

/-- The standard codec reads them from their own text, and from their anchor alone only this. -/
theorem farthest_survives : Codec.standard.Faithful ∧ farthest.validate = .ok () ∧
    ofJsonText farthest.toJsonText = .ok farthest ∧
    ofJsonText (Codec.standard.write (farthest.toJson.keepMembers (· == "anchor"))) =
      .ok { standard with anchor := farthest.anchor } := by
  obtain ⟨hwhole, hkept⟩ := options_survive_json .standard Codec.standard_faithful farthest rfl (Nat.le_refl _)
    (Nat.le_refl _)
  exact ⟨Codec.standard_faithful, rfl, hwhole, hkept (· == "anchor")⟩

end Options

end Inlay
