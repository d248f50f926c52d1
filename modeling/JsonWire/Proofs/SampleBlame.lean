/-
  JsonWire.Proofs.SampleBlame — the errors of the sample types blame the value at fault.

  Every type of the language of types, every sample model and every shape over sheets is
  made of scalars by collections, shapes and unions, so all of their errors do
  (`errors_blame_the_value_at_fault`).
-/

import JsonWire.Proofs.Blame
import JsonWire.Proofs.SampleMade

namespace JsonWire.Sample

theorem WireType.blaming_codec (t : WireType) : t.codec.Blaming := t.made_codec.blaming

theorem Blueprint.blaming_shape (b : Blueprint) (level : Nat) : (b.shape level).Blaming :=
  fun field hfield _ codec huses => (b.made_fields level field hfield codec huses).blaming

/-- An error of a type, or of a shape over sheets, names places that lead into the document, to the
value that its root cause is about. -/
theorem errors_blame_the_value_at_fault :
    (∀ (t : WireType) (raw : Json) (e : CodecError), (t.codec.decode raw).result = .error e →
      Blames t.codec raw e ∧ ∃ found, raw.Leads e.fields found)
    ∧ ∀ (b : Blueprint) (level : Nat) (raw : Json) (e : CodecError),
      ((b.shape level).codec.decode raw).result = .error e →
      Blames (b.shape level).codec raw e ∧ ∃ found, raw.Leads e.fields found := by
  constructor
  · intro t raw e he
    have hblames := t.blaming_codec raw e he
    exact ⟨hblames, hblames.leads⟩
  · intro b level raw e he
    have hblames := (b.blaming_shape level).codec raw e he
    exact ⟨hblames, hblames.leads⟩

/-- A metal of a person that no candidate takes, and a null for a field of the sheet below, where the
policy of the child counts. -/
theorem second_metal_and_inherited_null_are_blamed :
    let people := Json.arr [.obj [("name", .str "Ann"),
      ("metals", .arr [.str "iron", .obj [("percentage", .str "much")]])]]
    let parent := Blueprint.mk "Parent" .treatAsAbsent [.field "note" ⟨"ostr", .optional, .string⟩]
    let child := Blueprint.mk "Child" .reject [.constant "kind" (.str "child"), .inherits parent]
    let sheet := Json.obj [("note", .null), ("kind", .null)]
    let tried := CodecError.allVariantsFailed "Metal" [
      ("Alloy", .inField "percentage" (.unexpectedType "float64" "string")),
      ("MetalStringValues", .unexpectedType "string" "object")]
    let metal := CodecError.inField "[0]" (.inField "metals" (.inField "[1]" tried))
    let null := CodecError.inField "note" (.unexpectedType "non-null value" "null")
    (((WireType.list (.model .person)).codec.decode people).result = .error metal
      ∧ Blames (WireType.list (.model .person)).codec people metal
      ∧ ∃ found, people.Leads ["[0]", "metals", "[1]"] found)
    ∧ ((child.shape 1).codec.decode sheet).result = .error null
      ∧ Blames (child.shape 1).codec sheet null
      ∧ ∃ found, sheet.Leads ["note"] found :=
  ⟨⟨rfl, errors_blame_the_value_at_fault.1 _ _ _ rfl⟩, rfl, errors_blame_the_value_at_fault.2 _ _ _ _ rfl⟩

end JsonWire.Sample
