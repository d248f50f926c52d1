/-
  JsonWire.Proofs.SampleRereading — what of a presence the wire keeps.

  No sample model is ever written as null, and of the types only whole JSON values are,
  boxed or not (`WireType.encode_eq_null_iff`). So a nullable or optional content of any
  other type comes back as it was, and of this type all but the null that is held as a value
  (`presence_survives_unless_written_as_null`).
-/

import JsonWire.Proofs.Rereading
import JsonWire.Proofs.SampleSettling

namespace JsonWire.Sample

/-! ## Models -/

theorem MetalStringValues.neverNull_codec : MetalStringValues.codec.NeverNull :=
  (domain.neverNull_codec Codec.neverNull_string).imap _ _

theorem Metal.neverNull_codec : Metal.codec.NeverNull := by
  refine OpenUnion.neverNull_codec ?_
  simp only [union, List.forall_mem_cons]
  exact ⟨Alloy.shape.neverNull_codec, MetalStringValues.neverNull_codec, List.forall_mem_nil _⟩

theorem Model.neverNull_codec (m : Model) : m.schema.codec.NeverNull := by
  cases m with
  | pet => exact Pet.shape.neverNull_codec
  | cat => exact Cat.shape.neverNull_codec
  | dog => exact Dog.shape.neverNull_codec
  | home => exact Home.shape.neverNull_codec
  | hasScalarNullable => exact HasScalarNullable.shape.neverNull_codec
  | smallBox => exact SmallBox.shape.neverNull_codec
  | largeBox => exact LargeBox.shape.neverNull_codec
  | storageBox => exact StorageBox.union.neverNull_codec
  | storage => exact Storage.shape.neverNull_codec
  | meeting => exact Meeting.shape.neverNull_codec
  | polarBear => exact PolarBear.shape.neverNull_codec
  | grizzlyBear => exact GrizzlyBear.shape.neverNull_codec
  | bear => exact Bear.union.neverNull_codec
  | chair => exact Chair.shape.neverNull_codec
  | bench => exact Bench.shape.neverNull_codec
  | seating => exact Seating.union.neverNull_codec
  | room => exact Room.shape.neverNull_codec
  | alloy => exact Alloy.shape.neverNull_codec
  | metal => exact Metal.neverNull_codec
  | compoundName => exact CompoundName.shape.neverNull_codec
  | name => exact Name.neverNull_codec
  | person => exact Person.shape.neverNull_codec
  | numberNoScalar => exact (NumberNoScalar.domain.neverNull_codec Codec.neverNull_int).imap _ _
  | size => exact (Size.domain.neverNull_codec Codec.neverNull_string).imap _ _
  | metalStringValues => exact MetalStringValues.neverNull_codec

/-! ## Types -/

/-- The value is a null among whole JSON values, boxed or not. -/
def WireType.IsNull : (t : WireType) → t.Carrier → Prop
  | .any, value => (value : Json) = .null
  | .box t, value => t.IsNull value
  | _, _ => False

theorem WireType.encode_eq_null_iff (t : WireType) (value : t.Carrier) :
    (t.codec.encode value).result = .ok .null ↔ t.IsNull value := by
  induction t with
  | any => exact ⟨fun h => Except.ok.inj h, fun h => congrArg Except.ok h⟩
  | box t ih => exact ih value
  | string => exact iff_false_intro (Codec.neverNull_string value)
  | bool => exact iff_false_intro (Codec.neverNull_bool value)
  | int t => exact iff_false_intro (Codec.neverNull_int value)
  | float32 => exact iff_false_intro (Codec.neverNull_float32 value)
  | float64 => exact iff_false_intro (Codec.neverNull_float64 value)
  | duration => exact iff_false_intro (Codec.neverNull_duration value)
  | list t _ => exact iff_false_intro (Codec.neverNull_list t.codec value)
  | record t _ => exact iff_false_intro (Codec.neverNull_record t.codec value)
  | model m => exact iff_false_intro (m.neverNull_codec value)

/-! ## Presences -/

/-- The wire keeps a presence unless it is a value that is written as null. What the field of any shape writes, it
reads back by itself: a nullable content, with an exception that comes back as null, still set but with no value;
an optional one, with an exception that comes back as nothing, or where null is rejected as a failure at the field.
Of the values of the types only the null among whole JSON values, boxed or not, is written as null. -/
theorem presence_survives_unless_written_as_null {T F : Type} (policy : NullPolicy) (start : T) {shape : Shape T}
    {x : T} {members : List (String × Json)} (h : (shape.encodeMembers x).result = .ok members) (key : String)
    (codec : Codec F) :
    (∀ lens : Lens T (Presence F), (key, .nullable lens codec) ∈ shape.fields → lens.Lawful →
      lens.get start = .absent → (∀ value, lens.get x = .present value → codec.RoundTrips value) →
      let collapses := ∃ value, lens.get x = .present value ∧ (codec.encode value).result = .ok .null
      ∃ back, (Shape.decodeFields policy members [(key, .nullable lens codec)] start).result = .ok (lens.set back start)
        ∧ (back = lens.get x ↔ ¬ collapses) ∧ (collapses → back = .null)
        ∧ back.isSet = (lens.get x).isSet ∧ (back.isNull = (lens.get x).isNull ↔ ¬ collapses)
        ∧ (back.value = (lens.get x).value ↔ ¬ collapses))
    ∧ (∀ lens : Lens T (Option F), (key, .optional lens codec) ∈ shape.fields → lens.Lawful →
      lens.get start = none → (∀ value, lens.get x = some value → codec.RoundTrips value) →
      let collapses := ∃ value, lens.get x = some value ∧ (codec.encode value).result = .ok .null
      let back := (Shape.decodeFields policy members [(key, .optional lens codec)] start).result
      (back = .ok (lens.set (lens.get x) start) ↔ ¬ collapses)
      ∧ (collapses → policy = .treatAsAbsent → back = .ok (lens.set none start))
      ∧ (collapses → policy = .reject → back = .error (.inField key (.unexpectedType "non-null value" "null"))))
    ∧ ∀ (t : WireType) (value : t.Carrier), (t.codec.encode value).result = .ok .null ↔ t.IsNull value := by
  refine ⟨fun lens hfield lawful hstart roundTrips => ?_, fun lens hfield lawful hstart roundTrips => ?_,
    WireType.encode_eq_null_iff⟩
  · intro collapses
    by_cases hcollapses : collapses
    · obtain ⟨value, hvalue, -⟩ := id hcollapses
      refine ⟨.null, Shape.reread_nullable_of_presentNull policy h hfield hcollapses, ?_⟩
      simp [hcollapses, hvalue, Presence.isSet, Presence.isAbsent, Presence.isNull, Presence.value]
    · have hread := Shape.reread policy h hfield lawful roundTrips (fun _ => hstart) hcollapses
      exact ⟨lens.get x, hread, by simp [hcollapses]⟩
  · intro collapses back
    by_cases hcollapses : collapses
    · have hback : back = _ := Shape.reread_optional_of_presentNull policy h hfield hcollapses
      obtain ⟨value, hvalue, -⟩ := id hcollapses
      refine ⟨iff_of_false (fun hkept => ?_) (not_not_intro hcollapses), fun _ hpolicy => ?_, fun _ hpolicy => ?_⟩
      · rw [hback] at hkept
        cases policy with
        | treatAsAbsent =>
          have hnone := congrArg lens.get (Except.ok.inj hkept)
          rw [lawful.get_set, lawful.get_set, hvalue] at hnone
          cases hnone
        | reject => cases hkept
      · rw [hback, hpolicy]
      · rw [hback, hpolicy]
    · have hback : back = _ := Shape.reread policy h hfield lawful roundTrips (fun _ => hstart) hcollapses
      exact ⟨iff_of_true hback hcollapses, fun h => absurd h hcollapses, fun h => absurd h hcollapses⟩

/-- What is under the label. -/
def labelPart : Lens (Presence Json × Option Json) (Presence Json) := ⟨Prod.fst, fun v x => (v, x.2)⟩

/-- What is under the note. -/
def notePart : Lens (Presence Json × Option Json) (Option Json) := ⟨Prod.snd, fun v x => (x.1, v)⟩

/-- A parcel with whole JSON values for a label and a note. -/
def parcel : Shape (Presence Json × Option Json) := .build "Parcel" [
  .nullable "label" .any labelPart,
  .optional "note" .any notePart]

/-- A label that is null and a note that is null are both sent as null. The label comes back without the value;
the note comes back as nothing, or not at all where null is rejected. A label that says null by itself comes back. -/
theorem null_label_and_null_note_are_lost :
    let sent : Presence Json × Option Json := (.present .null, some .null)
    let shown := [("label", Json.null), ("note", .null)]
    let nothing : Presence Json × Option Json := (.absent, none)
    (parcel.encodeMembers sent).result = .ok shown
    ∧ labelPart.Lawful ∧ notePart.Lawful ∧ (∀ value : Json, Codec.any.RoundTrips value)
    ∧ (∃ back, (Shape.decodeFields .reject shown [("label", .nullable labelPart .any)] nothing).result = .ok (back, none)
        ∧ back = .null ∧ back.isNull ≠ sent.1.isNull)
    ∧ (Shape.decodeFields .treatAsAbsent shown [("note", .optional notePart .any)] nothing).result = .ok nothing
    ∧ (Shape.decodeFields .reject shown [("note", .optional notePart .any)] nothing).result
        = .error (.inField "note" (.unexpectedType "non-null value" "null"))
    ∧ ∃ back, (Shape.decodeFields .reject [("label", .null)] [("label", .nullable labelPart .any)] nothing).result
        = .ok (back, none) ∧ back = .null := by
  intro sent shown nothing
  have hsent : (parcel.encodeMembers sent).result = .ok shown := rfl
  have hnull : (parcel.encodeMembers (.null, none)).result = .ok [("label", .null)] := rfl
  have hlabel : labelPart.Lawful := ⟨fun _ _ => rfl, fun _ => rfl, fun _ _ _ => rfl⟩
  have hnote : notePart.Lawful := ⟨fun _ _ => rfl, fun _ => rfl, fun _ _ _ => rfl⟩
  have roundTrips (value : Json) : Codec.any.RoundTrips value := ⟨value, rfl, rfl⟩
  have labelled : ("label", .nullable labelPart .any) ∈ parcel.fields := List.mem_cons_self
  have noted : ("note", .optional notePart .any) ∈ parcel.fields := List.mem_cons_of_mem _ List.mem_cons_self
  obtain ⟨labelBack, -, -⟩ := presence_survives_unless_written_as_null .reject nothing hsent "label" .any
  obtain ⟨-, noteAbsent, -⟩ := presence_survives_unless_written_as_null .treatAsAbsent nothing hsent "note" .any
  obtain ⟨-, noteRejected, -⟩ := presence_survives_unless_written_as_null .reject nothing hsent "note" .any
  obtain ⟨nullBack, -, -⟩ := presence_survives_unless_written_as_null .reject nothing hnull "label" .any
  obtain ⟨back, hback, -, hlost, -, hisNull, -⟩ :=
    labelBack labelPart labelled hlabel rfl fun value _ => roundTrips value
  obtain ⟨same, hsame, hkept, -⟩ := nullBack labelPart labelled hlabel rfl nofun
  have collapses : ∃ value, labelPart.get sent = .present value ∧ (Codec.any.encode value).result = .ok .null :=
    ⟨.null, rfl, rfl⟩
  refine ⟨hsent, hlabel, hnote, roundTrips, ⟨back, hback, hlost collapses, fun e => hisNull.1 e collapses⟩, ?_, ?_,
    same, hsame, hkept.2 nofun⟩
  · exact (noteAbsent notePart noted hnote rfl fun value _ => roundTrips value).2.1 ⟨.null, rfl, rfl⟩ rfl
  · exact (noteRejected notePart noted hnote rfl fun value _ => roundTrips value).2.2 ⟨.null, rfl, rfl⟩ rfl

end JsonWire.Sample
