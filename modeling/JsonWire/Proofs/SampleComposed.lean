/-
  JsonWire.Proofs.SampleComposed — the codecs of the sample types are composed.

  Metals and names are open unions, and a person has both; no other model contains one.
  So every type of the language of types and every shape over sheets is composed, and
  without open unions if none of these models occurs in it (`WireType.composed_codec`,
  `Blueprint.composed_fields`), and so is a union of labelled values.
-/

import JsonWire.Proofs.Composed
import JsonWire.Proofs.SheetPlaces
import JsonWire.Sample.Labelled

namespace JsonWire.Sample

open Codec

variable {opened : Prop}

/-! ## Models without open unions -/

@[simp] theorem Size.composed_codec : Size.codec.Composed opened := .enum .string

@[simp] theorem MetalStringValues.composed_codec : MetalStringValues.codec.Composed opened := .enum .string

@[simp] theorem NumberNoScalar.composed_codec : NumberNoScalar.codec.Composed opened := .enum (.int .int64)

theorem Pet.composed_codec : Pet.codec.Composed opened :=
  Shape.composed_codec (by simp [shape, Entries.ofList, Entries.insert])

theorem Cat.composed_codec : Cat.codec.Composed opened :=
  Shape.composed_codec (by simp [shape, Entries.ofList, Entries.insert])

@[simp] theorem Dog.composed_codec : Dog.codec.Composed opened :=
  Shape.composed_codec (by simp [shape, Pet.shape, Entries.ofList, Entries.insert])

theorem SmallBox.composed_codec : SmallBox.codec.Composed opened :=
  Shape.composed_codec (by simp [shape, BoxBase.shape, Entries.ofList, Entries.insert])

theorem LargeBox.composed_codec : LargeBox.codec.Composed opened :=
  Shape.composed_codec (by simp [shape, BoxBase.shape, Entries.ofList, Entries.insert])

@[simp] theorem StorageBox.composed_codec : StorageBox.codec.Composed opened :=
  .closedUnion (by simp [union, SmallBox.composed_codec, LargeBox.composed_codec])

theorem Storage.composed_codec : Storage.codec.Composed opened :=
  Shape.composed_codec (by simp [shape, Entries.ofList, Entries.insert])

theorem PolarBear.composed_codec : PolarBear.codec.Composed opened :=
  Shape.composed_codec (by simp [shape, Entries.ofList, Entries.insert])

theorem GrizzlyBear.composed_codec : GrizzlyBear.codec.Composed opened :=
  Shape.composed_codec (by simp [shape, Entries.ofList, Entries.insert])

theorem Bear.composed_codec : Bear.codec.Composed opened :=
  .closedUnion (by simp [union, PolarBear.composed_codec, GrizzlyBear.composed_codec])

theorem Chair.composed_codec : Chair.codec.Composed opened :=
  Shape.composed_codec (by simp [shape, Entries.ofList, Entries.insert])

theorem Bench.composed_codec : Bench.codec.Composed opened :=
  Shape.composed_codec (by simp [shape, Entries.ofList, Entries.insert])

@[simp] theorem Seating.composed_codec : Seating.codec.Composed opened :=
  .closedUnion (by simp [union, Chair.composed_codec, Bench.composed_codec])

@[simp] theorem Room.composed_codec : Room.codec.Composed opened :=
  Shape.composed_codec (by simp [shape, Entries.ofList, Entries.insert])

theorem Alloy.composed_codec : Alloy.codec.Composed opened :=
  Shape.composed_codec (by simp [shape, Entries.ofList, Entries.insert])

theorem CompoundName.composed_codec : CompoundName.codec.Composed opened :=
  Shape.composed_codec (by simp [shape, Entries.ofList, Entries.insert])

theorem Home.composed_codec : Home.codec.Composed opened :=
  Shape.composed_codec (by simp [shape, Entries.ofList, Entries.insert])

theorem HasScalarNullable.composed_codec : HasScalarNullable.codec.Composed opened :=
  Shape.composed_codec (by simp [shape, Entries.ofList, Entries.insert])

theorem Meeting.composed_codec : Meeting.codec.Composed opened :=
  Shape.composed_codec (by simp [shape, Entries.ofList, Entries.insert])

/-! ## Models with open unions -/

@[simp] theorem Metal.composed_codec (allowed : opened) : Metal.codec.Composed opened :=
  .openUnion allowed (by simp [union, Alloy.composed_codec])

@[simp] theorem Name.composed_codec (allowed : opened) : Name.codec.Composed opened :=
  .openUnion allowed (by simp [union, CompoundName.composed_codec])

theorem Person.composed_codec (allowed : opened) : Person.codec.Composed opened :=
  Shape.composed_codec (by simp [shape, Entries.ofList, Entries.insert, allowed])

/-! ## All types -/

/-- No open union occurs in the model. -/
def Model.Closed : Model → Prop
  | .metal | .name | .person => False
  | _ => True

/-- No open union occurs in the type. -/
def WireType.Closed : WireType → Prop
  | .box t | .list t | .record t => t.Closed
  | .model m => m.Closed
  | _ => True

theorem Model.composed_codec (m : Model) (h : m.Closed ∨ opened) : m.schema.codec.Composed opened := by
  cases m with
  | pet => exact Pet.composed_codec
  | cat => exact Cat.composed_codec
  | dog => exact Dog.composed_codec
  | home => exact Home.composed_codec
  | hasScalarNullable => exact HasScalarNullable.composed_codec
  | smallBox => exact SmallBox.composed_codec
  | largeBox => exact LargeBox.composed_codec
  | storageBox => exact StorageBox.composed_codec
  | storage => exact Storage.composed_codec
  | meeting => exact Meeting.composed_codec
  | polarBear => exact PolarBear.composed_codec
  | grizzlyBear => exact GrizzlyBear.composed_codec
  | bear => exact Bear.composed_codec
  | chair => exact Chair.composed_codec
  | bench => exact Bench.composed_codec
  | seating => exact Seating.composed_codec
  | room => exact Room.composed_codec
  | alloy => exact Alloy.composed_codec
  | metal => exact Metal.composed_codec (h.resolve_left id)
  | compoundName => exact CompoundName.composed_codec
  | name => exact Name.composed_codec (h.resolve_left id)
  | person => exact Person.composed_codec (h.resolve_left id)
  | numberNoScalar => exact NumberNoScalar.composed_codec
  | size => exact Size.composed_codec
  | metalStringValues => exact MetalStringValues.composed_codec

theorem WireType.composed_codec (t : WireType) (h : t.Closed ∨ opened) : t.codec.Composed opened := by
  induction t with
  | any => exact .any
  | string => exact .string
  | bool => exact .bool
  | int t => exact .int
  | float32 => exact .float32
  | float64 => exact .float64
  | duration => exact .duration
  | box t ih => exact ih h
  | list t ih => exact .list (ih h)
  | record t ih => exact .record (ih h)
  | model m => exact m.composed_codec h

/-! ## Shapes over sheets -/

theorem Slot.composed_access {T : Type} (slot : Slot) (lens : Lens T slot.Content) (h : slot.type.Closed ∨ opened) :
    (slot.access lens).Composed opened := by
  obtain ⟨name, kind, type⟩ := slot
  have hcodec := type.composed_codec h
  cases kind with
  | required => exact Access.composed_required.2 hcodec
  | optional => exact Access.composed_optional.2 hcodec
  | nullable => exact Access.composed_nullable.2 hcodec

/-- No open union occurs in a slot that the shape reads. -/
def Blueprint.Closed (b : Blueprint) (level : Nat) : Prop :=
  ∀ field ∈ (b.shape level).fields, ∀ (slot : Slot) lens, field.2 = slot.access lens → slot.type.Closed

theorem Blueprint.composed_fields (b : Blueprint) (level : Nat) (h : b.Closed level ∨ opened) :
    ∀ field ∈ (b.shape level).fields, field.2.Composed opened := by
  intro ⟨name, access⟩ hfield
  have hslots := h.imp_left fun hclosed => hclosed (name, access) hfield
  have honSheet := b.onSheet_shape level (name, access) hfield
  cases honSheet with
  | constant literal => exact Access.composed_constant
  | slot slot hsheet => exact slot.composed_access _ (hslots.imp_left fun hclosed => hclosed slot _ rfl)

theorem Blueprint.composed_codec (b : Blueprint) (level : Nat) (h : b.Closed level ∨ opened) :
    (b.shape level).codec.Composed opened :=
  Shape.composed_codec (b.composed_fields level h)

/-! ## Unions of labelled values -/

namespace Labelled

/-- Each case holds the values of a label and a type, and in the type no open union occurs unless allowed. -/
def Cases (opened : Prop) (cases : List (String × Case Labelled)) : Prop :=
  ∀ case ∈ cases, ∃ label t, case.2 = Labelled.case label t ∧ (t.Closed ∨ opened)

theorem Cases.composed {cases : List (String × Case Labelled)} (h : Cases opened cases) :
    ∀ case ∈ cases, case.2.codec.Composed opened := by
  intro case hcase
  obtain ⟨label, t, hlabelled, hclosed⟩ := h case hcase
  rw [hlabelled]
  exact t.composed_codec hclosed

end Labelled

end JsonWire.Sample
