/-
  JsonWire.Proofs.SampleMade — the codecs of the sample types are made.

  Each model is a shape with fields at independent places, a union of such shapes or a
  domain over a scalar; every type of the language of types, and every shape over sheets,
  is made of these (`WireType.made_codec`, `Blueprint.made_fields`).
-/

import JsonWire.Proofs.Made
import JsonWire.Proofs.SamplePlaces
import JsonWire.Proofs.SheetPlaces

namespace JsonWire.Sample

open Codec

/-! ## Models -/

@[simp] theorem Size.made_codec : Size.codec.Made :=
  .enum Size.domain (fun _ => rfl) faithful_string flat_string

@[simp] theorem MetalStringValues.made_codec : MetalStringValues.codec.Made :=
  .enum MetalStringValues.domain (fun _ => rfl) faithful_string flat_string

@[simp] theorem NumberNoScalar.made_codec : NumberNoScalar.codec.Made :=
  .enum NumberNoScalar.domain (fun _ => rfl) faithful_int (flat_int .int64)

theorem Pet.made_codec : Pet.codec.Made :=
  Shape.made_codec Pet.disjoint_shape.uniform (by simp [shape, Entries.ofList, Entries.insert])

theorem Cat.made_codec : Cat.codec.Made :=
  Shape.made_codec Cat.disjoint_shape.uniform (by simp [shape, Entries.ofList, Entries.insert])

@[simp] theorem Dog.made_codec : Dog.codec.Made :=
  Shape.made_codec Dog.disjoint_shape.uniform (by simp [shape, Pet.shape, Entries.ofList, Entries.insert])

theorem SmallBox.made_codec : SmallBox.codec.Made :=
  Shape.made_codec SmallBox.disjoint_shape.uniform (by simp [shape, BoxBase.shape, Entries.ofList, Entries.insert])

theorem LargeBox.made_codec : LargeBox.codec.Made :=
  Shape.made_codec LargeBox.disjoint_shape.uniform (by simp [shape, BoxBase.shape, Entries.ofList, Entries.insert])

theorem StorageBox.lawful_cases :
    ∀ case ∈ StorageBox.union.cases, case.2.Coherent case.1 ∧ case.2.codec.Objects StorageBox.union.key := by
  simp only [union, List.forall_mem_cons]
  exact ⟨⟨⟨fun _ => rfl, fun _ => rfl⟩, Shape.objects_codec (by decide)⟩,
    ⟨⟨fun _ => rfl, fun _ => rfl⟩, Shape.objects_codec (by decide)⟩, nofun⟩

@[simp] theorem StorageBox.made_codec : StorageBox.codec.Made :=
  .closedUnion StorageBox.lawful_cases (by simp [union, SmallBox.made_codec, LargeBox.made_codec])

theorem Storage.made_codec : Storage.codec.Made :=
  Shape.made_codec Storage.disjoint_shape.uniform (by simp [shape, Entries.ofList, Entries.insert])

theorem PolarBear.made_codec : PolarBear.codec.Made :=
  Shape.made_codec PolarBear.disjoint_shape.uniform (by simp [shape, Entries.ofList, Entries.insert])

theorem GrizzlyBear.made_codec : GrizzlyBear.codec.Made :=
  Shape.made_codec GrizzlyBear.disjoint_shape.uniform (by simp [shape, Entries.ofList, Entries.insert])

theorem Bear.lawful_cases :
    ∀ case ∈ Bear.union.cases, case.2.Coherent case.1 ∧ case.2.codec.Objects Bear.union.key := by
  simp only [union, List.forall_mem_cons]
  exact ⟨⟨⟨fun _ => rfl, fun _ => rfl⟩, Shape.objects_codec (by decide)⟩,
    ⟨⟨fun _ => rfl, fun _ => rfl⟩, Shape.objects_codec (by decide)⟩, nofun⟩

theorem Bear.made_codec : Bear.codec.Made :=
  .closedUnion Bear.lawful_cases (by simp [union, PolarBear.made_codec, GrizzlyBear.made_codec])

theorem Chair.made_codec : Chair.codec.Made :=
  Shape.made_codec Chair.disjoint_shape.uniform (by simp [shape, Entries.ofList, Entries.insert])

theorem Bench.made_codec : Bench.codec.Made :=
  Shape.made_codec Bench.disjoint_shape.uniform (by simp [shape, Entries.ofList, Entries.insert])

theorem Seating.lawful_cases :
    ∀ case ∈ Seating.union.cases, case.2.Coherent case.1 ∧ case.2.codec.Objects Seating.union.key := by
  simp only [union, List.forall_mem_cons]
  exact ⟨⟨⟨fun _ => rfl, fun _ => rfl⟩, Shape.objects_codec (by decide)⟩,
    ⟨⟨fun _ => rfl, fun _ => rfl⟩, Shape.objects_codec (by decide)⟩, nofun⟩

@[simp] theorem Seating.made_codec : Seating.codec.Made :=
  .closedUnion Seating.lawful_cases (by simp [union, Chair.made_codec, Bench.made_codec])

@[simp] theorem Room.made_codec : Room.codec.Made :=
  Shape.made_codec Room.disjoint_shape.uniform (by simp [shape, Entries.ofList, Entries.insert])

theorem Alloy.made_codec : Alloy.codec.Made :=
  Shape.made_codec Alloy.disjoint_shape.uniform (by simp [shape, Entries.ofList, Entries.insert])

theorem Metal.coherent_candidates : ∀ candidate ∈ Metal.union.candidates, candidate.2.Coherent candidate.1 := by
  simp only [union, List.forall_mem_cons]
  exact ⟨⟨fun _ => rfl, fun _ => rfl⟩, ⟨fun _ => rfl, fun _ => rfl⟩, nofun⟩

@[simp] theorem Metal.made_codec : Metal.codec.Made :=
  .openUnion Metal.coherent_candidates (by simp [union, Alloy.made_codec])

theorem CompoundName.made_codec : CompoundName.codec.Made :=
  Shape.made_codec CompoundName.disjoint_shape.uniform (by simp [shape, Entries.ofList, Entries.insert])

theorem Name.coherent_candidates : ∀ candidate ∈ Name.union.candidates, candidate.2.Coherent candidate.1 := by
  simp only [union, List.forall_mem_cons]
  exact ⟨⟨fun _ => rfl, fun _ => rfl⟩, ⟨fun _ => rfl, fun _ => rfl⟩, nofun⟩

@[simp] theorem Name.made_codec : Name.codec.Made :=
  .openUnion Name.coherent_candidates (by simp [union, CompoundName.made_codec])

theorem Person.made_codec : Person.codec.Made :=
  Shape.made_codec Person.disjoint_shape.uniform (by simp [shape, Entries.ofList, Entries.insert])

theorem Home.made_codec : Home.codec.Made :=
  Shape.made_codec Home.disjoint_shape.uniform (by simp [shape, Entries.ofList, Entries.insert])

theorem HasScalarNullable.made_codec : HasScalarNullable.codec.Made :=
  Shape.made_codec HasScalarNullable.disjoint_shape.uniform (by simp [shape, Entries.ofList, Entries.insert])

theorem Meeting.made_codec : Meeting.codec.Made :=
  Shape.made_codec Meeting.disjoint_shape.uniform (by simp [shape, Entries.ofList, Entries.insert])

/-! ## All types -/

theorem Model.made_codec (m : Model) : m.schema.codec.Made := by
  cases m with
  | pet => exact Pet.made_codec
  | cat => exact Cat.made_codec
  | dog => exact Dog.made_codec
  | home => exact Home.made_codec
  | hasScalarNullable => exact HasScalarNullable.made_codec
  | smallBox => exact SmallBox.made_codec
  | largeBox => exact LargeBox.made_codec
  | storageBox => exact StorageBox.made_codec
  | storage => exact Storage.made_codec
  | meeting => exact Meeting.made_codec
  | polarBear => exact PolarBear.made_codec
  | grizzlyBear => exact GrizzlyBear.made_codec
  | bear => exact Bear.made_codec
  | chair => exact Chair.made_codec
  | bench => exact Bench.made_codec
  | seating => exact Seating.made_codec
  | room => exact Room.made_codec
  | alloy => exact Alloy.made_codec
  | metal => exact Metal.made_codec
  | compoundName => exact CompoundName.made_codec
  | name => exact Name.made_codec
  | person => exact Person.made_codec
  | numberNoScalar => exact NumberNoScalar.made_codec
  | size => exact Size.made_codec
  | metalStringValues => exact MetalStringValues.made_codec

theorem WireType.made_codec (t : WireType) : t.codec.Made := by
  induction t with
  | any => exact .any
  | string => exact .string
  | bool => exact .bool
  | int t => exact .int t
  | float32 => exact .float32
  | float64 => exact .float64
  | duration => exact .duration
  | box t ih => exact ih
  | list t ih => exact .list ih
  | record t ih => exact .record ih
  | model m => exact m.made_codec

theorem Slot.made_access {T : Type} (slot : Slot) (lens : Lens T slot.Content) : (slot.access lens).Made := by
  obtain ⟨name, kind, type⟩ := slot
  have hcodec := type.made_codec
  cases kind with
  | required => exact Access.made_required.2 hcodec
  | optional => exact Access.made_optional.2 hcodec
  | nullable => exact Access.made_nullable.2 hcodec

theorem OnSheet.made {level : Nat} {access : Access (Layered level)} (h : OnSheet level access) : access.Made := by
  cases h with
  | constant literal => exact Access.made_constant
  | slot slot hsheet => exact slot.made_access _

theorem Blueprint.made_fields (b : Blueprint) (level : Nat) : ∀ field ∈ (b.shape level).fields, field.2.Made :=
  fun field hfield => (b.onSheet_shape level field hfield).made

theorem Blueprint.made_codec (b : Blueprint) (level : Nat) : (b.shape level).codec.Made :=
  Shape.made_codec (b.uniform_shape level) (b.made_fields level)

end JsonWire.Sample
