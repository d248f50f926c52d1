/-
  JsonWire.Proofs.SampleSettling — every document that a sample type reads has a normal form.

  A value that was read has an encoding, and where every size in it is one of the two
  that its domain has (`WireType.Known`), the encoding is read as the same value
  (`accepted_documents_settle`). A size that is no member cannot be read, but it is the
  default of a field without a member.
-/

import JsonWire.Proofs.SampleMade

namespace JsonWire.Sample

open Codec Declaration

/-! ## Sizes -/

def StorageBox.Known : StorageBox → Prop
  | .small _ => True
  | .large box => box.size.isKnown = true

def Bear.Known : Bear → Prop
  | .polar bear => bear.size.isKnown = true
  | .grizzly _ => True

/-- Every size in a value of the model is a member of its domain. -/
def Model.Known : (m : Model) → m.schema.Carrier → Prop
  | .size => fun size : Size => size.isKnown = true
  | .largeBox => fun box : LargeBox => box.size.isKnown = true
  | .storageBox => StorageBox.Known
  | .storage => fun storage : Storage => storage.box.Known
  | .polarBear => fun bear : PolarBear => bear.size.isKnown = true
  | .bear => Bear.Known
  | _ => fun _ => True

/-- Every size in a value of the type is a member of its domain. -/
def WireType.Known : (t : WireType) → t.Carrier → Prop
  | .box t => t.Known
  | .list t => fun values : List t.Carrier => ∀ value ∈ values, t.Known value
  | .record t => fun values : Record t.Carrier => ∀ entry ∈ values.entries, t.Known entry.2
  | .model m => m.Known
  | _ => fun _ => True

theorem Size.keeps_codec (size : Size) : Size.codec.Keeps (fun size => size.isKnown = true) size := by
  have hscalar := (Size.domain.keeps_codec (keeps_string size.text)).imap Size.mk Size.text rfl
  refine hscalar.mono fun h => ?_
  exact Bool.or_eq_true_iff.2 (.inr h)

theorem MetalStringValues.keeps_codec (metal : MetalStringValues) :
    MetalStringValues.codec.Keeps (fun _ => True) metal := by
  have hscalar := (MetalStringValues.domain.keeps_codec (keeps_string metal.text)).imap .mk text rfl
  exact hscalar.mono fun _ => rfl

theorem NumberNoScalar.keeps_codec (n : NumberNoScalar) : NumberNoScalar.codec.Keeps (fun _ => True) n := by
  have hscalar := (NumberNoScalar.domain.keeps_codec (keeps_int n.number)).imap .mk number rfl
  exact hscalar.mono fun _ => rfl

/-! ## Shapes -/

theorem Pet.settles_shape : Pet.shape.Settles fun _ => True := by
  refine Shape.settles_build ?_
  simp only [List.forall_mem_cons]
  exact ⟨settles_required settles_string (keeps_string _), settles_required settles_int (keeps_int _),
    settles_optional settles_string neverNull_string rfl, settles_nullable settles_string neverNull_string rfl,
    settles_required (settles_list settles_string) keeps_nil, nofun⟩

theorem Cat.settles_codec : Cat.codec.Settles fun _ => True := by
  refine Cat.disjoint_shape.settles_codec (Shape.settles_build ?_)
  simp only [List.forall_mem_cons]
  exact ⟨settles_required settles_string (keeps_string _), settles_required settles_int (keeps_int _), nofun⟩

theorem Dog.settles_codec : Dog.codec.Settles fun _ => True := by
  refine Dog.disjoint_shape.settles_codec (Shape.settles_build ?_)
  simp only [List.forall_mem_cons]
  exact ⟨settles_inherits Pet.settles_shape rfl fun _ _ => trivial, settles_constant,
    settles_required settles_int (keeps_int _), settles_optional settles_string neverNull_string rfl, nofun⟩

theorem BoxBase.settles_shape : BoxBase.shape.Settles fun _ => True := by
  refine Shape.settles_build ?_
  simp only [List.forall_mem_cons]
  exact ⟨settles_optional settles_string neverNull_string rfl, nofun⟩

theorem SmallBox.settles_codec : SmallBox.codec.Settles fun _ => True := by
  refine SmallBox.disjoint_shape.settles_codec (Shape.settles_build ?_)
  simp only [List.forall_mem_cons]
  exact ⟨settles_inherits BoxBase.settles_shape rfl fun _ _ => trivial, nofun⟩

theorem LargeBox.settles_codec : LargeBox.codec.Settles fun box => box.size.isKnown = true := by
  refine LargeBox.disjoint_shape.settles_codec (Shape.settles_build ?_)
  simp only [List.forall_mem_cons]
  exact ⟨settles_inherits BoxBase.settles_shape rfl fun _ _ => trivial,
    settles_field (.required (.of_keeps Size.keeps_codec) (Size.keeps_codec _) fun _ h => h), nofun⟩

theorem PolarBear.settles_codec : PolarBear.codec.Settles fun bear => bear.size.isKnown = true := by
  refine PolarBear.disjoint_shape.settles_codec (Shape.settles_build ?_)
  simp only [List.forall_mem_cons]
  exact ⟨settles_field (.required (.of_keeps Size.keeps_codec) (Size.keeps_codec _) fun _ h => h), nofun⟩

theorem GrizzlyBear.settles_codec : GrizzlyBear.codec.Settles fun _ => True := by
  refine GrizzlyBear.disjoint_shape.settles_codec (Shape.settles_build ?_)
  simp only [List.forall_mem_cons]
  exact ⟨settles_required settles_string (keeps_string _),
    settles_nullable settles_string neverNull_string rfl, nofun⟩

theorem Chair.settles_codec : Chair.codec.Settles fun _ => True := by
  refine Chair.disjoint_shape.settles_codec (Shape.settles_build ?_)
  simp only [List.forall_mem_cons]
  exact ⟨settles_required settles_int (keeps_int _), nofun⟩

theorem Bench.settles_codec : Bench.codec.Settles fun _ => True := by
  refine Bench.disjoint_shape.settles_codec (Shape.settles_build ?_)
  simp only [List.forall_mem_cons]
  exact ⟨settles_required settles_float64 (keeps_float64 rfl), settles_required settles_int (keeps_int _), nofun⟩

theorem Alloy.settles_codec : Alloy.codec.Settles fun _ => True := by
  refine Alloy.disjoint_shape.settles_codec (Shape.settles_build ?_)
  simp only [List.forall_mem_cons]
  exact ⟨settles_required settles_string (keeps_string _),
    settles_required settles_float64 (keeps_float64 rfl), nofun⟩

theorem CompoundName.settles_codec : CompoundName.codec.Settles fun _ => True := by
  refine CompoundName.disjoint_shape.settles_codec (Shape.settles_build ?_)
  simp only [List.forall_mem_cons]
  exact ⟨settles_required settles_string (keeps_string _),
    settles_optional settles_string neverNull_string rfl, nofun⟩

/-! ## Unions, and shapes around them -/

theorem StorageBox.settles_codec : StorageBox.codec.Settles StorageBox.Known := by
  refine ClosedUnion.settles_codec StorageBox.lawful_cases ?_
  simp only [union, List.forall_mem_cons]
  exact ⟨SmallBox.settles_codec, LargeBox.settles_codec, List.forall_mem_nil _⟩

theorem Bear.settles_codec : Bear.codec.Settles Bear.Known := by
  refine ClosedUnion.settles_codec Bear.lawful_cases ?_
  simp only [union, List.forall_mem_cons]
  exact ⟨PolarBear.settles_codec, GrizzlyBear.settles_codec, List.forall_mem_nil _⟩

theorem Seating.settles_codec : Seating.codec.Settles fun _ => True := by
  refine ClosedUnion.settles_codec Seating.lawful_cases ?_
  simp only [union, List.forall_mem_cons]
  exact ⟨Chair.settles_codec, Bench.settles_codec, List.forall_mem_nil _⟩

/-- A bare metal is a string, and no string is an alloy. -/
theorem Metal.pairwise_refuses : Metal.union.candidates.Pairwise fun a b => a.2.Refuses b.2 := by
  refine List.pairwise_pair.2 ?_
  intro metal json hencode
  cases hencode
  exact ⟨_, rfl⟩

/-- A compound name is an object, and no object is a simple one. -/
theorem Name.pairwise_refuses : Name.union.candidates.Pairwise fun a b => a.2.Refuses b.2 := by
  refine List.pairwise_pair.2 ?_
  intro name json hencode
  obtain ⟨members, -, rfl⟩ := Shape.encode_eq_ok.1 hencode
  exact ⟨_, rfl⟩

theorem Metal.settles_codec : Metal.codec.Settles fun _ => True := by
  refine OpenUnion.settles_codec Metal.coherent_candidates ?_ Metal.pairwise_refuses
  simp only [union, List.forall_mem_cons]
  exact ⟨Alloy.settles_codec, .of_keeps MetalStringValues.keeps_codec, List.forall_mem_nil _⟩

theorem Name.settles_codec : Name.codec.Settles fun _ => True := by
  refine OpenUnion.settles_codec Name.coherent_candidates ?_ Name.pairwise_refuses
  simp only [union, List.forall_mem_cons]
  exact ⟨settles_string, CompoundName.settles_codec, List.forall_mem_nil _⟩

theorem Name.neverNull_codec : Name.codec.NeverNull := by
  intro name
  cases name with
  | simple text => nofun
  | compound name => exact CompoundName.shape.neverNull_codec name

theorem Storage.settles_codec : Storage.codec.Settles fun storage => storage.box.Known := by
  have hdefault : StorageBox.codec.Keeps StorageBox.Known default :=
    StorageBox.settles_codec (.obj [("type", .str "small")]) default rfl
  refine Storage.disjoint_shape.settles_codec (Shape.settles_build ?_)
  simp only [List.forall_mem_cons]
  exact ⟨settles_field (.required StorageBox.settles_codec hdefault fun _ h => h), nofun⟩

theorem Room.settles_codec : Room.codec.Settles fun _ => True := by
  refine Room.disjoint_shape.settles_codec (Shape.settles_build ?_)
  simp only [List.forall_mem_cons]
  exact ⟨settles_required settles_string (keeps_string _),
    settles_required (settles_list Seating.settles_codec) keeps_nil, nofun⟩

theorem Person.settles_codec : Person.codec.Settles fun _ => True := by
  refine Person.disjoint_shape.settles_codec (Shape.settles_build ?_)
  simp only [List.forall_mem_cons]
  exact ⟨settles_nullable Name.settles_codec Name.neverNull_codec rfl,
    settles_required (settles_list Metal.settles_codec) keeps_nil, nofun⟩

theorem Home.settles_codec : Home.codec.Settles fun _ => True := by
  refine Home.disjoint_shape.settles_codec (Shape.settles_build ?_)
  simp only [List.forall_mem_cons]
  exact ⟨settles_required settles_string (keeps_string _),
    settles_optional Dog.settles_codec Dog.shape.neverNull_codec rfl,
    settles_required (settles_record Room.settles_codec) keeps_empty, nofun⟩

theorem HasScalarNullable.settles_codec : HasScalarNullable.codec.Settles fun _ => True := by
  refine HasScalarNullable.disjoint_shape.settles_codec (Shape.settles_build ?_)
  simp only [List.forall_mem_cons]
  exact ⟨settles_nullable settles_string neverNull_string rfl, nofun⟩

theorem Meeting.settles_codec : Meeting.codec.Settles fun _ => True := by
  refine Meeting.disjoint_shape.settles_codec (Shape.settles_build ?_)
  simp only [List.forall_mem_cons]
  exact ⟨settles_required settles_string (keeps_string _),
    settles_required (.of_keeps keeps_duration) (keeps_duration _),
    settles_optional (.of_keeps keeps_duration) neverNull_duration rfl, nofun⟩

/-! ## All types -/

theorem Model.settles_codec (m : Model) : m.schema.codec.Settles m.Known := by
  cases m with
  | pet => exact Pet.disjoint_shape.settles_codec Pet.settles_shape
  | cat => exact Cat.settles_codec
  | dog => exact Dog.settles_codec
  | home => exact Home.settles_codec
  | hasScalarNullable => exact HasScalarNullable.settles_codec
  | smallBox => exact SmallBox.settles_codec
  | largeBox => exact LargeBox.settles_codec
  | storageBox => exact StorageBox.settles_codec
  | storage => exact Storage.settles_codec
  | meeting => exact Meeting.settles_codec
  | polarBear => exact PolarBear.settles_codec
  | grizzlyBear => exact GrizzlyBear.settles_codec
  | bear => exact Bear.settles_codec
  | chair => exact Chair.settles_codec
  | bench => exact Bench.settles_codec
  | seating => exact Seating.settles_codec
  | room => exact Room.settles_codec
  | alloy => exact Alloy.settles_codec
  | metal => exact Metal.settles_codec
  | compoundName => exact CompoundName.settles_codec
  | name => exact Name.settles_codec
  | person => exact Person.settles_codec
  | numberNoScalar => exact .of_keeps NumberNoScalar.keeps_codec
  | size => exact .of_keeps Size.keeps_codec
  | metalStringValues => exact .of_keeps MetalStringValues.keeps_codec

theorem WireType.settles_codec (t : WireType) : t.codec.Settles t.Known := by
  induction t with
  | any => exact .of_keeps keeps_any
  | string => exact settles_string
  | bool => exact .of_keeps keeps_bool
  | int t => exact settles_int
  | float32 => exact settles_float32
  | float64 => exact settles_float64
  | duration => exact .of_keeps keeps_duration
  | box t ih => exact ih
  | list t ih => exact ih.list
  | record t ih => exact ih.record
  | model m => exact m.settles_codec

/-- What a type reads from a document it can write, and with every size a known one the written document
is a normal form: it is read as the same value, which is written as the same document. -/
theorem accepted_documents_settle (t : WireType) (raw : Json) (value : t.Carrier)
    (h : (t.codec.decode raw).result = .ok value) :
    ∃ normal, (t.codec.encode value).result = .ok normal
      ∧ (t.Known value → (t.codec.decode normal).result = .ok value
        ∧ ∀ again, (t.codec.decode normal).result = .ok again → (t.codec.encode again).result = .ok normal) := by
  obtain ⟨normal, hencode, hdecode⟩ := t.settles_codec raw value h
  refine ⟨normal, hencode, fun hknown => ⟨hdecode hknown, fun again hagain => ?_⟩⟩
  obtain rfl : value = again := Except.ok.inj ((hdecode hknown).symm.trans hagain)
  exact hencode

/-- A home whose dog calls itself a cat and whose bench has a whole number for a length, and boxes of
which one has an unknown key in front and one has a null. -/
theorem home_and_boxes_have_normal_forms :
    let bench := Json.obj [("seats", .num (.int 4 (by decide))), ("length", .num (.int 2 (by decide))),
      ("kind", .str "bench")]
    let home := Json.obj [("dog", .obj [("species", .str "cat"), ("name", .str "Rex"), ("nickname", .null)]),
      ("rooms", .obj [("hall", .obj [("seating", .arr [bench])])])]
    let boxes := Json.arr [.obj [("color", .bool true), ("size", .str "small"), ("type", .str "large")],
      .obj [("label", .null), ("type", .str "small")]]
    (∃ value, ((WireType.model .home).codec.decode home).result = .ok value
      ∧ ∃ normal, ((WireType.model .home).codec.encode value).result = .ok normal
        ∧ ((WireType.model .home).codec.decode normal).result = .ok value)
    ∧ ∃ value, ((WireType.list (.model .storageBox)).codec.decode boxes).result = .ok value
      ∧ (WireType.list (.model .storageBox)).Known value
      ∧ ∃ normal, ((WireType.list (.model .storageBox)).codec.encode value).result = .ok normal
        ∧ ((WireType.list (.model .storageBox)).codec.decode normal).result = .ok value := by
  intro bench home boxes
  constructor
  · obtain ⟨normal, hencode, hdecode⟩ := accepted_documents_settle (.model .home) home _ rfl
    exact ⟨_, rfl, normal, hencode, (hdecode trivial).1⟩
  · have hknown : (WireType.list (.model .storageBox)).Known [.large ⟨⟨none⟩, ⟨"small"⟩⟩, .small ⟨⟨none⟩⟩] := by
      refine List.forall_mem_cons.2 ⟨rfl, List.forall_mem_cons.2 ⟨trivial, nofun⟩⟩
    obtain ⟨normal, hencode, hdecode⟩ := accepted_documents_settle (.list (.model .storageBox)) boxes _ rfl
    exact ⟨_, rfl, hknown, normal, hencode, (hdecode hknown).1⟩

end JsonWire.Sample
