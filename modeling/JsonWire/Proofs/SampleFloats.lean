/-
  JsonWire.Proofs.SampleFloats — the floats of the sample types stop their encodings.

  Every sample type is made of pieces whose floats are known: a model of its fields, a
  union of its cases, of which every value has one, and a type of the language of types of
  what it nests. So is every shape over sheets, whatever its declarations repeat, as its
  fields are constants and slots (`Blueprint.floatsKnown_codec`).

  Together with what a list of floats says about an encoding this settles which values of
  these types can be written: those whose written floats are finite. All others fail at
  the first that is not (`encoding_stops_at_first_non_finite`).
-/

import JsonWire.Proofs.Floats
import JsonWire.Proofs.SheetPlaces

namespace JsonWire.Sample

open Codec

/-! ## Models -/

@[simp] theorem Size.floatsKnown_codec : Size.codec.FloatsKnown := .enum domain floatsKnown_string

@[simp] theorem MetalStringValues.floatsKnown_codec : MetalStringValues.codec.FloatsKnown :=
  .enum domain floatsKnown_string

theorem NumberNoScalar.floatsKnown_codec : NumberNoScalar.codec.FloatsKnown := .enum domain floatsKnown_int

theorem Pet.floatsKnown_codec : Pet.codec.FloatsKnown :=
  Shape.floatsKnown_codec (by simp [shape, Entries.ofList, Entries.insert])

theorem Cat.floatsKnown_codec : Cat.codec.FloatsKnown :=
  Shape.floatsKnown_codec (by simp [shape, Entries.ofList, Entries.insert])

@[simp] theorem Dog.floatsKnown_codec : Dog.codec.FloatsKnown :=
  Shape.floatsKnown_codec (by simp [shape, Pet.shape, Entries.ofList, Entries.insert])

theorem SmallBox.floatsKnown_codec : SmallBox.codec.FloatsKnown :=
  Shape.floatsKnown_codec (by simp [shape, BoxBase.shape, Entries.ofList, Entries.insert])

theorem LargeBox.floatsKnown_codec : LargeBox.codec.FloatsKnown :=
  Shape.floatsKnown_codec (by simp [shape, BoxBase.shape, Entries.ofList, Entries.insert])

@[simp] theorem StorageBox.floatsKnown_codec : StorageBox.codec.FloatsKnown := by
  refine ClosedUnion.floatsKnown_codec fun u => ?_
  cases u with
  | small box => exact ⟨_, box, rfl, rfl, SmallBox.floatsKnown_codec, Shape.writesObjects_codec⟩
  | large box => exact ⟨_, box, rfl, rfl, LargeBox.floatsKnown_codec, Shape.writesObjects_codec⟩

theorem Storage.floatsKnown_codec : Storage.codec.FloatsKnown :=
  Shape.floatsKnown_codec (by simp [shape, Entries.ofList, Entries.insert])

theorem PolarBear.floatsKnown_codec : PolarBear.codec.FloatsKnown :=
  Shape.floatsKnown_codec (by simp [shape, Entries.ofList, Entries.insert])

theorem GrizzlyBear.floatsKnown_codec : GrizzlyBear.codec.FloatsKnown :=
  Shape.floatsKnown_codec (by simp [shape, Entries.ofList, Entries.insert])

theorem Bear.floatsKnown_codec : Bear.codec.FloatsKnown := by
  refine ClosedUnion.floatsKnown_codec fun u => ?_
  cases u with
  | polar bear => exact ⟨_, bear, rfl, rfl, PolarBear.floatsKnown_codec, Shape.writesObjects_codec⟩
  | grizzly bear => exact ⟨_, bear, rfl, rfl, GrizzlyBear.floatsKnown_codec, Shape.writesObjects_codec⟩

theorem Chair.floatsKnown_codec : Chair.codec.FloatsKnown :=
  Shape.floatsKnown_codec (by simp [shape, Entries.ofList, Entries.insert])

theorem Bench.floatsKnown_codec : Bench.codec.FloatsKnown :=
  Shape.floatsKnown_codec (by simp [shape, Entries.ofList, Entries.insert])

@[simp] theorem Seating.floatsKnown_codec : Seating.codec.FloatsKnown := by
  refine ClosedUnion.floatsKnown_codec fun u => ?_
  cases u with
  | chair held => exact ⟨_, held, rfl, rfl, Chair.floatsKnown_codec, Shape.writesObjects_codec⟩
  | bench held => exact ⟨_, held, rfl, rfl, Bench.floatsKnown_codec, Shape.writesObjects_codec⟩

@[simp] theorem Room.floatsKnown_codec : Room.codec.FloatsKnown :=
  Shape.floatsKnown_codec (by simp [shape, Entries.ofList, Entries.insert])

theorem Alloy.floatsKnown_codec : Alloy.codec.FloatsKnown :=
  Shape.floatsKnown_codec (by simp [shape, Entries.ofList, Entries.insert])

@[simp] theorem Metal.floatsKnown_codec : Metal.codec.FloatsKnown := by
  refine OpenUnion.floatsKnown_codec fun u => ?_
  cases u with
  | alloy held => exact ⟨_, held, rfl, rfl, Alloy.floatsKnown_codec⟩
  | pure metal => exact ⟨_, metal, rfl, rfl, MetalStringValues.floatsKnown_codec⟩

theorem CompoundName.floatsKnown_codec : CompoundName.codec.FloatsKnown :=
  Shape.floatsKnown_codec (by simp [shape, Entries.ofList, Entries.insert])

@[simp] theorem Name.floatsKnown_codec : Name.codec.FloatsKnown := by
  refine OpenUnion.floatsKnown_codec fun u => ?_
  cases u with
  | simple text => exact ⟨_, text, rfl, rfl, floatsKnown_string⟩
  | compound name => exact ⟨_, name, rfl, rfl, CompoundName.floatsKnown_codec⟩

theorem Person.floatsKnown_codec : Person.codec.FloatsKnown :=
  Shape.floatsKnown_codec (by simp [shape, Entries.ofList, Entries.insert])

theorem Home.floatsKnown_codec : Home.codec.FloatsKnown :=
  Shape.floatsKnown_codec (by simp [shape, Entries.ofList, Entries.insert])

theorem HasScalarNullable.floatsKnown_codec : HasScalarNullable.codec.FloatsKnown :=
  Shape.floatsKnown_codec (by simp [shape, Entries.ofList, Entries.insert])

theorem Meeting.floatsKnown_codec : Meeting.codec.FloatsKnown :=
  Shape.floatsKnown_codec (by simp [shape, Entries.ofList, Entries.insert])

/-! ## All types -/

theorem Model.floatsKnown_codec (m : Model) : m.schema.codec.FloatsKnown := by
  cases m with
  | pet => exact Pet.floatsKnown_codec
  | cat => exact Cat.floatsKnown_codec
  | dog => exact Dog.floatsKnown_codec
  | home => exact Home.floatsKnown_codec
  | hasScalarNullable => exact HasScalarNullable.floatsKnown_codec
  | smallBox => exact SmallBox.floatsKnown_codec
  | largeBox => exact LargeBox.floatsKnown_codec
  | storageBox => exact StorageBox.floatsKnown_codec
  | storage => exact Storage.floatsKnown_codec
  | meeting => exact Meeting.floatsKnown_codec
  | polarBear => exact PolarBear.floatsKnown_codec
  | grizzlyBear => exact GrizzlyBear.floatsKnown_codec
  | bear => exact Bear.floatsKnown_codec
  | chair => exact Chair.floatsKnown_codec
  | bench => exact Bench.floatsKnown_codec
  | seating => exact Seating.floatsKnown_codec
  | room => exact Room.floatsKnown_codec
  | alloy => exact Alloy.floatsKnown_codec
  | metal => exact Metal.floatsKnown_codec
  | compoundName => exact CompoundName.floatsKnown_codec
  | name => exact Name.floatsKnown_codec
  | person => exact Person.floatsKnown_codec
  | numberNoScalar => exact NumberNoScalar.floatsKnown_codec
  | size => exact Size.floatsKnown_codec
  | metalStringValues => exact MetalStringValues.floatsKnown_codec

theorem WireType.floatsKnown_codec (t : WireType) : t.codec.FloatsKnown := by
  induction t with
  | any => exact floatsKnown_any
  | string => exact floatsKnown_string
  | bool => exact floatsKnown_bool
  | int t => exact floatsKnown_int
  | float32 => exact floatsKnown_float32
  | float64 => exact floatsKnown_float64
  | duration => exact floatsKnown_duration
  | box t ih => exact ih
  | list t ih => exact ih.list
  | record t ih => exact ih.record
  | model m => exact m.floatsKnown_codec

theorem Slot.floatsKnown_access {T : Type} (slot : Slot) (lens : Lens T slot.Content) :
    (slot.access lens).FloatsKnown := by
  obtain ⟨name, kind, type⟩ := slot
  have hcodec := type.floatsKnown_codec
  cases kind with
  | required => exact Access.floatsKnown_required.2 hcodec
  | optional => exact Access.floatsKnown_optional.2 hcodec
  | nullable => exact Access.floatsKnown_nullable.2 hcodec

theorem OnSheet.floatsKnown {level : Nat} {access : Access (Layered level)} (h : OnSheet level access) :
    access.FloatsKnown := by
  cases h with
  | constant literal => exact Access.floatsKnown_constant
  | slot slot hsheet => exact slot.floatsKnown_access _

theorem Blueprint.floatsKnown_codec (b : Blueprint) (level : Nat) : (b.shape level).codec.FloatsKnown :=
  Shape.floatsKnown_codec fun field hfield => (b.onSheet_shape level field hfield).floatsKnown

/-! ## Non-finite floats -/

/-- An encoding fails exactly if a float that it writes is not finite, and then it fails at the first of
them: that float is the root cause, and the fields of the failure are the way to it. The floats written
are those of the fields of a shape that are there and no constants, of the elements, of the entries and
of the case that a union holds. Every value of the sample types has them, and so has every value of a
shape over sheets. A single is finite exactly as the double it is written as. -/
theorem encoding_stops_at_first_non_finite :
    (∀ {α : Type} (codec : Codec α) (value : α) (floats : List FloatAt), codec.WritesFloats value floats →
      ((∃ json, (codec.encode value).result = .ok json) ↔ ∀ float ∈ floats, float.number.isFinite = true)
      ∧ ∀ e, (codec.encode value).result = .error e →
        ∃ before stop after, floats = before ++ stop :: after
          ∧ (∀ float ∈ before, float.number.isFinite = true) ∧ stop.number.isFinite = false
          ∧ e.fields = stop.path ∧ e.rootCause = .nonFinite stop.number)
    ∧ (∀ (t : WireType) (value : t.Carrier), ∃ floats, t.codec.WritesFloats value floats)
    ∧ (∀ (b : Blueprint) (level : Nat) (value : Layered level),
        ∃ floats, (b.shape level).codec.WritesFloats value floats)
    ∧ ∀ x : Single, x.widen.isFinite = x.isFinite := by
  refine ⟨fun codec value floats h => ⟨h.stopsAt.ok_iff, fun e he => h.stopsAt.of_error he⟩,
    fun t value => t.floatsKnown_codec value, fun b level value => b.floatsKnown_codec level value, fun x => ?_⟩
  exact Bool.eq_iff_iff.2 ⟨Single.isFinite_of_widen, Single.isFinite_widen⟩

namespace Infinite

def infinity : Double := ⟨false, Format.double.infinityCode, Format.double.infinityCode_lt⟩

def hall : Room := ⟨"Hall", [.chair default, .bench ⟨infinity, default⟩]⟩

def home : Home := ⟨"Elm Street", none, ⟨[("hall", hall)], by simp [Entries.keys]⟩⟩

def length : Slot := ⟨"f64", .required, .float64⟩

def parent : Blueprint := .mk "Parent" .treatAsAbsent [.field "length" length]

/-- The length is a constant in the child. -/
def child : Blueprint := .mk "Child" .treatAsAbsent [.inherits parent, .constant "length" (.str "long")]

/-- An infinite length in the sheet that the child inherits. -/
def layered : Layered 1 := (⟨default, Sheet.put length infinity default⟩ : Layer (Layered 0))

/-- A home is stopped by the length of a bench in one of its rooms. A child whose constant stands in place
of the length writes no float that is not finite, its parent does. -/
theorem bench_stops_its_home :
    (∃ before stop after, Home.codec.WritesFloats home (before ++ stop :: after)
      ∧ stop.path = ["rooms", "hall", "seating", "[1]", "length"] ∧ stop.number = infinity)
    ∧ (∃ floats, (child.shape 1).codec.WritesFloats layered floats ∧ ∀ float ∈ floats, float.number.isFinite = true)
    ∧ ∃ floats, (parent.shape 0).codec.WritesFloats (Layer.base layered) floats
      ∧ ¬ ∀ float ∈ floats, float.number.isFinite = true := by
  obtain ⟨general, types, shapes, -⟩ := encoding_stops_at_first_non_finite
  refine ⟨?_, ?_, ?_⟩
  · obtain ⟨floats, hfloats⟩ := types (.model .home) home
    have hstopped : (Home.codec.encode home).result = .error (.inField "rooms" (.inField "hall" (.inField "seating"
        (.inField "[1]" (.inField "length" (.nonFinite infinity)))))) := rfl
    obtain ⟨before, stop, after, rfl, -, -, hpath, hcause⟩ := (general _ _ _ hfloats).2 _ hstopped
    exact ⟨before, stop, after, hfloats, hpath.symm, (CodecError.nonFinite.inj hcause).symm⟩
  · obtain ⟨floats, hfloats⟩ := shapes child 1 layered
    have hwritten : ((child.shape 1).codec.encode layered).result = .ok (.obj [("length", .str "long")]) := rfl
    exact ⟨floats, hfloats, (general _ _ _ hfloats).1.1 ⟨_, hwritten⟩⟩
  · obtain ⟨floats, hfloats⟩ := shapes parent 0 (Layer.base layered)
    refine ⟨floats, hfloats, fun finite => ?_⟩
    obtain ⟨json, hjson⟩ := (general _ _ _ hfloats).1.2 finite
    cases hjson

end Infinite

end JsonWire.Sample
