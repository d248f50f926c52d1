/-
  JsonWire.Proofs.SampleReporting — the keys that readings of the sample types tell of.

  Every type of the language of types, every shape over sheets and every union of
  labelled values tells of the keys that the walk through the document collects, in its
  order (`passed_over_keys_are_told_in_order`). A shape whose reading fails tells of
  none of its own undeclared keys; one that is read tells of them last, after the
  values inside it.
-/

import JsonWire.Proofs.Reporting
import JsonWire.Proofs.SampleComposed

namespace JsonWire.Sample

theorem passed_over_keys_are_told_in_order :
    (∀ (α : Type) (codec : Codec α), codec.Composed True → ∀ raw events,
      Reports codec raw events ↔ (codec.decode raw).events.filter (·.level = .trace) = events)
    ∧ (∀ t : WireType, t.codec.Composed True)
    ∧ (∀ (b : Blueprint) level, (b.shape level).codec.Composed True)
    ∧ (∀ union : ClosedUnion Labelled, Labelled.Cases True union.cases → union.codec.Composed True
        ∧ ∀ raw, (union.codec.decode raw).events = (union.decode raw).events)
    ∧ (∀ union : OpenUnion Labelled, Labelled.Cases True union.candidates → union.codec.Composed True
        ∧ ∀ raw, (union.codec.decode raw).events = (union.decode raw).events)
    ∧ ∀ (T : Type) (shape : Shape T) (members : List (String × Json)) (target : T),
      let told := (shape.patch (.obj members) target).events.filter (·.level = .trace)
      let inside := (shape.readings members).flatMap fun reading =>
        (Shape.readField shape.nullPolicy reading.1 reading.2).traces
      (∀ e, (shape.patch (.obj members) target).result = .error e → told = inside)
      ∧ ∀ result, (shape.patch (.obj members) target).result = .ok result →
        told = inside ++ ((Entries.keys members).filter (· ∉ shape.names)).map (.unknownKey shape.name) := by
  refine ⟨fun α codec h raw events => h.reports_iff, fun t => t.composed_codec (.inr trivial),
    fun b level => b.composed_codec level (.inr trivial), fun union h => ⟨.closedUnion h.composed, fun raw => ?_⟩,
    fun union h => ⟨.openUnion trivial h.composed, fun raw => ?_⟩, fun T shape members target => ?_⟩
  · exact Traced.events_bind_pure _ _
  · exact Traced.events_bind_pure _ _
  · have htold := shape.traces_patch members target
    refine ⟨fun e he => ?_, fun result hresult => ?_⟩
    · rwa [Shape.leftover_of_error he, List.append_nil] at htold
    · rwa [Shape.leftover_of_ok hresult] at htold

/-- A chair with a key too much, in a room that has one as well: the chair tells first and then the room. With
a bench behind it that is not read, neither the bench nor the room tells of a key of its own. -/
theorem chair_tells_before_its_room :
    let chair := Json.obj [("kind", .str "chair"), ("cushion", .bool true), ("legs", .num (.int 4 (by decide)))]
    let bench := Json.obj [("kind", .str "bench"), ("cushion", .bool true), ("seats", .str "many")]
    let room (seats : List Json) := Json.obj [("floor", .null), ("name", .str "r"), ("seating", .arr seats)]
    Reports Room.codec (room [chair])
      [.unknownKey "Chair" "kind", .unknownKey "Chair" "cushion", .unknownKey "Room" "floor"]
    ∧ Reports Room.codec (room [chair, bench, chair]) [.unknownKey "Chair" "kind", .unknownKey "Chair" "cushion"] := by
  intro chair bench room
  obtain ⟨told, types, -⟩ := passed_over_keys_are_told_in_order
  have composed : Room.codec.Composed True := types (.model .room)
  exact ⟨(told _ Room.codec composed _ _).2 rfl, (told _ Room.codec composed _ _).2 rfl⟩

end JsonWire.Sample
