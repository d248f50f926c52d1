/-
  JsonWire.Proofs.SampleAnnouncing — the debug events of unions agree with their errors.

  A type in which no open union occurs has one debug event at most, the last, and it is
  that of the unknown tag which the reading fails at. An open union adds the rejections
  of the candidates that fail, each after all that the candidate itself reports and with
  the text of its error, and if all fail they are the failures it lists
  (`debug_events_agree_with_errors`).
-/

import JsonWire.Proofs.Announcing
import JsonWire.Proofs.Rejecting
import JsonWire.Proofs.SampleComposed

namespace JsonWire.Sample

theorem debug_events_agree_with_errors :
    (∀ (α : Type) (codec : Codec α), codec.Composed False → ∀ raw, (codec.decode raw).AnnouncesTag)
    ∧ (∀ (T : Type) (shape : Shape T), (∀ field ∈ shape.fields, field.2.Composed False) →
        ∀ raw target, (shape.patch raw target).AnnouncesTag)
    ∧ (∀ (U : Type) (union : ClosedUnion U), (∀ case ∈ union.cases, case.2.codec.Composed False) →
        ∀ raw, (union.decode raw).AnnouncesTag)
    ∧ (∀ t : WireType, t.Closed → t.codec.Composed False)
    ∧ (∀ (b : Blueprint) level, b.Closed level → ∀ field ∈ (b.shape level).fields, field.2.Composed False)
    ∧ (∀ cases, Labelled.Cases False cases → ∀ case ∈ cases, case.2.codec.Composed False)
    ∧ (∀ (U : Type) (union : OpenUnion U) (raw : Json),
        (∀ found, (union.decode raw).result = .ok found →
          ∃ before candidate case after failures payload, union.candidates = before ++ (candidate, case) :: after
            ∧ OpenUnion.Tried raw before failures ∧ (case.codec.decode raw).result = .ok payload
            ∧ found = ⟨candidate, case.wrap payload⟩
            ∧ (union.decode raw).events
              = OpenUnion.rejections union.name raw before failures ++ (case.codec.decode raw).events)
        ∧ ∀ e, (union.decode raw).result = .error e →
          ∃ failures, OpenUnion.Tried raw union.candidates failures ∧ e = .allVariantsFailed union.name failures
            ∧ (union.decode raw).events = OpenUnion.rejections union.name raw union.candidates failures)
    ∧ ∀ (U : Type) (name : String) (raw : Json) (candidates : List (String × Case U))
        (failures : List (String × CodecError)), OpenUnion.Tried raw candidates failures →
        (OpenUnion.rejections name raw candidates failures).map Event.shown
          = (candidates.zip failures).flatMap fun (candidate, failure) =>
              (candidate.2.codec.decode raw).events.map Event.shown
                ++ [(.debug, "candidate rejected",
                  [("union", name), ("candidate", candidate.1), ("error", failure.2.message)])] := by
  refine ⟨fun α codec h raw => (h.announces raw).announcesTag, fun T shape h raw target => ?_,
    fun U union h raw => ?_, fun t h => t.composed_codec (.inl h), fun b level h => b.composed_fields level (.inl h),
    fun cases h => h.composed, fun U union raw => ⟨fun found hfound => OpenUnion.events_of_decode_ok hfound,
      fun e he => OpenUnion.events_of_decode_error he⟩,
    fun U name raw candidates failures htried => OpenUnion.shown_rejections htried⟩
  · have announces := Shape.announces_patch (fun field hfield F codec huses => (h field hfield codec huses).announces)
    exact (announces raw target).announcesTag
  · have announces := ClosedUnion.announces_decode fun case hcase => (h case hcase).announces raw
    exact announces.announcesTag

/-- In a list of bears the second is of no kind there is: its tag is told of, after what the first bear reports,
and of the third nothing. A text is a metal, and that it is no alloy is told of; a flag is neither, and the log has
the text of both errors. -/
theorem panda_is_told_of_last :
    let polar := Json.obj [("type", .str "polar"), ("size", .str "small")]
    let bears := Json.arr [polar, .obj [("type", .str "panda")], polar]
    let noAlloy (kind : String) := CodecError.malformed s!"expected object for `Alloy`, found {kind}"
    let list := WireType.list (.model .bear)
    list.Closed ∧ (list.codec.decode bears).AnnouncesTag
    ∧ .unknownDiscriminator "Bear" (some "panda") ∈ (list.codec.decode bears).events
    ∧ (Metal.union.decode (.str "gold")).events = [.candidateRejected "Metal" "Alloy" (noAlloy "string")]
    ∧ (Metal.union.decode (.bool true)).events = [.candidateRejected "Metal" "Alloy" (noAlloy "boolean"),
        .candidateRejected "Metal" "MetalStringValues" (.unexpectedType "string" "boolean")]
    ∧ (Metal.union.decode (.bool true)).events.map Event.shown = [
        (.debug, "candidate rejected", [("union", "Metal"), ("candidate", "Alloy"),
          ("error", (noAlloy "boolean").message)]),
        (.debug, "candidate rejected", [("union", "Metal"), ("candidate", "MetalStringValues"),
          ("error", (CodecError.unexpectedType "string" "boolean").message)])] := by
  intro polar bears noAlloy list
  obtain ⟨codecs, -, -, types, -, -, opens, shown⟩ := debug_events_agree_with_errors
  have announces := codecs _ list.codec (types list trivial) bears
  have fails : (list.codec.decode bears).result
      = .error (.inField "[1]" (.unknownVariant "Bear" (some "panda"))) := rfl
  have noMetal : (Metal.union.decode (.bool true)).result = .error (.allVariantsFailed "Metal"
      [("Alloy", noAlloy "boolean"), ("MetalStringValues", .unexpectedType "string" "boolean")]) := rfl
  obtain ⟨failures, tried, hfailures, rejected⟩ := (opens Metal Metal.union (.bool true)).2 _ noMetal
  cases hfailures
  refine ⟨trivial, announces, (announces.mem_iff _ _).2 ⟨_, fails, rfl⟩, rfl, rejected, ?_⟩
  rw [rejected]
  exact shown Metal Metal.union.name (.bool true) Metal.union.candidates _ tried

end JsonWire.Sample
