/-
  JsonWire.Proofs.Reporting — which keys a reading tells of, and in which order.

  `Reports codec raw events` walks through a document as a reading does and collects the
  keys that are passed over: those in the elements of a list, in the entries of a record,
  in the fields of a shape that have a member to read, each up to the first that fails,
  and after the fields, if none failed, the undeclared keys of the shape itself; those
  in the case of a tag, and in each candidate that is tried. The trace of a composed
  codec is what this walk collects (`Composed.reports_iff`).
-/

import JsonWire.Proofs.Traces
import Mathlib.Data.List.Basic

namespace JsonWire

variable {α S T U F : Type}

/-- `Reports codec raw events`: reading `raw` tells of these keys in this order. -/
inductive Reports : {α : Type} → Codec α → Json → List Event → Prop
  | builtIn {α : Type} {codec : Codec α} {raw : Json} : codec.BuiltIn → Reports codec raw []
  | enum {S α : Type} [Scalar S] {domain : Domain S} {wrap : S → α} {unwrap : α → S} {raw : Json} :
      (Scalar.codec : Codec S).BuiltIn → Reports (domain.codec.imap wrap unwrap) raw []
  | noList {α : Type} {codec : Codec α} {raw : Json} : (∀ items, raw ≠ .arr items) → Reports (.list codec) raw []
  | list {α : Type} {codec : Codec α} {items : List Json} {events : Json → List Event} :
      (∀ item ∈ upToFirst (fun item => (codec.decode item).fails) items, Reports codec item (events item)) →
      Reports (.list codec) (.arr items) ((upToFirst (fun item => (codec.decode item).fails) items).flatMap events)
  | noRecord {α : Type} {codec : Codec α} {raw : Json} :
      (∀ members, raw ≠ .obj members) → Reports (.record codec) raw []
  | record {α : Type} {codec : Codec α} {members : List (String × Json)} {events : String × Json → List Event} :
      (∀ member ∈ upToFirst (fun member => (codec.decode member.2).fails) members,
        Reports codec member.2 (events member)) →
      Reports (.record codec) (.obj members)
        ((upToFirst (fun member => (codec.decode member.2).fails) members).flatMap events)
  | noShape {T : Type} [Inhabited T] {shape : Shape T} {raw : Json} :
      (∀ members, raw ≠ .obj members) → Reports shape.codec raw []
  | shape {T : Type} [Inhabited T] {shape : Shape T} {members : List (String × Json)}
      {events : Access T × Json → List Event} :
      (∀ reading ∈ shape.readings members, ∀ ⦃F : Type⦄ (codec : Codec F), reading.1.Decodes reading.2 codec →
        Reports codec reading.2 (events reading)) →
      (∀ reading ∈ shape.readings members, (∀ ⦃F : Type⦄ (codec : Codec F), ¬ reading.1.Decodes reading.2 codec) →
        events reading = []) →
      Reports shape.codec (.obj members) ((shape.readings members).flatMap events ++ shape.leftover members)
  | noCase {U : Type} [Tagged U] {union : ClosedUnion U} {raw : Json} :
      (∀ tag case, ¬ union.Selects raw tag case) → Reports union.codec raw []
  | case {U : Type} [Tagged U] {union : ClosedUnion U} {raw : Json} {tag : String} {case : Case U}
      {events : List Event} : union.Selects raw tag case → Reports case.codec raw events →
      Reports union.codec raw events
  | openUnion {U : Type} [Tagged U] {union : OpenUnion U} {raw : Json} {events : String × Case U → List Event} :
      (∀ candidate ∈ upToFirst (fun candidate => !(candidate.2.codec.decode raw).fails) union.candidates,
        Reports candidate.2.codec raw (events candidate)) →
      Reports union.codec raw
        ((upToFirst (fun candidate => !(candidate.2.codec.decode raw).fails) union.candidates).flatMap events)

/-- What the walk collects is the trace. -/
theorem Reports.traces_eq {codec : Codec α} {raw : Json} {events : List Event} (h : Reports codec raw events) :
    (codec.decode raw).traces = events := by
  induction h with
  | @builtIn _ _ raw builtIn => exact builtIn.traces_decode raw
  | @enum _ _ _ domain _ _ raw builtIn =>
    rw [Codec.traces_decode_imap, domain.traces_decode]
    exact builtIn.traces_decode raw
  | @noList _ _ raw hraw =>
    cases raw with
    | arr items => exact absurd rfl (hraw items)
    | _ => rfl
  | list _ ih => exact (Codec.traces_eachItem 0 _).trans (List.flatMap_congr ih)
  | @noRecord _ _ raw hraw =>
    cases raw with
    | obj members => exact absurd rfl (hraw members)
    | _ => rfl
  | record _ ih =>
    refine (Traced.traces_bind_of_silent fun _ => rfl).trans ?_
    exact (Codec.traces_eachEntry _).trans (List.flatMap_congr ih)
  | @noShape _ _ _ raw hraw =>
    cases raw with
    | obj members => exact absurd rfl (hraw members)
    | _ => rfl
  | @shape T _ shape members events _ hsilent ih =>
    refine (shape.traces_patch members default).trans ?_
    congr 1
    refine List.flatMap_congr fun reading hreading => ?_
    by_cases hdecodes : ∃ (F : Type) (codec : Codec F), reading.1.Decodes reading.2 codec
    · obtain ⟨F, codec, hcodec⟩ := hdecodes
      rw [Shape.traces_of_decodes hcodec, ih reading hreading codec hcodec]
    · push Not at hdecodes
      rw [Shape.traces_of_not_decodes hdecodes, hsilent reading hreading hdecodes]
  | @noCase U _ union raw hnone =>
    rw [ClosedUnion.traces_codec_decode]
    rcases union.decode_cases raw with ⟨tag, case, hselects, -⟩ | ⟨-, ⟨tag, hrun⟩ | ⟨text, hrun⟩⟩
    · exact absurd hselects (hnone tag case)
    · rw [hrun]
      rfl
    · rw [hrun]
      rfl
  | case hselects _ ih =>
    rw [ClosedUnion.traces_codec_decode, hselects.decode_eq, map_eq_pure_bind]
    exact (Traced.traces_bind_of_silent fun _ => rfl).trans ih
  | @openUnion U _ union raw events _ ih =>
    rw [OpenUnion.traces_codec_decode, OpenUnion.decode, OpenUnion.traces_tryEach]
    exact List.flatMap_congr ih

theorem Reports.self {codec : Codec α} {raw : Json} {events : List Event} (h : Reports codec raw events) :
    Reports codec raw (codec.decode raw).traces := by rwa [h.traces_eq]

/-- The walk comes to an end, whatever the document. -/
theorem Codec.Composed.reports_traces {opened : Prop} {codec : Codec α} (h : codec.Composed opened) (raw : Json) :
    Reports codec raw (codec.decode raw).traces := by
  induction h generalizing raw with
  | builtIn builtIn => exact (Reports.builtIn builtIn).self
  | enum builtIn => exact (Reports.enum builtIn).self
  | list _ ih =>
    cases raw with
    | arr items => exact (Reports.list fun item _ => ih item).self
    | _ => exact .noList nofun
  | record _ ih =>
    cases raw with
    | obj members => exact (Reports.record fun member _ => ih member.2).self
    | _ => exact .noRecord nofun
  | @shape T _ shape _ ih =>
    cases raw with
    | obj members =>
      have hread : ∀ reading ∈ shape.readings members, ∀ ⦃F : Type⦄ (codec : Codec F),
          reading.1.Decodes reading.2 codec →
          Reports codec reading.2 (Shape.readField shape.nullPolicy reading.1 reading.2).traces := by
        intro reading hreading F codec hdecodes
        obtain ⟨name, hfield⟩ := Shape.exists_field_of_mem_readings hreading
        rw [Shape.traces_of_decodes hdecodes]
        exact ih (name, reading.1) hfield codec hdecodes.1 reading.2
      exact (Reports.shape hread fun reading _ => Shape.traces_of_not_decodes).self
    | _ => exact .noShape nofun
  | @closedUnion U _ union _ ih =>
    by_cases hselects : ∃ tag case, union.Selects raw tag case
    · obtain ⟨tag, case, hcase⟩ := hselects
      exact (Reports.case hcase (ih (tag, case) hcase.mem raw)).self
    · push Not at hselects
      exact (Reports.noCase hselects).self
  | openUnion _ _ ih =>
    exact (Reports.openUnion fun candidate hcandidate => ih candidate (mem_of_mem_upToFirst hcandidate) raw).self

theorem Codec.Composed.reports_iff {opened : Prop} {codec : Codec α} (h : codec.Composed opened) {raw : Json}
    {events : List Event} : Reports codec raw events ↔ (codec.decode raw).traces = events :=
  ⟨Reports.traces_eq, fun heq => heq ▸ h.reports_traces raw⟩

end JsonWire
