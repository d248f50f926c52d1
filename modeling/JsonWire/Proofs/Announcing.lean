/-
  JsonWire.Proofs.Announcing — an unknown tag is told of once, and then nothing more.

  Where no open union tries again, a reading that meets an unknown tag fails at it:
  every caller gives the failure up to its own caller, at its place, and reports nothing
  more (`Announces.bind`). So a reading either reports no debug event and fails at no
  tag, or its last event is that of the tag it fails at, and the only one of its kind
  (`Traced.Announces`), whatever is read on the way (`Composed.announces`).
-/

import JsonWire.Proofs.Composed
import JsonWire.Proofs.Unions

namespace JsonWire

variable {α β S T U F : Type}

/-- No union at the end of the error misses a case for its tag. -/
def CodecError.NotAtTag (e : CodecError) : Prop := ∀ union tag, e.rootCause ≠ .unknownVariant union tag

namespace Traced

/-- The run tells of the unknown tag that it fails at, if there is one, and of that last. -/
inductive Announces (run : Traced α) : Prop
  | quiet : (∀ event ∈ run.events, event.level = .trace) → (∀ e, run.result = .error e → e.NotAtTag) → Announces run
  | tag {earlier : List Event} {union : String} {tag : Option String} {e : CodecError} :
      run.events = earlier ++ [.unknownDiscriminator union tag] → (∀ event ∈ earlier, event.level = .trace) →
      run.result = .error e → e.rootCause = .unknownVariant union tag → Announces run

namespace Announces

variable {x : Traced α} {next : α → Traced β} {e : CodecError}

theorem pure (a : α) : (Pure.pure a : Traced α).Announces := .quiet nofun nofun

theorem fail (h : e.NotAtTag) : (Traced.fail e : Traced α).Announces := by
  refine .quiet nofun fun other hother => ?_
  cases hother
  exact h

/-- A run that fails at a tag has no sequel, so nothing comes after its event. -/
theorem bind (hx : x.Announces) (hnext : ∀ a, x.result = .ok a → (next a).Announces) : (x >>= next).Announces := by
  cases hresult : x.result with
  | ok a =>
    rw [bind_of_ok hresult]
    cases hx with
    | quiet htrace _ =>
      cases hnext a hresult with
      | quiet hlater hroot =>
        exact .quiet (fun event hevent => (List.mem_append.1 hevent).elim (htrace event) (hlater event)) hroot
      | @tag earlier union tag e hlast hlater herror hroot =>
        have hevents : x.events ++ (next a).events = x.events ++ earlier ++ [.unknownDiscriminator union tag] := by
          rw [hlast, List.append_assoc]
        exact .tag hevents (fun event hevent => (List.mem_append.1 hevent).elim (htrace event) (hlater event)) herror
          hroot
    | tag _ _ herror _ => cases hresult.symm.trans herror
  | error e =>
    rw [bind_of_error hresult]
    cases hx with
    | quiet htrace hroot =>
      refine .quiet htrace fun other hother => ?_
      cases hother
      exact hroot e hresult
    | tag hlast htrace herror hroot =>
      cases hresult.symm.trans herror
      exact .tag hlast htrace rfl hroot

theorem inField (hx : x.Announces) (field : String) : (x.inField field).Announces := by
  cases hx with
  | quiet htrace hroot =>
    refine .quiet htrace fun e he => ?_
    obtain ⟨cause, hcause, rfl⟩ := mapError_eq_error.1 he
    exact hroot cause hcause
  | tag hlast htrace herror hroot => exact .tag hlast htrace (mapError_eq_error.2 ⟨_, herror, rfl⟩) hroot

end Announces

/-- There is one debug event at most: that of an unknown tag, as the last event, and exactly if the run fails
at this tag. -/
structure AnnouncesTag (run : Traced α) : Prop where
  atMostOne : (run.events.filter (·.level = .debug)).length ≤ 1
  last : ∀ event ∈ run.events, event.level = .debug →
    (∃ union tag, event = .unknownDiscriminator union tag) ∧ run.events.getLast? = some event
  mem_iff : ∀ union tag, .unknownDiscriminator union tag ∈ run.events
    ↔ ∃ e, run.result = .error e ∧ e.rootCause = .unknownVariant union tag

section Traces

variable {events : List Event}

theorem filter_debug_eq_nil (h : ∀ event ∈ events, event.level = .trace) : events.filter (·.level = .debug) = [] := by
  refine List.filter_eq_nil_iff.2 fun event hevent => ?_
  simp [h event hevent]

theorem unknownDiscriminator_not_mem (h : ∀ event ∈ events, event.level = .trace) (union : String)
    (tag : Option String) : .unknownDiscriminator union tag ∉ events :=
  fun hmem => nomatch h _ hmem

end Traces

theorem Announces.announcesTag {run : Traced α} (h : run.Announces) : run.AnnouncesTag := by
  cases h with
  | quiet htrace hroot =>
    refine ⟨by simp [filter_debug_eq_nil htrace], fun event hevent hdebug => ?_, fun union tag => ⟨?_, ?_⟩⟩
    · cases (htrace event hevent).symm.trans hdebug
    · exact fun hmem => absurd hmem (unknownDiscriminator_not_mem htrace union tag)
    · rintro ⟨e, he, htag⟩
      exact absurd htag (hroot e he union tag)
  | @tag earlier union tag e hevents htrace herror hroot =>
    have hmem (event : Event) : event ∈ run.events ↔ event ∈ earlier ∨ event = .unknownDiscriminator union tag := by
      simp [hevents]
    refine ⟨?_, fun event hevent hdebug => ?_, fun other otherTag => ⟨fun hother => ?_, ?_⟩⟩
    · rw [hevents, List.filter_append, filter_debug_eq_nil htrace]
      exact Nat.le_refl 1
    · rcases (hmem event).1 hevent with hearlier | rfl
      · cases (htrace event hearlier).symm.trans hdebug
      · exact ⟨⟨union, tag, rfl⟩, by simp [hevents]⟩
    · rcases (hmem _).1 hother with hearlier | hsame
      · exact absurd hearlier (unknownDiscriminator_not_mem htrace other otherTag)
      · cases hsame
        exact ⟨e, herror, hroot⟩
    · rintro ⟨cause, hcause, htag⟩
      -- A run has one error, so the tag is the one told of.
      cases herror.symm.trans hcause
      cases hroot.symm.trans htag
      exact (hmem _).2 (.inr rfl)

end Traced

/-! ## Built-in codecs and enumerations -/

namespace Codec

variable {codec : Codec α} {raw : Json}

theorem announces_expecting {name : String} {read? : Json → Option α} : (expecting name read? raw).Announces := by
  unfold expecting
  split
  · exact .pure _
  · exact .fail nofun

theorem BuiltIn.announces (h : codec.BuiltIn) (raw : Json) : (codec.decode raw).Announces := by
  cases h with
  | any => exact .pure raw
  | string => exact announces_expecting
  | bool => exact announces_expecting
  | int t =>
    refine announces_expecting.bind fun n _ => ?_
    split
    · exact .pure _
    · exact .fail nofun
  | float64 => exact announces_expecting
  | float32 =>
    refine announces_expecting.bind fun x _ => ?_
    split
    · exact .pure _
    · exact .fail nofun
  | duration =>
    refine announces_expecting.bind fun text _ => .quiet nofun fun e he => ?_
    rw [Traced.result_ofExcept, Duration.parse] at he
    split at he <;> cases he
    nofun

theorem announces_imap (h : (codec.decode raw).Announces) (wrap : α → β) (unwrap : β → α) :
    ((codec.imap wrap unwrap).decode raw).Announces :=
  h.bind fun _ _ => .pure _

/-! ## Collections -/

theorem announces_eachItem {step : α → Traced β} (h : ∀ item, (step item).Announces) (i : Nat) (items : List α) :
    (eachItem step i items).Announces := by
  induction items generalizing i with
  | nil => exact .pure []
  | cons item rest ih => exact ((h item).inField _).bind fun done _ => (ih (i + 1)).bind fun more _ => .pure _

theorem announces_eachEntry {step : α → Traced β} (h : ∀ value, (step value).Announces) (entries : List (String × α)) :
    (eachEntry step entries).Announces := by
  induction entries with
  | nil => exact .pure []
  | cons entry rest ih => exact ((h entry.2).inField _).bind fun done _ => ih.bind fun more _ => .pure _

theorem announces_list (h : ∀ raw, (codec.decode raw).Announces) (raw : Json) :
    ((list codec).decode raw).Announces := by
  cases raw with
  | arr items => exact announces_eachItem h 0 items
  | _ => exact .fail nofun

theorem announces_record (h : ∀ raw, (codec.decode raw).Announces) (raw : Json) :
    ((record codec).decode raw).Announces := by
  cases raw with
  | obj members => exact (announces_eachEntry h members).bind fun decoded _ => .pure _
  | _ => exact .fail nofun

end Codec

theorem Domain.announces_decode [Scalar S] (domain : Domain S) {raw : Json}
    (h : ((Scalar.codec : Codec S).decode raw).Announces) : (domain.codec.decode raw).Announces := by
  refine h.bind fun scalar _ => ?_
  split
  · exact .pure _
  · exact .fail nofun

/-! ## Shapes -/

/-- The codec of the field announces whatever it reads. -/
def Access.Announces (access : Access T) : Prop :=
  ∀ ⦃F : Type⦄ (codec : Codec F), access.Uses codec → ∀ raw, (codec.decode raw).Announces

theorem Access.Announces.read {access : Access T} (h : access.Announces) (item : Json) :
    (access.read item).Announces := by
  cases access with
  | required lens codec => exact h codec (.required lens codec) item
  | optional lens codec =>
    cases hnull : item.isNull with
    | true =>
      simp only [Access.read, hnull]
      exact .pure _
    | false =>
      simp only [Access.read, hnull]
      exact (h codec (.optional lens codec) item).bind fun value _ => .pure _
  | nullable lens codec =>
    simp only [Access.read, Codec.decodeNullable]
    split
    · exact .pure _
    · exact (h codec (.nullable lens codec) item).bind fun value _ => .pure _
  | constant literal => exact .pure _

namespace Shape

theorem announces_decodeField {access : Access T} (h : access.Announces) (policy : NullPolicy) (item : Json)
    (target : T) : (decodeField policy access item target).Announces := by
  unfold decodeField
  split
  · exact .fail nofun
  · rw [Access.decode_eq]
    exact (h.read item).bind fun content _ => .pure _

theorem announces_decodeFields {fields : List (String × Access T)} (h : ∀ field ∈ fields, field.2.Announces)
    (policy : NullPolicy) (members : List (String × Json)) (target : T) :
    (decodeFields policy members fields target).Announces := by
  induction fields generalizing target with
  | nil => exact .pure target
  | cons field rest ih =>
    obtain ⟨hfield, hrest⟩ := List.forall_mem_cons.1 h
    unfold decodeFields
    split
    · exact ih hrest target
    · exact ((announces_decodeField hfield policy _ target).inField _).bind fun written _ => ih hrest written

theorem announces_patch {shape : Shape T} (h : ∀ field ∈ shape.fields, field.2.Announces) (raw : Json) (target : T) :
    (shape.patch raw target).Announces := by
  cases raw with
  | obj members =>
    have htold : (Traced.reportAll (shape.unknownKeys members)).Announces := by
      refine .quiet (fun event hevent => ?_) nofun
      obtain ⟨key, -, rfl⟩ := List.mem_map.1 hevent
      rfl
    exact (announces_decodeFields h shape.nullPolicy members target).bind fun result _ =>
      htold.bind fun _ _ => .pure result
  | _ => exact .fail nofun

end Shape

/-! ## Closed unions -/

theorem ClosedUnion.announces_decode {union : ClosedUnion U} {raw : Json}
    (h : ∀ case ∈ union.cases, (case.2.codec.decode raw).Announces) : (union.decode raw).Announces := by
  rcases union.decode_cases raw with ⟨tag, case, hselects, hrun⟩ | ⟨-, ⟨tag, hrun⟩ | ⟨text, hrun⟩⟩
  · rw [hrun, map_eq_pure_bind]
    exact (h (tag, case) hselects.mem).bind fun payload _ => .pure _
  · have hlast : (union.unknown tag : Traced (UnionValue U)).events
        = [] ++ [.unknownDiscriminator union.name tag] := rfl
    rw [hrun]
    exact .tag hlast nofun rfl rfl
  · rw [hrun]
    exact .fail nofun

/-! ## All codecs without open unions -/

theorem Codec.Composed.announces {codec : Codec α} (h : codec.Composed False) (raw : Json) :
    (codec.decode raw).Announces := by
  induction h generalizing raw with
  | builtIn builtIn => exact builtIn.announces raw
  | @enum _ _ _ domain _ _ builtIn => exact announces_imap (domain.announces_decode (builtIn.announces raw)) _ _
  | list _ ih => exact announces_list ih raw
  | record _ ih => exact announces_record ih raw
  | shape _ ih => exact Shape.announces_patch ih raw default
  | closedUnion _ ih =>
    exact (ClosedUnion.announces_decode fun case hcase => ih case hcase raw).bind fun found _ => .pure found.value
  | openUnion allowed => exact allowed.elim

end JsonWire
