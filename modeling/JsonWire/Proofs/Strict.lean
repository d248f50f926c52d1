/-
  JsonWire.Proofs.Strict — a strict domain lets in its members only.

  A place in a value is a list of `Step`s: the index of an element, the key of an entry,
  the access of a field. `Holds domain scalar codec value place` says that the value has
  the scalar at the place and that the codec reads it there over the domain. What a codec
  needs for this to make sense is asked for on the way: a wrapper that can be undone,
  fields at places of their own, cases that know their values.

  The same steps lead through a document. A field goes to the last member under one of its
  names, as that is what reading takes, and a place may end early, at an object that has
  no member for the field. There the default stays, with the scalar it has at the rest of
  the place (`Left`).

  Membership is only ever asked of what is read. So a scalar that a value holds after
  reading is a member of its domain, if that is strict, or was left by a default
  (`member_or_left`), and the second only where the document does not have the place
  (`Left.not_has`).
-/

import JsonWire.Proofs.Membership
import JsonWire.Proofs.SettlingShapes
import JsonWire.Proofs.Trial

namespace JsonWire

variable {α S T F U : Type}

/-! ## Fields -/

/-- The field of `x` holds the value, and reads it with the codec. -/
inductive Access.Carries (x : T) : {F : Type} → Access T → Codec F → F → Prop
  | required {F : Type} (lens : Lens T F) (codec : Codec F) : Carries x (.required lens codec) codec (lens.get x)
  | optional {F : Type} {lens : Lens T (Option F)} {codec : Codec F} {value : F} :
      lens.get x = some value → Carries x (.optional lens codec) codec value
  | nullable {F : Type} {lens : Lens T (Presence F)} {codec : Codec F} {value : F} :
      lens.get x = .present value → Carries x (.nullable lens codec) codec value

namespace Access.Carries

variable {x y : T} {access : Access T} {codec : Codec F} {value : F}

theorem uses (h : access.Carries x codec value) : access.Uses codec := by
  cases h with
  | required lens codec => exact .required lens codec
  | optional _ => exact .optional _ codec
  | nullable _ => exact .nullable _ codec

theorem of_get_eq (h : access.Carries x codec value) (hget : access.lens.get x = access.lens.get y) :
    access.Carries y codec value := by
  cases h with
  | required lens codec =>
    have hsame : lens.get x = lens.get y := hget
    rw [hsame]
    exact .required lens codec
  | optional hvalue => exact .optional (hget.symm.trans hvalue)
  | nullable hvalue => exact .nullable (hget.symm.trans hvalue)

/-- What a field has just read was read by its codec. -/
theorem decode_eq_ok (h : access.Carries x codec value) {policy : NullPolicy} {item : Json}
    (hread : (Shape.readField policy access item).result = .ok (access.lens.get x)) :
    (codec.decode item).result = .ok value := by
  cases h with
  | required lens codec =>
    rw [Shape.readField_required] at hread
    exact hread
  | @optional lens codec value hvalue =>
    have hcontent : (Shape.readField policy (.optional lens codec) item).result = .ok (lens.get x) := hread
    rw [hvalue] at hcontent
    exact Access.decode_eq_ok_of_optional hcontent
  | @nullable lens codec value hvalue =>
    have hcontent : (Shape.readField policy (.nullable lens codec) item).result = .ok (lens.get x) := hread
    rw [hvalue] at hcontent
    exact Access.decode_eq_ok_of_nullable hcontent

end Access.Carries

/-! ## Places -/

inductive Step : Type 1
  | item (i : Nat)
  | entry (key : String)
  | field {T : Type} [Inhabited T] (shape : Shape T) (access : Access T)

namespace Step

/-- What the step finds in a document. Of a repeated key the last entry counts, and of several names for
one access the last that has a member. -/
inductive Leads : Step → Json → Json → Prop
  | item {items : List Json} {i : Nat} {found : Json} : items[i]? = some found → Leads (.item i) (.arr items) found
  | entry {members : List (String × Json)} {key : String} {found : Json} :
      (Entries.ofList members).lookup key = some found → Leads (.entry key) (.obj members) found
  | field {T : Type} [Inhabited T] {shape : Shape T} {access : Access T} {members : List (String × Json)}
      {found : Json} : Shape.LastMember members shape.fields access found →
      Leads (.field shape access) (.obj members) found

theorem Leads.unique {step : Step} {raw found other : Json} (h : step.Leads raw found)
    (hother : step.Leads raw other) : found = other := by
  cases h with
  | item h =>
    cases hother with
    | item hother => exact Option.some.inj (h.symm.trans hother)
  | entry h =>
    cases hother with
    | entry hother => exact Option.some.inj (h.symm.trans hother)
  | field h =>
    cases hother with
    | field hother => exact h.unique hother

end Step

/-- The document has something at the place. -/
inductive Json.Has : Json → List Step → Prop
  | here (raw : Json) : Has raw []
  | inside {raw found : Json} {step : Step} {rest : List Step} : step.Leads raw found → Has found rest →
      Has raw (step :: rest)

/-- The value has the scalar at the place, and the codec reads it there over the domain. -/
inductive Holds [Scalar S] (domain : Domain S) (scalar : S) : {α : Type} → Codec α → α → List Step → Prop
  | here : Holds domain scalar domain.codec scalar []
  | wrapped {α β : Type} {codec : Codec α} {wrap : α → β} {unwrap : β → α} {value : β} {place : List Step} :
      (∀ inner, unwrap (wrap inner) = inner) → Holds domain scalar codec (unwrap value) place →
      Holds domain scalar (codec.imap wrap unwrap) value place
  | item {α : Type} {codec : Codec α} {values : List α} {i : Nat} {value : α} {place : List Step} :
      values[i]? = some value → Holds domain scalar codec value place →
      Holds domain scalar (.list codec) values (.item i :: place)
  | entry {α : Type} {codec : Codec α} {values : Record α} {key : String} {value : α} {place : List Step} :
      (key, value) ∈ values.entries → Holds domain scalar codec value place →
      Holds domain scalar (.record codec) values (.entry key :: place)
  | field {T F : Type} [Inhabited T] {shape : Shape T} {name : String} {access : Access T} {codec : Codec F}
      {x : T} {value : F} {place : List Step} : shape.Uniform → (name, access) ∈ shape.fields →
      access.Carries x codec value → Holds domain scalar codec value place →
      Holds domain scalar shape.codec x (.field shape access :: place)
  | case {U : Type} [Tagged U] {union : ClosedUnion U} {u : U} {case : Case U} {payload : case.Payload}
      {place : List Step} : (∀ case ∈ union.cases, case.2.Coherent case.1) →
      union.case? (Tagged.tag u) = some case → case.unwrap u = some payload →
      Holds domain scalar case.codec payload place → Holds domain scalar union.codec u place
  | candidate {U : Type} [Tagged U] {union : OpenUnion U} {u : U} {case : Case U} {payload : case.Payload}
      {place : List Step} : (∀ candidate ∈ union.candidates, candidate.2.Coherent candidate.1) →
      union.candidates.lookup (Tagged.tag u) = some case → case.unwrap u = some payload →
      Holds domain scalar case.codec payload place → Holds domain scalar union.codec u place

/-- On the way to the place the document has no member for a field, and there the default has the scalar. -/
inductive Left [Scalar S] (domain : Domain S) (scalar : S) : Json → List Step → Prop
  | missing {T F : Type} [Inhabited T] {shape : Shape T} {members : List (String × Json)} {access : Access T}
      {codec : Codec F} {value : F} {rest : List Step} :
      (∀ field ∈ shape.fields, field.2 = access → members.lookup field.1 = none) →
      access.Carries default codec value → Holds domain scalar codec value rest →
      Left domain scalar (.obj members) (.field shape access :: rest)
  | inside {raw found : Json} {step : Step} {rest : List Step} : step.Leads raw found →
      Left domain scalar found rest → Left domain scalar raw (step :: rest)

/-! ## Reading -/

section

variable [Scalar S] {domain : Domain S} {scalar : S} {codec : Codec α} {raw : Json} {value : α} {place : List Step}

/-- A default only leaves something where the document does not have the place. -/
theorem Left.not_has (h : Left domain scalar raw place) : ¬ raw.Has place := by
  intro has
  induction h with
  | missing hnone _ _ =>
    cases has with
    | inside hleads _ =>
      cases hleads with
      | field hlast =>
        obtain ⟨before, name, after, hsplit, hitem, -⟩ := hlast
        have hmember := hnone (name, _) (by simp [hsplit]) rfl
        rw [hmember] at hitem
        cases hitem
  | inside hleads _ ih =>
    cases has with
    | inside hother hrest =>
      rw [hother.unique hleads] at hrest
      exact ih hrest

/-- A strict domain lets only its members in: a scalar that a value holds after reading is one, or it is
what a default has in a field that has no member. -/
theorem member_or_left (strict : domain.membership = .strict) (hraw : (codec.decode raw).result = .ok value)
    (h : Holds domain scalar codec value place) :
    domain.contains scalar = true ∨ Left domain scalar raw place := by
  -- By induction on the way to the scalar: each step was read from what the document has there.
  induction h generalizing raw with
  | here =>
    have hadmits := (Domain.decode_eq_ok.1 hraw).2
    rw [Domain.admits_strict strict] at hadmits
    exact .inl hadmits
  | @wrapped _ _ codec wrap unwrap value place undone _ ih =>
    obtain ⟨inner, hinner, hvalue⟩ := Traced.result_bind_eq_ok.1 hraw
    cases hvalue
    rw [undone inner] at ih
    exact ih hinner
  | @item _ codec values i value place hi _ ih =>
    cases raw with
    | arr items =>
      obtain ⟨item, hitem, hdecode⟩ := Codec.getElem?_of_eachItem hraw hi
      exact (ih hdecode).imp_right (.inside (.item hitem))
    | _ => cases hraw
  | @entry _ codec values key value place hmem _ ih =>
    cases raw with
    | obj members =>
      obtain ⟨decoded, hdecoded, hvalues⟩ := Traced.result_bind_eq_ok.1 hraw
      cases hvalues
      have hlookup := Entries.lookup_of_mem (Entries.keys_ofList_nodup decoded) hmem
      obtain ⟨item, hitem, hdecode⟩ := Codec.exists_lookup_of_eachEntry hdecoded hlookup
      exact (ih hdecode).imp_right (.inside (.entry hitem))
    | _ => cases hraw
  | @field _ _ _ shape name access codec x value place uniform hmem carries hvalue ih =>
    obtain ⟨members, rfl, hrun⟩ := Shape.patch_eq_ok.1 hraw
    -- With no member under any of its names the field is as in the default.
    rcases uniform.get_of_decodeFields hrun (name, access) hmem with ⟨hnone, hdefault⟩ | ⟨item, hlast, hread⟩
    · exact .inr (.missing hnone (carries.of_get_eq hdefault) hvalue)
    · exact (ih (carries.decode_eq_ok hread)).imp_right (.inside (.field hlast))
  | @case _ _ union u case payload place coherent hcase hunwrap _ ih =>
    obtain ⟨found, hfound, hu⟩ := Traced.result_bind_eq_ok.1 hraw
    obtain ⟨tag, reader, read, -, hreader, hread, rfl⟩ := ClosedUnion.decode_eq_ok.1 hfound
    cases hu
    -- The case that reads is the one of the value's own tag, so the payload is what it has read.
    have own := coherent (tag, reader) (Entries.mem_of_lookup hreader)
    rw [own.tag_wrap, hreader] at hcase
    cases hcase
    rw [own.unwrap_wrap] at hunwrap
    cases hunwrap
    exact ih hread
  | @candidate _ _ union u case payload place coherent hcase hunwrap _ ih =>
    obtain ⟨found, hfound, hu⟩ := Traced.result_bind_eq_ok.1 hraw
    obtain ⟨i, name, reader, read, hreader, -, hread, rfl⟩ := OpenUnion.decode_eq_ok.1 hfound
    cases hu
    have own := coherent (name, reader) (List.mem_of_getElem? hreader)
    rw [own.tag_wrap, OpenUnion.lookup_of_getElem? hreader] at hcase
    cases hcase
    rw [own.unwrap_wrap] at hunwrap
    cases hunwrap
    exact ih hread

end

end JsonWire
