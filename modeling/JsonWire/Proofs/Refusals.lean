/-
  JsonWire.Proofs.Refusals — what a codec refuses of its own encodings.

  A codec may write what it does not read: a scalar that a default left in a strict domain
  (`Strict`). Such a refusal is always about a scalar that the written value holds and
  that is no member of the domain, and the error leads to its place
  (`Codec.RefusesForeign`, one lemma for each way of making a codec). For a value that was
  itself read it follows that a default left the scalar there (`HoldsForeign.left`).
-/

import JsonWire.Proofs.Blame
import JsonWire.Proofs.Strict

namespace JsonWire

variable {α S T U : Type}

/-! ## Scalars outside their domain -/

/-- The name that a step has in the path of an error. -/
def Step.Named : Step → String → Prop
  | .item i, name => name = Codec.indexField i
  | .entry key, name => name = key
  | @Step.field _ _ shape access, name => (name, access) ∈ shape.fields

/-- At the place, the value holds a scalar that a strict domain of the name does not have. -/
def HoldsForeign (codec : Codec α) (value : α) (name : String) (place : List Step) : Prop :=
  ∃ (S : Type) (_ : Scalar S) (domain : Domain S) (scalar : S), domain.name = name ∧ domain.membership = .strict
    ∧ domain.contains scalar = false ∧ Holds domain scalar codec value place

/-- At the place, a default leaves a scalar that a strict domain of the name does not have. -/
def LeftForeign (raw : Json) (name : String) (place : List Step) : Prop :=
  ∃ (S : Type) (_ : Scalar S) (domain : Domain S) (scalar : S), domain.name = name ∧ domain.membership = .strict
    ∧ domain.contains scalar = false ∧ Left domain scalar raw place

namespace HoldsForeign

variable {codec : Codec α} {value : α} {name : String} {place : List Step}

theorem left (h : HoldsForeign codec value name place) {raw : Json} (hraw : (codec.decode raw).result = .ok value) :
    LeftForeign raw name place := by
  obtain ⟨S, _, domain, scalar, hname, strict, foreign, holds⟩ := h
  refine ⟨S, _, domain, scalar, hname, strict, foreign, ?_⟩
  rcases member_or_left strict hraw holds with member | left
  · rw [foreign] at member
    cases member
  · exact left

/-- What a value holds, the value around it holds. -/
theorem lift {β : Type} {outer : Codec β} {whole : β} {further : List Step}
    (h : HoldsForeign codec value name place)
    (step : ∀ {S : Type} [Scalar S] {domain : Domain S} {scalar : S}, Holds domain scalar codec value place →
      Holds domain scalar outer whole further) : HoldsForeign outer whole name further := by
  obtain ⟨S, _, domain, scalar, hname, strict, foreign, holds⟩ := h
  exact ⟨S, _, domain, scalar, hname, strict, foreign, step holds⟩

/-- If every value is known or holds such a scalar, then all elements of a list are known, or the list
holds one. -/
theorem forall_or_list {known : α → Prop} (h : ∀ value, known value ∨ ∃ place, HoldsForeign codec value name place)
    (values : List α) :
    (∀ value ∈ values, known value) ∨ ∃ place, HoldsForeign (Codec.list codec) values name place := by
  by_cases hknown : ∀ value ∈ values, known value
  · exact .inl hknown
  · push Not at hknown
    obtain ⟨value, hvalue, hunknown⟩ := hknown
    obtain ⟨i, hi⟩ := List.getElem?_of_mem hvalue
    obtain ⟨place, hheld⟩ := (h value).resolve_left hunknown
    exact .inr ⟨.item i :: place, hheld.lift (.item hi)⟩

theorem forall_or_record {known : α → Prop} (h : ∀ value, known value ∨ ∃ place, HoldsForeign codec value name place)
    (values : Record α) :
    (∀ entry ∈ values.entries, known entry.2) ∨ ∃ place, HoldsForeign (Codec.record codec) values name place := by
  by_cases hknown : ∀ entry ∈ values.entries, known entry.2
  · exact .inl hknown
  · push Not at hknown
    obtain ⟨⟨key, value⟩, hentry, hunknown⟩ := hknown
    obtain ⟨place, hheld⟩ := (h value).resolve_left hunknown
    exact .inr ⟨.entry key :: place, hheld.lift (.entry hentry)⟩

end HoldsForeign

/-- Of its own encodings the codec refuses as outside a domain only those of values that hold such a
scalar, and the error leads to it. -/
def Codec.RefusesForeign (codec : Codec α) : Prop :=
  ∀ value json e name found, (codec.encode value).result = .ok json → (codec.decode json).result = .error e →
    e.rootCause = .notInDomain name found →
    ∃ place, List.Forall₂ Step.Named place e.fields ∧ HoldsForeign codec value name place

/-! ## Scalars -/

theorem Codec.Faithful.refusesForeign {codec : Codec α} (h : codec.Faithful) : codec.RefusesForeign := by
  intro value json e name found hencode hdecode
  rw [h value json hencode] at hdecode
  cases hdecode

theorem Domain.refusesForeign_codec [Scalar S] (domain : Domain S) (h : (Scalar.codec : Codec S).Faithful) :
    domain.codec.RefusesForeign := by
  intro scalar json e name found hencode hdecode hroot
  have hread := h scalar json hencode
  rcases Domain.decode_eq_error.1 hdecode with herror | ⟨⟨read, hagain, hadmits⟩, rfl⟩
  · rw [hread] at herror
    cases herror
  · obtain rfl : scalar = read := Except.ok.inj (hread.symm.trans hagain)
    cases hroot
    have strict : domain.membership = .strict := by
      cases hmembership : domain.membership with
      | lenient => simp [admits, hmembership] at hadmits
      | strict => rfl
    rw [admits_strict strict] at hadmits
    exact ⟨[], .nil, S, _, domain, scalar, rfl, strict, hadmits, .here⟩

/-! ## Wrappers and collections -/

namespace Codec.RefusesForeign

variable {codec : Codec α}

theorem imap {β : Type} {wrap : α → β} {unwrap : β → α} (undone : ∀ value, unwrap (wrap value) = value)
    (h : codec.RefusesForeign) : (codec.imap wrap unwrap).RefusesForeign := by
  intro value json e name found hencode hdecode hroot
  rcases Traced.result_bind_eq_error.1 hdecode with herror | ⟨inner, -, ⟨⟩⟩
  obtain ⟨place, hnamed, hheld⟩ := h (unwrap value) json e name found hencode herror hroot
  exact ⟨place, hnamed, hheld.lift (.wrapped undone)⟩

theorem list (h : codec.RefusesForeign) : (Codec.list codec).RefusesForeign := by
  intro values json e name found hencode hdecode hroot
  obtain ⟨items, hitems, ⟨⟩⟩ := Traced.result_bind_eq_ok.1 hencode
  obtain ⟨before, item, after, cause, rfl, -, hcause, rfl⟩ := eachItem_eq_error.1 hdecode
  have hitem : (before ++ item :: after)[before.length]? = some item := by simp
  obtain ⟨value, hvalue, hwritten⟩ := getElem?_of_eachItem hitems hitem
  obtain ⟨place, hnamed, hheld⟩ := h value item cause name found hwritten hcause hroot
  refine ⟨.item before.length :: place, .cons ?_ hnamed, hheld.lift (.item hvalue)⟩
  rw [Nat.zero_add]
  rfl

theorem record (h : codec.RefusesForeign) : (Codec.record codec).RefusesForeign := by
  intro values json e name found hencode hdecode hroot
  obtain ⟨members, hmembers, ⟨⟩⟩ := Traced.result_bind_eq_ok.1 hencode
  rcases Traced.result_bind_eq_error.1 hdecode with herror | ⟨decoded, -, ⟨⟩⟩
  obtain ⟨before, key, item, after, cause, rfl, -, hcause, rfl⟩ := eachEntry_eq_error.1 herror
  have hitem : (key, item) ∈ before ++ (key, item) :: after := by simp
  obtain ⟨value, hvalue, hwritten⟩ := exists_of_mem_eachEntry hmembers hitem
  obtain ⟨place, hnamed, hheld⟩ := h value item cause name found hwritten hcause hroot
  exact ⟨.entry key :: place, .cons rfl hnamed, hheld.lift (.entry hvalue)⟩

end Codec.RefusesForeign

/-! ## Shapes -/

/-- A field that does not read what it wrote itself wrote a value that its codec does not read back, or a
null that its shape refuses. -/
theorem Access.carries_of_readField_error {access : Access T} {x : T} {slot : Presence Json} {item : Json}
    {policy : NullPolicy} {cause : CodecError} (hslot : (access.encode x).result = .ok slot)
    (hmember : slot.member? = some item) (hcause : (Shape.readField policy access item).result = .error cause) :
    cause = .unexpectedType "non-null value" "null"
      ∨ ∃ (F : Type) (codec : Codec F) (value : F), access.Carries x codec value
          ∧ (codec.encode value).result = .ok item ∧ (codec.decode item).result = .error cause := by
  rcases Shape.uses_of_readField_error hcause with ⟨_, _, _, -, -, -, hnull⟩ | ⟨F, codec, huses, hdecode⟩
  · exact .inl hnull
  · refine .inr ⟨F, codec, ?_⟩
    cases huses with
    | required lens codec =>
      obtain ⟨json, hencode, ⟨⟩⟩ := Traced.result_bind_eq_ok.1 hslot
      cases hmember
      exact ⟨_, .required lens codec, hencode, hdecode⟩
    | optional lens codec =>
      cases hcontent : lens.get x with
      | none =>
        simp only [encode, Codec.encodeOptional, hcontent] at hslot
        cases hslot
        cases hmember
      | some value =>
        simp only [encode, Codec.encodeOptional, hcontent] at hslot
        obtain ⟨json, hencode, ⟨⟩⟩ := Traced.result_bind_eq_ok.1 hslot
        cases hmember
        exact ⟨value, .optional hcontent, hencode, hdecode⟩
    | nullable lens codec =>
      cases hcontent : lens.get x with
      | absent =>
        simp only [encode, Codec.encodeNullable, Presence.traverse, hcontent] at hslot
        cases hslot
        cases hmember
      | null =>
        simp only [encode, Codec.encodeNullable, Presence.traverse, hcontent] at hslot
        cases hslot
        cases hmember
        rw [Shape.readField_nullable] at hcause
        cases hcause
      | present value =>
        simp only [encode, Codec.encodeNullable, Presence.traverse, hcontent] at hslot
        obtain ⟨json, hencode, ⟨⟩⟩ := Traced.result_bind_eq_ok.1 hslot
        cases hmember
        exact ⟨value, .nullable hcontent, hencode, hdecode⟩

theorem Shape.refusesForeign_codec [Inhabited T] {shape : Shape T} (uniform : shape.Uniform)
    (h : ∀ field ∈ shape.fields, ∀ ⦃F : Type⦄ (codec : Codec F), field.2.Uses codec → codec.RefusesForeign) :
    shape.codec.RefusesForeign := by
  intro x json e name found hencode hdecode hroot
  obtain ⟨members, hmembers, rfl⟩ := encode_eq_ok.1 hencode
  have hrun : (decodeFields shape.nullPolicy members shape.fields default).result = .error e := by
    rw [← result_patch_obj]
    exact hdecode
  obtain ⟨before, key, access, after, item, cause, hfields, -, hitem, hcause, rfl⟩ := decodeFields_eq_error.1 hrun
  have hmem : (key, access) ∈ shape.fields := by simp [hfields]
  -- What is refused under the name is what the field itself has written there.
  obtain ⟨slot, hslot, hlookup⟩ := lookup_encodeFields hmembers shape.names_nodup (key, access) hmem
  rw [hitem] at hlookup
  rcases Access.carries_of_readField_error hslot hlookup.symm hcause with
    rfl | ⟨F, codec, value, carries, hwritten, hread⟩
  · cases hroot
  · obtain ⟨place, hnamed, hheld⟩ :=
      h (key, access) hmem codec carries.uses value item cause name found hwritten hread hroot
    exact ⟨.field shape access :: place, .cons hmem hnamed, hheld.lift (.field uniform hmem carries)⟩

/-! ## Unions -/

theorem ClosedUnion.refusesForeign_codec [Tagged U] {union : ClosedUnion U}
    (laws : ∀ case ∈ union.cases, case.2.Coherent case.1 ∧ case.2.codec.Objects union.key)
    (h : ∀ case ∈ union.cases, case.2.codec.RefusesForeign) : union.codec.RefusesForeign := by
  intro u json e name found hencode hdecode hroot
  obtain ⟨case, payload, members, hcase, hunwrap, hwritten, rfl⟩ := exists_payload_of_encode hencode
  have hmem := Entries.mem_of_lookup hcase
  -- The case never looks at the tag, so it refuses the payload without the tag as well.
  have hread := (laws _ hmem).2.decode_congr (union.withTag (Tagged.tag u) members) members
    fun _ => lookup_withTag_of_ne
  rcases Traced.result_bind_eq_error.1 hdecode with herror | ⟨value, -, ⟨⟩⟩
  rw [decode_of_peekTag peekTag_withTag hcase, Traced.result_map_eq_error, hread] at herror
  obtain ⟨place, hnamed, hheld⟩ := h _ hmem payload (.obj members) e name found hwritten herror hroot
  exact ⟨place, hnamed, hheld.lift (.case (fun case hcase => (laws case hcase).1) hcase hunwrap)⟩

/-- An open union that does not read its encoding blames all candidates, no domain. -/
theorem OpenUnion.refusesForeign_codec [Tagged U] (union : OpenUnion U) : union.codec.RefusesForeign := by
  intro u json e name found hencode hdecode hroot
  rcases Traced.result_bind_eq_error.1 hdecode with herror | ⟨value, -, ⟨⟩⟩
  obtain ⟨failures, -, rfl⟩ := tryEach_eq_error.1 herror
  cases hroot

/-! ## All codecs -/

theorem Codec.Made.refusesForeign {codec : Codec α} (h : codec.Made) : codec.RefusesForeign := by
  induction h with
  | any => exact faithful_any.refusesForeign
  | string => exact faithful_string.refusesForeign
  | bool => exact faithful_bool.refusesForeign
  | int t => exact faithful_int.refusesForeign
  | float64 => exact faithful_float64.refusesForeign
  | float32 => exact faithful_float32.refusesForeign
  | duration => exact faithful_duration.refusesForeign
  | enum domain undone faithful _ => exact (domain.refusesForeign_codec faithful).imap undone
  | list _ ih => exact ih.list
  | record _ ih => exact ih.record
  | shape uniform _ ih => exact Shape.refusesForeign_codec uniform ih
  | closedUnion laws _ ih => exact ClosedUnion.refusesForeign_codec laws ih
  | @openUnion _ _ union _ _ _ => exact union.refusesForeign_codec

end JsonWire
