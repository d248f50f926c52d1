/-
  JsonWire.Proofs.Rereading — when a presence survives the wire.

  A field leaves an absence as no member, a null as null and a value as its encoding. It
  reads back what it left (`reread`), unless a value was written as null itself: then the
  member says nothing of the value (`member?_of_presentNull`). A nullable field takes it
  for the null that it looks like, an optional one for an absence or, where null is
  rejected, for a mistake.

  What can be written as null is settled by how a codec is made. Scalars other than whole
  JSON values, lists, records, shapes and closed unions never are (`Codec.NeverNull`); an
  open union is if the payload is.
-/

import JsonWire.Proofs.NullPolicies
import JsonWire.Proofs.SettlingUnions

namespace JsonWire

variable {S T F U : Type}

/-! ## One field alone -/

namespace Access

variable {access : Access T} {content : access.Content} {slot : Presence Json}

/-- A value that is written as null leaves a null. -/
theorem member?_of_presentNull (h : (access.present content).result = .ok slot) (hnull : access.PresentNull content) :
    slot.member? = some .null := by
  cases access with
  | optional lens codec =>
    obtain ⟨value, rfl, hencode⟩ := hnull
    obtain rfl : .present .null = slot := by simpa [present, Codec.encodeOptional, hencode] using h
    rfl
  | nullable lens codec =>
    obtain ⟨value, rfl, hencode⟩ := hnull
    obtain rfl : .present .null = slot := by
      simpa [present, Codec.encodeNullable, Presence.traverse, hencode] using h
    rfl
  | _ => exact hnull.elim

end Access

namespace Shape

variable {members : List (String × Json)} {key : String} {access : Access T} {x start : T} {shape : Shape T}

theorem result_decodeFields_single (policy : NullPolicy) (access : Access T) (start : T) {item : Json}
    (h : members.lookup key = some item) : (decodeFields policy members [(key, access)] start).result
      = ((readField policy access item).result.map (access.lens.set · start)).mapError (.inField key) := by
  rw [decodeFields_found h, Traced.result_bind, Traced.result_inField]
  cases (readField policy access item).result <;> rfl

/-- What the field of a shape leaves in the encoding of a value. -/
theorem exists_slot_of_encodeMembers (h : (shape.encodeMembers x).result = .ok members)
    (hfield : (key, access) ∈ shape.fields) : ∃ slot, (access.present (access.lens.get x)).result = .ok slot
      ∧ members.lookup key = slot.member? := by
  obtain ⟨slot, hslot, hlookup⟩ := lookup_encodeFields h shape.names_nodup (key, access) hfield
  rw [Access.encode_eq] at hslot
  exact ⟨slot, hslot, hlookup⟩

theorem lookup_of_presentNull (h : (shape.encodeMembers x).result = .ok members)
    (hfield : (key, access) ∈ shape.fields) (hnull : access.PresentNull (access.lens.get x)) :
    members.lookup key = some .null := by
  obtain ⟨slot, hslot, hlookup⟩ := exists_slot_of_encodeMembers h hfield
  rw [hlookup, Access.member?_of_presentNull hslot hnull]

/-- A field reads its content back from what it left, unless that is a value written as null. -/
theorem reread (policy : NullPolicy) (h : (shape.encodeMembers x).result = .ok members)
    (hfield : (key, access) ∈ shape.fields) (lawful : access.lens.Lawful)
    (roundTrips : access.RoundTrips (access.lens.get x))
    (startsAbsent : access.Absent (access.lens.get x) → access.Absent (access.lens.get start))
    (notNull : ¬ access.PresentNull (access.lens.get x)) :
    (decodeFields policy members [(key, access)] start).result = .ok (access.lens.set (access.lens.get x) start) := by
  obtain ⟨slot, hslot, hlookup⟩ := exists_slot_of_encodeMembers h hfield
  rcases @readField_of_present _ policy _ _ _ hslot roundTrips notNull with ⟨hnone, habsent⟩ | ⟨item, hitem, hread⟩
  · rw [decodeFields_missing (hlookup.trans hnone), habsent.eq (startsAbsent habsent), lawful.set_get]
    rfl
  · rw [result_decodeFields_single policy access start (hlookup.trans hitem), hread]
    rfl

/-- A nullable field takes the value written as null for the null that it looks like. -/
theorem reread_nullable_of_presentNull (policy : NullPolicy) {lens : Lens T (Presence F)} {codec : Codec F}
    (h : (shape.encodeMembers x).result = .ok members) (hfield : (key, .nullable lens codec) ∈ shape.fields)
    (hnull : (Access.nullable lens codec).PresentNull (lens.get x)) :
    (decodeFields policy members [(key, .nullable lens codec)] start).result = .ok (lens.set .null start) := by
  rw [result_decodeFields_single policy _ start (lookup_of_presentNull h hfield hnull), readField_nullable]
  rfl

/-- An optional field takes the value written as null for an absence or for a mistake. -/
theorem reread_optional_of_presentNull (policy : NullPolicy) {lens : Lens T (Option F)} {codec : Codec F}
    (h : (shape.encodeMembers x).result = .ok members) (hfield : (key, .optional lens codec) ∈ shape.fields)
    (hnull : (Access.optional lens codec).PresentNull (lens.get x)) :
    (decodeFields policy members [(key, .optional lens codec)] start).result
      = match policy with
        | .treatAsAbsent => .ok (lens.set none start)
        | .reject => .error (.inField key (.unexpectedType "non-null value" "null")) := by
  rw [result_decodeFields_single policy _ start (lookup_of_presentNull h hfield hnull)]
  cases policy <;> rfl

end Shape

/-! ## What is written as null -/

namespace Codec

variable {codec : Codec F}

theorem neverNull_bool : bool.NeverNull := nofun

theorem neverNull_int {t : IntType} : (int t).NeverNull := nofun

theorem neverNull_encodeFloat (x : Double) : (encodeFloat x).result ≠ .ok .null := by
  by_cases hfinite : x.isFinite = true <;> simp [encodeFloat, Json.ofDouble?, hfinite]

theorem neverNull_float64 : float64.NeverNull := neverNull_encodeFloat

theorem neverNull_float32 : float32.NeverNull := fun x => neverNull_encodeFloat x.widen

theorem NeverNull.imap (h : codec.NeverNull) (wrap : F → S) (unwrap : S → F) : (codec.imap wrap unwrap).NeverNull :=
  fun value => h (unwrap value)

theorem neverNull_list (codec : Codec F) : (list codec).NeverNull := by
  intro values h
  obtain ⟨items, -, ⟨⟩⟩ := Traced.result_bind_eq_ok.1 h

theorem neverNull_record (codec : Codec F) : (record codec).NeverNull := by
  intro values h
  obtain ⟨members, -, ⟨⟩⟩ := Traced.result_bind_eq_ok.1 h

end Codec

theorem Domain.neverNull_codec [Scalar S] (domain : Domain S) (h : (Scalar.codec : Codec S).NeverNull) :
    domain.codec.NeverNull := h

theorem ClosedUnion.neverNull_codec [Tagged U] (union : ClosedUnion U) : union.codec.NeverNull := by
  intro value h
  obtain ⟨case, payload, members, -, -, -, ⟨⟩⟩ := exists_payload_of_encode h

theorem OpenUnion.neverNull_codec [Tagged U] {union : OpenUnion U}
    (h : ∀ candidate ∈ union.candidates, candidate.2.codec.NeverNull) : union.codec.NeverNull := by
  intro value hvalue
  obtain ⟨case, payload, hcase, -, hpayload⟩ := exists_payload_of_encode hvalue
  exact h _ (Entries.mem_of_lookup hcase) payload hpayload

end JsonWire
