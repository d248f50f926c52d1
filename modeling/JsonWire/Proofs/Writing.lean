/-
  JsonWire.Proofs.Writing — the members that a shape writes.

  A field leaves one member or none, and which is settled by its own content alone
  (`Access.Writes`, with a constructor for each state of each kind of field). The encoding
  has these members and no others, in the order of the fields (`encodeFields_eq_ok`). It
  fails exactly if some field does, and then as the first that does (`encodeFields_eq_error`).

  Writing is the same as inserting the members one by one under their names
  (`insertFields_eq`): no shape has a name twice, so nothing is inserted over what is
  there. Without that an insertion would replace an earlier member in its place.
-/

import JsonWire.Proofs.Declaring

namespace JsonWire

variable {T F : Type}

/-! ## One field -/

/-- What the field leaves in the encoding of a value: a member or, where it has no content, nothing. -/
inductive Access.Writes (x : T) : Access T → Option Json → Prop
  | required {F : Type} {lens : Lens T F} {codec : Codec F} {json : Json} :
      (codec.encode (lens.get x)).result = .ok json → Writes x (.required lens codec) (some json)
  | absent {F : Type} {lens : Lens T (Option F)} {codec : Codec F} :
      lens.get x = none → Writes x (.optional lens codec) none
  | optional {F : Type} {lens : Lens T (Option F)} {codec : Codec F} {value : F} {json : Json} :
      lens.get x = some value → (codec.encode value).result = .ok json → Writes x (.optional lens codec) (some json)
  | unset {F : Type} {lens : Lens T (Presence F)} {codec : Codec F} :
      lens.get x = .absent → Writes x (.nullable lens codec) none
  | null {F : Type} {lens : Lens T (Presence F)} {codec : Codec F} :
      lens.get x = .null → Writes x (.nullable lens codec) (some .null)
  | nullable {F : Type} {lens : Lens T (Presence F)} {codec : Codec F} {value : F} {json : Json} :
      lens.get x = .present value → (codec.encode value).result = .ok json →
      Writes x (.nullable lens codec) (some json)
  | constant {literal : Json} : Writes x (.constant literal) (some literal)

namespace Access

variable {x : T} {access : Access T} {member : Option Json}

/-- There is content for a member: a required field and a constant always have it. -/
def Shown (x : T) : Access T → Prop
  | .required _ _ => True
  | .optional lens _ => (lens.get x).isSome = true
  | .nullable lens _ => (lens.get x).isSet = true
  | .constant _ => True

theorem exists_slot_of_writes (h : access.Writes x member) :
    ∃ slot, (access.encode x).result = .ok slot ∧ slot.member? = member := by
  cases h with
  | required hencode => exact ⟨.present _, by simp [encode, hencode], rfl⟩
  | absent hcontent => exact ⟨.absent, by simp [encode, Codec.encodeOptional, hcontent], rfl⟩
  | optional hcontent hencode => exact ⟨.present _, by simp [encode, Codec.encodeOptional, hcontent, hencode], rfl⟩
  | unset hcontent => exact ⟨.absent, by simp [encode, Codec.encodeNullable, Presence.traverse, hcontent], rfl⟩
  | null hcontent => exact ⟨.null, by simp [encode, Codec.encodeNullable, Presence.traverse, hcontent], rfl⟩
  | nullable hcontent hencode =>
    exact ⟨.present _, by simp [encode, Codec.encodeNullable, Presence.traverse, hcontent, hencode], rfl⟩
  | constant => exact ⟨.present _, rfl, rfl⟩

theorem writes_of_encode {slot : Presence Json} (h : (access.encode x).result = .ok slot) :
    access.Writes x slot.member? := by
  cases access with
  | required lens codec =>
    obtain ⟨json, hencode, ⟨⟩⟩ := Traced.result_bind_eq_ok.1 h
    exact .required hencode
  | optional lens codec =>
    cases hcontent : lens.get x with
    | none =>
      rw [encode, hcontent] at h
      cases h
      exact .absent hcontent
    | some value =>
      rw [encode, hcontent] at h
      obtain ⟨json, hencode, ⟨⟩⟩ := Traced.result_bind_eq_ok.1 h
      exact .optional hcontent hencode
  | nullable lens codec =>
    cases hcontent : lens.get x with
    | absent =>
      rw [encode, hcontent] at h
      cases h
      exact .unset hcontent
    | null =>
      rw [encode, hcontent] at h
      cases h
      exact .null hcontent
    | present value =>
      rw [encode, hcontent] at h
      obtain ⟨json, hencode, ⟨⟩⟩ := Traced.result_bind_eq_ok.1 h
      exact .nullable hcontent hencode
  | constant literal =>
    cases h
    exact .constant

theorem writes_iff : access.Writes x member ↔ ∃ slot, (access.encode x).result = .ok slot ∧ slot.member? = member := by
  refine ⟨exists_slot_of_writes, fun h => ?_⟩
  obtain ⟨slot, hslot, rfl⟩ := h
  exact writes_of_encode hslot

/-- A field leaves a member exactly if there is content for one. -/
theorem Writes.isSome_iff (h : access.Writes x member) : member.isSome = true ↔ access.Shown x := by
  cases h with
  | required => simp [Shown]
  | absent hcontent => simp [Shown, hcontent]
  | optional hcontent => simp [Shown, hcontent]
  | unset hcontent => simp [Shown, hcontent, Presence.isSet, Presence.isAbsent]
  | null hcontent => simp [Shown, hcontent, Presence.isSet, Presence.isAbsent]
  | nullable hcontent => simp [Shown, hcontent, Presence.isSet, Presence.isAbsent]
  | constant => simp [Shown]

/-- There is content for a member exactly if a field that does not fail leaves one. -/
theorem shown_iff {slot : Presence Json} (h : (access.encode x).result = .ok slot) :
    access.Shown x ↔ ∃ json, access.Writes x (some json) := by
  have hslot := writes_of_encode h
  constructor
  · intro hshown
    obtain ⟨json, hjson⟩ := Option.isSome_iff_exists.1 (hslot.isSome_iff.2 hshown)
    exact ⟨json, hjson ▸ hslot⟩
  · intro hwrites
    obtain ⟨json, hjson⟩ := hwrites
    exact hjson.isSome_iff.1 rfl

end Access

namespace Shape

variable {x y : T} {fields : List (String × Access T)} {members : List (String × Json)} {e : CodecError}

/-! ## All members -/

theorem encodeFields_cons_eq_ok {name : String} {access : Access T} {rest : List (String × Access T)} :
    (encodeFields x ((name, access) :: rest)).result = .ok members
      ↔ ∃ slot, (access.encode x).result = .ok slot ∧ ∃ later, (encodeFields x rest).result = .ok later
          ∧ members = match slot.member? with
            | some json => (name, json) :: later
            | none => later := by
  simp only [encodeFields, Traced.result_bind_eq_ok, Traced.result_inField, mapError_eq_ok]
  refine exists_congr fun slot => and_congr_right fun _ => exists_congr fun later => and_congr_right fun _ => ?_
  cases slot.member? <;> simp [eq_comm]

/-- The member that a field leaves under its name, from what it shows by itself. -/
def memberOf? (x : T) (field : String × Access T) : Option (String × Json) :=
  match (field.2.encode x).result with
  | .ok slot => slot.member?.map (Prod.mk field.1)
  | .error _ => none

theorem memberOf?_of_ok {name : String} {access : Access T} {slot : Presence Json}
    (h : (access.encode x).result = .ok slot) :
    memberOf? x (name, access) = slot.member?.map (Prod.mk name) := by
  simp [memberOf?, h]

/-- There is an encoding if every field shows something, and it has the members that the fields leave. -/
theorem encodeFields_eq_ok :
    (encodeFields x fields).result = .ok members
      ↔ (∀ field ∈ fields, ∃ slot, (field.2.encode x).result = .ok slot)
        ∧ members = fields.filterMap (memberOf? x) := by
  induction fields generalizing members with
  | nil => simp [encodeFields, eq_comm]
  | cons field rest ih =>
    obtain ⟨name, access⟩ := field
    rw [encodeFields_cons_eq_ok, List.forall_mem_cons, List.filterMap_cons]
    constructor
    · intro h
      obtain ⟨slot, hslot, later, hlater, rfl⟩ := h
      obtain ⟨hrest, rfl⟩ := ih.1 hlater
      refine ⟨⟨⟨slot, hslot⟩, hrest⟩, ?_⟩
      rw [memberOf?_of_ok hslot]
      cases slot.member? <;> rfl
    · intro h
      obtain ⟨⟨⟨slot, hslot⟩, hrest⟩, rfl⟩ := h
      refine ⟨slot, hslot, _, ih.2 ⟨hrest, rfl⟩, ?_⟩
      rw [memberOf?_of_ok hslot]
      cases slot.member? <;> rfl

/-- The first field that shows nothing fails the encoding, at its name. -/
theorem encodeFields_eq_error :
    (encodeFields x fields).result = .error e
      ↔ ∃ before name access after cause, fields = before ++ (name, access) :: after
          ∧ (∀ earlier ∈ before, ∃ slot, (earlier.2.encode x).result = .ok slot)
          ∧ (access.encode x).result = .error cause ∧ e = .inField name cause := by
  induction fields with
  | nil => simp [encodeFields]
  | cons field rest ih =>
    obtain ⟨name, access⟩ := field
    have hstep : (encodeFields x ((name, access) :: rest)).result = .error e
        ↔ (∃ cause, (access.encode x).result = .error cause ∧ .inField name cause = e)
          ∨ (∃ slot, (access.encode x).result = .ok slot) ∧ (encodeFields x rest).result = .error e := by
      simp [encodeFields]
    rw [hstep, ih]
    constructor
    · intro h
      rcases h with ⟨cause, hcause, rfl⟩ | ⟨hslot, before, later, laterAccess, after, cause, rfl, hbefore, h⟩
      · exact ⟨[], name, access, rest, cause, rfl, nofun, hcause, rfl⟩
      · exact ⟨(name, access) :: before, later, laterAccess, after, cause, rfl,
          List.forall_mem_cons.2 ⟨hslot, hbefore⟩, h⟩
    · intro h
      obtain ⟨before, later, laterAccess, after, cause, hsplit, hbefore, hcause, rfl⟩ := h
      cases before with
      | nil =>
        cases hsplit
        exact .inl ⟨cause, hcause, rfl⟩
      | cons first before =>
        cases hsplit
        obtain ⟨hslot, hbefore⟩ := List.forall_mem_cons.1 hbefore
        exact .inr ⟨hslot, before, later, laterAccess, after, cause, rfl, hbefore, hcause, rfl⟩

/-- Writing fails exactly if some field does. -/
theorem exists_error_iff :
    (∃ e, (encodeFields x fields).result = .error e)
      ↔ ∃ field ∈ fields, ∃ cause, (field.2.encode x).result = .error cause := by
  constructor
  · intro h
    obtain ⟨e, he⟩ := h
    obtain ⟨before, name, access, after, cause, rfl, -, hcause, -⟩ := encodeFields_eq_error.1 he
    exact ⟨(name, access), by simp, cause, hcause⟩
  · intro h
    obtain ⟨field, hfield, cause, hcause⟩ := h
    cases hresult : (encodeFields x fields).result with
    | error e => exact ⟨e, rfl⟩
    | ok members =>
      obtain ⟨hshown, -⟩ := encodeFields_eq_ok.1 hresult
      obtain ⟨slot, hslot⟩ := hshown field hfield
      rw [hcause] at hslot
      cases hslot

theorem mem_filterMap_memberOf? {key : String} {json : Json} :
    (key, json) ∈ fields.filterMap (memberOf? x) ↔ ∃ access, (key, access) ∈ fields ∧ access.Writes x (some json) := by
  rw [List.mem_filterMap]
  constructor
  · intro h
    obtain ⟨⟨name, access⟩, hfield, hmember⟩ := h
    unfold memberOf? at hmember
    split at hmember
    · rename_i slot hslot
      obtain ⟨shown, hshown, ⟨⟩⟩ := Option.map_eq_some_iff.1 hmember
      exact ⟨access, hfield, Access.writes_iff.2 ⟨slot, hslot, hshown⟩⟩
    · cases hmember
  · intro h
    obtain ⟨access, hfield, hwrites⟩ := h
    obtain ⟨slot, hslot, hmember⟩ := Access.writes_iff.1 hwrites
    exact ⟨(key, access), hfield, by simp [memberOf?_of_ok hslot, hmember]⟩

theorem keys_encodeFields (h : (encodeFields x fields).result = .ok members) :
    (Entries.keys members).Sublist (Entries.keys fields) := by
  induction fields generalizing members with
  | nil =>
    cases h
    exact List.Sublist.refl _
  | cons field rest ih =>
    obtain ⟨name, access⟩ := field
    obtain ⟨slot, -, later, hlater, rfl⟩ := encodeFields_cons_eq_ok.1 h
    cases slot.member? with
    | none => exact (ih hlater).cons _
    | some json => exact (ih hlater).cons_cons _

/-- Each field finds under its name in the encoding what it wrote. -/
theorem lookup_encodeFields (h : (encodeFields x fields).result = .ok members) (nodup : (Entries.keys fields).Nodup) :
    ∀ field ∈ fields, ∃ slot, (field.2.encode x).result = .ok slot ∧ members.lookup field.1 = slot.member? := by
  induction fields generalizing members with
  | nil =>
    intro field hfield
    cases hfield
  | cons head rest ih =>
    obtain ⟨name, access⟩ := head
    obtain ⟨slot, hslot, later, hlater, rfl⟩ := encodeFields_cons_eq_ok.1 h
    obtain ⟨hname, hrest⟩ := List.nodup_cons.1 nodup
    have hnone : later.lookup name = none :=
      Entries.lookup_eq_none_of_not_mem fun hmem => hname ((keys_encodeFields hlater).subset hmem)
    intro field hfield
    rcases List.mem_cons.1 hfield with rfl | hfield
    · refine ⟨slot, hslot, ?_⟩
      cases hmember : slot.member? with
      | none => exact hnone
      | some json => simp
    · obtain ⟨own, hown, hlookup⟩ := ih hlater hrest field hfield
      refine ⟨own, hown, ?_⟩
      have hne : field.1 ≠ name := fun e => hname (List.mem_map.2 ⟨field, hfield, e⟩)
      rw [← hlookup]
      cases slot.member? with
      | none => rfl
      | some json => simp [List.lookup_cons, beq_false_of_ne hne]

/-- The encoding is a function of the contents. -/
theorem encodeFields_congr (h : ∀ field ∈ fields, field.2.lens.get x = field.2.lens.get y) :
    encodeFields x fields = encodeFields y fields := by
  induction fields with
  | nil => rfl
  | cons field rest ih =>
    obtain ⟨name, access⟩ := field
    rw [encodeFields, encodeFields, access.encode_eq x, access.encode_eq y, h _ List.mem_cons_self,
      ih fun field hfield => h field (List.mem_cons_of_mem _ hfield)]

theorem encode_eq_ok {shape : Shape T} {json : Json} :
    (shape.encode x).result = .ok json
      ↔ ∃ members, (encodeFields x shape.fields).result = .ok members ∧ json = .obj members := by
  simp [encode, encodeMembers, @eq_comm _ json]

/-! ## Member by member -/

/-- The members inserted one after another, each under its name. -/
def insertFields (x : T) : List (String × Access T) → List (String × Json) → Traced (List (String × Json))
  | [], members => pure members
  | (name, access) :: rest, members => do
    let slot ← (access.encode x).inField name
    insertFields x rest (match slot.member? with
      | some json => Entries.insert name json members
      | none => members)

/-- No name is there before, so every member goes to the end. -/
theorem insertFields_eq (nodup : (Entries.keys members ++ Entries.keys fields).Nodup) :
    insertFields x fields members = (members ++ ·) <$> encodeFields x fields := by
  induction fields generalizing members with
  | nil => simp [insertFields, encodeFields]
  | cons field rest ih =>
    obtain ⟨name, access⟩ := field
    have hname : name ∉ Entries.keys members := fun hmem =>
      (List.nodup_append.1 nodup).2.2 _ hmem _ List.mem_cons_self rfl
    have hmoved : (Entries.keys members ++ name :: Entries.keys rest).Nodup := nodup
    rw [insertFields, encodeFields, map_bind]
    refine congrArg _ (funext fun slot => ?_)
    cases slot.member? with
    | none =>
      rw [ih (hmoved.sublist ((List.sublist_cons_self _ _).append_left _))]
      simp
    | some json =>
      dsimp only
      rw [Entries.insert_of_not_mem hname, ih (by simpa [Entries.keys_append, Entries.keys] using hmoved)]
      simp

/-! ## Built shapes -/

/-- An encoding is closed under the declarations. Its members are those that the fields leave, in the order
of the fields: no other member is there, none is missing and no name is there twice, so that writing them one
after another into an object replaces nothing. A name has a member exactly if it is declared and there is
content for it. Writing fails exactly if a field by itself does, and then as the first such field. -/
theorem encoding_is_closed (name : String) (declarations : List (Declaration T)) (x : T) :
    let shape := Shape.build name declarations
    (∀ members, (shape.encodeMembers x).result = .ok members
      ↔ (∀ field ∈ shape.fields, ∃ slot, (field.2.encode x).result = .ok slot)
        ∧ members = shape.fields.filterMap (memberOf? x))
    ∧ (∀ members, (shape.encodeMembers x).result = .ok members →
        (Entries.keys members).Nodup ∧ (Entries.keys members).Sublist shape.names
        ∧ (∀ key json, (key, json) ∈ members
            ↔ ∃ access, shape.field? key = some access ∧ access.Writes x (some json))
        ∧ ∀ key, key ∈ Entries.keys members ↔ ∃ access, shape.field? key = some access ∧ access.Shown x)
    ∧ (∀ e, (shape.encodeMembers x).result = .error e
      ↔ ∃ before name access after cause, shape.fields = before ++ (name, access) :: after
          ∧ (∀ earlier ∈ before, ∃ slot, (earlier.2.encode x).result = .ok slot)
          ∧ (access.encode x).result = .error cause ∧ e = .inField name cause)
    ∧ ((∃ e, (shape.encodeMembers x).result = .error e)
      ↔ ∃ field ∈ shape.fields, ∃ cause, (field.2.encode x).result = .error cause)
    ∧ shape.encodeMembers x = insertFields x shape.fields []
    ∧ shape.encode x = .obj <$> shape.encodeMembers x := by
  intro shape
  refine ⟨fun members => encodeFields_eq_ok, fun members h => ?_, fun e => encodeFields_eq_error, ?_, ?_, ?_⟩
  · have hkeys := keys_encodeFields h
    obtain ⟨hshown, hmembers⟩ := encodeFields_eq_ok.1 h
    have hmember (key : String) (json : Json) : (key, json) ∈ members
        ↔ ∃ access, shape.field? key = some access ∧ access.Writes x (some json) := by
      rw [hmembers, mem_filterMap_memberOf?]
      simp only [field?_eq_some_iff_mem]
    refine ⟨hkeys.nodup shape.names_nodup, hkeys, hmember, fun key => ?_⟩
    have hkey : key ∈ Entries.keys members ↔ ∃ json, (key, json) ∈ members := by simp [Entries.keys]
    simp only [hkey, hmember]
    rw [exists_comm]
    refine exists_congr fun access => ?_
    rw [exists_and_left]
    refine and_congr_right fun hfield => ?_
    obtain ⟨slot, hslot⟩ := hshown _ (field?_eq_some_iff_mem.1 hfield)
    exact (Access.shown_iff hslot).symm
  · exact exists_error_iff
  · have hnodup : (Entries.keys ([] : List (String × Json)) ++ Entries.keys shape.fields).Nodup := shape.names_nodup
    rw [insertFields_eq hnodup]
    simp [encodeMembers]
  · rw [encode, map_eq_pure_bind]

end Shape

namespace Sample

/-- A label that declares its weight twice, first as a constant, and has an owner and a kind in between. -/
def label : Shape (Presence String × Option Double) := .build "Label" [
  .constant "weight" .null,
  .nullable "owner" .string ⟨Prod.fst, fun v x => (v, x.2)⟩,
  .constant "kind" (.str "pet"),
  .optional "weight" .float64 ⟨Prod.snd, fun v x => (x.1, v)⟩]

/-- Without a weight the name declared first leaves nothing, also not the constant that was there, and the
null owner is written. A weight that is no number of the wire fails at its own name. -/
theorem label_without_weight :
    let infinity : Double := ⟨false, Format.double.infinityCode, Format.double.infinityCode_lt⟩
    let shown := [("owner", Json.null), ("kind", Json.str "pet")]
    (label.encodeMembers (.null, none)).result = .ok shown
    ∧ label.names = ["weight", "owner", "kind"] ∧ "weight" ∉ Entries.keys shown
    ∧ (∃ access, label.field? "owner" = some access ∧ access.Writes (.null, none) (some .null))
    ∧ (label.encodeMembers (.absent, some infinity)).result = .error (.inField "weight" (.nonFinite infinity)) := by
  intro infinity shown
  have hshown : (label.encodeMembers (.null, none)).result = .ok shown := rfl
  let weightless : Presence String × Option Double := (.null, none)
  let heaviest : Presence String × Option Double := (.absent, some infinity)
  obtain ⟨-, closed, -⟩ := Shape.encoding_is_closed "Label" _ weightless
  obtain ⟨-, -, hmember, -⟩ := closed shown hshown
  obtain ⟨-, -, failing, -⟩ := Shape.encoding_is_closed "Label" _ heaviest
  refine ⟨hshown, rfl, by decide, (hmember "owner" .null).1 List.mem_cons_self, (failing _).2 ?_⟩
  exact ⟨[], "weight", _, _, .nonFinite infinity, rfl, nofun, rfl, rfl⟩

end Sample

end JsonWire
