/-
  JsonWire.Proofs.RoundTrip — what a shape writes, it reads back.

  An encoding has one member for each field that is not absent, under the field's name
  (`lookup_encodeFields`), so every field of the shape finds in it what it wrote itself.
  Where the contents come back from their own encodings, reading the encoding over the
  default value gives the same contents at every place of the shape and the default
  everywhere else (`shape_round_trip`).

  Two things stand in the way and are named: a value that is present and written as null
  (`PresentNull`), which reads as nothing, and a default that is not absent where the
  encoded value is. Nothing is written there, and a missing key leaves the default as it
  is (`get_of_absentAt`), so that a draft without a title comes back with the one that
  every draft has at first (`blank_reads_as_the_default`).
-/

import JsonWire.Proofs.Lookup
import JsonWire.Proofs.Patching
import JsonWire.Proofs.Writing

namespace JsonWire

variable {T F G : Type}

/-- The encoding of the value is read as the value. -/
def Codec.RoundTrips (codec : Codec F) (value : F) : Prop :=
  ∃ json, (codec.encode value).result = .ok json ∧ (codec.decode json).result = .ok value

/-! ## One field -/

namespace Access

/-- Every value that the content holds comes back from its encoding. -/
def RoundTrips : (access : Access T) → access.Content → Prop
  | .required _ codec, content => codec.RoundTrips content
  | .optional _ codec, content => ∀ value, content = some value → codec.RoundTrips value
  | .nullable _ codec, content => ∀ value, content = .present value → codec.RoundTrips value
  | .constant _, _ => True

/-- The content of an optional or nullable field is a value that is written as null. -/
def PresentNull : (access : Access T) → access.Content → Prop
  | .optional _ codec, content => ∃ value, content = some value ∧ (codec.encode value).result = .ok .null
  | .nullable _ codec, content => ∃ value, content = .present value ∧ (codec.encode value).result = .ok .null
  | _, _ => False

/-- An optional or nullable field holds nothing. -/
def Absent : (access : Access T) → access.Content → Prop
  | .optional _ _, content => content = none
  | .nullable _ _, content => content = .absent
  | _, _ => False

theorem Absent.eq {access : Access T} {a b : access.Content} (ha : access.Absent a) (hb : access.Absent b) :
    a = b := by
  cases access with
  | optional lens codec => exact Eq.trans ha (Eq.symm hb)
  | nullable lens codec => exact Eq.trans ha (Eq.symm hb)
  | required lens codec => exact ha.elim
  | constant literal => exact ha.elim

/-- Nothing is written for a field that holds nothing. -/
theorem Absent.member?_eq_none {access : Access T} {content : access.Content} {slot : Presence Json}
    (habsent : access.Absent content) (h : (access.present content).result = .ok slot) : slot.member? = none := by
  cases access with
  | optional lens codec =>
    cases habsent
    obtain rfl : .absent = slot := by simpa [Access.present, Codec.encodeOptional] using h
    rfl
  | nullable lens codec =>
    cases habsent
    obtain rfl : .absent = slot := by simpa [Access.present, Codec.encodeNullable, Presence.traverse] using h
    rfl
  | required lens codec => exact habsent.elim
  | constant literal => exact habsent.elim

end Access

theorem Json.isNull_iff {json : Json} : json.isNull = true ↔ json = .null := by
  cases json <;> simp [isNull]

theorem Json.isNull_eq_false_iff {json : Json} : json.isNull = false ↔ json ≠ .null := by
  rw [← Bool.not_eq_true, isNull_iff]

namespace Shape

/-- A content that round trips either leaves no member, and then it is absent, or leaves one that the
field reads as the content. -/
theorem readField_of_present {policy : NullPolicy} {access : Access T} {content : access.Content}
    {slot : Presence Json} (h : (access.present content).result = .ok slot)
    (roundTrips : access.RoundTrips content) (notNull : ¬ access.PresentNull content) :
    (slot.member? = none ∧ access.Absent content)
      ∨ ∃ item, slot.member? = some item ∧ (readField policy access item).result = .ok content := by
  cases access with
  | required lens codec =>
    obtain ⟨json, hencode, hdecode⟩ := roundTrips
    obtain rfl : .present json = slot := by simpa [Access.present, hencode] using h
    refine .inr ⟨json, rfl, ?_⟩
    rw [readField_required]
    exact hdecode
  | optional lens codec =>
    cases content with
    | none =>
      have absent : (Access.optional lens codec).Absent none := rfl
      exact .inl ⟨absent.member?_eq_none h, absent⟩
    | some value =>
      obtain ⟨json, hencode, hdecode⟩ := roundTrips value rfl
      obtain rfl : .present json = slot := by simpa [Access.present, Codec.encodeOptional, hencode] using h
      have hnull : json.isNull = false :=
        Json.isNull_eq_false_iff.2 fun e => notNull ⟨value, rfl, e ▸ hencode⟩
      refine .inr ⟨json, rfl, ?_⟩
      rw [readField_optional lens codec hnull]
      show (codec.decodeOptional json).result = .ok (some value)
      simp [Codec.decodeOptional, hdecode]
  | nullable lens codec =>
    cases content with
    | absent =>
      have absent : (Access.nullable lens codec).Absent .absent := rfl
      exact .inl ⟨absent.member?_eq_none h, absent⟩
    | null =>
      obtain rfl : .null = slot := by simpa [Access.present, Codec.encodeNullable, Presence.traverse] using h
      refine .inr ⟨.null, rfl, ?_⟩
      rw [readField_nullable]
      rfl
    | present value =>
      obtain ⟨json, hencode, hdecode⟩ := roundTrips value rfl
      obtain rfl : .present json = slot := by
        simpa [Access.present, Codec.encodeNullable, Presence.traverse, hencode] using h
      have hnull : json.isNull = false :=
        Json.isNull_eq_false_iff.2 fun e => notNull ⟨value, rfl, e ▸ hencode⟩
      refine .inr ⟨json, rfl, ?_⟩
      rw [readField_nullable]
      show (codec.decodeNullable json).result = .ok (.present value)
      simp [Codec.decodeNullable, hnull, hdecode]
  | constant literal =>
    obtain rfl : .present literal = slot := by simpa [Access.present] using h
    refine .inr ⟨literal, rfl, ?_⟩
    rw [readField_constant]
    rfl

/-! ## The shape -/

/-- What a field finds in the encoding of a value whose contents round trip. -/
theorem lookup_encodeFields_of_roundTrips (policy : NullPolicy) {x : T} {fields : List (String × Access T)}
    {members : List (String × Json)} (h : (encodeFields x fields).result = .ok members)
    (nodup : (Entries.keys fields).Nodup) (roundTrips : ∀ field ∈ fields, field.2.RoundTrips (field.2.lens.get x))
    (notNull : ∀ field ∈ fields, ¬ field.2.PresentNull (field.2.lens.get x)) :
    ∀ field ∈ fields, (members.lookup field.1 = none ∧ field.2.Absent (field.2.lens.get x))
      ∨ ∃ item, members.lookup field.1 = some item
          ∧ (readField policy field.2 item).result = .ok (field.2.lens.get x) := by
  intro field hfield
  obtain ⟨slot, hslot, hlookup⟩ := lookup_encodeFields h nodup field hfield
  rw [Access.encode_eq] at hslot
  rw [hlookup]
  exact readField_of_present hslot (roundTrips field hfield) (notNull field hfield)

/-- Reading what a shape wrote, over the default value, gives every place of the shape its content. Only
where nothing was written is the default left. -/
theorem exists_decode_of_encode [Inhabited T] {shape : Shape T} (separate : shape.Separate) {x : T} {json : Json}
    (h : (shape.encode x).result = .ok json)
    (roundTrips : ∀ field ∈ shape.fields, field.2.RoundTrips (field.2.lens.get x))
    (notNull : ∀ field ∈ shape.fields, ¬ field.2.PresentNull (field.2.lens.get x)) :
    ∃ y, (shape.decode json).result = .ok y ∧ ∀ field ∈ shape.fields, field.2.lens.get y = field.2.lens.get x
      ∨ field.2.Absent (field.2.lens.get x) ∧ field.2.lens.get y = field.2.lens.get default := by
  obtain ⟨members, hmembers, rfl⟩ := encode_eq_ok.1 h
  have found :=
    lookup_encodeFields_of_roundTrips shape.nullPolicy hmembers shape.names_nodup roundTrips notNull
  have reads : Reads shape.nullPolicy members shape.fields := by
    intro field hfield item hitem
    rcases found field hfield with ⟨hnone, -⟩ | ⟨other, hother, hread⟩
    · rw [hnone] at hitem
      cases hitem
    · rw [hother] at hitem
      cases hitem
      exact ⟨_, hread⟩
  obtain ⟨y, hy⟩ := exists_ok_of_reads reads (default : T)
  refine ⟨y, patch_eq_ok.2 ⟨members, rfl, hy⟩, fun field hfield => ?_⟩
  have apart := fun other hother => separate.apart other hother field hfield
  by_cases hkind : field.2.kind = .constant
  · exact .inl (Access.get_eq_of_constant hkind y x)
  by_cases hwritten : Written members shape.fields field.2.place
  · obtain ⟨access, item, hlast⟩ := exists_lastAt hwritten
    have hread := readField_of_lastAt hy separate.lawful apart hlast
    obtain ⟨hconstant, hplace, before, name, after, hsplit, hitem, -⟩ := hlast
    have hmem : (name, access) ∈ shape.fields := by rw [hsplit]; simp
    have hown : access.lens.get y = access.lens.get x := by
      rcases found (name, access) hmem with ⟨hnone, -⟩ | ⟨other, hother, hown⟩
      · rw [hnone] at hitem
        cases hitem
      · rw [hother] at hitem
        cases hitem
        exact Except.ok.inj (hread.symm.trans hown)
    exact .inl (Place.get_eq_of_eq hplace hown)
  · rcases found field hfield with ⟨-, habsent⟩ | ⟨item, hitem, -⟩
    · exact .inr ⟨habsent, get_of_not_written hy apart hwritten⟩
    · exact absurd ⟨field, hfield, hkind, rfl, by simp [hitem]⟩ hwritten

/-- No field of the place holds anything. -/
def AbsentAt (shape : Shape T) (x : T) (place : Place T) : Prop :=
  ∀ field ∈ shape.fields, field.2.place = place → field.2.Absent (field.2.lens.get x)

/-- Where no field of a place held anything the encoding has no member for it, and the default is left. -/
theorem get_of_absentAt [Inhabited T] {shape : Shape T} (separate : shape.Separate) {x y : T} {json : Json}
    (hencode : (shape.encode x).result = .ok json) (hdecode : (shape.decode json).result = .ok y) :
    ∀ field ∈ shape.fields, shape.AbsentAt x field.2.place → field.2.lens.get y = field.2.lens.get default := by
  intro field hfield absent
  obtain ⟨members, hmembers, rfl⟩ := encode_eq_ok.1 hencode
  obtain ⟨found, hfound, hrun⟩ := patch_eq_ok.1 hdecode
  cases hfound
  refine get_of_not_written hrun (fun other hother => separate.apart other hother field hfield) ?_
  intro hwritten
  obtain ⟨other, hother, -, hplace, hmember⟩ := hwritten
  obtain ⟨slot, hslot, hlookup⟩ := lookup_encodeFields hmembers shape.names_nodup other hother
  rw [Access.encode_eq] at hslot
  rw [hlookup] at hmember
  exact hmember ((absent other hother hplace).member?_eq_none hslot)

/-- A default that is absent where the value is makes no difference to it. -/
theorem get_eq_of_startsAbsent [Inhabited T] {fields : List (String × Access T)} {x y : T}
    (startsAbsent : ∀ field ∈ fields, field.2.Absent (field.2.lens.get x) → field.2.Absent (field.2.lens.get default))
    (contents : ∀ field ∈ fields, field.2.lens.get y = field.2.lens.get x
      ∨ field.2.Absent (field.2.lens.get x) ∧ field.2.lens.get y = field.2.lens.get default) :
    ∀ field ∈ fields, field.2.lens.get y = field.2.lens.get x := by
  intro field hfield
  rcases contents field hfield with h | ⟨habsent, hdefault⟩
  · exact h
  · rw [hdefault]
    exact (startsAbsent field hfield habsent).eq habsent

theorem encode_eq_ok_of_contents {shape : Shape T} {x y : T} {json : Json}
    (same : ∀ field ∈ shape.fields, field.2.lens.get y = field.2.lens.get x)
    (h : (shape.encode x).result = .ok json) : (shape.encode y).result = .ok json := by
  obtain ⟨members, hmembers, rfl⟩ := encode_eq_ok.1 h
  rw [encode_eq_ok]
  exact ⟨members, by rw [encodeFields_congr same]; exact hmembers, rfl⟩

/-- The round trip of a shape. Reading what it wrote, over the default value, gives every place of the
shape its content and every other place the default. Where an optional or nullable field is absent
nothing was written, and the default is left there; if that is absent too, as it is wherever nothing is
set at first, all contents come back and writing the result gives the same document. -/
theorem shape_round_trip [Inhabited T] (shape : Shape T) (separate : shape.Separate) {x : T} {json : Json}
    (h : (shape.encode x).result = .ok json)
    (roundTrips : ∀ field ∈ shape.fields, field.2.RoundTrips (field.2.lens.get x))
    (notNull : ∀ field ∈ shape.fields, ¬ field.2.PresentNull (field.2.lens.get x)) :
    ∃ y, (shape.decode json).result = .ok y
      ∧ (∀ field ∈ shape.fields, field.2.lens.get y = field.2.lens.get x
          ∨ field.2.Absent (field.2.lens.get x) ∧ field.2.lens.get y = field.2.lens.get default)
      ∧ (∀ field ∈ shape.fields, shape.AbsentAt x field.2.place → field.2.lens.get y = field.2.lens.get default)
      ∧ (∀ {G : Type} (lens : Lens T G), (∀ field ∈ shape.fields, field.2.lens.Spares lens) →
          lens.get y = lens.get default)
      ∧ ((∀ field ∈ shape.fields, field.2.Absent (field.2.lens.get x) → field.2.Absent (field.2.lens.get default)) →
          (∀ field ∈ shape.fields, field.2.lens.get y = field.2.lens.get x)
          ∧ (shape.encode y).result = .ok json) := by
  obtain ⟨y, hy, contents⟩ := exists_decode_of_encode separate h roundTrips notNull
  refine ⟨y, hy, contents, get_of_absentAt separate h hy, ?_, fun startsAbsent => ?_⟩
  · intro G lens spared
    obtain ⟨members, -, hrun⟩ := patch_eq_ok.1 hy
    exact get_of_spared hrun fun field hfield _ => spared field hfield
  · have same := get_eq_of_startsAbsent startsAbsent contents
    exact ⟨same, encode_eq_ok_of_contents same h⟩

namespace Told

open Sample

def rexJson : Json := .obj [("name", .str "Rex"), ("age", .str "old"), ("nickname", .str "R"), ("owner", .null),
  ("tags", .arr [.str "good"]), ("called", .str "Rex")]

/-- Both names, the null and the tags come back; the age that the constant hides is the default again. -/
theorem rex_round_trips :
    (shape.encode rex).result = .ok rexJson
    ∧ (∀ field ∈ shape.fields, field.2.RoundTrips (field.2.lens.get rex))
    ∧ (∀ field ∈ shape.fields, ¬ field.2.PresentNull (field.2.lens.get rex))
    ∧ (∀ field ∈ shape.fields, field.2.Absent (field.2.lens.get rex) → field.2.Absent (field.2.lens.get default))
    ∧ ∃ y, (shape.decode rexJson).result = .ok y ∧ y.pet.name = "Rex" ∧ y.pet.age = default := by
  have encoded : (shape.encode rex).result = .ok rexJson := rfl
  have roundTrips : ∀ field ∈ shape.fields, field.2.RoundTrips (field.2.lens.get rex) := by
    simp [shape, Pet.shape, Entries.ofList, Entries.insert]
    refine ⟨.intro _ ⟨rfl, rfl⟩, trivial, ?_, ?_, .intro _ ⟨rfl, rfl⟩, .intro _ ⟨rfl, rfl⟩⟩
    · intro value hvalue
      cases hvalue
      exact ⟨_, rfl, rfl⟩
    · intro value hvalue
      cases hvalue
  have notNull : ∀ field ∈ shape.fields, ¬ field.2.PresentNull (field.2.lens.get rex) := by
    simp [shape, Pet.shape, Entries.ofList, Entries.insert]
    refine ⟨id, id, ?_, ?_, id, id⟩
    · intro hpresent
      obtain ⟨value, hvalue, hnull⟩ := hpresent
      cases hvalue
      cases hnull
    · intro hpresent
      obtain ⟨value, hvalue, -⟩ := hpresent
      cases hvalue
  have startsAbsent : ∀ field ∈ shape.fields,
      field.2.Absent (field.2.lens.get rex) → field.2.Absent (field.2.lens.get default) := by
    simp [shape, Pet.shape, Entries.ofList, Entries.insert]
    refine ⟨id, id, ?_, ?_, id, id⟩ <;> (intro habsent; cases habsent)
  obtain ⟨y, hy, -, -, others, whole⟩ := shape_round_trip shape separate_shape encoded roundTrips notNull
  obtain ⟨contents, -⟩ := whole startsAbsent
  refine ⟨encoded, roundTrips, notNull, startsAbsent, y, hy, ?_, ?_⟩
  · exact contents ("called", .required name .string) (List.mem_of_getElem? (i := 5) rfl)
  · refine others ⟨fun d => d.pet.age, fun v d => { d with pet := { d.pet with age := v } }⟩ ?_
    simp [shape, Pet.shape, Entries.ofList, Entries.insert]
    exact ⟨fun _ _ => rfl, fun _ _ => rfl, fun _ _ => rfl, fun _ _ => rfl, fun _ _ => rfl, fun _ _ => rfl⟩

end Told

/-- A paper in the making, with a title and no reviewer until it is given others. -/
structure Draft where
  title : Option String
  reviewer : Presence String

namespace Draft

instance : Inhabited Draft := ⟨⟨some "untitled", .null⟩⟩

def shape : Shape Draft := .build "Draft" [
  .optional "title" .string ⟨Draft.title, fun v d => { d with title := v }⟩,
  .nullable "reviewer" .string ⟨Draft.reviewer, fun v d => { d with reviewer := v }⟩]

def row : Draft ≃ Option String × Presence String where
  toFun d := (d.title, d.reviewer)
  invFun | (title, reviewer) => ⟨title, reviewer⟩

theorem separate_shape : shape.Separate := (disjoint_of_row row (.cons rfl (.last rfl))).separate

def blank : Draft := ⟨none, .absent⟩

/-- A draft of which nothing is known is written as an empty object, and that is read as the default: no field
has its content back, and the second encoding is another document. All that the round trip asks of the contents
holds, for there are none. -/
theorem blank_reads_as_the_default :
    shape.Separate ∧ (shape.encode blank).result = .ok (.obj [])
    ∧ (∀ field ∈ shape.fields, field.2.RoundTrips (field.2.lens.get blank))
    ∧ (∀ field ∈ shape.fields, ¬ field.2.PresentNull (field.2.lens.get blank))
    ∧ ∃ y, (shape.decode (.obj [])).result = .ok y
      ∧ (∀ field ∈ shape.fields, field.2.lens.get y ≠ field.2.lens.get blank)
      ∧ (shape.encode y).result = .ok (.obj [("title", .str "untitled"), ("reviewer", .null)])
      ∧ (shape.encode y).result ≠ .ok (.obj []) := by
  have again : (shape.encode default).result = .ok (.obj [("title", .str "untitled"), ("reviewer", .null)]) := rfl
  refine ⟨separate_shape, rfl, ?_, ?_, default, rfl, ?_, again, ?_⟩
  · refine List.forall_mem_cons.2 ⟨?_, List.forall_mem_singleton.2 ?_⟩ <;> (intro value hvalue; cases hvalue)
  · refine List.forall_mem_cons.2 ⟨?_, List.forall_mem_singleton.2 ?_⟩ <;>
      (intro hpresent; obtain ⟨value, hvalue, -⟩ := hpresent; cases hvalue)
  · refine List.forall_mem_cons.2 ⟨?_, List.forall_mem_singleton.2 ?_⟩ <;> (intro hsame; cases hsame)
  · rw [again]
    intro hsame
    cases hsame

end Draft

end Shape

end JsonWire
