/-
  JsonWire.Proofs.SettlingShapes — a shape settles when its fields do.

  After reading, a place holds either what it started with or what one of its fields
  read. Each of them has an encoding, so the whole value has one; and reading that gives
  the same contents, hence the same value, as a value that was read is determined by
  them. All fields at a place have to read it alike here (`Uniform`), or the later would
  read what only the earlier accepted.
-/

import JsonWire.Proofs.Determined
import JsonWire.Proofs.RoundTrip
import JsonWire.Proofs.Settling

namespace JsonWire

variable {S T F : Type}

/-! ## Fields -/

namespace Access

/-- The content has a place in the encoding, from which it is read if all in it is known. -/
def Keeps (access : Access T) (known : T → Prop) (x : T) : Prop :=
  ∃ slot, (access.encode x).result = .ok slot
    ∧ (known x → access.RoundTrips (access.lens.get x) ∧ ¬ access.PresentNull (access.lens.get x))

/-- Whatever the field reads, it keeps, and so it does with what is there at the start. -/
inductive Settles (start : T) (known : T → Prop) : Access T → Prop
  | required {F : Type} {lens : Lens T F} {codec : Codec F} {held : F → Prop} : codec.Settles held →
      codec.Keeps held (lens.get start) → (∀ x, known x → held (lens.get x)) →
      Settles start known (.required lens codec)
  | optional {F : Type} {lens : Lens T (Option F)} {codec : Codec F} {held : F → Prop} : codec.Settles held →
      codec.NeverNull → lens.get start = none → (∀ x value, known x → lens.get x = some value → held value) →
      Settles start known (.optional lens codec)
  | nullable {F : Type} {lens : Lens T (Presence F)} {codec : Codec F} {held : F → Prop} : codec.Settles held →
      codec.NeverNull → lens.get start = .absent → (∀ x value, known x → lens.get x = .present value → held value) →
      Settles start known (.nullable lens codec)
  | constant {literal : Json} : Settles start known (.constant literal)

variable {start : T} {known : T → Prop} {access : Access T}

theorem Settles.through (h : access.Settles start known) {outer : Lens S T} {whole : S} {knownWhole : S → Prop}
    (hstart : outer.get whole = start) (hknown : ∀ x, knownWhole x → known (outer.get x)) :
    (access.through outer).Settles whole knownWhole := by
  subst hstart
  cases h with
  | required hcodec hkeeps held => exact .required hcodec hkeeps fun x hx => held _ (hknown x hx)
  | optional hcodec hnull hnone held =>
    exact .optional hcodec hnull hnone fun x value hx => held _ value (hknown x hx)
  | nullable hcodec hnull habsent held =>
    exact .nullable hcodec hnull habsent fun x value hx => held _ value (hknown x hx)
  | constant => exact .constant

theorem Settles.startsAbsent (h : access.Settles start known) {content : access.Content}
    (habsent : access.Absent content) : access.Absent (access.lens.get start) := by
  cases h with
  | required => exact habsent.elim
  | optional _ _ hnone _ => exact hnone
  | nullable _ _ hstart _ => exact hstart
  | constant => exact habsent.elim

section Reading

variable {policy : NullPolicy} {codec : Codec F} {item : Json}

/-- A value of an optional field was read by its codec. -/
theorem decode_eq_ok_of_optional {lens : Lens T (Option F)} {value : F}
    (h : (Shape.readField policy (.optional lens codec) item).result = .ok (some value)) :
    (codec.decode item).result = .ok value := by
  have hread : (if item.isNull then pure none else codec.decodeOptional item : Traced (Option F)).result
      = .ok (some value) := Shape.read_of_readField h
  split at hread
  · cases hread
  · obtain ⟨read, hread, ⟨⟩⟩ := Traced.result_bind_eq_ok.1 hread
    exact hread

/-- A value of a nullable field was read by its codec. -/
theorem decode_eq_ok_of_nullable {lens : Lens T (Presence F)} {value : F}
    (h : (Shape.readField policy (.nullable lens codec) item).result = .ok (.present value)) :
    (codec.decode item).result = .ok value := by
  rw [Shape.readField_nullable] at h
  unfold Codec.decodeNullable at h
  split at h
  · cases h
  · obtain ⟨read, hread, ⟨⟩⟩ := Traced.result_bind_eq_ok.1 h
    exact hread

end Reading

section Content

variable {codec : Codec F} {held : F → Prop} {x : T}

theorem keeps_required {lens : Lens T F} (h : codec.Keeps held (lens.get x)) (hheld : known x → held (lens.get x)) :
    (required lens codec).Keeps known x := by
  obtain ⟨json, hencode, hdecode⟩ := h
  refine ⟨.present json, ?_, fun hknown => ⟨⟨json, hencode, hdecode (hheld hknown)⟩, id⟩⟩
  simp [encode, hencode]

theorem keeps_optional {lens : Lens T (Option F)} (h : ∀ value, lens.get x = some value → codec.Keeps held value)
    (hnull : codec.NeverNull) (hheld : ∀ value, known x → lens.get x = some value → held value) :
    (optional lens codec).Keeps known x := by
  show ∃ slot, (codec.encodeOptional (lens.get x)).result = .ok slot
    ∧ (known x → (∀ value, lens.get x = some value → codec.RoundTrips value)
      ∧ ¬ ∃ value, lens.get x = some value ∧ (codec.encode value).result = .ok .null)
  generalize lens.get x = content at h hheld ⊢
  cases content with
  | none => exact ⟨.absent, rfl, fun _ => by simp⟩
  | some value =>
    obtain ⟨json, hencode, hdecode⟩ := h value rfl
    refine ⟨.present json, by simp [Codec.encodeOptional, hencode], fun hknown => ⟨?_, ?_⟩⟩
    · intro read hread
      cases hread
      exact ⟨json, hencode, hdecode (hheld value hknown rfl)⟩
    · intro hpresent
      obtain ⟨read, hread, hencoded⟩ := hpresent
      cases hread
      exact hnull value hencoded

theorem keeps_nullable {lens : Lens T (Presence F)}
    (h : ∀ value, lens.get x = .present value → codec.Keeps held value)
    (hnull : codec.NeverNull) (hheld : ∀ value, known x → lens.get x = .present value → held value) :
    (nullable lens codec).Keeps known x := by
  show ∃ slot, (codec.encodeNullable (lens.get x)).result = .ok slot
    ∧ (known x → (∀ value, lens.get x = .present value → codec.RoundTrips value)
      ∧ ¬ ∃ value, lens.get x = .present value ∧ (codec.encode value).result = .ok .null)
  generalize lens.get x = content at h hheld ⊢
  cases content with
  | absent => exact ⟨.absent, rfl, fun _ => by simp⟩
  | null => exact ⟨.null, rfl, fun _ => by simp⟩
  | present value =>
    obtain ⟨json, hencode, hdecode⟩ := h value rfl
    refine ⟨.present json, by simp [Codec.encodeNullable, Presence.traverse, hencode], fun hknown => ⟨?_, ?_⟩⟩
    · intro read hread
      cases hread
      exact ⟨json, hencode, hdecode (hheld value hknown rfl)⟩
    · intro hpresent
      obtain ⟨read, hread, hencoded⟩ := hpresent
      cases hread
      exact hnull value hencoded

end Content

/-- A field keeps what it read, and what was there. -/
theorem Settles.keeps (h : access.Settles start known) {x : T}
    (hx : access.lens.get x = access.lens.get start
      ∨ ∃ policy item, (Shape.readField policy access item).result = .ok (access.lens.get x)) :
    access.Keeps known x := by
  cases h with
  | @required F lens codec held hcodec hkeeps hheld =>
    refine keeps_required ?_ (hheld x)
    rcases hx with hx | ⟨policy, item, hx⟩
    · exact Eq.mpr (congrArg _ hx) hkeeps
    · rw [Shape.readField_required] at hx
      exact hcodec item _ hx
  | @optional F lens codec held hcodec hnull hnone hheld =>
    refine keeps_optional (fun value hvalue => ?_) hnull (hheld x)
    change lens.get x = lens.get start ∨ ∃ policy item, _ = Except.ok (lens.get x) at hx
    rw [hvalue] at hx
    rcases hx with hx | ⟨policy, item, hx⟩
    · cases hx.trans hnone
    · exact hcodec item value (decode_eq_ok_of_optional hx)
  | @nullable F lens codec held hcodec hnull habsent hheld =>
    refine keeps_nullable (fun value hvalue => ?_) hnull (hheld x)
    change lens.get x = lens.get start ∨ ∃ policy item, _ = Except.ok (lens.get x) at hx
    rw [hvalue] at hx
    rcases hx with hx | ⟨policy, item, hx⟩
    · cases hx.trans habsent
    · exact hcodec item value (decode_eq_ok_of_nullable hx)
  | @constant literal => exact ⟨.present literal, rfl, fun _ => ⟨trivial, id⟩⟩

end Access

/-! ## Shapes -/

namespace Shape

/-- Every field settles over the default value. -/
def Settles [Inhabited T] (shape : Shape T) (known : T → Prop) : Prop :=
  ∀ field ∈ shape.fields, field.2.Settles default known

/-- Of the names of an access the last that has a member has this one. -/
def LastMember (members : List (String × Json)) (fields : List (String × Access T)) (access : Access T)
    (item : Json) : Prop :=
  ∃ before name after, fields = before ++ (name, access) :: after ∧ members.lookup name = some item
    ∧ ∀ later ∈ after, later.2 = access → members.lookup later.1 = none

theorem exists_lastMember {members : List (String × Json)} {fields : List (String × Access T)} {access : Access T}
    (h : ∃ field ∈ fields, field.2 = access ∧ members.lookup field.1 ≠ none) :
    ∃ item, LastMember members fields access item := by
  induction fields with
  | nil =>
    obtain ⟨field, hfield, -⟩ := h
    cases hfield
  | cons head rest ih =>
    by_cases hrest : ∃ field ∈ rest, field.2 = access ∧ members.lookup field.1 ≠ none
    · obtain ⟨item, before, name, after, rfl, hlast⟩ := ih hrest
      exact ⟨item, head :: before, name, after, rfl, hlast⟩
    · obtain ⟨field, hfield, rfl, hne⟩ := h
      rcases List.mem_cons.1 hfield with rfl | hfield
      · obtain ⟨item, hitem⟩ := Option.ne_none_iff_exists'.1 hne
        refine ⟨item, [], field.1, rest, rfl, hitem, fun later hlater hsame => ?_⟩
        by_contra hmember
        exact hrest ⟨later, hlater, hsame, hmember⟩
      · exact absurd ⟨field, hfield, rfl, hne⟩ hrest

theorem LastMember.unique {members : List (String × Json)} {fields : List (String × Access T)} {access : Access T}
    {item other : Json} (h : LastMember members fields access item)
    (hother : LastMember members fields access other) : item = other := by
  obtain ⟨before, name, after, rfl, hitem, hlast⟩ := h
  obtain ⟨before', name', after', hsplit, hother, hlast'⟩ := hother
  rcases List.append_eq_append_iff.1 hsplit with ⟨between, -, hmid⟩ | ⟨between, -, hmid⟩
  · cases between with
    | nil =>
      cases hmid
      exact Option.some.inj (hitem.symm.trans hother)
    | cons field between =>
      cases hmid
      have hnone := hlast (name', access) (by simp) rfl
      rw [hnone] at hother
      cases hother
  · cases between with
    | nil =>
      cases hmid
      exact Option.some.inj (hitem.symm.trans hother)
    | cons field between =>
      cases hmid
      have hnone := hlast' (name, access) (by simp) rfl
      rw [hnone] at hitem
      cases hitem

/-- After reading, a field holds what it held if its access has a member under none of its names, and
otherwise what it read from the last. -/
theorem Uniform.get_of_decodeFields {shape : Shape T} (h : shape.Uniform) {policy : NullPolicy}
    {members : List (String × Json)} {target result : T}
    (hrun : (decodeFields policy members shape.fields target).result = .ok result) :
    ∀ field ∈ shape.fields,
      (∀ other ∈ shape.fields, other.2 = field.2 → members.lookup other.1 = none)
          ∧ field.2.lens.get result = field.2.lens.get target
        ∨ ∃ item, LastMember members shape.fields field.2 item
          ∧ (readField policy field.2 item).result = .ok (field.2.lens.get result) := by
  intro field hfield
  by_cases hmember : ∃ other ∈ shape.fields, other.2 = field.2 ∧ members.lookup other.1 ≠ none
  · obtain ⟨item, hlast⟩ := exists_lastMember hmember
    refine .inr ⟨item, hlast, ?_⟩
    obtain ⟨before, name, after, hsplit, hitem, hnone⟩ := hlast
    rw [hsplit] at hrun
    refine get_of_last hrun (h.lawful field hfield) hitem fun later hlater hne => ?_
    have hmem : later ∈ shape.fields := by simp [hsplit, hlater]
    exact h.spares hmem hfield fun hsame => hne (hnone later hlater hsame)
  · have hnone : ∀ other ∈ shape.fields, other.2 = field.2 → members.lookup other.1 = none := by
      intro other hother hsame
      by_contra hne
      exact hmember ⟨other, hother, hsame, hne⟩
    refine .inl ⟨hnone, get_of_spared hrun fun other hother hne => ?_⟩
    exact h.spares hother hfield fun hsame => hne (hnone other hother hsame)

theorem exists_encodeFields {x : T} {fields : List (String × Access T)}
    (h : ∀ field ∈ fields, ∃ slot, (field.2.encode x).result = .ok slot) :
    ∃ members, (encodeFields x fields).result = .ok members :=
  ⟨_, encodeFields_eq_ok.2 ⟨h, rfl⟩⟩

theorem Uniform.settles_codec [Inhabited T] {shape : Shape T} (uniform : shape.Uniform) {known : T → Prop}
    (h : shape.Settles known) : shape.codec.Settles known := by
  intro raw x hraw
  obtain ⟨members, rfl, hrun⟩ := patch_eq_ok.1 hraw
  have keeps : ∀ field ∈ shape.fields, field.2.Keeps known x := by
    intro field hfield
    rcases uniform.get_of_decodeFields hrun field hfield with ⟨-, hstart⟩ | ⟨item, -, hread⟩
    · exact (h field hfield).keeps (.inl hstart)
    · exact (h field hfield).keeps (.inr ⟨_, item, hread⟩)
  obtain ⟨written, hwritten⟩ := exists_encodeFields fun field hfield => (keeps field hfield).imp fun _ => And.left
  have hencode : (shape.encode x).result = .ok (.obj written) := encode_eq_ok.2 ⟨written, hwritten, rfl⟩
  refine ⟨.obj written, hencode, fun hknown => ?_⟩
  have contents : ∀ field ∈ shape.fields,
      field.2.RoundTrips (field.2.lens.get x) ∧ ¬ field.2.PresentNull (field.2.lens.get x) := by
    intro field hfield
    obtain ⟨slot, -, hcontent⟩ := keeps field hfield
    exact hcontent hknown
  obtain ⟨y, hy, hcontents⟩ := exists_decode_of_encode uniform.separate hencode
    (fun field hfield => (contents field hfield).1) fun field hfield => (contents field hfield).2
  have same := get_eq_of_startsAbsent (fun field hfield => (h field hfield).startsAbsent) hcontents
  -- Both were read over the default and have the same content in every field, so they are one value.
  obtain ⟨_, -, hagain⟩ := patch_eq_ok.1 hy
  obtain rfl : y = x :=
    eq_of_reached uniform.separate (reached_of_decodeFields hagain) (reached_of_decodeFields hrun) same
  exact hy

theorem Disjoint.settles_codec [Inhabited T] {shape : Shape T} (disjoint : shape.Disjoint) {known : T → Prop}
    (h : shape.Settles known) : shape.codec.Settles known :=
  disjoint.uniform.settles_codec h

theorem neverNull_codec [Inhabited T] (shape : Shape T) : shape.codec.NeverNull := by
  intro x hx
  obtain ⟨members, -, ⟨⟩⟩ := encode_eq_ok.1 hx

end Shape

/-! ## Declarations -/

/-- Every field that is declared settles. -/
def Declaration.Settles (start : T) (known : T → Prop) (declaration : Declaration T) : Prop :=
  ∀ field ∈ declaration.fields, field.2.Settles start known

theorem Shape.settles_build [Inhabited T] {name : String} {declarations : List (Declaration T)} {known : T → Prop}
    (h : ∀ declaration ∈ declarations, declaration.Settles default known) :
    (Shape.build name declarations).Settles known :=
  forall_fields_build h

namespace Declaration

variable {name : String} {start : T} {known : T → Prop} {codec : Codec F}

theorem settles_field {access : Access T} (h : access.Settles start known) :
    (field name access).Settles start known := by
  intro declared hdeclared
  obtain rfl := List.mem_singleton.1 hdeclared
  exact h

theorem settles_required {lens : Lens T F} (h : codec.Settles fun _ => True)
    (hstart : codec.Keeps (fun _ => True) (lens.get start)) : (required name codec lens).Settles start known :=
  settles_field (.required h hstart fun _ _ => trivial)

theorem settles_optional {lens : Lens T (Option F)} (h : codec.Settles fun _ => True) (hnull : codec.NeverNull)
    (hstart : lens.get start = none) : (optional name codec lens).Settles start known :=
  settles_field (.optional h hnull hstart fun _ _ _ _ => trivial)

theorem settles_nullable {lens : Lens T (Presence F)} (h : codec.Settles fun _ => True) (hnull : codec.NeverNull)
    (hstart : lens.get start = .absent) : (nullable name codec lens).Settles start known :=
  settles_field (.nullable h hnull hstart fun _ _ _ _ => trivial)

theorem settles_constant {literal : Json} : (constant name literal).Settles start known :=
  settles_field .constant

theorem settles_inherits [Inhabited S] {parent : Shape S} {lens : Lens T S} {knownParent : S → Prop}
    (h : parent.Settles knownParent) (hstart : lens.get start = default)
    (hknown : ∀ x, known x → knownParent (lens.get x)) : (inherits parent lens).Settles start known := by
  intro field hfield
  obtain ⟨inherited, hinherited, rfl⟩ := List.mem_map.1 hfield
  exact (h inherited hinherited).through hstart hknown

end Declaration

end JsonWire
