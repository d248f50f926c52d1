/-
  JsonWire.Proofs.Blame — the error of a failed reading blames the value at fault.

  `Reaches codec raw path inner found`: reading `raw` with `codec` comes, through the
  places of the path, to reading `found` with `inner`, and all that is read before has
  been read without a failure. A list adds the index of an element, a record the key of
  an entry, a shape the name of a declared field that has a member; a closed union hands
  the document on to the case of its tag and adds nothing. The names of a path lead to
  `found` in the document itself (`Reaches.leads`).

  `Blames codec raw e`: the fields of `e` are such a path, and its root cause is how the
  codec at its end fails on the value at its end. Where an optional field of a shape
  that rejects null finds one, the cause is the shape's. Where every candidate of an open
  union fails, each listed failure blames the same value in the same way.

  Every codec made of scalars by collections, shapes and unions fails so
  (`Codec.Made.blaming`, with one lemma of `Codec.Blaming` for each way of making one).
-/

import JsonWire.Proofs.Made

namespace JsonWire

variable {α β S T U F : Type}

/-! ## Where a reading goes -/

inductive Reaches : {α β : Type} → Codec α → Json → List String → Codec β → Json → Prop
  | here {α : Type} (codec : Codec α) (raw : Json) : Reaches codec raw [] codec raw
  | item {α β : Type} {codec : Codec α} {inner : Codec β} {before after : List Json} {item found : Json}
      {path : List String} : (∀ earlier ∈ before, ∃ value, (codec.decode earlier).result = .ok value) →
      Reaches codec item path inner found →
      Reaches (.list codec) (.arr (before ++ item :: after)) (Codec.indexField before.length :: path) inner found
  | entry {α β : Type} {codec : Codec α} {inner : Codec β} {before after : List (String × Json)} {key : String}
      {item found : Json} {path : List String} :
      (∀ earlier ∈ before, ∃ value, (codec.decode earlier.2).result = .ok value) →
      Reaches codec item path inner found →
      Reaches (.record codec) (.obj (before ++ (key, item) :: after)) (key :: path) inner found
  | field {T F β : Type} [Inhabited T] {shape : Shape T} {before after : List (String × Access T)} {name : String}
      {access : Access T} {members : List (String × Json)} {codec : Codec F} {inner : Codec β} {item found : Json}
      {path : List String} : shape.fields = before ++ (name, access) :: after →
      Shape.Reads shape.nullPolicy members before → members.lookup name = some item → access.Uses codec →
      Reaches codec item path inner found → Reaches shape.codec (.obj members) (name :: path) inner found
  | case {U β : Type} [Tagged U] {union : ClosedUnion U} {tag : String} {case : Case U} {inner : Codec β}
      {raw found : Json} {path : List String} : (union.peekTag raw).result = .ok tag →
      union.case? tag = some case → Reaches case.codec raw path inner found →
      Reaches union.codec raw path inner found

/-- The names lead from a value to one inside it: an index in brackets to an element, any other name
to a member. -/
inductive Json.Leads : Json → List String → Json → Prop
  | here (raw : Json) : Leads raw [] raw
  | item {items : List Json} {i : Nat} {item found : Json} {path : List String} : items[i]? = some item →
      Leads item path found → Leads (.arr items) (Codec.indexField i :: path) found
  | member {members : List (String × Json)} {key : String} {item found : Json} {path : List String} :
      (key, item) ∈ members → Leads item path found → Leads (.obj members) (key :: path) found

theorem Json.Leads.trans {raw inside found : Json} {path rest : List String} (h : raw.Leads path inside)
    (hrest : inside.Leads rest found) : raw.Leads (path ++ rest) found := by
  induction h with
  | here raw => exact hrest
  | item hitem _ ih => exact .item hitem (ih hrest)
  | member hmember _ ih => exact .member hmember (ih hrest)

theorem Reaches.leads {codec : Codec α} {inner : Codec β} {raw found : Json} {path : List String}
    (h : Reaches codec raw path inner found) : raw.Leads path found := by
  induction h with
  | here codec raw => exact .here raw
  | item hbefore _ ih => exact .item (by simp) ih
  | entry hbefore _ ih => exact .member (by simp) ih
  | field hfields hreads hlookup huses _ ih => exact .member (Entries.mem_of_lookup hlookup) ih
  | case htag hcase _ ih => exact ih

/-! ## Blame -/

inductive Blames : {α : Type} → Codec α → Json → CodecError → Prop
  | cause {α β : Type} {codec : Codec α} {inner : Codec β} {raw found : Json} {e : CodecError} :
      Reaches codec raw e.fields inner found → (inner.decode found).result = .error e.rootCause →
      (∀ union failures, e.rootCause ≠ .allVariantsFailed union failures) → Blames codec raw e
  | refusedNull {α T F : Type} [Inhabited T] {codec : Codec α} {raw : Json} {e : CodecError} {path : List String}
      {shape : Shape T} {members : List (String × Json)} {before after : List (String × Access T)} {name : String}
      {lens : Lens T (Option F)} {inner : Codec F} : Reaches codec raw path shape.codec (.obj members) →
      shape.nullPolicy = .reject → shape.fields = before ++ (name, .optional lens inner) :: after →
      Shape.Reads .reject members before → members.lookup name = some .null → e.fields = path ++ [name] →
      e.rootCause = .unexpectedType "non-null value" "null" → Blames codec raw e
  | candidates {α U : Type} [Tagged U] {codec : Codec α} {raw found : Json} {e : CodecError} {union : OpenUnion U}
      {failures : List (String × CodecError)} : Reaches codec raw e.fields union.codec found →
      e.rootCause = .allVariantsFailed union.name failures →
      (union.codec.decode found).result = .error e.rootCause →
      OpenUnion.Tried found union.candidates failures →
      (∀ pair ∈ union.candidates.zip failures, Blames pair.1.2.codec found pair.2.2) → Blames codec raw e

/-- The names of the error lead to the value at fault. -/
theorem Blames.leads {codec : Codec α} {raw : Json} {e : CodecError} (h : Blames codec raw e) :
    ∃ found, raw.Leads e.fields found := by
  cases h with
  | @cause _ _ _ _ _ found _ hreach => exact ⟨found, hreach.leads⟩
  | refusedNull hreach _ _ _ hnull hpath =>
    rw [hpath]
    exact ⟨.null, hreach.leads.trans (.member (Entries.mem_of_lookup hnull) (.here .null))⟩
  | @candidates _ _ _ _ _ found _ _ _ hreach => exact ⟨found, hreach.leads⟩

/-- Whatever the codec reads inside another, it blames inside the other. -/
theorem Blames.lift {codec : Codec α} {outer : Codec β} {raw whole : Json} {e wrapped : CodecError}
    (h : Blames codec raw e) (places : List String) (hfields : wrapped.fields = places ++ e.fields)
    (hroot : wrapped.rootCause = e.rootCause)
    (step : ∀ {γ : Type} {path : List String} {inner : Codec γ} {found : Json},
      Reaches codec raw path inner found → Reaches outer whole (places ++ path) inner found) :
    Blames outer whole wrapped := by
  cases h with
  | cause hreach hcause hplain =>
    exact .cause (hfields ▸ step hreach) (hroot ▸ hcause) (by rw [hroot]; exact hplain)
  | refusedNull hreach hpolicy hshape hreads hnull hpath hcause =>
    refine .refusedNull (step hreach) hpolicy hshape hreads hnull ?_ (hroot.trans hcause)
    rw [hfields, hpath, List.append_assoc]
  | candidates hreach hcause hdecode htried heach =>
    exact .candidates (hfields ▸ step hreach) (hroot.trans hcause) (hroot ▸ hdecode) htried heach

/-- Every failure of the codec blames the value at fault. -/
def Codec.Blaming (codec : Codec α) : Prop :=
  ∀ raw e, (codec.decode raw).result = .error e → Blames codec raw e

/-! ## Failures at no place -/

theorem Blames.of_plain {codec : Codec α} {raw : Json} {e : CodecError} (h : (codec.decode raw).result = .error e)
    (plain : e.Plain) : Blames codec raw e := by
  have hfields : e.fields = [] := by cases e <;> first | rfl | exact plain.elim
  have hroot : e.rootCause = e := by cases e <;> first | rfl | exact plain.elim
  refine .cause (hfields ▸ .here codec raw) (hroot ▸ h) fun union failures hall => ?_
  rw [hroot] at hall
  rw [hall] at plain
  exact plain

theorem Codec.Flat.blaming {codec : Codec α} (h : codec.Flat) : codec.Blaming :=
  fun raw e he => .of_plain he (h raw e he)

/-! ## Collections -/

theorem Codec.Blaming.list {codec : Codec α} (h : codec.Blaming) : (Codec.list codec).Blaming := by
  intro raw e he
  cases raw with
  | arr items =>
    obtain ⟨before, item, after, cause, rfl, hbefore, hcause, rfl⟩ := Codec.eachItem_eq_error.1 he
    refine (h item cause hcause).lift [Codec.indexField before.length] ?_ rfl (.item hbefore)
    simp [CodecError.fields]
  | _ =>
    cases he
    exact .of_plain rfl trivial

theorem Codec.Blaming.record {codec : Codec α} (h : codec.Blaming) : (Codec.record codec).Blaming := by
  intro raw e he
  cases raw with
  | obj members =>
    rcases Traced.result_bind_eq_error.1 he with he | ⟨decoded, -, ⟨⟩⟩
    obtain ⟨before, key, item, after, cause, rfl, hbefore, hcause, rfl⟩ := Codec.eachEntry_eq_error.1 he
    exact (h item cause hcause).lift [key] rfl rfl (.entry hbefore)
  | _ =>
    cases he
    exact .of_plain rfl trivial

/-! ## Shapes -/

/-- Every failure of the codec that the field uses blames the value at fault. -/
def Access.Blaming (access : Access T) : Prop := ∀ ⦃F : Type⦄ (codec : Codec F), access.Uses codec → codec.Blaming

namespace Shape

/-- A field that does not read its member either finds a null that its shape refuses, or its codec does
not read it. -/
theorem uses_of_readField_error {policy : NullPolicy} {access : Access T} {item : Json} {cause : CodecError}
    (h : (readField policy access item).result = .error cause) :
    (∃ (F : Type) (lens : Lens T (Option F)) (codec : Codec F), access = .optional lens codec ∧ policy = .reject
        ∧ item = .null ∧ cause = .unexpectedType "non-null value" "null")
      ∨ ∃ (F : Type) (codec : Codec F), access.Uses codec ∧ (codec.decode item).result = .error cause := by
  cases access with
  | required lens codec =>
    rw [readField_required] at h
    exact .inr ⟨_, codec, .required lens codec, h⟩
  | optional lens codec =>
    cases hnull : item.isNull with
    | true =>
      cases item with
      | null =>
        cases policy with
        | treatAsAbsent => cases h
        | reject =>
          cases h
          exact .inl ⟨_, lens, codec, rfl, rfl, rfl, rfl⟩
      | _ => cases hnull
    | false =>
      rw [readField_optional lens codec hnull] at h
      rcases Traced.result_bind_eq_error.1 h with h | ⟨value, -, ⟨⟩⟩
      exact .inr ⟨_, codec, .optional lens codec, h⟩
  | nullable lens codec =>
    rw [readField_nullable] at h
    unfold Codec.decodeNullable at h
    split at h
    · cases h
    · rcases Traced.result_bind_eq_error.1 h with h | ⟨value, -, ⟨⟩⟩
      exact .inr ⟨_, codec, .nullable lens codec, h⟩
  | constant literal =>
    rw [readField_constant] at h
    cases h

/-- Every failure of a codec that a field uses blames the value at fault. -/
def Blaming (shape : Shape T) : Prop := ∀ field ∈ shape.fields, field.2.Blaming

theorem Blaming.codec [Inhabited T] {shape : Shape T} (h : shape.Blaming) : shape.codec.Blaming := by
  intro raw e he
  cases raw with
  | obj members =>
    have hrun : (decodeFields shape.nullPolicy members shape.fields default).result = .error e := by
      rw [← result_patch_obj]
      exact he
    obtain ⟨before, name, access, after, item, cause, hfields, hreads, hitem, hcause, rfl⟩ :=
      decodeFields_eq_error.1 hrun
    rcases uses_of_readField_error hcause with
      ⟨G, lens, codec, rfl, hpolicy, rfl, rfl⟩ | ⟨G, codec, huses, hdecode⟩
    · exact .refusedNull (.here shape.codec (.obj members)) hpolicy hfields (hpolicy ▸ hreads) hitem rfl rfl
    · have hblames := h (name, access) (by simp [hfields]) codec huses item cause hdecode
      exact hblames.lift [name] rfl rfl (.field hfields hreads hitem huses)
  | _ =>
    cases he
    exact .of_plain rfl trivial

end Shape

/-! ## Unions -/

namespace ClosedUnion

variable {union : ClosedUnion U} {raw : Json} {e : CodecError}

theorem plain_of_unknown {tag : Option String} (h : (union.unknown tag : Traced α).result = .error e) :
    e.Plain := by
  cases h
  trivial

theorem plain_of_peekTag (h : (union.peekTag raw).result = .error e) : e.Plain := by
  unfold peekTag at h
  split at h
  · split at h
    · cases h
    · exact plain_of_unknown h
    · exact plain_of_unknown h
  · cases h
    trivial

/-- Without a case for its tag a document fails at no place; with one it fails as the case does. -/
theorem decode_eq_error (h : (union.decode raw).result = .error e) :
    e.Plain ∨ ∃ tag case, (union.peekTag raw).result = .ok tag ∧ union.case? tag = some case
      ∧ (case.codec.decode raw).result = .error e := by
  rcases Traced.result_bind_eq_error.1 h with h | ⟨tag, htag, h⟩
  · exact .inl (plain_of_peekTag h)
  · cases hcase : union.case? tag with
    | none =>
      rw [hcase] at h
      exact .inl (plain_of_unknown h)
    | some case =>
      rw [hcase] at h
      rcases Traced.result_bind_eq_error.1 h with h | ⟨value, -, ⟨⟩⟩
      exact .inr ⟨tag, case, htag, hcase, Case.result_decode_eq_error.1 h⟩

theorem blaming_codec [Tagged U] (h : ∀ case ∈ union.cases, case.2.codec.Blaming) : union.codec.Blaming := by
  intro raw e he
  rcases Traced.result_bind_eq_error.1 he with hdecode | ⟨found, -, ⟨⟩⟩
  rcases decode_eq_error hdecode with plain | ⟨tag, case, htag, hcase, hfails⟩
  · exact .of_plain he plain
  · have hblames := h (tag, case) (Entries.mem_of_lookup hcase) raw e hfails
    exact hblames.lift [] rfl rfl (.case htag hcase)

end ClosedUnion

namespace OpenUnion

theorem blaming_codec [Tagged U] {union : OpenUnion U}
    (h : ∀ candidate ∈ union.candidates, candidate.2.codec.Blaming) : union.codec.Blaming := by
  intro raw e he
  rcases Traced.result_bind_eq_error.1 he with hdecode | ⟨found, -, ⟨⟩⟩
  obtain ⟨failures, htried, rfl⟩ := tryEach_eq_error.1 hdecode
  refine .candidates (.here union.codec raw) rfl he htried fun pair hpair => ?_
  exact h pair.1 (List.of_mem_zip hpair).1 raw pair.2.2 (List.forall₂_zip htried hpair).2

end OpenUnion

/-! ## All codecs -/

theorem Codec.Made.blaming {codec : Codec α} (h : codec.Made) : codec.Blaming := by
  induction h with
  | any => exact flat_any.blaming
  | string => exact flat_string.blaming
  | bool => exact flat_bool.blaming
  | int t => exact (flat_int t).blaming
  | float64 => exact flat_float64.blaming
  | float32 => exact flat_float32.blaming
  | duration => exact flat_duration.blaming
  | enum domain _ _ flat => exact ((domain.flat_codec flat).imap _ _).blaming
  | list _ ih => exact ih.list
  | record _ ih => exact ih.record
  | shape _ _ ih => exact Shape.Blaming.codec ih
  | closedUnion _ _ ih => exact ClosedUnion.blaming_codec ih
  | openUnion _ _ ih => exact OpenUnion.blaming_codec ih

end JsonWire
