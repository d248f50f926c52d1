/-
  JsonWire.Proofs.NullPolicies — the two null policies differ by one check.

  Rejecting null is treating it as absent, with a check at each field that is optional
  and finds a null (`nullAt`). No other field sees the policy (`readField_reject_of_kept`).
  So fields read their members under `reject` if they do under `treatAsAbsent` and no null
  is refused (`reads_reject_iff`), and a run that refuses none is the same run
  (`decodeFields_reject`). The first failure under `reject` is the first failure under
  `treatAsAbsent` or the first null before it.

  A null treated as absent writes an absence. Where there was one already, the document
  without these nulls (`withoutNulls`) is read as the document is (`Disjoint.patch_withoutNulls`):
  writing again what is there changes nothing, and no other field touches the place.
-/

import JsonWire.Proofs.Inheriting
import JsonWire.Proofs.RoundTrip
import JsonWire.Proofs.SamplePlaces

namespace JsonWire

variable {T : Type}

namespace Shape

variable {members found : List (String × Json)} {fields : List (String × Access T)} {field : String × Access T}
  {access : Access T} {item : Json} {target result : T} {cause e : CodecError}

/-! ## Nulls at optional fields -/

/-- The field is optional and its member is null. -/
def nullAt (members : List (String × Json)) (field : String × Access T) : Bool :=
  field.2.kind = .optional && (members.lookup field.1).any Json.isNull

/-- The members without the nulls of optional fields. -/
def withoutNulls (shape : Shape T) (members : List (String × Json)) : List (String × Json) :=
  members.filter fun entry => !(shape.field? entry.1).any fun access => nullAt members (entry.1, access)

theorem nullAt_of_lookup (field : String × Access T) (h : members.lookup field.1 = some item) :
    nullAt members field = refusesNull .reject field.2 item := by
  simp [nullAt, refusesNull, h, Bool.and_comm]

theorem nullAt_iff : nullAt members field = true ↔ field.2.kind = .optional ∧ members.lookup field.1 = some .null := by
  simp [nullAt, Option.any_eq_true, Json.isNull_iff]

theorem lookup_withoutNulls {shape : Shape T} (h : field ∈ shape.fields) (members : List (String × Json)) :
    (shape.withoutNulls members).lookup field.1 = if nullAt members field then none else members.lookup field.1 := by
  have hfield : shape.field? field.1 = some field.2 := field?_eq_some_iff_mem.2 h
  rw [withoutNulls, Entries.lookup_filter fun key => !(shape.field? key).any fun access => nullAt members (key, access),
    hfield, Option.any_some]
  cases nullAt members field <;> rfl

/-- Only declared members are left out. -/
theorem unknownKeys_withoutNulls (shape : Shape T) (members : List (String × Json)) :
    shape.unknownKeys (shape.withoutNulls members) = shape.unknownKeys members := by
  rw [unknownKeys, unknownKeys, withoutNulls, Entries.keys, Entries.keys, List.filter_map, List.filter_map,
    List.filter_filter]
  congr 2
  refine List.filter_congr fun entry _ => ?_
  by_cases hname : entry.1 ∈ shape.names
  · simp [hname]
  · have hfield : shape.field? entry.1 = none := Entries.lookup_eq_none_of_not_mem hname
    simp [hfield]

/-! ## One field -/

theorem refusesNull_reject_iff : refusesNull .reject access item = true ↔ access.kind = .optional ∧ item = .null := by
  simp [refusesNull, Json.isNull_iff, and_comm]

/-- Where there is no null to refuse, the policy makes no difference. -/
theorem readField_reject_of_kept (h : refusesNull .reject access item = false) :
    readField .reject access item = readField .treatAsAbsent access item := by
  have hlenient : refusesNull .treatAsAbsent access item = false := by simp [refusesNull]
  rw [readField, readField, h, hlenient]

theorem readField_reject_of_refused (h : refusesNull .reject access item = true) :
    readField .reject access item = .fail (.unexpectedType "non-null value" "null") := by
  obtain ⟨-, rfl⟩ := refusesNull_reject_iff.1 h
  rw [readField, h, if_pos rfl]
  rfl

/-- Treated as absent, a null that would be refused is read as an absence. -/
theorem exists_absent_of_refused (h : refusesNull .reject access item = true) :
    ∃ content, readField .treatAsAbsent access item = pure content ∧ access.Absent content := by
  obtain ⟨hkind, rfl⟩ := refusesNull_reject_iff.1 h
  cases access with
  | optional lens codec => exact ⟨none, rfl, rfl⟩
  | _ => cases hkind

theorem readField_reject_eq_error : (readField .reject access item).result = .error cause
    ↔ (refusesNull .reject access item = true ∧ cause = .unexpectedType "non-null value" "null")
      ∨ (readField .treatAsAbsent access item).result = .error cause := by
  cases hrefused : refusesNull .reject access item with
  | true =>
    obtain ⟨content, hcontent, -⟩ := exists_absent_of_refused hrefused
    rw [readField_reject_of_refused hrefused, hcontent]
    simp [eq_comm]
  | false =>
    rw [readField_reject_of_kept hrefused]
    simp

/-! ## All fields -/

/-- Fields read their members under `reject` if they do under `treatAsAbsent` and no null is refused. -/
theorem reads_reject_iff : Reads .reject members fields
    ↔ Reads .treatAsAbsent members fields ∧ ∀ field ∈ fields, nullAt members field = false := by
  refine ⟨fun h => ?_, fun h field hfield item hitem => ?_⟩
  · have kept : ∀ field ∈ fields, nullAt members field = false := by
      intro field hfield
      by_contra hnull
      rw [Bool.not_eq_false] at hnull
      obtain ⟨-, hitem⟩ := nullAt_iff.1 hnull
      obtain ⟨content, hcontent⟩ := h field hfield _ hitem
      rw [nullAt_of_lookup _ hitem] at hnull
      rw [readField_reject_of_refused hnull] at hcontent
      cases hcontent
    refine ⟨fun field hfield item hitem => ?_, kept⟩
    rw [← readField_reject_of_kept (nullAt_of_lookup _ hitem ▸ kept field hfield)]
    exact h field hfield item hitem
  · rw [readField_reject_of_kept (nullAt_of_lookup _ hitem ▸ h.2 field hfield)]
    exact h.1 field hfield item hitem

/-- A run in which no null is refused is the same under both policies. -/
theorem decodeFields_reject (h : ∀ field ∈ fields, nullAt members field = false) (target : T) :
    decodeFields .reject members fields target = decodeFields .treatAsAbsent members fields target := by
  induction fields generalizing target with
  | nil => rfl
  | cons field rest ih =>
    obtain ⟨name, access⟩ := field
    obtain ⟨hhere, hrest⟩ := List.forall_mem_cons.1 h
    cases hitem : members.lookup name with
    | none =>
      rw [decodeFields_missing hitem, decodeFields_missing hitem]
      exact ih hrest target
    | some item =>
      rw [nullAt_of_lookup _ hitem] at hhere
      rw [decodeFields_found hitem, decodeFields_found hitem, readField_reject_of_kept hhere]
      simp only [ih hrest]

/-- The first failure under `reject` is a refused null or a failure under `treatAsAbsent`, with neither before it. -/
theorem decodeFields_reject_eq_error : (decodeFields .reject members fields target).result = .error e
    ↔ ∃ before field after, fields = before ++ field :: after ∧ Reads .treatAsAbsent members before
      ∧ (∀ earlier ∈ before, nullAt members earlier = false)
      ∧ ((nullAt members field = true ∧ e = .inField field.1 (.unexpectedType "non-null value" "null"))
        ∨ ∃ item cause, members.lookup field.1 = some item
          ∧ (readField .treatAsAbsent field.2 item).result = .error cause ∧ e = .inField field.1 cause) := by
  rw [decodeFields_eq_error]
  refine ⟨fun h => ?_, fun h => ?_⟩
  · obtain ⟨before, name, access, after, item, cause, rfl, hreads, hitem, hcause, rfl⟩ := h
    obtain ⟨hreads, kept⟩ := reads_reject_iff.1 hreads
    refine ⟨before, (name, access), after, rfl, hreads, kept, ?_⟩
    rcases readField_reject_eq_error.1 hcause with ⟨hrefused, rfl⟩ | hcause
    · exact .inl ⟨(nullAt_of_lookup _ hitem).trans hrefused, rfl⟩
    · exact .inr ⟨item, cause, hitem, hcause, rfl⟩
  · obtain ⟨before, field, after, rfl, hreads, kept, hhere⟩ := h
    have hreads := reads_reject_iff.2 ⟨hreads, kept⟩
    rcases hhere with ⟨hnull, rfl⟩ | ⟨item, cause, hitem, hcause, rfl⟩
    · obtain ⟨-, hitem⟩ := nullAt_iff.1 hnull
      have hrefused := (nullAt_of_lookup field hitem).symm.trans hnull
      exact ⟨before, field.1, field.2, after, .null, _, rfl, hreads, hitem,
        readField_reject_eq_error.2 (.inl ⟨hrefused, rfl⟩), rfl⟩
    · exact ⟨before, field.1, field.2, after, item, cause, rfl, hreads, hitem,
        readField_reject_eq_error.2 (.inr hcause), rfl⟩

theorem decodeFields_reject_eq_ok : (decodeFields .reject members fields target).result = .ok result
    ↔ (decodeFields .treatAsAbsent members fields target).result = .ok result
      ∧ ∀ field ∈ fields, nullAt members field = false := by
  refine ⟨fun h => ?_, fun h => ?_⟩
  · obtain ⟨-, kept⟩ := reads_reject_iff.1 (reads_of_decodeFields h)
    exact ⟨decodeFields_reject kept target ▸ h, kept⟩
  · rw [decodeFields_reject h.2]
    exact h.1

/-! ## Documents without the nulls -/

/-- Where the fields that find a null are absent already, a run over members without these nulls is the same. -/
theorem decodeFields_withoutNulls (lawful : ∀ field ∈ fields, field.2.lens.Lawful)
    (independent : fields.Pairwise fun a b => a.2.lens.Independent b.2.lens)
    (hfound : ∀ field ∈ fields,
      found.lookup field.1 = if nullAt members field then none else members.lookup field.1)
    (absent : ∀ field ∈ fields, nullAt members field = true → field.2.Absent (field.2.lens.get target)) :
    decodeFields .treatAsAbsent found fields target = decodeFields .treatAsAbsent members fields target := by
  induction fields generalizing target with
  | nil => rfl
  | cons field rest ih =>
    obtain ⟨name, access⟩ := field
    obtain ⟨hlawful, lawful⟩ := List.forall_mem_cons.1 lawful
    obtain ⟨hindependent, independent⟩ := List.pairwise_cons.1 independent
    obtain ⟨hhere, hfound⟩ := List.forall_mem_cons.1 hfound
    obtain ⟨habsent, absent⟩ := List.forall_mem_cons.1 absent
    dsimp only at hhere
    cases hitem : members.lookup name with
    | none =>
      rw [hitem, ite_self] at hhere
      rw [decodeFields_missing hhere, decodeFields_missing hitem]
      exact ih lawful independent hfound absent
    | some item =>
      rw [decodeFields_found hitem]
      cases hnull : nullAt members (name, access) with
      | true =>
        -- The absence that is written is there already.
        obtain ⟨content, hcontent, hread⟩ := exists_absent_of_refused ((nullAt_of_lookup _ hitem).symm.trans hnull)
        have hwritten : access.lens.set content target = target := by
          rw [hread.eq (habsent hnull)]
          exact hlawful.set_get target
        rw [hnull, if_pos rfl] at hhere
        rw [decodeFields_missing hhere, ih lawful independent hfound absent, hcontent]
        show _ = decodeFields .treatAsAbsent members rest (access.lens.set content target)
        rw [hwritten]
      | false =>
        rw [hnull, if_neg Bool.false_ne_true, hitem] at hhere
        rw [decodeFields_found hhere]
        refine congrArg _ (funext fun content => ih lawful independent hfound fun field hfield hnull => ?_)
        rw [(hindependent field hfield).spares content target]
        exact absent field hfield hnull

theorem Disjoint.patch_withoutNulls {shape : Shape T} (disjoint : shape.Disjoint)
    (lenient : shape.nullPolicy = .treatAsAbsent)
    (absent : ∀ field ∈ shape.fields, nullAt members field = true → field.2.Absent (field.2.lens.get target)) :
    shape.patch (.obj (shape.withoutNulls members)) target = shape.patch (.obj members) target := by
  have hfields := decodeFields_withoutNulls disjoint.lawful disjoint.independent
    (fun field hfield => lookup_withoutNulls hfield members) absent
  rw [patch, patch, lenient, hfields, unknownKeys_withoutNulls]

/-! ## The two policies -/

/-- Two shapes with the same fields that differ in the policy differ by one check. A field that is not optional,
or finds no null, is read alike by both. The strict shape reads a document exactly if the lenient one does and no
optional field finds a null, and then both give the same. Where neither a failure nor such a null comes before a
field, a failure of the field is the failure of both, and a null at it is the failure of the strict one; the strict
one fails in no other way. And where places are independent and optional fields are absent at first, the lenient
shape reads a document as it reads the document without these nulls. -/
theorem null_policies_differ_by_one_check {lenient strict : Shape T} (sameFields : strict.fields = lenient.fields)
    (hlenient : lenient.nullPolicy = .treatAsAbsent) (hstrict : strict.nullPolicy = .reject) :
    (∀ field ∈ lenient.fields, ∀ item target, field.2.kind ≠ .optional ∨ item ≠ .null →
        decodeField strict.nullPolicy field.2 item target = decodeField lenient.nullPolicy field.2 item target)
    ∧ (∀ members t t', (strict.patch (.obj members) t).result = .ok t'
        ↔ (lenient.patch (.obj members) t).result = .ok t' ∧ ∀ field ∈ lenient.fields, nullAt members field = false)
    ∧ (∀ members before field after, lenient.fields = before ++ field :: after →
        Reads lenient.nullPolicy members before → (∀ earlier ∈ before, nullAt members earlier = false) →
        (∀ item cause, members.lookup field.1 = some item →
          (readField lenient.nullPolicy field.2 item).result = .error cause →
          ∀ t, (lenient.patch (.obj members) t).result = .error (.inField field.1 cause)
            ∧ (strict.patch (.obj members) t).result = .error (.inField field.1 cause))
        ∧ (nullAt members field = true → ∀ t, (strict.patch (.obj members) t).result
            = .error (.inField field.1 (.unexpectedType "non-null value" "null"))))
    ∧ (∀ members t e, (strict.patch (.obj members) t).result = .error e →
        ∃ before field after, lenient.fields = before ++ field :: after ∧ Reads lenient.nullPolicy members before
          ∧ (∀ earlier ∈ before, nullAt members earlier = false)
          ∧ (nullAt members field = true ∨ ∃ item cause, members.lookup field.1 = some item
              ∧ (readField lenient.nullPolicy field.2 item).result = .error cause))
    ∧ ∀ [Inhabited T], lenient.Disjoint →
        (∀ field ∈ lenient.fields, field.2.kind = .optional → field.2.Absent (field.2.lens.get default)) →
        ∀ members, lenient.decode (.obj (lenient.withoutNulls members)) = lenient.decode (.obj members) := by
  have hpatch (members : List (String × Json)) (t : T) : (strict.patch (.obj members) t).result
      = (decodeFields .reject members lenient.fields t).result := by
    rw [result_patch_obj, sameFields, hstrict]
  have hpatch' (members : List (String × Json)) (t : T) : (lenient.patch (.obj members) t).result
      = (decodeFields .treatAsAbsent members lenient.fields t).result := by
    rw [result_patch_obj, hlenient]
  rw [hlenient, hstrict]
  refine ⟨fun field _ item target hkept => ?_, fun members t t' => ?_, ?_, fun members t e h => ?_, ?_⟩
  · have hkept : refusesNull .reject field.2 item = false := by
      rw [← Bool.not_eq_true, refusesNull_reject_iff, not_and_or]
      exact hkept
    rw [decodeField_eq, decodeField_eq, readField_reject_of_kept hkept]
  · rw [hpatch, hpatch']
    exact decodeFields_reject_eq_ok
  · intro members before field after hsplit hreads kept
    refine ⟨fun item cause hitem hcause t => ⟨?_, ?_⟩, fun hnull t => ?_⟩
    · rw [hpatch', decodeFields_eq_error]
      exact ⟨before, field.1, field.2, after, item, cause, hsplit, hreads, hitem, hcause, rfl⟩
    · rw [hpatch, decodeFields_reject_eq_error]
      exact ⟨before, field, after, hsplit, hreads, kept, .inr ⟨item, cause, hitem, hcause, rfl⟩⟩
    · rw [hpatch, decodeFields_reject_eq_error]
      exact ⟨before, field, after, hsplit, hreads, kept, .inl ⟨hnull, rfl⟩⟩
  · rw [hpatch, decodeFields_reject_eq_error] at h
    obtain ⟨before, field, after, hsplit, hreads, kept, hhere⟩ := h
    refine ⟨before, field, after, hsplit, hreads, kept, hhere.imp And.left fun hfails => ?_⟩
    obtain ⟨item, cause, hitem, hcause, -⟩ := hfails
    exact ⟨item, cause, hitem, hcause⟩
  · intro _ disjoint startsAbsent members
    exact disjoint.patch_withoutNulls hlenient fun field hfield hnull =>
      startsAbsent field hfield (nullAt_iff.1 hnull).1

end Shape

namespace Sample.Dog

/-- A dog that rejects null, also for the nickname that it takes over from a pet which does not. -/
def strictShape : Shape Dog := .child "Dog" [.reject] Pet.shape petPart own

/-- The null owner is no matter of policy. The null nickname is refused where tags that are no list would be
later, but a name that is no text comes before it and fails both. And a dog that has no nickname at first is read
as if it were given none. -/
theorem null_nickname_is_the_difference :
    let owned := [("owner", Json.null), ("name", .str "Bo")]
    let untagged := [("tags", Json.null), ("nickname", .null)]
    let misnamed := [("nickname", Json.null), ("name", .null)]
    strictShape.fields = shape.fields ∧ shape.nullPolicy = .treatAsAbsent ∧ strictShape.nullPolicy = .reject
    ∧ (∀ rex t' : Dog, (strictShape.patch (.obj owned) rex).result = .ok t'
        ↔ (shape.patch (.obj owned) rex).result = .ok t')
    ∧ (∀ rex : Dog, (strictShape.patch (.obj untagged) rex).result
        = .error (.inField "nickname" (.unexpectedType "non-null value" "null")))
    ∧ (∀ rex : Dog, (strictShape.patch (.obj misnamed) rex).result = (shape.patch (.obj misnamed) rex).result)
    ∧ shape.decode (.obj [("tags", .null)]) = shape.decode (.obj untagged) := by
  intro owned untagged misnamed
  have sameFields : strictShape.fields = shape.fields := rfl
  obtain ⟨-, accepts, fails, -, without⟩ := Shape.null_policies_differ_by_one_check sameFields rfl rfl
  refine ⟨sameFields, rfl, rfl, fun rex t' => ?_, fun rex => ?_, fun rex => ?_, ?_⟩
  · rw [accepts owned rex t']
    exact and_iff_left (by decide)
  · have found : ∀ field ∈ shape.fields.take 2, untagged.lookup field.1 = none := by decide
    have reads : Shape.Reads .treatAsAbsent untagged (shape.fields.take 2) := by
      intro field hfield item hitem
      rw [found field hfield] at hitem
      cases hitem
    exact (fails untagged _ _ (shape.fields.drop 3) rfl reads (by decide)).2 rfl rex
  · have both := (fails misnamed [] _ (shape.fields.drop 1) rfl nofun nofun).1 .null _ rfl rfl rex
    rw [both.1, both.2]
  · have startsAbsent : ∀ field ∈ shape.fields,
        field.2.kind = .optional → field.2.Absent (field.2.lens.get default) := by
      simp [shape, Pet.shape, Entries.ofList, Entries.insert, Access.kind]
      exact ⟨rfl, rfl⟩
    exact without disjoint_shape startsAbsent untagged

end Sample.Dog

end JsonWire
