/-
  JsonWire.Proofs.Patching — what reading a document does to its target.

  Which fields read their members, and how the first that does not fails, is settled by
  the document alone (`Reads`, `FirstFailure`): the target is only written to. After a
  run that succeeds, a place holds what the last field there that has a member read from
  it (`get_of_last`), and a place that no such field writes is as it was (`get_of_spared`).
-/

import JsonWire.Proofs.Places
import JsonWire.Sample.Pets

namespace JsonWire.Shape

variable {T F G : Type} {policy : NullPolicy} {members : List (String × Json)}

/-! ## One field -/

/-- What a field reads from its member under a policy. -/
def readField (policy : NullPolicy) (access : Access T) (item : Json) : Traced access.Content :=
  if refusesNull policy access item then .fail (.unexpected "non-null value" item) else access.read item

theorem readField_required (lens : Lens T F) (codec : Codec F) (item : Json) :
    readField policy (.required lens codec) item = codec.decode item := by
  simp [readField, refusesNull, Access.kind, Access.read]
  rfl

theorem readField_optional (lens : Lens T (Option F)) (codec : Codec F) {item : Json} (h : item.isNull = false) :
    readField policy (.optional lens codec) item = codec.decodeOptional item := by
  simp [readField, refusesNull, Access.read, h]
  rfl

theorem readField_nullable (lens : Lens T (Presence F)) (codec : Codec F) (item : Json) :
    readField policy (.nullable lens codec) item = codec.decodeNullable item := by
  simp [readField, refusesNull, Access.kind, Access.read]
  rfl

theorem readField_constant (literal item : Json) :
    readField policy (.constant literal : Access T) item = pure () := by
  simp [readField, refusesNull, Access.kind, Access.read]
  rfl

theorem decodeField_eq (policy : NullPolicy) (access : Access T) (item : Json) (target : T) :
    decodeField policy access item target
      = (do let content ← readField policy access item; return access.lens.set content target) := by
  rw [decodeField, readField]
  split
  · rfl
  · exact access.decode_eq item target

theorem read_of_readField {access : Access T} {item : Json} {content : access.Content}
    (h : (readField policy access item).result = .ok content) : (access.read item).result = .ok content := by
  rw [readField] at h
  split at h
  · cases h
  · exact h

/-! ## All fields -/

section Run

variable {name : String} {access : Access T} {item : Json} {rest : List (String × Access T)} {target result : T}
  {e : CodecError}

theorem decodeFields_missing (h : members.lookup name = none) :
    decodeFields policy members ((name, access) :: rest) target = decodeFields policy members rest target := by
  simp [decodeFields, h]

theorem decodeFields_found (h : members.lookup name = some item) :
    decodeFields policy members ((name, access) :: rest) target
      = (do
          let content ← (readField policy access item).inField name
          decodeFields policy members rest (access.lens.set content target)) := by
  simp only [decodeFields, h, decodeField_eq]
  generalize readField policy access item = read
  obtain ⟨events, result⟩ := read
  cases result <;> simp [Traced.inField, bind, pure, Except.mapError]

theorem decodeFields_cons_eq_ok (h : members.lookup name = some item) :
    (decodeFields policy members ((name, access) :: rest) target).result = .ok result
      ↔ ∃ content, (readField policy access item).result = .ok content
          ∧ (decodeFields policy members rest (access.lens.set content target)).result = .ok result := by
  simp [decodeFields_found h]

theorem decodeFields_cons_eq_error (h : members.lookup name = some item) :
    (decodeFields policy members ((name, access) :: rest) target).result = .error e
      ↔ (∃ cause, (readField policy access item).result = .error cause ∧ .inField name cause = e)
        ∨ ∃ content, (readField policy access item).result = .ok content
          ∧ (decodeFields policy members rest (access.lens.set content target)).result = .error e := by
  simp [decodeFields_found h]

end Run

/-- Every field that has a member reads it. -/
def Reads (policy : NullPolicy) (members : List (String × Json)) (fields : List (String × Access T)) : Prop :=
  ∀ field ∈ fields, ∀ item, members.lookup field.1 = some item →
    ∃ content, (readField policy field.2 item).result = .ok content

/-- The first field that does not read its member, and the failure this makes. -/
def FirstFailure (policy : NullPolicy) (members : List (String × Json)) (fields : List (String × Access T))
    (e : CodecError) : Prop :=
  ∃ before name access after item cause, fields = before ++ (name, access) :: after
    ∧ Reads policy members before ∧ members.lookup name = some item
    ∧ (readField policy access item).result = .error cause ∧ e = .inField name cause

theorem reads_cons {name : String} {access : Access T} {rest : List (String × Access T)} :
    Reads policy members ((name, access) :: rest)
      ↔ (∀ item, members.lookup name = some item → ∃ content, (readField policy access item).result = .ok content)
        ∧ Reads policy members rest := by
  simp [Reads]

theorem decodeFields_eq_error {fields : List (String × Access T)} {target : T} {e : CodecError} :
    (decodeFields policy members fields target).result = .error e ↔ FirstFailure policy members fields e := by
  induction fields generalizing target with
  | nil =>
    refine ⟨fun h => ?_, fun h => ?_⟩
    · cases h
    · obtain ⟨before, name, access, after, item, cause, h, -⟩ := h
      cases before <;> cases h
  | cons field rest ih =>
    obtain ⟨name, access⟩ := field
    cases hitem : members.lookup name with
    | none =>
      rw [decodeFields_missing hitem, ih]
      refine ⟨fun h => ?_, fun h => ?_⟩
      · obtain ⟨before, name', access', after, item, cause, rfl, hreads, h⟩ := h
        refine ⟨(name, access) :: before, name', access', after, item, cause, rfl, ?_, h⟩
        exact reads_cons.2 ⟨fun item h => by simp [hitem] at h, hreads⟩
      · obtain ⟨before, name', access', after, item, cause, hsplit, hreads, h, hcause⟩ := h
        cases before with
        | nil =>
          cases hsplit
          simp [hitem] at h
        | cons field before =>
          cases hsplit
          exact ⟨before, name', access', after, item, cause, rfl, (reads_cons.1 hreads).2, h, hcause⟩
    | some item =>
      rw [decodeFields_cons_eq_error hitem]
      refine ⟨fun h => ?_, fun h => ?_⟩
      · rcases h with ⟨cause, hcause, rfl⟩ | ⟨content, hcontent, h⟩
        · exact ⟨[], name, access, rest, item, cause, rfl, fun _ h => by simp at h, hitem, hcause, rfl⟩
        · obtain ⟨before, name', access', after, item', cause, rfl, hreads, h⟩ := ih.1 h
          refine ⟨(name, access) :: before, name', access', after, item', cause, rfl, ?_, h⟩
          refine reads_cons.2 ⟨fun other h => ?_, hreads⟩
          rw [hitem] at h
          cases h
          exact ⟨content, hcontent⟩
      · obtain ⟨before, name', access', after, item', cause, hsplit, hreads, h, hcause, rfl⟩ := h
        cases before with
        | nil =>
          cases hsplit
          rw [hitem] at h
          cases h
          exact .inl ⟨cause, hcause, rfl⟩
        | cons field before =>
          cases hsplit
          obtain ⟨hread, hreads⟩ := reads_cons.1 hreads
          obtain ⟨content, hcontent⟩ := hread item hitem
          refine .inr ⟨content, hcontent, ih.2 ?_⟩
          exact ⟨before, name', access', after, item', cause, rfl, hreads, h, hcause, rfl⟩

theorem exists_ok_of_reads {fields : List (String × Access T)} (h : Reads policy members fields) (target : T) :
    ∃ result, (decodeFields policy members fields target).result = .ok result := by
  refine Traced.exists_ok_of_forall_ne_error fun e he => ?_
  obtain ⟨before, name, access, after, item, cause, rfl, -, hitem, hcause, -⟩ := decodeFields_eq_error.1 he
  obtain ⟨content, hcontent⟩ := h (name, access) (by simp) item hitem
  rw [hcontent] at hcause
  cases hcause

theorem reads_of_decodeFields {fields : List (String × Access T)} {target result : T}
    (h : (decodeFields policy members fields target).result = .ok result) : Reads policy members fields := by
  induction fields generalizing target with
  | nil => nofun
  | cons field rest ih =>
    obtain ⟨name, access⟩ := field
    rw [reads_cons]
    cases hitem : members.lookup name with
    | none =>
      rw [decodeFields_missing hitem] at h
      exact ⟨nofun, ih h⟩
    | some item =>
      obtain ⟨content, hcontent, h⟩ := (decodeFields_cons_eq_ok hitem).1 h
      refine ⟨fun other hother => ?_, ih h⟩
      cases hother
      exact ⟨content, hcontent⟩

/-- Reading leaves every place that is spared by the fields with a member. -/
theorem get_of_spared {fields : List (String × Access T)} {target result : T}
    (h : (decodeFields policy members fields target).result = .ok result) {lens : Lens T G}
    (spared : ∀ field ∈ fields, members.lookup field.1 ≠ none → field.2.lens.Spares lens) :
    lens.get result = lens.get target := by
  induction fields generalizing target with
  | nil =>
    cases h
    rfl
  | cons field rest ih =>
    obtain ⟨name, access⟩ := field
    have later := fun field hfield => spared field (List.mem_cons_of_mem _ hfield)
    cases hitem : members.lookup name with
    | none =>
      rw [decodeFields_missing hitem] at h
      exact ih h later
    | some item =>
      obtain ⟨content, -, h⟩ := (decodeFields_cons_eq_ok hitem).1 h
      rw [ih h later]
      exact spared (name, access) List.mem_cons_self (by simp [hitem]) content target

/-- A field whose content no later field writes holds what it read. -/
theorem get_of_last {before after : List (String × Access T)} {name : String} {access : Access T} {item : Json}
    {target result : T}
    (h : (decodeFields policy members (before ++ (name, access) :: after) target).result = .ok result)
    (lawful : access.lens.Lawful) (hitem : members.lookup name = some item)
    (spared : ∀ later ∈ after, members.lookup later.1 ≠ none → later.2.lens.Spares access.lens) :
    (readField policy access item).result = .ok (access.lens.get result) := by
  induction before generalizing target with
  | nil =>
    obtain ⟨content, hcontent, h⟩ := (decodeFields_cons_eq_ok hitem).1 h
    rw [get_of_spared h spared, lawful.get_set]
    exact hcontent
  | cons field before ih =>
    obtain ⟨other, otherAccess⟩ := field
    cases hother : members.lookup other with
    | none =>
      rw [List.cons_append, decodeFields_missing hother] at h
      exact ih h
    | some otherItem =>
      obtain ⟨content, -, h⟩ := (decodeFields_cons_eq_ok hother).1 h
      exact ih h

/-! ## Places and their last writers -/

/-- A field at the place has a member. -/
def Written (members : List (String × Json)) (fields : List (String × Access T)) (place : Place T) : Prop :=
  ∃ field ∈ fields, field.2.kind ≠ .constant ∧ field.2.place = place ∧ members.lookup field.1 ≠ none

/-- Of the fields at the place that have a member, the last is this one, with this member. -/
def LastAt (members : List (String × Json)) (fields : List (String × Access T)) (place : Place T)
    (access : Access T) (item : Json) : Prop :=
  access.kind ≠ .constant ∧ access.place = place ∧ ∃ before name after, fields = before ++ (name, access) :: after
    ∧ members.lookup name = some item ∧ ¬ Written members after place

theorem exists_lastAt {fields : List (String × Access T)} {place : Place T} (h : Written members fields place) :
    ∃ access item, LastAt members fields place access item := by
  induction fields with
  | nil =>
    obtain ⟨field, hfield, -⟩ := h
    cases hfield
  | cons field rest ih =>
    by_cases hrest : Written members rest place
    · obtain ⟨access, item, hkind, hplace, before, name, after, rfl, hitem, hlast⟩ := ih hrest
      exact ⟨access, item, hkind, hplace, field :: before, name, after, rfl, hitem, hlast⟩
    · obtain ⟨written, hmem, hkind, hplace, hne⟩ := h
      rcases List.mem_cons.1 hmem with rfl | hmem
      · obtain ⟨item, hitem⟩ := Option.ne_none_iff_exists'.1 hne
        exact ⟨written.2, item, hkind, hplace, [], written.1, rest, rfl, hitem, hrest⟩
      · exact absurd ⟨written, hmem, hkind, hplace, hne⟩ hrest

/-- A place that is no field's, or only of fields without members, is spared. -/
theorem spared_of_not_written {fields : List (String × Access T)} {place : Place T}
    (apart : ∀ field ∈ fields, field.2.place.Apart place) (h : ¬ Written members fields place) :
    ∀ field ∈ fields, members.lookup field.1 ≠ none → field.2.lens.Spares place.lens := by
  intro field hfield hne
  by_cases hkind : field.2.kind = .constant
  · exact Access.lens_spares_of_constant hkind place.lens
  · rcases apart field hfield with hplace | hplace
    · exact absurd ⟨field, hfield, hkind, hplace, hne⟩ h
    · exact hplace.spares

theorem get_of_not_written {fields : List (String × Access T)} {place : Place T} {target result : T}
    (h : (decodeFields policy members fields target).result = .ok result)
    (apart : ∀ field ∈ fields, field.2.place.Apart place) (hnot : ¬ Written members fields place) :
    place.lens.get result = place.lens.get target :=
  get_of_spared h (spared_of_not_written apart hnot)

theorem readField_of_lastAt {fields : List (String × Access T)} {place : Place T} {access : Access T} {item : Json}
    {target result : T} (h : (decodeFields policy members fields target).result = .ok result)
    (lawful : ∀ field ∈ fields, field.2.lens.Lawful) (apart : ∀ field ∈ fields, field.2.place.Apart place)
    (hlast : LastAt members fields place access item) :
    (readField policy access item).result = .ok (access.lens.get result) := by
  obtain ⟨-, rfl, before, name, after, rfl, hitem, hnot⟩ := hlast
  refine get_of_last h (lawful (name, access) (by simp)) hitem ?_
  exact spared_of_not_written (fun field hfield => apart field (by simp [hfield])) hnot

/-! ## Whole documents -/

theorem result_patch_obj (shape : Shape T) (members : List (String × Json)) (target : T) :
    (shape.patch (.obj members) target).result
      = (decodeFields shape.nullPolicy members shape.fields target).result := by
  show ((decodeFields shape.nullPolicy members shape.fields target) >>= _).result = _
  cases h : (decodeFields shape.nullPolicy members shape.fields target).result <;> simp [h]

/-- Only an object is read, and all of it depends on its fields. -/
theorem patch_eq_ok {shape : Shape T} {raw : Json} {target result : T} :
    (shape.patch raw target).result = .ok result
      ↔ ∃ members, raw = .obj members
          ∧ (decodeFields shape.nullPolicy members shape.fields target).result = .ok result := by
  cases raw with
  | obj members => simp [result_patch_obj]
  | _ => simp [patch]

theorem patch_eq_error_of_target (shape : Shape T) (raw : Json) (target other : T) (e : CodecError) :
    (shape.patch raw target).result = .error e ↔ (shape.patch raw other).result = .error e := by
  cases raw with
  | obj members => rw [result_patch_obj, result_patch_obj, decodeFields_eq_error, decodeFields_eq_error]
  | _ => exact Iff.rfl

namespace Told

open Sample

def name : Lens Dog String := ⟨fun d => d.pet.name, fun v d => { d with pet := { d.pet with name := v } }⟩

/-- Two names for the place of the name, and a constant in place of the inherited age. -/
def shape : Shape Dog := .build "ToldDog" [
  .nulls .reject,
  .inherits Pet.shape ⟨Dog.pet, fun v d => { d with pet := v }⟩,
  .required "called" .string name,
  .constant "age" (.str "old")]

theorem separate_shape : shape.Separate := by
  apply separate_of_pairwise
  · simp [shape, Pet.shape, Entries.ofList, Entries.insert]
    refine ⟨?_, ?_, ?_, ?_, ?_, ?_⟩ <;> exact ⟨fun _ _ => rfl, fun _ => rfl, fun _ _ _ => rfl⟩
  · simp [shape, Pet.shape, Entries.ofList, Entries.insert]
    refine ⟨⟨?_, ?_, ?_, ?_, ?_⟩, ⟨?_, ?_, ?_, ?_⟩, ⟨?_, ?_, ?_⟩, ⟨?_, ?_⟩, ?_⟩
    all_goals first | exact .inl rfl | exact .inr ⟨fun _ _ => rfl, fun _ _ => rfl, fun _ _ _ => rfl⟩

end Told

/-- Reading a document over a target is a patch that happens as a whole or not at all. The document
alone decides whether it succeeds and how it fails. If it fails the target is as it was. If it
succeeds, a place of the value holds what the last field there that has a member read from it, and a
place without such a field is unchanged. Decoding is the patch of the default value. The run on a target
at hand ends as the patch does and leaves what it says. -/
theorem patch_atomic [Inhabited T] (shape : Shape T) (lawful : ∀ field ∈ shape.fields, field.2.lens.Lawful)
    (raw : Json) :
    (∀ target other e, (shape.patch raw target).result = .error e ↔ (shape.patch raw other).result = .error e)
    ∧ (∀ target other, (∃ result, (shape.patch raw target).result = .ok result)
        ↔ ∃ result, (shape.patch raw other).result = .ok result)
    ∧ (∀ target e, (shape.patch raw target).result = .error e → shape.patched raw target = target)
    ∧ (∀ target result, (shape.patch raw target).result = .ok result →
        shape.patched raw target = result ∧ ∃ members, raw = .obj members
          ∧ ∀ place : Place T, (∀ field ∈ shape.fields, field.2.place.Apart place) →
            (∀ access item, LastAt members shape.fields place access item →
              (access.read item).result = .ok (access.lens.get result))
            ∧ (¬ Written members shape.fields place → place.lens.get result = place.lens.get target))
    ∧ (∀ v, (shape.decode raw).result = .ok v
        ↔ (∃ result, (shape.patch raw default).result = .ok result) ∧ shape.patched raw default = v)
    ∧ (∀ e, (shape.decode raw).result = .error e ↔ (shape.patch raw default).result = .error e)
    ∧ ∀ target, (shape.patchInto raw).run target
        = (Functor.discard (shape.patch raw target), shape.patched raw target) := by
  have sameFailure := shape.patch_eq_error_of_target raw
  refine ⟨sameFailure, ?_, fun target e h => patched_of_error h, ?_, ?_, fun e => Iff.rfl, fun target => ?_⟩
  · intro target other
    cases htarget : (shape.patch raw target).result with
    | error e => simp [(sameFailure target other e).1 htarget]
    | ok result =>
      cases hother : (shape.patch raw other).result with
      | ok result => simp
      | error e =>
        rw [(sameFailure target other e).2 hother] at htarget
        cases htarget
  · intro target result h
    refine ⟨patched_of_ok h, ?_⟩
    obtain ⟨members, rfl, hrun⟩ := patch_eq_ok.1 h
    refine ⟨members, rfl, fun place apart => ⟨fun access item hlast => ?_, get_of_not_written hrun apart⟩⟩
    exact read_of_readField (readField_of_lastAt hrun lawful apart hlast)
  · intro v
    cases h : (shape.patch raw default).result with
    | ok result => simp [decode, h, patched_of_ok h]
    | error e => simp [decode, h]
  · rw [patched, run_patchInto]

namespace Told

open Sample

def rex : Dog := ⟨⟨"Rex", ⟨7, by decide⟩, some "R", .null, ["good"]⟩, ⟨3, by decide⟩, none⟩

/-- Of two names the one declared last is taken though the document has it first, and a document whose
null is refused changes nothing of the name that was read before it. -/
theorem last_name_is_taken :
    (∀ field ∈ shape.fields, field.2.lens.Lawful)
    ∧ (∃ result, (shape.patch (.obj [("called", .str "Ada"), ("age", .null), ("name", .str "Bo")]) rex).result
        = .ok result ∧ result.pet.name = "Ada")
    ∧ shape.patched (.obj [("name", .str "Ada"), ("nickname", .null)]) rex = rex := by
  have lawful := separate_shape.lawful
  refine ⟨lawful, ⟨_, rfl, ?_⟩, ?_⟩
  · obtain ⟨-, -, -, whole, -, -⟩ := patch_atomic shape lawful
      (.obj [("called", .str "Ada"), ("age", .null), ("name", .str "Bo")])
    obtain ⟨-, members, hmembers, places⟩ := whole rex _ rfl
    cases hmembers
    have called : ("called", .required name .string) ∈ shape.fields := List.mem_of_getElem? (i := 5) rfl
    obtain ⟨last, -⟩ := places ⟨String, name⟩ fun field hfield => separate_shape.apart field hfield _ called
    have hlast : ¬ Written [("called", .str "Ada"), ("age", .null), ("name", .str "Bo")] [] ⟨String, name⟩ := by
      simp [Written]
    have hread := last (.required name .string) (.str "Ada")
      ⟨by decide, rfl, shape.fields.take 5, "called", [], rfl, rfl, hlast⟩
    exact (Except.ok.inj hread).symm
  · obtain ⟨-, -, unchanged, -, -, -⟩ :=
      patch_atomic shape lawful (.obj [("name", .str "Ada"), ("nickname", .null)])
    exact unchanged rex _ rfl

end Told

end JsonWire.Shape
