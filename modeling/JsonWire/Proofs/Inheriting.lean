/-
  JsonWire.Proofs.Inheriting — a child treats what it inherits as its parent does.

  A child that inherits first and then declares fields of its own has the parent's names in
  front, in their order (`Entries.exists_append_of_ofList`). At each of them stands the
  parent's field, reached through the place where the parent lies, or one of the child's
  own in its stead (`Inherited`). Own fields leave the place of the parent alone.

  The two shapes then read different lists of fields, and do the same to the inherited part:
  at an inherited field both read the same member (`readField_through`), at a field that was
  replaced the parent finds no member, as its document has only the names that were not
  redeclared, and what the child reads there lies elsewhere. So a run of the child that
  succeeds is, seen at that place, a run of the parent (`decodeFields_inherited`).
-/

import JsonWire.Proofs.Declaring
import JsonWire.Proofs.Patching

namespace JsonWire

/-! ## Entries followed by others -/

namespace Entries

universe u

variable {α : Type u} {key : String}

/-- The entries with one of these keys. -/
def restrict (names : List String) (entries : List (String × α)) : List (String × α) :=
  entries.filter fun entry => entry.1 ∈ names

theorem lookup_restrict (names : List String) (entries : List (String × α)) (key : String) :
    (restrict names entries).lookup key = if key ∈ names then entries.lookup key else none := by
  rw [restrict, lookup_filter fun name => decide (name ∈ names)]
  simp

theorem lookup_ofList_append (base pairs : List (String × α)) (key : String) :
    (ofList (base ++ pairs)).lookup key = ((ofList pairs).lookup key).or ((ofList base).lookup key) := by
  rw [lookup_ofList, lookup_ofList, lookup_ofList, List.reverse_append, List.lookup_append]

/-- An entry is the last of its key: one of the later pairs, or of the base and under no later key. -/
theorem mem_ofList_append {base pairs : List (String × α)} (nodup : (keys base).Nodup) {entry : String × α}
    (h : entry ∈ ofList (base ++ pairs)) :
    entry.1 ∉ keys pairs ∧ entry ∈ base ∨ entry.1 ∈ keys pairs ∧ entry ∈ pairs := by
  have hlookup := lookup_of_mem (keys_ofList_nodup (base ++ pairs)) h
  rw [lookup_ofList_append, ofList_of_nodup nodup] at hlookup
  cases hlater : (ofList pairs).lookup entry.1 with
  | none =>
    rw [hlater, Option.none_or] at hlookup
    have hnot : entry.1 ∉ keys pairs := fun hmem => lookup_eq_none_iff.1 hlater (mem_keys_ofList.2 hmem)
    exact .inl ⟨hnot, mem_of_lookup hlookup⟩
  | some value =>
    rw [hlater, Option.some_or] at hlookup
    cases hlookup
    have hmem : entry ∈ pairs := mem_ofList (mem_of_lookup hlater)
    exact .inr ⟨List.mem_map_of_mem hmem, hmem⟩

theorem forall₂_of_keys_eq {old new : List (String × α)} (h : keys new = keys old) :
    List.Forall₂ (fun old new => new.1 = old.1) old new := by
  have hsame : List.Forall₂ Eq (keys new) (keys old) := by
    rw [h, List.forall₂_eq_eq_eq]
  simpa [keys, List.forall₂_map_left_iff, List.forall₂_map_right_iff] using hsame.flip

/-- The keys of a base stay in front and in order, each with its entry or a later one. Behind them are
later entries only. -/
theorem exists_append_of_ofList {base : List (String × α)} (nodup : (keys base).Nodup) (pairs : List (String × α)) :
    ∃ front behind, ofList (base ++ pairs) = front ++ behind
      ∧ List.Forall₂ (fun old new => new.1 = old.1
          ∧ (old.1 ∉ keys pairs ∧ new = old ∨ old.1 ∈ keys pairs ∧ new ∈ pairs)) base front
      ∧ ∀ entry ∈ behind, entry ∈ pairs := by
  obtain ⟨rest, hrest⟩ := keys_prefix_append base pairs
  rw [ofList_of_nodup nodup] at hrest
  obtain ⟨front, behind, hsplit, hfront, hbehind⟩ := List.map_eq_append_iff.1 hrest.symm
  have hmem (entry : String × α) (hentry : entry ∈ front ++ behind) : entry ∈ ofList (base ++ pairs) := hsplit ▸ hentry
  have hkeys := forall₂_of_keys_eq hfront
  refine ⟨front, behind, hsplit, List.forall₂_iff_zip.2 ⟨hkeys.length_eq, fun {old new} hpair => ?_⟩, ?_⟩
  · have hname : new.1 = old.1 := List.forall₂_zip hkeys hpair
    obtain ⟨hold, hnew⟩ := List.of_mem_zip hpair
    refine ⟨hname, ?_⟩
    rcases mem_ofList_append nodup (hmem new (List.mem_append_left _ hnew)) with ⟨hnot, hbase⟩ | hlater
    · -- Two entries of the base under one key are one entry.
      have hvalue := (lookup_of_mem nodup hbase).symm.trans (hname ▸ lookup_of_mem nodup hold)
      exact .inl ⟨hname ▸ hnot, Prod.ext hname (Option.some.inj hvalue)⟩
    · exact .inr (hname ▸ hlater)
  · intro entry hentry
    rcases mem_ofList_append nodup (hmem entry (List.mem_append_right _ hentry)) with ⟨-, hbase⟩ | ⟨-, hpairs⟩
    · -- A key of the base stands in front, and no key stands twice.
      have hnodup : (keys (front ++ behind)).Nodup := hsplit ▸ keys_ofList_nodup (base ++ pairs)
      have hkey : entry.1 ∈ keys front := by
        rw [keys, hfront]
        exact List.mem_map_of_mem hbase
      rw [keys_append, List.nodup_append] at hnodup
      exact absurd rfl (hnodup.2.2 _ hkey _ (List.mem_map_of_mem hentry))
    · exact hpairs

end Entries

variable {P C : Type}

namespace Shape

variable {lens : Lens C P} {own : List (String × Access C)} {policy : NullPolicy}

/-! ## One field -/

/-- What stands in the child where the parent has a field: the field itself, inside the child, or one of
the child's own under the same name. -/
def Inherited (lens : Lens C P) (own : List (String × Access C)) (parent : String × Access P)
    (child : String × Access C) : Prop :=
  child.1 = parent.1
    ∧ (parent.1 ∉ Entries.keys own ∧ child.2 = parent.2.through lens ∨ parent.1 ∈ Entries.keys own ∧ child ∈ own)

/-- An inherited field reads what the parent's does, and writes it into the parent's part. -/
theorem readField_through (lawful : lens.Lawful) {access : Access P} {item : Json}
    {content : (access.through lens).Content} (h : (readField policy (access.through lens) item).result = .ok content) :
    ∃ inner, (readField policy access item).result = .ok inner
      ∧ ∀ x, lens.get ((access.through lens).lens.set content x) = access.lens.set inner (lens.get x) := by
  cases access with
  | constant literal => exact ⟨(), h, fun _ => rfl⟩
  | required inner codec => exact ⟨content, h, fun x => lawful.get_set _ x⟩
  | optional inner codec => exact ⟨content, h, fun x => lawful.get_set _ x⟩
  | nullable inner codec => exact ⟨content, h, fun x => lawful.get_set _ x⟩

/-! ## All fields -/

theorem decodeFields_append (members : List (String × Json)) (before after : List (String × Access C)) (target : C) :
    decodeFields policy members (before ++ after) target
      = decodeFields policy members before target >>= decodeFields policy members after := by
  induction before generalizing target with
  | nil => rfl
  | cons field rest ih =>
    obtain ⟨name, access⟩ := field
    rw [List.cons_append, decodeFields, decodeFields]
    split
    · exact ih target
    · rw [bind_assoc]
      simp only [ih]

/-- A run along the child's fields is, in the parent's part, a run along the parent's fields over a document
that has the members of those that were not replaced. -/
theorem decodeFields_inherited (lawful : lens.Lawful) (spares : ∀ field ∈ own, field.2.lens.Spares lens)
    {parentFields : List (String × Access P)} {front : List (String × Access C)}
    (h : List.Forall₂ (Inherited lens own) parentFields front) {members found : List (String × Json)}
    (hfound : ∀ field ∈ parentFields,
      found.lookup field.1 = if field.1 ∈ Entries.keys own then none else members.lookup field.1)
    {x x' : C} (hrun : (decodeFields policy members front x).result = .ok x') :
    (decodeFields policy found parentFields (lens.get x)).result = .ok (lens.get x') := by
  induction h generalizing x with
  | nil =>
    cases hrun
    rfl
  | @cons parent child parentRest rest hfield _ ih =>
    obtain ⟨name, access⟩ := parent
    obtain ⟨childName, childAccess⟩ := child
    obtain ⟨hname, hfield⟩ := hfield
    obtain ⟨hhere, hlater⟩ := List.forall_mem_cons.1 hfound
    dsimp only at hname hfield hhere
    subst hname
    rcases hfield with ⟨hkept, rfl⟩ | ⟨hreplaced, hown⟩
    · -- The field is inherited, so both find the same member, or none.
      rw [if_neg hkept] at hhere
      cases hmember : members.lookup childName with
      | none =>
        rw [decodeFields_missing hmember] at hrun
        rw [decodeFields_missing (hhere.trans hmember)]
        exact ih hlater hrun
      | some item =>
        obtain ⟨content, hcontent, hrun⟩ := (decodeFields_cons_eq_ok hmember).1 hrun
        obtain ⟨inner, hinner, hwrite⟩ := readField_through lawful hcontent
        refine (decodeFields_cons_eq_ok (hhere.trans hmember)).2 ⟨inner, hinner, ?_⟩
        rw [← hwrite x]
        exact ih hlater hrun
    · -- The field is the child's own: the parent finds nothing, and the child writes elsewhere.
      rw [if_pos hreplaced] at hhere
      rw [decodeFields_missing hhere]
      cases hmember : members.lookup childName with
      | none =>
        rw [decodeFields_missing hmember] at hrun
        exact ih hlater hrun
      | some item =>
        obtain ⟨content, -, hrun⟩ := (decodeFields_cons_eq_ok hmember).1 hrun
        rw [← spares _ hown content x]
        exact ih hlater hrun

/-! ## The child -/

/-- The parent's names that the child's own declarations leave to it. -/
def unredeclared (parent : Shape P) (own : List (Declaration C)) : List String :=
  parent.names.filter (· ∉ Entries.keys (own.flatMap Declaration.fields))

/-- The child that sets null policies, inherits, and then declares on its own. -/
def child (name : String) (policies : List NullPolicy) (parent : Shape P) (lens : Lens C P)
    (own : List (Declaration C)) : Shape C :=
  .build name (policies.map .nulls ++ .inherits parent lens :: own)

section Child

variable {name : String} {policies : List NullPolicy} {parent : Shape P} {own : List (Declaration C)}

theorem fields_child (name : String) (policies : List NullPolicy) (parent : Shape P) (lens : Lens C P)
    (own : List (Declaration C)) : (child name policies parent lens own).fields = Entries.ofList
    (parent.fields.map (fun field => (field.1, field.2.through lens)) ++ own.flatMap Declaration.fields) := by
  have hpolicies : (policies.map Declaration.nulls).flatMap (Declaration.fields (T := C)) = [] := by
    simp [List.flatMap_eq_nil_iff]
  rw [child, fields_build, List.flatMap_append, hpolicies, List.nil_append, List.flatMap_cons,
    Declaration.fields_inherits]

theorem names_inherited : Entries.keys (parent.fields.map fun field => (field.1, field.2.through lens)) = parent.names := by
  rw [Entries.keys, List.map_map]
  rfl

theorem nodup_inherited : (Entries.keys (parent.fields.map fun field => (field.1, field.2.through lens))).Nodup := by
  rw [names_inherited]
  exact parent.names_nodup

/-- The child's fields: at each of the parent's names what is inherited or replaces it, then own ones. -/
theorem exists_fields_child (name : String) (policies : List NullPolicy) (parent : Shape P) (lens : Lens C P)
    (own : List (Declaration C)) : ∃ front behind, (child name policies parent lens own).fields = front ++ behind
    ∧ List.Forall₂ (Inherited lens (own.flatMap Declaration.fields)) parent.fields front
    ∧ ∀ field ∈ behind, field ∈ own.flatMap Declaration.fields := by
  obtain ⟨front, behind, hsplit, hfront, hbehind⟩ :=
    Entries.exists_append_of_ofList nodup_inherited (own.flatMap Declaration.fields)
  refine ⟨front, behind, (fields_child ..).trans hsplit, ?_, hbehind⟩
  refine (List.forall₂_map_left_iff.1 hfront).imp fun field new hnew => ⟨hnew.1, hnew.2.imp_left fun h => ?_⟩
  exact ⟨h.1, congrArg Prod.snd h.2⟩

theorem names_prefix_child : parent.names <+: (child name policies parent lens own).names := by
  have hprefix := Entries.keys_prefix_append (parent.fields.map fun field => (field.1, field.2.through lens))
    (own.flatMap Declaration.fields)
  rw [← fields_child name policies, Entries.ofList_of_nodup nodup_inherited,
    names_inherited] at hprefix
  exact hprefix

/-- A name that is not declared again has the parent's field. -/
theorem field?_child_of_unredeclared {key : String} (h : key ∈ parent.unredeclared own) :
    ∃ access, parent.field? key = some access
      ∧ (child name policies parent lens own).field? key = some (access.through lens) := by
  obtain ⟨hname, hown⟩ := List.mem_filter.1 h
  have hnot : (Entries.ofList (own.flatMap Declaration.fields)).lookup key = none :=
    Entries.lookup_eq_none_iff.2 fun hmem => of_decide_eq_true hown (Entries.mem_keys_ofList.1 hmem)
  obtain ⟨field, hfield, rfl⟩ := List.mem_map.1 hname
  refine ⟨field.2, field?_eq_some_iff_mem.2 hfield, ?_⟩
  rw [field?, fields_child, Entries.lookup_ofList_append, hnot, Option.none_or,
    Entries.ofList_of_nodup nodup_inherited]
  exact Entries.lookup_of_mem nodup_inherited (List.mem_map_of_mem hfield)

theorem patch_child_eq_ok (lawful : lens.Lawful)
    (spares : ∀ field ∈ own.flatMap Declaration.fields, field.2.lens.Spares lens)
    (samePolicy : (child name policies parent lens own).nullPolicy = parent.nullPolicy)
    {members : List (String × Json)} {x x' : C}
    (h : ((child name policies parent lens own).patch (.obj members) x).result = .ok x') :
    (parent.patch (.obj (Entries.restrict (parent.unredeclared own) members)) (lens.get x)).result
      = .ok (lens.get x') := by
  obtain ⟨front, behind, hfields, hfront, hbehind⟩ := exists_fields_child name policies parent lens own
  rw [result_patch_obj, hfields, decodeFields_append, samePolicy] at h
  obtain ⟨between, hbetween, hrest⟩ := Traced.result_bind_eq_ok.1 h
  have hspared : lens.get x' = lens.get between :=
    get_of_spared hrest fun field hfield _ => spares field (hbehind field hfield)
  rw [result_patch_obj, hspared]
  refine decodeFields_inherited lawful spares hfront (fun field hfield => ?_) hbetween
  have hname : field.1 ∈ parent.names := List.mem_map_of_mem hfield
  rw [Entries.lookup_restrict]
  by_cases hown : field.1 ∈ Entries.keys (own.flatMap Declaration.fields) <;>
    simp [unredeclared, hown, hname]

end Child

/-- A child that inherits first treats the parent's part of its values as the parent does, whatever else it
declares outside that part. The parent's names come first, in their order. A name that is not declared again
keeps its kind of presence and shows what it shows in the parent. With the same null policy, a patch of
the child is on the parent's part a patch by the parent, with the members of those names; it fails if the
parent's does. -/
theorem child_simulates_parent (name : String) (policies : List NullPolicy) (parent : Shape P) {lens : Lens C P}
    {own : List (Declaration C)} (lawful : lens.Lawful)
    (spares : ∀ field ∈ own.flatMap Declaration.fields, field.2.lens.Spares lens) :
    let whole := child name policies parent lens own
    let kept := parent.unredeclared own
    parent.names <+: whole.names
    ∧ (∀ key ∈ kept, ∃ access inherited, parent.field? key = some access ∧ whole.field? key = some inherited
        ∧ inherited.kind = access.kind ∧ ∀ x, inherited.encode x = access.encode (lens.get x))
    ∧ (whole.nullPolicy = parent.nullPolicy → ∀ members x,
        (∀ x', (whole.patch (.obj members) x).result = .ok x' →
          (parent.patch (.obj (Entries.restrict kept members)) (lens.get x)).result = .ok (lens.get x'))
        ∧ ∀ e, (parent.patch (.obj (Entries.restrict kept members)) (lens.get x)).result = .error e →
          ∃ e', (whole.patch (.obj members) x).result = .error e') := by
  intro whole kept
  refine ⟨names_prefix_child, fun key hkey => ?_, fun samePolicy members x => ⟨fun x' hrun => ?_, fun e hfail => ?_⟩⟩
  · obtain ⟨access, haccess, hwhole⟩ := field?_child_of_unredeclared hkey
    exact ⟨access, access.through lens, haccess, hwhole, access.kind_through lens, access.encode_through lens⟩
  · exact patch_child_eq_ok lawful spares samePolicy hrun
  · cases hrun : (whole.patch (.obj members) x).result with
    | error e' => exact ⟨e', rfl⟩
    | ok x' =>
      rw [patch_child_eq_ok lawful spares samePolicy hrun] at hfail
      cases hfail

end Shape

/-! ## A dog and its pet -/

namespace Sample.Dog

/-- The pet in a dog. -/
def petPart : Lens Dog Pet := ⟨pet, fun v d => { d with pet := v }⟩

/-- What a dog declares besides its pet. -/
def own : List (Declaration Dog) := [
  .constant "species" (.str "dog"),
  .required "age" (.int .uint8) ⟨age, fun v d => { d with age := v }⟩,
  .optional "breed" .string ⟨breed, fun v d => { d with breed := v }⟩]

theorem shape_eq_child : shape = .child "Dog" [] Pet.shape petPart own := rfl

theorem lawful_petPart : petPart.Lawful := ⟨fun _ _ => rfl, fun _ => rfl, fun _ _ _ => rfl⟩

theorem own_spares_pet : ∀ field ∈ own.flatMap Declaration.fields, field.2.lens.Spares petPart := by
  refine List.forall_mem_cons.2 ⟨?_, List.forall_mem_cons.2 ⟨?_, List.forall_mem_cons.2 ⟨?_, List.forall_mem_nil _⟩⟩⟩
  all_goals exact fun _ _ => rfl

/-- The age of a dog is not that of its pet, so the pet is patched as if the document had none; and a dog
whose pet cannot be patched cannot be patched. -/
theorem pet_is_patched_without_age :
    petPart.Lawful
    ∧ (∀ field ∈ own.flatMap Declaration.fields, field.2.lens.Spares petPart)
    ∧ (∀ rex : Dog, (Pet.shape.patch (.obj [("nickname", .null), ("name", .str "Bo")]) rex.pet).result
        = .ok { rex.pet with name := "Bo", nickname := none })
    ∧ ∀ rex : Dog, ∃ e, (shape.patch (.obj [("age", .str "old"), ("tags", .str "good")]) rex).result = .error e := by
  obtain ⟨-, -, runs⟩ := Shape.child_simulates_parent "Dog" [] Pet.shape lawful_petPart own_spares_pet
  refine ⟨lawful_petPart, own_spares_pet, fun rex => ?_, fun rex => ?_⟩
  · let members : List (String × Json) := [("species", .str "cat"), ("age", .num (.int 3 (by decide))),
      ("nickname", .null), ("name", .str "Bo")]
    exact (runs rfl members rex).1 _ rfl
  · rw [shape_eq_child]
    exact (runs rfl _ rex).2 _ rfl

end Sample.Dog

end JsonWire
