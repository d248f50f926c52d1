/-
  JsonWire.Proofs.Declaring — which fields a sequence of declarations leaves.

  Every declaration brings its fields one after another, an inheritance those of the
  parent in the parent's order. A new name goes to the end (`keys_prefix_append`), a name
  that is there keeps its place and takes the new field. After the whole sequence the names
  stand in the order of their first declarations (`keys_ofList_pairwise`) and each has the
  field that was declared last under it (`lookup_ofList_eq_some`), at whatever level that
  was. Of null policies the last that this sequence sets counts; a parent brings fields,
  no policy (`nullPolicy_build`).
-/

import JsonWire.Proofs.Places
import JsonWire.Sample.Pets
import Mathlib.Data.List.Basic
import Mathlib.Data.List.Forall2
import Mathlib.Data.List.Induction

namespace JsonWire

namespace Entries

universe u

variable {α : Type u} {key : String} {value : α}

/-! ## First places and last values -/

theorem ofList_concat (pairs : List (String × α)) (pair : String × α) :
    ofList (pairs ++ [pair]) = insert pair.1 pair.2 (ofList pairs) := by
  rw [ofList, List.foldl_append]
  rfl

theorem keys_append (before after : List (String × α)) : keys (before ++ after) = keys before ++ keys after :=
  List.map_append

theorem mem_keys_ofList {pairs : List (String × α)} : key ∈ keys (ofList pairs) ↔ key ∈ keys pairs := by
  induction pairs using List.reverseRecOn with
  | nil => exact Iff.rfl
  | append_singleton pairs pair ih =>
    have hconcat : key ∈ keys (pairs ++ [pair]) ↔ key ∈ keys pairs ∨ key = pair.1 := by simp [keys]
    rw [ofList_concat, keys_insert, hconcat, ← ih]
    split
    · rename_i hpair
      exact ⟨.inl, fun h => h.elim id fun e => e ▸ hpair⟩
    · simp

/-- Keys stand in the order in which they first occur. -/
theorem keys_ofList_pairwise (pairs : List (String × α)) :
    (keys (ofList pairs)).Pairwise fun a b => (keys pairs).idxOf a < (keys pairs).idxOf b := by
  induction pairs using List.reverseRecOn with
  | nil => exact .nil
  | append_singleton pairs pair ih =>
    have hconcat : keys (pairs ++ [pair]) = keys pairs ++ [pair.1] := keys_append pairs [pair]
    have earlier : (keys (ofList pairs)).Pairwise fun a b =>
        (keys (pairs ++ [pair])).idxOf a < (keys (pairs ++ [pair])).idxOf b := by
      refine ih.imp_of_mem fun {a b} ha hb hab => ?_
      rw [hconcat, List.idxOf_append_of_mem (mem_keys_ofList.1 ha), List.idxOf_append_of_mem (mem_keys_ofList.1 hb)]
      exact hab
    rw [ofList_concat, keys_insert]
    split
    · exact earlier
    · rename_i hpair
      refine List.pairwise_append.2 ⟨earlier, List.pairwise_singleton _ _, fun a ha b hb => ?_⟩
      obtain rfl := List.mem_singleton.1 hb
      have ha := mem_keys_ofList.1 ha
      have hlast : (keys pairs).idxOf a < (keys pairs).length := List.idxOf_lt_length_of_mem ha
      rw [hconcat, List.idxOf_append_of_mem ha, List.idxOf_append_of_notMem fun h => hpair (mem_keys_ofList.2 h)]
      omega

theorem lookup_ofList (pairs : List (String × α)) (key : String) :
    (ofList pairs).lookup key = pairs.reverse.lookup key := by
  induction pairs using List.reverseRecOn with
  | nil => rfl
  | append_singleton pairs pair ih =>
    rw [ofList_concat, lookup_insert, List.reverse_concat, List.lookup_cons, ih]
    by_cases h : key = pair.1
    · rw [if_pos h, beq_iff_eq.2 h]
    · rw [if_neg h, beq_false_of_ne h]

/-- Every key has the last value that is given to it. -/
theorem lookup_ofList_eq_some {pairs : List (String × α)} :
    (ofList pairs).lookup key = some value
      ↔ ∃ before after, pairs = before ++ (key, value) :: after ∧ key ∉ keys after := by
  have others (later : List (String × α)) : (∀ pair ∈ later, (key != pair.1) = true) ↔ key ∉ keys later := by
    simp only [keys, List.mem_map, not_exists, not_and, bne_iff_ne, ne_comm]
  rw [lookup_ofList, List.lookup_eq_some_iff]
  constructor
  · rintro ⟨after, before, hsplit, hafter⟩
    refine ⟨before.reverse, after.reverse, ?_, ?_⟩
    · rw [← List.reverse_reverse pairs, hsplit]
      simp
    · simpa [keys] using (others after).1 hafter
  · rintro ⟨before, after, rfl, hafter⟩
    refine ⟨after.reverse, before.reverse, by simp, ?_⟩
    exact (others after.reverse).2 (by simpa [keys] using hafter)

theorem lookup_eq_some_iff_mem {entries : List (String × α)} (nodup : (keys entries).Nodup) :
    entries.lookup key = some value ↔ (key, value) ∈ entries :=
  ⟨mem_of_lookup, lookup_of_mem nodup⟩

/-- Keys that are there stay in front. -/
theorem keys_prefix_append (base pairs : List (String × α)) :
    keys (ofList base) <+: keys (ofList (base ++ pairs)) := by
  induction pairs using List.reverseRecOn with
  | nil => simp
  | append_singleton pairs pair ih =>
    rw [← List.append_assoc, ofList_concat, keys_insert]
    split
    · exact ih
    · exact ih.trans (List.prefix_append _ _)

end Entries

variable {T C F : Type}

/-! ## Inherited fields -/

namespace Access

@[simp] theorem kind_through (access : Access T) (lens : Lens C T) : (access.through lens).kind = access.kind := by
  cases access <;> rfl

theorem encode_through (access : Access T) (lens : Lens C T) (x : C) :
    (access.through lens).encode x = access.encode (lens.get x) := by
  cases access <;> rfl

theorem uses_through {access : Access T} {lens : Lens C T} {codec : Codec F} :
    (access.through lens).Uses codec ↔ access.Uses codec := by
  constructor
  · intro h
    cases access <;> cases h <;> constructor
  · intro h
    cases h <;> constructor

end Access

/-- An inheritance brings the parent's fields in their order, each with its name, its kind and its codec. -/
theorem Declaration.forall₂_fields_inherits (parent : Shape T) (lens : Lens C T) :
    List.Forall₂ (fun own inherited => inherited.1 = own.1 ∧ inherited.2 = own.2.through lens
        ∧ inherited.2.kind = own.2.kind
        ∧ ∀ ⦃F : Type⦄ (codec : Codec F), inherited.2.Uses codec ↔ own.2.Uses codec)
      parent.fields (Declaration.inherits parent lens).fields := by
  rw [fields_inherits, List.forall₂_map_right_iff]
  refine List.forall₂_same.2 fun field _ => ⟨rfl, rfl, field.2.kind_through lens, fun F codec => ?_⟩
  exact Access.uses_through

/-! ## Null policies -/

/-- The null policy that a declaration sets. -/
def Declaration.policy? : Declaration T → Option NullPolicy
  | .nulls policy => some policy
  | _ => none

namespace Shape

variable {name : String} {declarations : List (Declaration T)}

theorem nullPolicy_build : (Shape.build name declarations).nullPolicy
    = (declarations.filterMap Declaration.policy?).getLastD .treatAsAbsent := by
  show declarations.foldl Declaration.policyAfter .treatAsAbsent = _
  generalize NullPolicy.treatAsAbsent = policy
  induction declarations generalizing policy with
  | nil => rfl
  | cons declaration rest ih =>
    rw [List.foldl_cons, ih]
    cases declaration with
    | field name access => rfl
    | inherits parent lens => rfl
    | nulls set =>
      show _ = (set :: rest.filterMap Declaration.policy?).getLastD policy
      rw [List.getLastD_cons]
      rfl

/-! ## All declarations -/

theorem field?_eq_some_iff_mem {shape : Shape T} {key : String} {access : Access T} :
    shape.field? key = some access ↔ (key, access) ∈ shape.fields :=
  Entries.lookup_eq_some_iff_mem shape.names_nodup

/-- What a sequence of declarations leaves. No name is there twice; the names are those declared, in the
order of their first declarations; each has the field of its last declaration, and looking it up gives
that field and nothing for other names. What is inherited counts as declared where it is inherited, field
by field. The null policy is the one set last here. -/
theorem build_first_place_last_declaration (name : String) (declarations : List (Declaration T)) :
    let shape := Shape.build name declarations
    let declared := declarations.flatMap Declaration.fields
    shape.names.Nodup
    ∧ (∀ key, key ∈ shape.names ↔ key ∈ Entries.keys declared)
    ∧ shape.names.Pairwise (fun a b => (Entries.keys declared).idxOf a < (Entries.keys declared).idxOf b)
    ∧ (∀ key access, shape.field? key = some access
        ↔ ∃ before after, declared = before ++ (key, access) :: after ∧ key ∉ Entries.keys after)
    ∧ (∀ key access, shape.field? key = some access ↔ (key, access) ∈ shape.fields)
    ∧ (∀ key, shape.field? key = none ↔ key ∉ Entries.keys declared)
    ∧ (∀ {P : Type} (parent : Shape P) (lens : Lens T P),
        List.Forall₂ (fun own inherited => inherited.1 = own.1 ∧ inherited.2 = own.2.through lens
            ∧ inherited.2.kind = own.2.kind
            ∧ ∀ ⦃F : Type⦄ (codec : Codec F), inherited.2.Uses codec ↔ own.2.Uses codec)
          parent.fields (Declaration.inherits parent lens).fields)
    ∧ shape.nullPolicy = (declarations.filterMap Declaration.policy?).getLastD .treatAsAbsent := by
  intro shape declared
  have undeclared (key : String) : shape.field? key = none ↔ key ∉ Entries.keys declared := by
    rw [field?, Entries.lookup_eq_none_iff, fields_build, Entries.mem_keys_ofList]
  refine ⟨shape.names_nodup, fun _ => Entries.mem_keys_ofList, Entries.keys_ofList_pairwise declared,
    fun _ _ => Entries.lookup_ofList_eq_some, fun _ _ => field?_eq_some_iff_mem, undeclared, ?_, nullPolicy_build⟩
  exact Declaration.forall₂_fields_inherits

/-- The age stands where the pet has it, with the dog's own kind of number. -/
example : Sample.Dog.shape.names = ["name", "age", "nickname", "owner", "tags", "species", "breed"]
    ∧ Sample.Dog.shape.field? "age"
      = some (.required ⟨Sample.Dog.age, fun v d => { d with age := v }⟩ (.int .uint8)) :=
  ⟨rfl, rfl⟩

end Shape

end JsonWire
