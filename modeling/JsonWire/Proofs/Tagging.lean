/-
  JsonWire.Proofs.Tagging — a closed union finds the tag that it wrote.

  Whatever the payload has under the discriminator key, the written object has the key
  once, in its place, with the tag of the value, and otherwise the members of the
  payload in their order (`count_withTag`, `erase_withTag`). The tag is then found again,
  and the object is read by the case of the tag alone (`decode_of_peekTag`).

  The payload is read out of that object, not out of its own encoding. For a shape this
  is the same if it has no field under the key, or only a constant there: it never looks
  at the tag (`tagged_payload_comes_back`).
-/

import JsonWire.Proofs.Declared
import JsonWire.Proofs.Unions
import JsonWire.Sample.Labelled

namespace JsonWire.ClosedUnion

section

variable {U : Type} {union : ClosedUnion U} {tag : String} {members : List (String × Json)}

/-! ## The tag among the members -/

theorem erase_withTag : Entries.erase union.key (union.withTag tag members) = Entries.erase union.key members := by
  cases hposition : union.position <;> simp [withTag, hposition, Entries.erase]

theorem count_withTag : (Entries.keys (union.withTag tag members)).count union.key = 1 := by
  have hrest : (Entries.keys (Entries.erase union.key members)).count union.key = 0 :=
    List.count_eq_zero.2 (Entries.not_mem_keys_erase union.key members)
  unfold Entries.keys at hrest
  cases hposition : union.position <;> simp [withTag, hposition, Entries.keys, hrest]

/-- The member at the end of the object where the tag belongs. -/
def tagMember? (union : ClosedUnion U) (members : List (String × Json)) : Option (String × Json) :=
  match union.position with
  | .first => members.head?
  | .last => members.getLast?

theorem tagMember?_withTag : union.tagMember? (union.withTag tag members) = some (union.key, .str tag) := by
  cases hposition : union.position <;> simp [tagMember?, withTag, hposition]

/-- The written object is determined by that: the key once, the tag in its place, and otherwise the members. -/
theorem eq_withTag_iff {out : List (String × Json)} :
    out = union.withTag tag members
      ↔ (Entries.keys out).count union.key = 1 ∧ union.tagMember? out = some (union.key, .str tag)
        ∧ Entries.erase union.key out = Entries.erase union.key members := by
  constructor
  · intro h
    subst h
    exact ⟨count_withTag, tagMember?_withTag, erase_withTag⟩
  · intro h
    obtain ⟨hcount, hmember, herase⟩ := h
    unfold withTag
    rw [← herase]
    unfold tagMember? at hmember
    cases hposition : union.position with
    | first =>
      rw [hposition] at hmember
      obtain ⟨rest, rfl⟩ := List.head?_eq_some_iff.1 hmember
      have hrest : union.key ∉ Entries.keys rest := by simpa [Entries.keys, List.count_eq_zero] using hcount
      simpa [Entries.erase] using (Entries.erase_of_not_mem hrest).symm
    | last =>
      rw [hposition] at hmember
      obtain ⟨rest, rfl⟩ := List.getLast?_eq_some_iff.1 hmember
      have hrest : union.key ∉ Entries.keys rest := by simpa [Entries.keys, List.count_eq_zero] using hcount
      simpa [Entries.erase] using (Entries.erase_of_not_mem hrest).symm

/-! ## There and back -/

/-- The symmetry of a closed union. A value whose payload is written as an object is written as that
object with the tag of the value under the discriminator key: once, in its place, and all other members
as they are. The tag is found there, and reading the object is reading it by the case of the tag.

For a payload with a shape the way back is complete: where the shape has no field under the key, or a
constant, and would read the untagged object as the payload, the tagged one is read as the value. -/
theorem tagged_payload_comes_back [Tagged U] (union : ClosedUnion U) :
    (∀ (u : U) (case : Case U) (payload : case.Payload) (members : List (String × Json)),
      union.case? (Tagged.tag u) = some case → case.unwrap u = some payload →
      (case.codec.encode payload).result = .ok (.obj members) →
      ∃ out, (union.encode u).result = .ok (.obj out)
        ∧ (Entries.keys out).count union.key = 1
        ∧ union.tagMember? out = some (union.key, .str (Tagged.tag u))
        ∧ Entries.erase union.key out = Entries.erase union.key members
        ∧ union.peekTag (.obj out) = pure (Tagged.tag u)
        ∧ union.decode (.obj out)
          = (fun payload => ⟨Tagged.tag u, case.wrap payload⟩) <$> case.codec.decode (.obj out))
    ∧ ∀ {T : Type} [Inhabited T] (shape : Shape T) (wrap : T → U) (unwrap : U → Option T) (u : U) (payload : T)
        (members : List (String × Json)), union.case? (Tagged.tag u) = some ⟨T, shape.codec, wrap, unwrap⟩ →
      unwrap u = some payload → (shape.encode payload).result = .ok (.obj members) →
      (∀ field ∈ shape.fields, field.1 = union.key → field.2.kind = .constant) →
      (shape.decode (.obj members)).result = .ok payload → wrap payload = u →
      ∃ json, (union.encode u).result = .ok json ∧ (union.decode json).result = .ok (.of u) := by
  constructor
  · intro u case payload members hcase hunwrap hencode
    refine ⟨union.withTag (Tagged.tag u) members, encode_of_unwrap hcase hunwrap hencode, count_withTag,
      tagMember?_withTag, erase_withTag, peekTag_withTag, ?_⟩
    exact decode_of_peekTag peekTag_withTag hcase
  · intro T _ shape wrap unwrap u payload members hcase hunwrap hencode constant hdecode hwrap
    refine ⟨_, encode_of_unwrap hcase hunwrap hencode, ?_⟩
    have agree : Shape.Agree shape.fields (union.withTag (Tagged.tag u) members) members :=
      Shape.agree_of_ne constant fun name hname => lookup_withTag_of_ne hname
    have hread : (shape.decode (.obj (union.withTag (Tagged.tag u) members))).result = .ok payload :=
      (Shape.result_patch_congr agree default).trans hdecode
    rw [decode_of_peekTag peekTag_withTag hcase]
    refine Traced.result_map_eq_ok.2 ⟨payload, hread, ?_⟩
    exact congrArg (UnionValue.mk (Tagged.tag u)) hwrap

end

namespace Species

open Sample

/-- Dogs and cats told apart by the key that is a constant of the dog's own shape. -/
def union : ClosedUnion Labelled where
  name := "Animal"
  key := "species"
  position := .last
  cases := [("cat", Labelled.case "cat" (.model .cat)), ("dog", Labelled.case "dog" (.model .dog))]
  key_nonempty := by decide
  cases_nonempty := by simp
  tags_nodup := by decide

theorem holds_three : IntType.uint8.Holds 3 := by decide

def rex : Dog := ⟨⟨"Rex", default, some "R", .null, ["good"]⟩, ⟨3, holds_three⟩, none⟩

def animal : Labelled := ⟨"dog", .model .dog, rex⟩

def rexMembers : List (String × Json) := [("name", .str "Rex"), ("age", .num (.int 3 (by decide))),
  ("nickname", .str "R"), ("owner", .null), ("tags", .arr [.str "good"]), ("species", .str "dog")]

/-- The constant gives way to the tag, which goes to the end, and the dog comes back. -/
theorem rex_comes_back :
    (Dog.shape.encode rex).result = .ok (.obj rexMembers)
    ∧ (∃ out, (union.encode animal).result = .ok (.obj out) ∧ out.getLast? = some ("species", .str "dog")
        ∧ (Entries.keys out).count "species" = 1)
    ∧ ∃ json, (union.encode animal).result = .ok json ∧ (union.decode json).result = .ok ⟨"dog", animal⟩ := by
  have hencode : (Dog.shape.encode rex).result = .ok (.obj rexMembers) := rfl
  have hdecode : (Dog.shape.decode (.obj rexMembers)).result = .ok rex := rfl
  have constant : ∀ field ∈ Dog.shape.fields, field.1 = union.key → field.2.kind = .constant := by
    simp [Dog.shape, Pet.shape, Entries.ofList, Entries.insert, union, Access.kind]
  obtain ⟨tagged, back⟩ := tagged_payload_comes_back union
  refine ⟨hencode, ?_, ?_⟩
  · obtain ⟨out, hout, hcount, hlast, -⟩ :=
      tagged animal (Labelled.case "dog" (.model .dog)) rex rexMembers rfl rfl hencode
    exact ⟨out, hout, hlast, hcount⟩
  · exact back Dog.shape (Labelled.mk "dog" (.model .dog)) (Labelled.payload? "dog" (.model .dog)) animal
      rex rexMembers rfl rfl hencode constant hdecode rfl

end Species

end JsonWire.ClosedUnion
