/-
  JsonWire.Proofs.SampleTrial — which values an open union reads back.

  In general these are the values that no earlier candidate shadows. The candidates of
  metals and names never shadow one another: an alloy or a compound name is an object, a
  bare metal or a simple name a string. So every metal and every name that has an
  encoding is read from it (`open_unions_read_back`).
-/

import JsonWire.Proofs.SampleSettling
import JsonWire.Proofs.Trial
import JsonWire.Sample.Labelled

namespace JsonWire.Sample

open Codec

/-! ## Candidates -/

theorem Alloy.faithful_codec : Alloy.codec.Faithful := by
  refine Shape.faithful_codec Alloy.disjoint_shape.separate ?_ ?_
  · simp [shape, Entries.ofList, Entries.insert]
    exact ⟨faithful_string, faithful_float64⟩
  · simp [shape, Entries.ofList, Entries.insert]
    intro x y hname hpercentage
    exact congrArg₂ Alloy.mk hname hpercentage

theorem CompoundName.faithful_codec : CompoundName.codec.Faithful := by
  refine Shape.faithful_codec CompoundName.disjoint_shape.separate ?_ ?_
  · simp [shape, Entries.ofList, Entries.insert]
    exact ⟨faithful_string, faithful_string, neverNull_string, rfl⟩
  · simp [shape, Entries.ofList, Entries.insert]
    intro x y hname hsecond
    exact congrArg₂ CompoundName.mk hname hsecond

theorem Labelled.exact_case (label : String) (type : WireType) : (Labelled.case label type).Exact label where
  tag_wrap _ := rfl
  unwrap_eq_some value payload := by
    show payload? label type value = some payload ↔ Labelled.mk label type payload = value
    constructor
    · intro h
      unfold payload? at h
      split at h
      · rename_i htype
        subst htype
        split at h
        · rename_i hlabel
          subst hlabel
          cases h
          rfl
        · cases h
      · cases h
    · intro h
      subst h
      simp only [payload?, dite_true, if_true]
      rfl

/-! ## Metals and names -/

theorem Metal.readsBack_union : Metal.union.ReadsBack := by
  refine OpenUnion.readsBack_of_refuses ?_ ?_ Metal.pairwise_refuses
  · simp only [union, List.forall_mem_cons]
    refine ⟨⟨fun _ => rfl, ?_⟩, ⟨fun _ => rfl, ?_⟩, List.forall_mem_nil _⟩
    · intro value payload
      cases value <;> simp [alloy?, eq_comm]
    · intro value payload
      cases value <;> simp [pure?, eq_comm]
  · simp only [union, List.forall_mem_cons]
    exact ⟨Alloy.faithful_codec, .of_keeps MetalStringValues.keeps_codec, List.forall_mem_nil _⟩

theorem Name.readsBack_union : Name.union.ReadsBack := by
  refine OpenUnion.readsBack_of_refuses ?_ ?_ Name.pairwise_refuses
  · simp only [union, List.forall_mem_cons]
    refine ⟨⟨fun _ => rfl, ?_⟩, ⟨fun _ => rfl, ?_⟩, List.forall_mem_nil _⟩
    · intro value payload
      cases value <;> simp [simple?, eq_comm]
    · intro value payload
      cases value <;> simp [compound?, eq_comm]
  · simp only [union, List.forall_mem_cons]
    exact ⟨faithful_string, CompoundName.faithful_codec, List.forall_mem_nil _⟩

/-! ## All open unions -/

/-- A value whose payload is read from its own encoding is written as the payload. Reading that never
fails: the value found is of the first candidate that accepts the document, which is the value's own or
one before it, and it is the value exactly when all before reject the document. For metals and names
they always do. -/
theorem open_unions_read_back :
    (∀ {U : Type} [Tagged U] (union : OpenUnion U) (u : U) (i : Nat) (case : Case U) (payload : case.Payload)
        (json : Json), union.candidates[i]? = some (Tagged.tag u, case) → case.Exact (Tagged.tag u) →
      case.unwrap u = some payload → (case.codec.encode payload).result = .ok json →
      (case.codec.decode json).result = .ok payload →
      (union.encode u).result = .ok json
      ∧ ∃ j found first, (union.decode json).result = .ok found ∧ j ≤ i
        ∧ union.candidates[j]? = some (found.tag, first) ∧ first.Accepts json ∧ union.RejectedBefore json j
        ∧ (found = .of u ↔ union.RejectedBefore json i))
    ∧ Metal.union.ReadsBack ∧ Name.union.ReadsBack := by
  refine ⟨?_, Metal.readsBack_union, Name.readsBack_union⟩
  intro U _ union u i case payload json hcase exact hunwrap hencode hdecode
  have hwritten := OpenUnion.encode_of_unwrap (OpenUnion.lookup_of_getElem? hcase) hunwrap
  refine ⟨?_, OpenUnion.decode_encode_of_unwrap hcase exact hunwrap hdecode⟩
  rw [hwritten]
  exact hencode

namespace Measure

/-- Numbers as floats before numbers as integers. -/
def union : OpenUnion Labelled where
  name := "Measure"
  candidates := [("float", Labelled.case "float" .float64), ("int", Labelled.case "int" (.int .int64))]
  candidates_nonempty := by simp
  names_nodup := by decide

def three : Labelled := ⟨"int", .int .int64, ⟨3, by decide⟩⟩

def steel : Metal := .alloy ⟨"steel", Binary.zero⟩

/-- An integer is shadowed by the floats before it, and an alloy by nothing. -/
theorem three_is_read_as_float :
    (∃ found, (union.decode (.num (.int 3 (by decide)))).result = .ok found ∧ found.tag = "float"
      ∧ found ≠ .of three)
    ∧ ∃ json, (Metal.union.encode steel).result = .ok json ∧ (Metal.union.decode json).result = .ok (.of steel) := by
  obtain ⟨general, metals, -⟩ := open_unions_read_back
  constructor
  · obtain ⟨-, j, found, first, hfound, -, -, -, -, hsame⟩ := general union three 1
      (Labelled.case "int" (.int .int64)) (⟨3, by decide⟩ : IntOf .int64) (.num (.int 3 (by decide))) rfl
      (Labelled.exact_case _ _) rfl rfl rfl
    have accepts : (Labelled.case "float" .float64).Accepts (.num (.int 3 (by decide))) := ⟨_, rfl⟩
    refine ⟨found, hfound, ?_, fun hof => ?_⟩
    · cases hfound
      rfl
    · exact hsame.1 hof 0 (by decide) _ rfl accepts
  · have hencode : (Metal.union.encode steel).result = .ok (.obj [("name", .str "steel"),
        ("percentage", .num (.float Binary.zero rfl))]) := rfl
    exact ⟨_, hencode, (metals steel _ hencode).2⟩

end Measure

end JsonWire.Sample
