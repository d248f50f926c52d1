/-
  JsonWire.Proofs.Tags — the tag a value is found under is its own.

  Reading takes the tag from the document or from the name of a candidate, writing takes
  it from the value. They agree as soon as every case stands under the tag that its
  values carry: what was read is found under its own tag (`UnionValue.eq_of_coherent`), so
  writing it goes back to the case that read it, and that case gives back the payload it
  read (`ClosedUnion.encode_wrap`, `OpenUnion.encode_wrap`). Neither kind of union can
  then fail to know a value that it has itself read. A closed union writes what the case
  writes, with the tag put in (`ClosedUnion.encode_wrap_eq_ok`), and finds the tag in it.
-/

import JsonWire.Proofs.SampleMade
import JsonWire.Proofs.Tagging
import JsonWire.Proofs.Trial

namespace JsonWire

variable {U : Type} {raw : Json}

/-- A payload of a case lies in a value that is found under the tag of the case. -/
theorem UnionValue.eq_of_coherent [Tagged U] {tag : String} {case : Case U} (coherent : case.Coherent tag)
    (payload : case.Payload) : (⟨tag, case.wrap payload⟩ : UnionValue U) = .of (case.wrap payload) := by
  rw [UnionValue.of, coherent.tag_wrap payload]

/-! ## Closed unions -/

namespace ClosedUnion

variable {union : ClosedUnion U}

/-- Without a tag there is no reading, and the failure is that of the tag. -/
theorem decode_eq_error_of_peekTag {e : CodecError} (h : (union.peekTag raw).result = .error e) :
    (union.decode raw).result = .error e :=
  Traced.result_bind_eq_error.2 (.inl h)

theorem mem_tags_of_case? {tag : String} {case : Case U} (h : union.case? tag = some case) : tag ∈ union.tags :=
  List.mem_map_of_mem (Entries.mem_of_lookup h)

/-- A payload that was read goes back to its case, which writes it. -/
theorem encode_wrap [Tagged U] {tag : String} {case : Case U} (coherent : case.Coherent tag)
    (hcase : union.case? tag = some case) (payload : case.Payload) :
    union.encode (case.wrap payload) = case.codec.encode payload >>= union.tagged tag := by
  rw [← coherent.tag_wrap payload] at hcase
  rw [encode_eq_tagged hcase (coherent.unwrap_wrap payload), coherent.tag_wrap]

/-- Tagging adds one failure only, that of a payload that is no object. -/
theorem error_of_tagged {tag : String} {x : Traced Json} {e : CodecError}
    (h : (x >>= union.tagged tag).result = .error e) :
    x.result = .error e ∨ ∃ json, x.result = .ok json ∧ e = .unexpected "object" json := by
  refine (Traced.result_bind_eq_error.1 h).imp_right fun ⟨json, hjson, h⟩ => ⟨json, hjson, ?_⟩
  cases json <;> cases h <;> rfl

/-- What is written is the object that the case writes, with the tag put in: the key once, in its place, and
the other members as they were. -/
theorem encode_wrap_eq_ok [Tagged U] {tag : String} {case : Case U} (coherent : case.Coherent tag)
    (hcase : union.case? tag = some case) {payload : case.Payload} {json : Json} :
    (union.encode (case.wrap payload)).result = .ok json
      ↔ ∃ members out, (case.codec.encode payload).result = .ok (.obj members) ∧ json = .obj out
        ∧ (Entries.keys out).count union.key = 1 ∧ union.tagMember? out = some (union.key, .str tag)
        ∧ Entries.erase union.key out = Entries.erase union.key members := by
  rw [encode_wrap coherent hcase, Traced.result_bind_eq_ok]
  constructor
  · intro h
    obtain ⟨written, hwritten, h⟩ := h
    obtain ⟨members, rfl, rfl⟩ := tagged_eq_ok.1 h
    exact ⟨members, _, hwritten, rfl, eq_withTag_iff.1 rfl⟩
  · intro h
    obtain ⟨members, out, hwritten, rfl, hout⟩ := h
    exact ⟨_, hwritten, tagged_eq_ok.2 ⟨members, rfl, congrArg Json.obj (eq_withTag_iff.2 hout)⟩⟩

/-- The tag is found in what was written under it. -/
theorem peekTag_of_encode_wrap [Tagged U] {tag : String} {case : Case U} (coherent : case.Coherent tag)
    (hcase : union.case? tag = some case) {payload : case.Payload} {json : Json}
    (h : (union.encode (case.wrap payload)).result = .ok json) : (union.peekTag json).result = .ok tag := by
  obtain ⟨members, out, -, rfl, hout⟩ := (encode_wrap_eq_ok coherent hcase).1 h
  rw [eq_withTag_iff.2 hout, peekTag_withTag]
  rfl

end ClosedUnion

/-! ## Both kinds -/

/-- Where the values of every case carry the tag that the case stands under, and give back their payload,
what is read is found under its own tag, which is one of the union's, and is written by the case that read
it, from the payload it read. A closed union finds that tag when it looks for the tag alone, and fails as
that does. It writes the object of the payload with the tag put in, the key once, in its place and the other
members as they were, and there it finds the tag again. -/
theorem tag_and_value_agree [Tagged U] :
    (∀ union : ClosedUnion U, (∀ case ∈ union.cases, case.2.Coherent case.1) → ∀ raw,
      (∀ found, (union.decode raw).result = .ok found →
        found.tag = Tagged.tag found.value ∧ found = .of found.value ∧ found.tag ∈ union.tags
        ∧ (union.peekTag raw).result = .ok found.tag
        ∧ ∃ case payload, union.case? found.tag = some case ∧ union.case? (Tagged.tag found.value) = some case
          ∧ (case.codec.decode raw).result = .ok payload ∧ found.value = case.wrap payload
          ∧ union.encode found.value = case.codec.encode payload >>= union.tagged found.tag
          ∧ (∀ e, (union.encode found.value).result = .error e → (case.codec.encode payload).result = .error e
            ∨ ∃ json, (case.codec.encode payload).result = .ok json ∧ e = .unexpected "object" json)
          ∧ (∀ json, (union.encode found.value).result = .ok json
            ↔ ∃ members out, (case.codec.encode payload).result = .ok (.obj members) ∧ json = .obj out
              ∧ (Entries.keys out).count union.key = 1 ∧ union.tagMember? out = some (union.key, .str found.tag)
              ∧ Entries.erase union.key out = Entries.erase union.key members)
          ∧ ∀ json, (union.encode found.value).result = .ok json → (union.peekTag json).result = .ok found.tag)
      ∧ ∀ e, (union.peekTag raw).result = .error e → (union.decode raw).result = .error e)
    ∧ ∀ union : OpenUnion U, (∀ candidate ∈ union.candidates, candidate.2.Coherent candidate.1) → ∀ raw found,
      (union.decode raw).result = .ok found →
        found.tag = Tagged.tag found.value ∧ found = .of found.value ∧ found.tag ∈ union.names
        ∧ ∃ i case payload, union.candidates[i]? = some (found.tag, case) ∧ union.RejectedBefore raw i
          ∧ union.candidates.lookup (Tagged.tag found.value) = some case
          ∧ (case.codec.decode raw).result = .ok payload ∧ found.value = case.wrap payload
          ∧ union.encode found.value = case.codec.encode payload := by
  constructor
  · intro union coherent raw
    refine ⟨fun found hfound => ?_, fun e he => ClosedUnion.decode_eq_error_of_peekTag he⟩
    obtain ⟨tag, case, payload, hpeek, hcase, hread, rfl⟩ := ClosedUnion.decode_eq_ok.1 hfound
    have hcoherent : case.Coherent tag := coherent (tag, case) (Entries.mem_of_lookup hcase)
    have htag := hcoherent.tag_wrap payload
    have hencode := ClosedUnion.encode_wrap hcoherent hcase payload
    refine ⟨htag.symm, UnionValue.eq_of_coherent hcoherent payload, ClosedUnion.mem_tags_of_case? hcase, hpeek,
      case, payload, hcase, htag.symm ▸ hcase, hread, rfl, hencode, fun e he => ?_,
      fun json => ClosedUnion.encode_wrap_eq_ok hcoherent hcase,
      fun json hjson => ClosedUnion.peekTag_of_encode_wrap hcoherent hcase hjson⟩
    rw [hencode] at he
    exact ClosedUnion.error_of_tagged he
  · intro union coherent raw found hfound
    obtain ⟨i, name, case, payload, hcase, hbefore, hread, rfl⟩ := OpenUnion.decode_eq_ok.1 hfound
    have hmem : (name, case) ∈ union.candidates := List.mem_of_getElem? hcase
    have hcoherent : case.Coherent name := coherent _ hmem
    have htag := hcoherent.tag_wrap payload
    have hlookup := OpenUnion.lookup_of_getElem? hcase
    exact ⟨htag.symm, UnionValue.eq_of_coherent hcoherent payload, List.mem_map_of_mem hmem, i, case, payload,
      hcase, hbefore, htag.symm ▸ hlookup, hread, rfl, OpenUnion.encode_wrap hcoherent hlookup⟩

namespace Sample

/-- A polar bear is found and written again under its tag, wherever the tag stands in the document; a bear
without one is refused. A bare metal is found under the name of its candidate. -/
theorem polar_bear_and_gold_keep_their_tags :
    (∃ found, (Bear.union.decode (.obj [("size", .str "small"), ("type", .str "polar")])).result = .ok found
      ∧ found.tag = "polar" ∧ Tagged.tag found.value = "polar"
      ∧ ∃ json, (Bear.union.encode found.value).result = .ok json ∧ (Bear.union.peekTag json).result = .ok "polar")
    ∧ (Bear.union.decode (.obj [("size", .str "small")])).result = .error (.unknownVariant "Bear" none)
    ∧ ∃ found, (Metal.union.decode (.str "gold")).result = .ok found ∧ found.tag = Tagged.tag found.value
      ∧ found.tag ∈ Metal.union.names := by
  obtain ⟨closed, -⟩ := tag_and_value_agree (U := Bear)
  obtain ⟨-, opened⟩ := tag_and_value_agree (U := Metal)
  have coherent : ∀ case ∈ Bear.union.cases, case.2.Coherent case.1 := fun case hcase => (Bear.lawful_cases case hcase).1
  let bear : Bear := .polar ⟨⟨"small"⟩⟩
  have read : (Bear.union.decode (.obj [("size", .str "small"), ("type", .str "polar")])).result
      = .ok ⟨"polar", bear⟩ := rfl
  have written : (Bear.union.encode bear).result = .ok (.obj [("type", .str "polar"), ("size", .str "small")]) := rfl
  have tried : ∃ found, (Metal.union.decode (.str "gold")).result = .ok found := ⟨_, rfl⟩
  refine ⟨?_, ?_, ?_⟩
  · obtain ⟨htag, -, -, -, case, payload, -, -, -, -, -, -, -, hpeek⟩ := (closed Bear.union coherent _).1 _ read
    exact ⟨_, read, rfl, htag.symm, _, written, hpeek _ written⟩
  · exact (closed Bear.union coherent _).2 _ rfl
  · obtain ⟨found, hfound⟩ := tried
    obtain ⟨htag, -, hmem, -⟩ := opened Metal.union Metal.coherent_candidates _ found hfound
    exact ⟨found, hfound, htag, hmem⟩

end Sample

end JsonWire
