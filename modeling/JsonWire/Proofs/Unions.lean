/-
  JsonWire.Proofs.Unions — which case of a union reads a document, and which writes a value.

  A closed union reads a document as the case of its tag does, and the tag that it writes
  is the one that it finds there (`lookup_withTag_key`). An open union takes the first
  candidate that reads the document (`tryEach_eq_ok`), and fails with all failures in
  order where none does (`tryEach_eq_error`). A value is written by the case of its own
  tag, which has to give back the payload (`Case.Coherent`).
-/

import JsonWire.Proofs.Lookup
import JsonWire.Proofs.Results
import JsonWire.Union.Closed
import JsonWire.Union.Open
import Mathlib.Data.List.Forall2

namespace JsonWire

variable {U : Type}

/-! ## Cases -/

/-- Values of the case carry its tag and give back their payload. -/
structure Case.Coherent [Tagged U] (tag : String) (case : Case U) : Prop where
  tag_wrap : ∀ payload, Tagged.tag (case.wrap payload) = tag
  unwrap_wrap : ∀ payload, case.unwrap (case.wrap payload) = some payload

theorem Case.result_decode_eq_ok {case : Case U} {raw : Json} {value : U} :
    (case.decode raw).result = .ok value
      ↔ ∃ payload, (case.codec.decode raw).result = .ok payload ∧ case.wrap payload = value := by
  simp [Case.decode]

theorem Case.result_decode_eq_error {case : Case U} {raw : Json} {e : CodecError} :
    (case.decode raw).result = .error e ↔ (case.codec.decode raw).result = .error e := by
  simp [Case.decode]

/-! ## Closed unions -/

namespace ClosedUnion

variable {union : ClosedUnion U} {tag : String} {members : List (String × Json)}

theorem lookup_withTag_key : (union.withTag tag members).lookup union.key = some (.str tag) := by
  unfold withTag
  dsimp only
  split
  · simp
  · rw [Entries.lookup_append_of_none (Entries.lookup_erase_self ..)]
    simp

theorem lookup_withTag_of_ne {name : String} (h : name ≠ union.key) :
    (union.withTag tag members).lookup name = members.lookup name := by
  have herase := Entries.lookup_erase_of_ne h members
  unfold withTag
  dsimp only
  split
  · rw [List.lookup_cons, beq_false_of_ne h]
    exact herase
  · rw [List.lookup_append, List.lookup_cons, beq_false_of_ne h, herase]
    simp

/-- Only an object with a text under the key has a tag. -/
theorem peekTag_eq_ok {raw : Json} :
    (union.peekTag raw).result = .ok tag
      ↔ ∃ members, raw = .obj members ∧ members.lookup union.key = some (.str tag) := by
  cases raw with
  | obj members =>
    simp only [peekTag, Json.obj.injEq, exists_eq_left']
    split
    · rename_i found hfound
      simp [hfound]
    · rename_i found hne hfound
      rw [hfound]
      constructor
      · intro h
        cases h
      · intro h
        exact absurd (Option.some.inj h) (hne tag)
    · rename_i hnone
      rw [hnone]
      constructor <;> intro h <;> cases h
  | _ => simp [peekTag]

theorem peekTag_withTag : union.peekTag (.obj (union.withTag tag members)) = pure tag := by
  simp [peekTag, lookup_withTag_key]

/-- With the tag found, reading is left to the case of the tag. -/
theorem decode_of_peekTag {raw : Json} {case : Case U} (hpeek : union.peekTag raw = pure tag)
    (hcase : union.case? tag = some case) :
    union.decode raw = (fun payload => ⟨tag, case.wrap payload⟩) <$> case.codec.decode raw := by
  simp [decode, hpeek, hcase, Case.decode]

/-- The case of the tag reads the object. -/
theorem decode_eq_ok {raw : Json} {found : UnionValue U} :
    (union.decode raw).result = .ok found
      ↔ ∃ tag case payload, (union.peekTag raw).result = .ok tag ∧ union.case? tag = some case
          ∧ (case.codec.decode raw).result = .ok payload ∧ found = ⟨tag, case.wrap payload⟩ := by
  constructor
  · intro h
    obtain ⟨tag, hpeek, h⟩ := Traced.result_bind_eq_ok.1 h
    cases hcase : union.case? tag with
    | none =>
      rw [hcase] at h
      cases h
    | some case =>
      rw [hcase] at h
      obtain ⟨value, hvalue, ⟨⟩⟩ := Traced.result_bind_eq_ok.1 h
      obtain ⟨payload, hpayload, rfl⟩ := Case.result_decode_eq_ok.1 hvalue
      exact ⟨tag, case, payload, hpeek, hcase, hpayload, rfl⟩
  · intro h
    obtain ⟨tag, case, payload, hpeek, hcase, hpayload, rfl⟩ := h
    refine Traced.result_bind_eq_ok.2 ⟨tag, hpeek, ?_⟩
    rw [hcase]
    exact Traced.result_bind_eq_ok.2 ⟨_, Case.result_decode_eq_ok.2 ⟨payload, hpayload, rfl⟩, rfl⟩

/-- The case that an object selects: the one registered under the text that its tag is. -/
def Selects (union : ClosedUnion U) (raw : Json) (tag : String) (case : Case U) : Prop :=
  ∃ members, raw = .obj members ∧ members.lookup union.key = some (.str tag) ∧ union.case? tag = some case

/-- Nothing comes after an unknown tag. -/
theorem decode_of_unknown {tag : Option String} (h : union.peekTag raw = union.unknown tag) :
    union.decode raw = union.unknown tag := by
  rw [decode, h]
  rfl

theorem Selects.mem {tag : String} {case : Case U} (h : union.Selects raw tag case) : (tag, case) ∈ union.cases := by
  obtain ⟨members, -, -, hcase⟩ := h
  exact Entries.mem_of_lookup hcase

theorem Selects.decode_eq {tag : String} {case : Case U} (h : union.Selects raw tag case) :
    union.decode raw = (fun payload => ⟨tag, case.wrap payload⟩) <$> case.codec.decode raw := by
  obtain ⟨members, rfl, hmember, hcase⟩ := h
  have hpeek : union.peekTag (.obj members) = pure tag := by simp [peekTag, hmember]
  exact decode_of_peekTag hpeek hcase

/-- The case that the object selects reads it. Otherwise the tag is unknown, or there is no object. -/
theorem decode_cases (union : ClosedUnion U) (raw : Json) :
    (∃ tag case, union.Selects raw tag case
        ∧ union.decode raw = (fun payload => ⟨tag, case.wrap payload⟩) <$> case.codec.decode raw)
      ∨ (∀ tag case, ¬ union.Selects raw tag case)
        ∧ ((∃ tag, union.decode raw = union.unknown tag) ∨ ∃ text, union.decode raw = .fail (.malformed text)) := by
  by_cases hselects : ∃ tag case, union.Selects raw tag case
  · obtain ⟨tag, case, hcase⟩ := hselects
    exact .inl ⟨tag, case, hcase, hcase.decode_eq⟩
  · push Not at hselects
    refine .inr ⟨hselects, ?_⟩
    cases raw with
    | obj members =>
      refine .inl ?_
      cases hmember : members.lookup union.key with
      | none => exact ⟨none, decode_of_unknown (by simp [peekTag, hmember])⟩
      | some member =>
        by_cases htext : ∃ tag, member = .str tag
        · obtain ⟨tag, rfl⟩ := htext
          have hpeek : union.peekTag (.obj members) = pure tag := by simp [peekTag, hmember]
          have hcase : union.case? tag = none :=
            Option.eq_none_iff_forall_not_mem.2 fun case hcase => hselects tag case ⟨members, rfl, hmember, hcase⟩
          exact ⟨some tag, by simp [decode, hpeek, hcase]⟩
        · have hpeek : union.peekTag (.obj members) = union.unknown (some member.render) := by
            cases member with
            | str tag => exact absurd ⟨tag, rfl⟩ htext
            | _ => simp [peekTag, hmember]
          exact ⟨some member.render, decode_of_unknown hpeek⟩
    | _ => exact .inr ⟨_, rfl⟩

/-- What becomes of an encoded payload: an object takes the tag among its members, nothing else can. -/
def tagged (union : ClosedUnion U) (tag : String) : Json → Traced Json
  | .obj members => return .obj (union.withTag tag members)
  | other => .fail (.unexpected "object" other)

theorem tagged_eq_ok {written json : Json} :
    (union.tagged tag written).result = .ok json
      ↔ ∃ members, written = .obj members ∧ json = .obj (union.withTag tag members) := by
  cases written with
  | obj members => simp [tagged, eq_comm]
  | _ => simp [tagged]

/-- A value whose case gives back its payload is written as the payload, and then tagged. -/
theorem encode_eq_tagged [Tagged U] {value : U} {case : Case U} {payload : case.Payload}
    (hcase : union.case? (Tagged.tag value) = some case) (hunwrap : case.unwrap value = some payload) :
    union.encode value = case.codec.encode payload >>= union.tagged (Tagged.tag value) := by
  rw [encode, hcase]
  simp only [Option.bind_some, Case.encode?, hunwrap, Option.map_some]
  rfl

theorem encode_of_unwrap [Tagged U] {value : U} {case : Case U} {payload : case.Payload}
    (hcase : union.case? (Tagged.tag value) = some case) (hunwrap : case.unwrap value = some payload)
    (h : (case.codec.encode payload).result = .ok (.obj members)) :
    (union.encode value).result = .ok (.obj (union.withTag (Tagged.tag value) members)) := by
  rw [encode_eq_tagged hcase hunwrap]
  exact Traced.result_bind_eq_ok.2 ⟨.obj members, h, rfl⟩

theorem encode_eq_ok [Tagged U] {case : Case U} {payload : case.Payload} (coherent : case.Coherent tag)
    (hcase : union.case? tag = some case) (h : (case.codec.encode payload).result = .ok (.obj members)) :
    (union.encode (case.wrap payload)).result = .ok (.obj (union.withTag tag members)) := by
  have htag := coherent.tag_wrap payload
  rw [← htag] at hcase ⊢
  exact encode_of_unwrap hcase (coherent.unwrap_wrap payload) h

/-- A value has an encoding only by a case of its tag that gives back a payload and writes it as an object. -/
theorem exists_payload_of_encode [Tagged U] {value : U} {json : Json} (h : (union.encode value).result = .ok json) :
    ∃ (case : Case U) (payload : case.Payload) (members : List (String × Json)),
      union.case? (Tagged.tag value) = some case ∧ case.unwrap value = some payload
      ∧ (case.codec.encode payload).result = .ok (.obj members)
      ∧ json = .obj (union.withTag (Tagged.tag value) members) := by
  cases hcase : union.case? (Tagged.tag value) with
  | none =>
    simp only [encode, hcase, Option.bind_none] at h
    cases h
  | some case =>
    cases hunwrap : case.unwrap value with
    | none =>
      simp only [encode, hcase, Option.bind_some, Case.encode?, hunwrap, Option.map_none] at h
      cases h
    | some payload =>
      rw [encode_eq_tagged hcase hunwrap] at h
      obtain ⟨written, hwritten, h⟩ := Traced.result_bind_eq_ok.1 h
      obtain ⟨members, rfl, rfl⟩ := tagged_eq_ok.1 h
      exact ⟨case, payload, members, rfl, hunwrap, hwritten, rfl⟩

end ClosedUnion

/-! ## Open unions -/

namespace OpenUnion

/-- Each failure is named for its candidate and is how that candidate alone fails. -/
def Tried (raw : Json) (candidates : List (String × Case U)) (failures : List (String × CodecError)) : Prop :=
  List.Forall₂ (fun candidate failure => failure.1 = candidate.1
    ∧ (candidate.2.codec.decode raw).result = .error failure.2) candidates failures

theorem tryEach_eq_error {name : String} {raw : Json} {failures : List (String × CodecError)}
    {candidates : List (String × Case U)} {e : CodecError} :
    (tryEach name raw failures candidates).result = .error e
      ↔ ∃ later, Tried raw candidates later ∧ e = .allVariantsFailed name (failures ++ later) := by
  induction candidates generalizing failures with
  | nil => simp [tryEach, Tried, eq_comm]
  | cons candidate rest ih =>
    obtain ⟨candidateName, case⟩ := candidate
    unfold tryEach
    dsimp only
    split
    · rename_i value hvalue
      refine ⟨fun h => ?_, fun h => ?_⟩
      · cases h
      · obtain ⟨later, htried, -⟩ := h
        obtain _ | ⟨⟨-, herror⟩, -⟩ := htried
        rw [Case.result_decode_eq_error.2 herror] at hvalue
        cases hvalue
    · rename_i error herror
      rw [ih]
      refine ⟨fun h => ?_, fun h => ?_⟩
      · obtain ⟨later, htried, rfl⟩ := h
        refine ⟨(candidateName, error) :: later, .cons ⟨rfl, Case.result_decode_eq_error.1 herror⟩ htried, ?_⟩
        rw [List.append_assoc, List.singleton_append]
      · obtain ⟨later, htried, rfl⟩ := h
        obtain _ | @⟨_, ⟨failedName, failure⟩, _, later, ⟨rfl, hfailure⟩, htried⟩ := htried
        rw [Case.result_decode_eq_error.2 hfailure] at herror
        cases herror
        refine ⟨later, htried, ?_⟩
        rw [List.append_assoc, List.singleton_append]

/-- The first candidate that reads the document is taken. -/
theorem tryEach_eq_ok {name : String} {raw : Json} {failures : List (String × CodecError)}
    {candidates : List (String × Case U)} {found : UnionValue U} :
    (tryEach name raw failures candidates).result = .ok found
      ↔ ∃ before candidate case after payload, candidates = before ++ (candidate, case) :: after
          ∧ (∀ earlier ∈ before, ∃ e, (earlier.2.codec.decode raw).result = .error e)
          ∧ (case.codec.decode raw).result = .ok payload ∧ found = ⟨candidate, case.wrap payload⟩ := by
  induction candidates generalizing failures with
  | nil =>
    refine ⟨fun h => ?_, fun h => ?_⟩
    · cases h
    · obtain ⟨before, candidate, case, after, payload, hsplit, -⟩ := h
      cases before <;> cases hsplit
  | cons head rest ih =>
    obtain ⟨candidate, case⟩ := head
    unfold tryEach
    dsimp only
    split
    · rename_i value hvalue
      obtain ⟨payload, hpayload, rfl⟩ := Case.result_decode_eq_ok.1 hvalue
      refine ⟨fun h => ?_, fun h => ?_⟩
      · cases h
        exact ⟨[], candidate, case, rest, payload, rfl, nofun, hpayload, rfl⟩
      · obtain ⟨before, other, otherCase, after, read, hsplit, hbefore, hread, rfl⟩ := h
        cases before with
        | nil =>
          cases hsplit
          rw [hpayload] at hread
          cases hread
          rfl
        | cons first before =>
          cases hsplit
          obtain ⟨e, he⟩ := hbefore _ List.mem_cons_self
          rw [hpayload] at he
          cases he
    · rename_i error herror
      have hfails : (case.codec.decode raw).result = .error error := by simpa [Case.decode] using herror
      rw [ih]
      refine ⟨fun h => ?_, fun h => ?_⟩
      · obtain ⟨before, other, otherCase, after, payload, rfl, hbefore, h⟩ := h
        refine ⟨(candidate, case) :: before, other, otherCase, after, payload, rfl, ?_, h⟩
        exact List.forall_mem_cons.2 ⟨⟨error, hfails⟩, hbefore⟩
      · obtain ⟨before, other, otherCase, after, payload, hsplit, hbefore, hread, rfl⟩ := h
        cases before with
        | nil =>
          cases hsplit
          rw [hfails] at hread
          cases hread
        | cons first before =>
          cases hsplit
          exact ⟨before, other, otherCase, after, payload, rfl, (List.forall_mem_cons.1 hbefore).2, hread, rfl⟩

/-- A value is written as its payload is by the candidate of its tag. -/
theorem encode_of_unwrap [Tagged U] {union : OpenUnion U} {value : U} {case : Case U} {payload : case.Payload}
    (hcase : union.candidates.lookup (Tagged.tag value) = some case) (hunwrap : case.unwrap value = some payload) :
    union.encode value = case.codec.encode payload := by
  rw [encode, hcase]
  simp only [Option.bind_some, Case.encode?, hunwrap, Option.map_some]

theorem encode_wrap [Tagged U] {union : OpenUnion U} {candidate : String} {case : Case U} {payload : case.Payload}
    (coherent : case.Coherent candidate) (h : union.candidates.lookup candidate = some case) :
    union.encode (case.wrap payload) = case.codec.encode payload := by
  rw [← coherent.tag_wrap payload] at h
  exact encode_of_unwrap h (coherent.unwrap_wrap payload)

/-- A value has an encoding only by a candidate of its tag that gives back its payload. -/
theorem exists_payload_of_encode [Tagged U] {union : OpenUnion U} {value : U} {json : Json}
    (h : (union.encode value).result = .ok json) :
    ∃ (case : Case U) (payload : case.Payload), union.candidates.lookup (Tagged.tag value) = some case
      ∧ case.unwrap value = some payload ∧ (case.codec.encode payload).result = .ok json := by
  cases hcase : union.candidates.lookup (Tagged.tag value) with
  | none =>
    simp only [encode, hcase, Option.bind_none] at h
    cases h
  | some case =>
    cases hunwrap : case.unwrap value with
    | none =>
      simp only [encode, hcase, Option.bind_some, Case.encode?, hunwrap, Option.map_none] at h
      cases h
    | some payload =>
      rw [encode_of_unwrap hcase hunwrap] at h
      exact ⟨case, payload, rfl, hunwrap, h⟩

end OpenUnion

end JsonWire
