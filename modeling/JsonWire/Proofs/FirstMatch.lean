/-
  JsonWire.Proofs.FirstMatch — an open union takes the first match or lists every failure.

  A candidate is a function that reads a document or fails. The union reads what some
  candidate reads, as the first of them does, and where none does it fails with one
  failure for each candidate, in declared order (`first_match_or_all_failures`). This is
  so whatever the candidates are.

  Candidates composed of collections, shapes and unions bring failures that have further
  lists inside, in a field or in the list of another union. `CodecError.Holds` says that
  an error is somewhere inside another, `Codec.Part` that a codec is somewhere inside
  another. Every list inside the failure of a composed codec is that of an open union
  inside the codec, and as complete (`Codec.ListsAll`): the failure of a codec blames
  the value at fault (`Codec.Composed.blaming`), and a list that it blames is whole, as
  are the lists of its failures (`Blames.listsAll`).
-/

import JsonWire.Proofs.Blame
import JsonWire.Proofs.Evolving
import JsonWire.Proofs.SampleComposed

namespace JsonWire

variable {α β γ U : Type}

/-! ## Composed codecs -/

theorem Codec.BuiltIn.flat {codec : Codec α} (h : codec.BuiltIn) : codec.Flat := by
  cases h with
  | any => exact flat_any
  | string => exact flat_string
  | bool => exact flat_bool
  | int t => exact flat_int t
  | float64 => exact flat_float64
  | float32 => exact flat_float32
  | duration => exact flat_duration

theorem Codec.Composed.blaming {opened : Prop} {codec : Codec α} (h : codec.Composed opened) : codec.Blaming := by
  induction h with
  | builtIn hscalar => exact hscalar.flat.blaming
  | @enum _ _ _ domain _ _ hscalar => exact ((domain.flat_codec hscalar.flat).imap _ _).blaming
  | list _ ih => exact ih.list
  | record _ ih => exact ih.record
  | shape _ ih => exact Shape.Blaming.codec ih
  | closedUnion _ ih => exact ClosedUnion.blaming_codec ih
  | openUnion _ _ ih => exact OpenUnion.blaming_codec ih

/-! ## Inside a codec -/

/-- The codec is made of this one, at any depth. -/
inductive Codec.Part {β : Type} (inner : Codec β) : {α : Type} → Codec α → Prop
  | here : Part inner inner
  | item {α : Type} {codec : Codec α} : Part inner codec → Part inner (list codec)
  | entry {α : Type} {codec : Codec α} : Part inner codec → Part inner (record codec)
  | field {T F : Type} [Inhabited T] {shape : Shape T} {name : String} {access : Access T} {codec : Codec F} :
      (name, access) ∈ shape.fields → access.Uses codec → Part inner codec → Part inner shape.codec
  | case {V : Type} [Tagged V] {union : ClosedUnion V} {case : String × Case V} : case ∈ union.cases →
      Part inner case.2.codec → Part inner union.codec
  | candidate {V : Type} [Tagged V] {union : OpenUnion V} {candidate : String × Case V} :
      candidate ∈ union.candidates → Part inner candidate.2.codec → Part inner union.codec

theorem Codec.Part.trans {outer : Codec α} {codec : Codec β} {inner : Codec γ} (h : codec.Part outer)
    (hinner : inner.Part codec) : inner.Part outer := by
  induction h with
  | here => exact hinner
  | item _ ih => exact .item ih
  | entry _ ih => exact .entry ih
  | field hfield huses _ ih => exact .field hfield huses ih
  | case hcase _ ih => exact .case hcase ih
  | candidate hcandidate _ ih => exact .candidate hcandidate ih

theorem Reaches.part {codec : Codec α} {inner : Codec β} {raw found : Json} {path : List String}
    (h : Reaches codec raw path inner found) : inner.Part codec := by
  induction h with
  | here codec raw => exact .here
  | item _ _ ih => exact .item ih
  | entry _ _ ih => exact .entry ih
  | field hfields _ _ huses _ ih => exact .field (List.mem_iff_append.2 ⟨_, _, hfields⟩) huses ih
  | case _ hcase _ ih => exact .case (Entries.mem_of_lookup hcase) ih

/-! ## Inside an error -/

/-- The error is this one, or has it in a field or among its failures, at any depth. -/
inductive CodecError.Holds (inner : CodecError) : CodecError → Prop
  | here : Holds inner inner
  | field {name : String} {cause : CodecError} : Holds inner cause → Holds inner (.inField name cause)
  | failure {union : String} {failures : List (String × CodecError)} {failure : String × CodecError} :
      failure ∈ failures → Holds inner failure.2 → Holds inner (.allVariantsFailed union failures)

/-- A list inside an error is its root cause, or inside a failure that the root cause lists. -/
theorem CodecError.Holds.rootCause {name : String} {failures : List (String × CodecError)} {e : CodecError}
    (h : (allVariantsFailed name failures).Holds e) :
    e.rootCause = .allVariantsFailed name failures
      ∨ ∃ union listed failure, e.rootCause = .allVariantsFailed union listed ∧ failure ∈ listed
        ∧ (allVariantsFailed name failures).Holds failure.2 := by
  induction h with
  | here => exact .inl rfl
  | field _ ih => exact ih
  | failure hmem hinside _ => exact .inr ⟨_, _, _, rfl, hmem, hinside⟩

/-! ## Lists of failures -/

namespace OpenUnion

variable {union : OpenUnion U} {raw : Json}

theorem decode_eq_error {e : CodecError} :
    (union.decode raw).result = .error e
      ↔ ∃ failures, Tried raw union.candidates failures ∧ e = .allVariantsFailed union.name failures := by
  unfold decode
  rw [tryEach_eq_error]
  simp only [List.nil_append]

/-- A listed failure is that of some candidate. -/
theorem Tried.exists_mem_zip {candidates : List (String × Case U)} {failures : List (String × CodecError)}
    {failure : String × CodecError} (h : Tried raw candidates failures) (hmem : failure ∈ failures) :
    ∃ candidate ∈ candidates, (candidate, failure) ∈ candidates.zip failures := by
  have hsnd : (candidates.zip failures).map Prod.snd = failures := List.map_snd_zip (Nat.le_of_eq h.length_eq.symm)
  rw [← hsnd] at hmem
  obtain ⟨⟨candidate, _⟩, hpair, rfl⟩ := List.mem_map.1 hmem
  exact ⟨candidate, (List.of_mem_zip hpair).1, hpair⟩

end OpenUnion

/-- An open union inside the codec lists just these failures for a value inside the document: one for each
of its candidates, in order. -/
def Codec.ListsAll (codec : Codec α) (raw : Json) (name : String) (failures : List (String × CodecError)) : Prop :=
  ∃ (V : Type) (_ : Tagged V) (union : OpenUnion V) (path : List String) (found : Json),
    union.codec.Part codec ∧ raw.Leads path found ∧ union.name = name
    ∧ (union.decode found).result = .error (.allVariantsFailed name failures)
    ∧ OpenUnion.Tried found union.candidates failures

/-- What a part lists for a value, the whole lists for a document that has the value inside. -/
theorem Codec.ListsAll.lift {codec : Codec α} {outer : Codec β} {raw whole : Json} {path : List String}
    {name : String} {failures : List (String × CodecError)} (h : codec.ListsAll raw name failures)
    (hpart : codec.Part outer) (hleads : whole.Leads path raw) : outer.ListsAll whole name failures := by
  obtain ⟨V, tagged, union, inside, found, hunion, hfound, hname, hdecode, htried⟩ := h
  exact ⟨V, tagged, union, path ++ inside, found, hpart.trans hunion, hleads.trans hfound, hname, hdecode, htried⟩

/-- Every list inside an error that blames the value at fault is complete. -/
theorem Blames.listsAll {codec : Codec α} {raw : Json} {e : CodecError} (h : Blames codec raw e) {name : String}
    {failures : List (String × CodecError)} (hholds : (CodecError.allVariantsFailed name failures).Holds e) :
    codec.ListsAll raw name failures := by
  induction h with
  | cause _ _ plain =>
    rcases hholds.rootCause with hroot | ⟨union, listed, failure, hroot, -, -⟩
    · exact absurd hroot (plain name failures)
    · exact absurd hroot (plain union listed)
  | refusedNull _ _ _ _ _ _ hroot =>
    have hholds := hholds.rootCause
    rw [hroot] at hholds
    rcases hholds with hlist | ⟨union, listed, failure, hlist, -, -⟩
    · cases hlist
    · cases hlist
  | @candidates _ V tagged codec raw found e union listed hreach hroot _ htried _ ih =>
    have hpart := hreach.part
    have hleads := hreach.leads
    rcases hholds.rootCause with hsame | ⟨_, _, failure, hsame, hmem, hinside⟩
    · -- The list is the root cause itself.
      rw [hroot] at hsame
      cases hsame
      have hfails := OpenUnion.decode_eq_error.2 ⟨failures, htried, rfl⟩
      exact ⟨V, tagged, union, e.fields, found, hpart, hleads, rfl, hfails, htried⟩
    · -- The list is inside the failure of a candidate, which blames the value that it is about.
      rw [hroot] at hsame
      cases hsame
      obtain ⟨candidate, hcandidate, hpair⟩ := htried.exists_mem_zip hmem
      have hlists := ih (candidate, failure) hpair hinside
      exact hlists.lift (hpart.trans (.candidate hcandidate .here)) hleads

/-! ## The first match -/

namespace OpenUnion

variable {name : String} {candidates : List (String × Case U)} {union : OpenUnion U} {raw : Json}

/-- The value found is that of the first candidate that gives one. -/
theorem decode_eq_ok_iff_first {found : UnionValue U} :
    (union.decode raw).result = .ok found
      ↔ ∃ (i : Nat) (candidate : String) (case : Case U) (value : U), union.candidates[i]? = some (candidate, case)
          ∧ (∀ j < i, ∀ earlier, union.candidates[j]? = some earlier → ∃ e, (earlier.2.decode raw).result = .error e)
          ∧ (case.decode raw).result = .ok value ∧ found = ⟨candidate, value⟩ := by
  rw [decode_eq_ok]
  constructor
  · intro h
    obtain ⟨i, candidate, case, payload, hcase, hbefore, hread, rfl⟩ := h
    refine ⟨i, candidate, case, case.wrap payload, hcase, fun j hj earlier hearlier => ?_, ?_, rfl⟩
    · obtain ⟨e, he⟩ := Case.not_accepts_iff.1 (hbefore j hj earlier hearlier)
      exact ⟨e, Case.result_decode_eq_error.2 he⟩
    · exact Case.result_decode_eq_ok.2 ⟨payload, hread, rfl⟩
  · intro h
    obtain ⟨i, candidate, case, value, hcase, hbefore, hread, rfl⟩ := h
    obtain ⟨payload, hpayload, rfl⟩ := Case.result_decode_eq_ok.1 hread
    refine ⟨i, candidate, case, payload, hcase, fun j hj earlier hearlier => ?_, hpayload, rfl⟩
    obtain ⟨e, he⟩ := hbefore j hj earlier hearlier
    exact Case.not_accepts_iff.2 ⟨e, Case.result_decode_eq_error.1 he⟩

/-- The failures listed are those of the candidates, each on its own. -/
theorem decode_eq_error_iff_all {e : CodecError} :
    (union.decode raw).result = .error e
      ↔ ∃ failures, e = .allVariantsFailed union.name failures
          ∧ List.Forall₂ (fun candidate failure => failure.1 = candidate.1
              ∧ (candidate.2.decode raw).result = .error failure.2) union.candidates failures := by
  rw [decode_eq_error]
  simp only [Tried, Case.result_decode_eq_error, and_comm]

/-- Lists of failures stand whole in the failure of a composed candidate. -/
theorem listsAll_of_decode_eq_error {failures : List (String × CodecError)}
    (h : (union.decode raw).result = .error (.allVariantsFailed union.name failures))
    {pair : (String × Case U) × String × CodecError} (hpair : pair ∈ union.candidates.zip failures)
    (composed : pair.1.2.codec.Composed True) {inner : String} {nested : List (String × CodecError)}
    (hholds : (CodecError.allVariantsFailed inner nested).Holds pair.2.2) :
    pair.1.2.codec.ListsAll raw inner nested := by
  obtain ⟨listed, htried, hsame⟩ := decode_eq_error.1 h
  cases hsame
  obtain ⟨-, hcause⟩ := List.forall₂_zip htried hpair
  have hblames := composed.blaming raw pair.2.2 hcause
  exact hblames.listsAll hholds

/-- A union is read exactly if some candidate accepts the document, as the first that does reads it and
under its name. Otherwise it fails with the failure of each candidate alone, one for each and in declared
order. However deep a list of failures stands in the failure of a composed candidate, it is as complete. -/
theorem first_match_or_all_failures (h : ofCandidates name candidates = .ok union) (raw : Json) :
    ((∃ found, (union.decode raw).result = .ok found)
      ↔ ∃ candidate ∈ candidates, ∃ value, (candidate.2.decode raw).result = .ok value)
    ∧ (∀ found, (union.decode raw).result = .ok found
      ↔ ∃ (i : Nat) (candidate : String) (case : Case U) (value : U), candidates[i]? = some (candidate, case)
          ∧ (∀ j < i, ∀ earlier, candidates[j]? = some earlier → ∃ e, (earlier.2.decode raw).result = .error e)
          ∧ (case.decode raw).result = .ok value ∧ found = ⟨candidate, value⟩)
    ∧ (∀ e, (union.decode raw).result = .error e
      ↔ ∃ failures, e = .allVariantsFailed name failures
          ∧ List.Forall₂ (fun candidate failure => failure.1 = candidate.1
              ∧ (candidate.2.decode raw).result = .error failure.2) candidates failures)
    ∧ ∀ failures, (union.decode raw).result = .error (.allVariantsFailed name failures) →
        ∀ pair ∈ candidates.zip failures, pair.1.2.codec.Composed True →
          ∀ inner nested, (CodecError.allVariantsFailed inner nested).Holds pair.2.2 →
            pair.1.2.codec.ListsAll raw inner nested := by
  obtain ⟨rfl, rfl⟩ := ofCandidates_eq_ok.1 h
  refine ⟨?_, fun found => decode_eq_ok_iff_first, fun e => decode_eq_error_iff_all, ?_⟩
  · rw [exists_decode_iff]
    simp [Case.Accepts, Case.result_decode_eq_ok]
  · intro failures hfails pair hpair composed inner nested hholds
    exact listsAll_of_decode_eq_error hfails hpair composed hholds

end OpenUnion

namespace Sample.Labelled

/-- A metal, or else a list of metals. A list of gold is no metal and is read as the second. A list of a number
is neither: that no metal reads it is listed twice, for the list and for the number in it. -/
theorem gold_in_a_list_is_tried_second :
    let metal := ("metal", case "metal" (.model .metal))
    let metals := ("metals", case "metals" (.list (.model .metal)))
    let number := Json.arr [.num (.int 1 (by decide))]
    let noMetal (kind : String) := [("Alloy", CodecError.malformed s!"expected object for `Alloy`, found {kind}"),
      ("MetalStringValues", .unexpectedType "string" kind)]
    let inItem := CodecError.inField "[0]" (.allVariantsFailed "Metal" (noMetal "number"))
    let failures := [("metal", .allVariantsFailed "Metal" (noMetal "array")), ("metals", inItem)]
    ∃ union, OpenUnion.ofCandidates "Metals" [metal, metals] = .ok union
      ∧ (∃ value, (union.decode (.arr [.str "gold"])).result = .ok ⟨"metals", value⟩)
      ∧ (union.decode number).result = .error (.allVariantsFailed "Metals" failures)
      ∧ metals.2.codec.ListsAll number "Metal" (noMetal "number") := by
  intro metal metals number noMetal inItem failures
  have built : ∃ union, OpenUnion.ofCandidates "Metals" [metal, metals] = .ok union := ⟨_, rfl⟩
  obtain ⟨union, hunion⟩ := built
  obtain ⟨-, first, -, -⟩ := OpenUnion.first_match_or_all_failures hunion (.arr [.str "gold"])
  obtain ⟨-, -, all, inside⟩ := OpenUnion.first_match_or_all_failures hunion number
  have hfails := (all _).2 ⟨failures, rfl, .cons ⟨rfl, rfl⟩ (.cons ⟨rfl, rfl⟩ .nil)⟩
  refine ⟨union, hunion, ⟨_, (first _).2 ⟨1, "metals", metals.2, _, rfl, ?_, rfl, rfl⟩⟩, hfails, ?_⟩
  · intro j hj earlier hearlier
    obtain rfl : j = 0 := by omega
    cases hearlier
    exact ⟨_, rfl⟩
  · have hpair : (metals, ("metals", inItem)) ∈ [metal, metals].zip failures :=
      List.mem_cons_of_mem _ List.mem_cons_self
    have composed := (WireType.list (.model .metal)).composed_codec (.inr trivial)
    exact inside failures hfails _ hpair composed "Metal" (noMetal "number") (.field .here)

end Sample.Labelled

end JsonWire
