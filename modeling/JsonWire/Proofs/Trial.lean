/-
  JsonWire.Proofs.Trial — when an open union finds the value that it wrote.

  Writing goes by the tag of the value, reading by the first candidate that accepts the
  document (`decode_eq_ok`). The two agree when no candidate before the value's own
  accepts its encoding (`RejectedBefore`), and only then: an earlier candidate that does
  shadows it, and the document is read under that candidate's name
  (`decode_encode_of_unwrap`). Where each candidate refuses whatever a later one writes,
  nothing is shadowed and every value that has an encoding comes back
  (`readsBack_of_refuses`).
-/

import JsonWire.Proofs.Faithful
import JsonWire.Proofs.SettlingUnions

namespace JsonWire

variable {U : Type}

/-! ## Cases -/

namespace Case

/-- The case reads the document. -/
def Accepts (case : Case U) (raw : Json) : Prop := ∃ payload, (case.codec.decode raw).result = .ok payload

theorem not_accepts_iff {case : Case U} {raw : Json} :
    ¬ case.Accepts raw ↔ ∃ e, (case.codec.decode raw).result = .error e := by
  unfold Accepts
  cases (case.codec.decode raw).result <;> simp

/-- The values of the case carry its tag, and exactly these give back a payload, the one they hold. -/
structure Exact [Tagged U] (tag : String) (case : Case U) : Prop where
  tag_wrap : ∀ payload, Tagged.tag (case.wrap payload) = tag
  unwrap_eq_some : ∀ value payload, case.unwrap value = some payload ↔ case.wrap payload = value

theorem Exact.coherent [Tagged U] {tag : String} {case : Case U} (h : case.Exact tag) : case.Coherent tag where
  tag_wrap := h.tag_wrap
  unwrap_wrap payload := (h.unwrap_eq_some _ payload).2 rfl

end Case

namespace OpenUnion

variable {union : OpenUnion U} {raw json : Json} {i : Nat} {candidate : String} {case : Case U}

/-! ## The first that accepts -/

/-- No candidate before this index accepts the document. -/
def RejectedBefore (union : OpenUnion U) (raw : Json) (i : Nat) : Prop :=
  ∀ j < i, ∀ candidate, union.candidates[j]? = some candidate → ¬ candidate.2.Accepts raw

/-- Two candidates of one name are one candidate. -/
theorem index_unique {j : Nat} {other : Case U} (hi : union.candidates[i]? = some (candidate, case))
    (hj : union.candidates[j]? = some (candidate, other)) : i = j := by
  have name (k : Nat) (case : Case U) (hk : union.candidates[k]? = some (candidate, case)) :
      (Entries.keys union.candidates)[k]? = some candidate := by
    unfold Entries.keys
    rw [List.getElem?_map, hk]
    rfl
  obtain ⟨hlength, -⟩ := List.getElem?_eq_some_iff.1 (name i case hi)
  exact (List.getElem?_inj hlength union.names_nodup).1 ((name i case hi).trans (name j other hj).symm)

theorem lookup_of_getElem? (h : union.candidates[i]? = some (candidate, case)) :
    union.candidates.lookup candidate = some case :=
  Entries.lookup_of_mem union.names_nodup (List.mem_of_getElem? h)

theorem decode_eq_ok {found : UnionValue U} :
    (union.decode raw).result = .ok found
      ↔ ∃ i candidate case payload, union.candidates[i]? = some (candidate, case) ∧ union.RejectedBefore raw i
          ∧ (case.codec.decode raw).result = .ok payload ∧ found = ⟨candidate, case.wrap payload⟩ := by
  unfold decode
  rw [tryEach_eq_ok]
  constructor
  · intro h
    obtain ⟨before, candidate, case, after, payload, hsplit, hbefore, hread, hfound⟩ := h
    refine ⟨before.length, candidate, case, payload, ?_, ?_, hread, hfound⟩
    · rw [hsplit]
      simp
    · intro j hj earlier hearlier
      rw [hsplit, List.getElem?_append_left hj] at hearlier
      exact Case.not_accepts_iff.2 (hbefore earlier (List.mem_of_getElem? hearlier))
  · intro h
    obtain ⟨i, candidate, case, payload, hcase, hbefore, hread, hfound⟩ := h
    obtain ⟨hlength, hget⟩ := List.getElem?_eq_some_iff.1 hcase
    refine ⟨union.candidates.take i, candidate, case, union.candidates.drop (i + 1), payload, ?_, ?_, hread, hfound⟩
    · rw [← hget, ← List.drop_eq_getElem_cons, List.take_append_drop]
    · intro earlier hearlier
      obtain ⟨j, hj⟩ := List.getElem?_of_mem hearlier
      have hji : j < i := by
        have := (List.getElem?_eq_some_iff.1 hj).1
        rw [List.length_take] at this
        omega
      rw [List.getElem?_take_of_lt hji] at hj
      exact Case.not_accepts_iff.1 (hbefore j hji earlier hj)

/-- A document that some candidate accepts is read. -/
theorem exists_decode_of_accepts (hcase : union.candidates[i]? = some (candidate, case)) (h : case.Accepts raw) :
    ∃ found, (union.decode raw).result = .ok found := by
  apply Traced.exists_ok_of_forall_ne_error
  intro e he
  obtain ⟨failures, htried, -⟩ := tryEach_eq_error.1 he
  obtain ⟨hlength, hget⟩ := List.getElem?_eq_some_iff.1 hcase
  obtain ⟨-, herror⟩ := htried.get hlength (htried.length_eq ▸ hlength)
  rw [List.get_eq_getElem, hget] at herror
  exact Case.not_accepts_iff.2 ⟨_, herror⟩ h

/-! ## There and back -/

/-- A value whose payload is read again is read as the value, unless an earlier candidate accepts its
encoding; then it is read as that candidate's. -/
theorem decode_encode_of_unwrap [Tagged U] {u : U} {payload : case.Payload}
    (hcase : union.candidates[i]? = some (Tagged.tag u, case)) (exact : case.Exact (Tagged.tag u))
    (hunwrap : case.unwrap u = some payload) (hdecode : (case.codec.decode json).result = .ok payload) :
    ∃ j found first, (union.decode json).result = .ok found ∧ j ≤ i
      ∧ union.candidates[j]? = some (found.tag, first) ∧ first.Accepts json ∧ union.RejectedBefore json j
      ∧ (found = .of u ↔ union.RejectedBefore json i) := by
  have accepts : case.Accepts json := ⟨payload, hdecode⟩
  obtain ⟨found, hfound⟩ := exists_decode_of_accepts hcase accepts
  obtain ⟨j, name, first, read, hfirst, hbefore, hread, rfl⟩ := decode_eq_ok.1 hfound
  -- The value's own candidate accepts, so the first that does is not behind it.
  have hle : j ≤ i := by
    by_contra hlater
    exact hbefore i (by omega) _ hcase accepts
  refine ⟨j, _, first, hfound, hle, hfirst, ⟨read, hread⟩, hbefore, fun hof => ?_, fun hrejected => ?_⟩
  · -- The names are all different: read under its own, the value was read by its own candidate.
    have hname : name = Tagged.tag u := congrArg UnionValue.tag hof
    subst hname
    obtain rfl : j = i := index_unique hfirst hcase
    exact hbefore
  · have hji : j = i := by
      by_contra hne
      exact hrejected j (by omega) _ hfirst ⟨read, hread⟩
    subst hji
    rw [hcase] at hfirst
    cases hfirst
    obtain rfl : payload = read := Except.ok.inj (hdecode.symm.trans hread)
    exact congrArg (UnionValue.mk (Tagged.tag u)) ((exact.unwrap_eq_some u payload).1 hunwrap)

/-- Every value that has an encoding is read from it, as no candidate before its own accepts it. -/
def ReadsBack [Tagged U] (union : OpenUnion U) : Prop :=
  ∀ u json, (union.encode u).result = .ok json →
    (∃ i case, union.candidates[i]? = some (Tagged.tag u, case) ∧ union.RejectedBefore json i)
    ∧ (union.decode json).result = .ok (.of u)

/-- Where every candidate reads what it writes and refuses what a later one does, nothing is shadowed. -/
theorem readsBack_of_refuses [Tagged U] (exact : ∀ candidate ∈ union.candidates, candidate.2.Exact candidate.1)
    (faithful : ∀ candidate ∈ union.candidates, candidate.2.codec.Faithful)
    (refuses : union.candidates.Pairwise fun a b => a.2.Refuses b.2) : union.ReadsBack := by
  intro u json h
  obtain ⟨case, payload, hlookup, hunwrap, hencode⟩ := exists_payload_of_encode h
  have hmem := Entries.mem_of_lookup hlookup
  obtain ⟨i, hcase⟩ := List.getElem?_of_mem hmem
  have hrejected : union.RejectedBefore json i := by
    intro j hj earlier hearlier
    obtain ⟨hjlength, hjget⟩ := List.getElem?_eq_some_iff.1 hearlier
    obtain ⟨hilength, higet⟩ := List.getElem?_eq_some_iff.1 hcase
    have hrefuses := List.pairwise_iff_getElem.1 refuses j i hjlength hilength hj
    rw [hjget, higet] at hrefuses
    exact Case.not_accepts_iff.2 (hrefuses payload json hencode)
  have hdecode := faithful _ hmem payload json hencode
  obtain ⟨-, found, -, hfound, -, -, -, -, hsame⟩ := decode_encode_of_unwrap hcase (exact _ hmem) hunwrap hdecode
  rw [hsame.2 hrejected] at hfound
  exact ⟨⟨i, case, hcase, hrejected⟩, hfound⟩

end OpenUnion

end JsonWire
