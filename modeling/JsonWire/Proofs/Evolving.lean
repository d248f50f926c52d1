/-
  JsonWire.Proofs.Evolving — unions whose cases are rearranged or become more.

  A closed union knows its cases by their tags alone. Rearranged cases stand under the
  same tags, so nothing changes at all, and a new case is asked for only by its own tag.

  An open union tries its candidates in order. A candidate added at the end is tried where
  all the others have failed, and only there. Rearranged candidates still read the same
  documents, though under another name where several do; each candidate fails as it did,
  so the failures are rearranged as the candidates are (`Tried.getElem?_eq`).

  A union is built whenever its data keep to the conditions that the type asks for
  (`ofCases_eq_ok`, `ofCandidates_eq_ok`), and rearranging keeps to them, as does a fresh
  name.
-/

import JsonWire.Proofs.Declaring
import JsonWire.Proofs.Rejecting
import JsonWire.Proofs.Trial
import JsonWire.Sample.Labelled
import Mathlib.Data.List.Perm.Basic

namespace JsonWire

variable {U : Type} {raw : Json}

theorem Traced.bind_congr_of_ok {α β : Type} {x : Traced α} {f g : α → Traced β}
    (h : ∀ a, x.result = .ok a → f a = g a) : x >>= f = x >>= g := by
  cases hx : x.result with
  | ok a => rw [bind_of_ok hx, bind_of_ok hx, h a hx]
  | error e => rw [bind_of_error hx, bind_of_error hx]

/-! ## Rearranged entries -/

namespace Entries

universe u

variable {α : Type u} {a b : List (String × α)}

theorem nodup_of_perm (h : b.Perm a) (nodup : (keys a).Nodup) : (keys b).Nodup :=
  (h.map Prod.fst).nodup_iff.2 nodup

/-- Where no key is there twice the order decides nothing. -/
theorem lookup_of_perm (h : b.Perm a) (nodup : (keys a).Nodup) (key : String) : b.lookup key = a.lookup key := by
  ext value
  rw [lookup_eq_some_iff_mem (nodup_of_perm h nodup), lookup_eq_some_iff_mem nodup, h.mem_iff]

theorem ne_nil_of_perm (h : b.Perm a) (hne : a ≠ []) : b ≠ [] :=
  fun hnil => hne (List.nil_perm.1 (hnil ▸ h))

end Entries

/-! ## Closed unions -/

namespace ClosedUnion

variable {name key tag : String} {position : TagPosition} {cases : List (String × Case U)}
  {union other : ClosedUnion U}

/-- Building gives the union of the data, if there is one. -/
theorem ofCases_eq_ok :
    ofCases name key position cases = .ok union
      ↔ union.name = name ∧ union.key = key ∧ union.position = position ∧ union.cases = cases := by
  unfold ofCases
  constructor
  · intro h
    split at h
    · cases h
    · split at h
      · cases h
      · split at h
        · cases h
        · cases h
          exact ⟨rfl, rfl, rfl, rfl⟩
  · intro h
    obtain ⟨rfl, rfl, rfl, rfl⟩ := h
    have htags := Entries.firstRepeated?_eq_none_iff.2 union.tags_nodup
    rw [dif_neg union.key_nonempty, dif_neg union.cases_nonempty]
    split
    · rename_i hrepeated
      rw [htags] at hrepeated
      cases hrepeated
    · rfl

/-- Other cases in place of those of a union. -/
def withCases (union : ClosedUnion U) (cases : List (String × Case U)) (cases_nonempty : cases ≠ [])
    (tags_nodup : (Entries.keys cases).Nodup) : ClosedUnion U :=
  { union with cases, cases_nonempty, tags_nodup }

variable {others : List (String × Case U)} {others_nonempty : others ≠ []} {others_nodup : (Entries.keys others).Nodup}

/-- The tag is found without the cases. -/
theorem peekTag_withCases : (union.withCases others others_nonempty others_nodup).peekTag raw = union.peekTag raw := rfl

/-- Reading asks only for the case of the tag that it finds. -/
theorem decode_withCases
    (h : ∀ tag, (union.peekTag raw).result = .ok tag → others.lookup tag = union.cases.lookup tag) :
    (union.withCases others others_nonempty others_nodup).decode raw = union.decode raw := by
  refine Traced.bind_congr_of_ok fun tag htag => ?_
  have hcase : (union.withCases others others_nonempty others_nodup).case? tag = union.case? tag := h tag htag
  rw [hcase]
  rfl

/-- Writing asks only for the case of the value's own tag. -/
theorem encode_withCases [Tagged U] {value : U}
    (h : others.lookup (Tagged.tag value) = union.cases.lookup (Tagged.tag value)) :
    (union.withCases others others_nonempty others_nodup).encode value = union.encode value := by
  have hcase : (union.withCases others others_nonempty others_nodup).case? (Tagged.tag value)
      = union.case? (Tagged.tag value) := h
  rw [encode, encode, hcase]
  rfl

/-! ### Rearranged and added cases -/

theorem exists_rearranged [Tagged U] (h : ofCases name key position cases = .ok union) (hperm : others.Perm cases) :
    ∃ other, ofCases name key position others = .ok other
      ∧ (∀ raw, other.peekTag raw = union.peekTag raw ∧ other.decode raw = union.decode raw)
      ∧ ∀ value, other.encode value = union.encode value := by
  obtain ⟨rfl, rfl, rfl, rfl⟩ := ofCases_eq_ok.1 h
  have hlookup := Entries.lookup_of_perm hperm union.tags_nodup
  have nonempty := Entries.ne_nil_of_perm hperm union.cases_nonempty
  refine ⟨union.withCases others nonempty (Entries.nodup_of_perm hperm union.tags_nodup),
    ofCases_eq_ok.2 ⟨rfl, rfl, rfl, rfl⟩, fun raw => ?_, fun value => ?_⟩
  · exact ⟨peekTag_withCases, decode_withCases fun tag _ => hlookup tag⟩
  · exact encode_withCases (hlookup _)

/-- A case under a fresh tag, wherever it is put. -/
theorem exists_extended [Tagged U] {case : Case U} (h : ofCases name key position cases = .ok union)
    (fresh : tag ∉ Entries.keys cases) (hperm : others.Perm ((tag, case) :: cases)) :
    ∃ other, ofCases name key position others = .ok other
      ∧ (∀ raw, other.peekTag raw = union.peekTag raw)
      ∧ (∀ raw, other.decode raw ≠ union.decode raw →
        ∃ members, raw = .obj members ∧ members.lookup key = some (.str tag))
      ∧ ∀ value, other.encode value ≠ union.encode value → Tagged.tag value = tag := by
  obtain ⟨rfl, rfl, rfl, rfl⟩ := ofCases_eq_ok.1 h
  have nodup : (Entries.keys ((tag, case) :: union.cases)).Nodup := List.nodup_cons.2 ⟨fresh, union.tags_nodup⟩
  have hlookup (asked : String) (hne : asked ≠ tag) : others.lookup asked = union.cases.lookup asked := by
    rw [Entries.lookup_of_perm hperm nodup, List.lookup_cons, beq_false_of_ne hne]
  have nonempty := Entries.ne_nil_of_perm hperm (List.cons_ne_nil _ _)
  refine ⟨union.withCases others nonempty (Entries.nodup_of_perm hperm nodup),
    ofCases_eq_ok.2 ⟨rfl, rfl, rfl, rfl⟩, fun raw => peekTag_withCases, fun raw hne => ?_, fun value hne => ?_⟩
  · -- A document without the new tag asks for a case that was there before.
    by_contra hother
    refine hne (decode_withCases fun asked hasked => hlookup asked fun htag => hother ?_)
    exact peekTag_eq_ok.1 (htag ▸ hasked)
  · by_contra hother
    exact hne (encode_withCases (hlookup _ hother))

end ClosedUnion

/-! ## Open unions -/

namespace OpenUnion

variable {name : String} {candidates others : List (String × Case U)} {union : OpenUnion U}

theorem ofCandidates_eq_ok :
    ofCandidates name candidates = .ok union ↔ union.name = name ∧ union.candidates = candidates := by
  unfold ofCandidates
  constructor
  · intro h
    split at h
    · cases h
    · split at h
      · cases h
      · cases h
        exact ⟨rfl, rfl⟩
  · intro h
    obtain ⟨rfl, rfl⟩ := h
    have hnames := Entries.firstRepeated?_eq_none_iff.2 union.names_nodup
    rw [dif_neg union.candidates_nonempty]
    split
    · rename_i hrepeated
      rw [hnames] at hrepeated
      cases hrepeated
    · rfl

theorem exists_ofCandidates (name : String) (nonempty : candidates ≠ []) (nodup : (Entries.keys candidates).Nodup) :
    ∃ union, ofCandidates name candidates = .ok union :=
  ⟨⟨name, candidates, nonempty, nodup⟩, ofCandidates_eq_ok.2 ⟨rfl, rfl⟩⟩

/-- A document is read exactly if some candidate reads it. -/
theorem exists_decode_iff :
    (∃ found, (union.decode raw).result = .ok found) ↔ ∃ candidate ∈ union.candidates, candidate.2.Accepts raw := by
  constructor
  · intro h
    obtain ⟨found, hfound⟩ := h
    obtain ⟨i, candidate, case, payload, hcase, -, hread, -⟩ := decode_eq_ok.1 hfound
    exact ⟨(candidate, case), List.mem_of_getElem? hcase, payload, hread⟩
  · intro h
    obtain ⟨⟨candidate, case⟩, hmem, accepts⟩ := h
    obtain ⟨i, hi⟩ := List.getElem?_of_mem hmem
    exact exists_decode_of_accepts hi accepts

/-! ### Added candidates -/

/-- A fresh candidate behind the others. -/
theorem exists_appended {added : String} {case : Case U} (h : ofCandidates name candidates = .ok union)
    (fresh : added ∉ Entries.keys candidates) :
    ∃ other, ofCandidates name (candidates ++ [(added, case)]) = .ok other
      ∧ ∀ raw, (∀ found, (union.decode raw).result = .ok found → other.decode raw = union.decode raw)
        ∧ ∀ e, (union.decode raw).result = .error e → ∃ failures, e = .allVariantsFailed name failures
          ∧ (∀ payload, (case.codec.decode raw).result = .ok payload →
            (other.decode raw).result = .ok ⟨added, case.wrap payload⟩)
          ∧ ∀ cause, (case.codec.decode raw).result = .error cause →
            (other.decode raw).result = .error (.allVariantsFailed name (failures ++ [(added, cause)])) := by
  obtain ⟨rfl, rfl⟩ := ofCandidates_eq_ok.1 h
  have hperm : (union.candidates ++ [(added, case)]).Perm ((added, case) :: union.candidates) :=
    List.perm_append_singleton _ _
  have nodup : (Entries.keys ((added, case) :: union.candidates)).Nodup := List.nodup_cons.2 ⟨fresh, union.names_nodup⟩
  obtain ⟨other, hother⟩ := exists_ofCandidates union.name (Entries.ne_nil_of_perm hperm (List.cons_ne_nil _ _))
    (Entries.nodup_of_perm hperm nodup)
  obtain ⟨hname, hcandidates⟩ := ofCandidates_eq_ok.1 hother
  refine ⟨other, hother, fun raw => ⟨fun found hfound => ?_, fun e he => ?_⟩⟩
  · rw [decode, hname, hcandidates]
    exact tryEach_append_of_ok hfound
  · obtain ⟨failures, htried, rfl, -⟩ := events_of_decode_error he
    have hrun : (other.decode raw).result = (tryEach union.name raw failures [(added, case)]).result := by
      rw [decode, hname, hcandidates, tryEach_append_of_tried htried, List.nil_append]
    refine ⟨failures, rfl, fun payload hread => ?_, fun cause hcause => ?_⟩
    · rw [hrun, tryEach_cons_of_ok hread]
    · rw [hrun, tryEach_cons_of_error hcause]
      rfl

/-! ### Rearranged candidates -/

/-- How the candidate fails on the document, if it does. -/
def failure? (raw : Json) (candidate : String × Case U) : Option (String × CodecError) :=
  match (candidate.2.codec.decode raw).result with
  | .ok _ => none
  | .error e => some (candidate.1, e)

/-- A candidate fails alike wherever it stands. -/
theorem Tried.getElem?_eq {failures : List (String × CodecError)} (h : Tried raw candidates failures) (i : Nat) :
    failures[i]? = candidates[i]?.bind (failure? raw) := by
  induction h generalizing i with
  | nil => simp
  | @cons candidate failure _ _ hfirst _ ih =>
    cases i with
    | zero => simp [failure?, hfirst.2, ← hfirst.1]
    | succ i => simpa using ih i

/-- With one candidate only that reads the document, the order decides nothing. -/
theorem decode_eq_of_existsUnique {other : OpenUnion U} (hperm : other.candidates.Perm union.candidates)
    (h : ∃! candidate, candidate ∈ union.candidates ∧ candidate.2.Accepts raw) :
    (other.decode raw).result = (union.decode raw).result := by
  obtain ⟨⟨candidate, case⟩, ⟨hmem, payload, hread⟩, unique⟩ := h
  have reads (either : OpenUnion U) (heither : either.candidates.Perm union.candidates) :
      (either.decode raw).result = .ok ⟨candidate, case.wrap payload⟩ := by
    obtain ⟨found, hfound⟩ := exists_decode_iff.2 ⟨(candidate, case), heither.mem_iff.2 hmem, payload, hread⟩
    obtain ⟨i, name, reader, read, hreader, -, hagain, rfl⟩ := decode_eq_ok.1 hfound
    have hsame := unique (name, reader) ⟨heither.mem_iff.1 (List.mem_of_getElem? hreader), read, hagain⟩
    cases hsame
    obtain rfl : read = payload := Except.ok.inj (hagain.symm.trans hread)
    exact hfound
  rw [reads other hperm, reads union (.refl _)]

theorem exists_rearranged (h : ofCandidates name candidates = .ok union) (hperm : others.Perm candidates) :
    ∃ other, ofCandidates name others = .ok other
      ∧ ∀ raw, ((∃ found, (other.decode raw).result = .ok found) ↔ ∃ found, (union.decode raw).result = .ok found)
        ∧ ((∃! candidate, candidate ∈ candidates ∧ candidate.2.Accepts raw) →
          (other.decode raw).result = (union.decode raw).result)
        ∧ ∀ e, (union.decode raw).result = .error e → ∃ failures changed, e = .allVariantsFailed name failures
          ∧ (other.decode raw).result = .error (.allVariantsFailed name changed) ∧ changed.Perm failures
          ∧ ∀ i j : Nat, others[i]? = candidates[j]? → changed[i]? = failures[j]? := by
  obtain ⟨rfl, rfl⟩ := ofCandidates_eq_ok.1 h
  obtain ⟨other, hother⟩ := exists_ofCandidates union.name (Entries.ne_nil_of_perm hperm union.candidates_nonempty)
    (Entries.nodup_of_perm hperm union.names_nodup)
  obtain ⟨hname, rfl⟩ := ofCandidates_eq_ok.1 hother
  refine ⟨other, hother, fun raw => ⟨?_, decode_eq_of_existsUnique hperm, fun e he => ?_⟩⟩
  · simp only [exists_decode_iff, hperm.mem_iff]
  · obtain ⟨failures, htried, rfl⟩ := tryEach_eq_error.1 he
    obtain ⟨changed, hchanged, hfailures⟩ := List.perm_comp_forall₂ hperm htried
    refine ⟨failures, changed, rfl, ?_, hfailures, fun i j hsame => ?_⟩
    · rw [← hname]
      exact tryEach_eq_error.2 ⟨changed, hchanged, rfl⟩
    · rw [Tried.getElem?_eq hchanged, Tried.getElem?_eq htried, hsame]

end OpenUnion

/-! ## Both kinds -/

/-- Unions can be rearranged and extended without harm to what is there.

A closed union whose cases are rearranged is built again, and finds tags, reads and writes as before. With a
case under a fresh tag it still finds the same tags, and at most documents that carry the new tag are read,
and values that carry it are written, otherwise than before.

An open union with a fresh candidate behind the others reads as before whatever it did read; a document that
it refused is now left to the new candidate, whose failure comes last if it fails as well. Rearranged, it reads
the same documents, in the same way where one candidate only does, and where none does each failure stands
where its candidate stands. -/
theorem evolving_unions_are_conservative [Tagged U] :
    (∀ (name key : String) (position : TagPosition) (cases : List (String × Case U)) (union : ClosedUnion U),
      ClosedUnion.ofCases name key position cases = .ok union →
      (∀ rearranged, rearranged.Perm cases →
        ∃ other, ClosedUnion.ofCases name key position rearranged = .ok other
          ∧ (∀ raw, other.peekTag raw = union.peekTag raw ∧ other.decode raw = union.decode raw)
          ∧ ∀ value, other.encode value = union.encode value)
      ∧ ∀ (fresh : String) (case : Case U), fresh ∉ Entries.keys cases →
        ∀ extended, extended.Perm ((fresh, case) :: cases) →
        ∃ other, ClosedUnion.ofCases name key position extended = .ok other
          ∧ (∀ raw, other.peekTag raw = union.peekTag raw)
          ∧ (∀ raw, other.decode raw ≠ union.decode raw →
            ∃ members, raw = .obj members ∧ members.lookup key = some (.str fresh))
          ∧ ∀ value, other.encode value ≠ union.encode value → Tagged.tag value = fresh)
    ∧ ∀ (name : String) (candidates : List (String × Case U)) (union : OpenUnion U),
      OpenUnion.ofCandidates name candidates = .ok union →
      (∀ (fresh : String) (case : Case U), fresh ∉ Entries.keys candidates →
        ∃ other, OpenUnion.ofCandidates name (candidates ++ [(fresh, case)]) = .ok other
          ∧ ∀ raw, (∀ found, (union.decode raw).result = .ok found → other.decode raw = union.decode raw)
            ∧ ∀ e, (union.decode raw).result = .error e → ∃ failures, e = .allVariantsFailed name failures
              ∧ (∀ payload, (case.codec.decode raw).result = .ok payload →
                (other.decode raw).result = .ok ⟨fresh, case.wrap payload⟩)
              ∧ ∀ cause, (case.codec.decode raw).result = .error cause →
                (other.decode raw).result = .error (.allVariantsFailed name (failures ++ [(fresh, cause)])))
      ∧ ∀ rearranged, rearranged.Perm candidates →
        ∃ other, OpenUnion.ofCandidates name rearranged = .ok other
          ∧ ∀ raw, ((∃ found, (other.decode raw).result = .ok found) ↔ ∃ found, (union.decode raw).result = .ok found)
            ∧ ((∃! candidate, candidate ∈ candidates ∧ candidate.2.Accepts raw) →
              (other.decode raw).result = (union.decode raw).result)
            ∧ ∀ e, (union.decode raw).result = .error e → ∃ failures changed, e = .allVariantsFailed name failures
              ∧ (other.decode raw).result = .error (.allVariantsFailed name changed) ∧ changed.Perm failures
              ∧ ∀ i j : Nat, rearranged[i]? = candidates[j]? → changed[i]? = failures[j]? := by
  constructor
  · intro name key position cases union hbuilt
    constructor
    · intro rearranged hperm
      exact ClosedUnion.exists_rearranged hbuilt hperm
    · intro fresh case hfresh extended hperm
      exact ClosedUnion.exists_extended hbuilt hfresh hperm
  · intro name candidates union hbuilt
    constructor
    · intro fresh case hfresh
      exact OpenUnion.exists_appended hbuilt hfresh
    · intro rearranged hperm
      exact OpenUnion.exists_rearranged hbuilt hperm

namespace Sample.Labelled

/-- Chairs and benches, and then also pets: a chair is read as before. Numbers and texts, the texts first: a
text is read as before. With flags behind them a flag is read, and null still is not, which all three tell. -/
theorem chairs_and_texts_are_read_as_before :
    let seats := [("chair", case "chair" (.model .chair)), ("bench", case "bench" (.model .bench))]
    let chair := Json.obj [("legs", .num (.int 4 (by decide))), ("kind", .str "chair")]
    let scalars := [("int", case "int" (.int .int64)), ("text", case "text" .string)]
    (∃ union other, ClosedUnion.ofCases "Seat" "kind" .first seats = .ok union
      ∧ ClosedUnion.ofCases "Seat" "kind" .first (seats ++ [("pet", case "pet" (.model .pet))]) = .ok other
      ∧ other.decode chair = union.decode chair)
    ∧ (∃ union other, OpenUnion.ofCandidates "Scalar" scalars = .ok union
      ∧ OpenUnion.ofCandidates "Scalar" scalars.reverse = .ok other
      ∧ (other.decode (.str "x")).result = (union.decode (.str "x")).result)
    ∧ ∃ other, OpenUnion.ofCandidates "Scalar" (scalars ++ [("flag", case "flag" .bool)]) = .ok other
      ∧ (other.decode (.bool true)).result = .ok ⟨"flag", ⟨"flag", .bool, true⟩⟩
      ∧ (other.decode .null).result = .error (.allVariantsFailed "Scalar" [("int", .unexpectedType "int64" "null"),
          ("text", .unexpectedType "string" "null"), ("flag", .unexpectedType "boolean" "null")]) := by
  intro seats chair scalars
  obtain ⟨closed, opened⟩ := @evolving_unions_are_conservative Labelled _
  refine ⟨?_, ?_, ?_⟩
  · have built : ∃ union, ClosedUnion.ofCases "Seat" "kind" .first seats = .ok union := ⟨_, rfl⟩
    obtain ⟨union, hunion⟩ := built
    obtain ⟨other, hother, -, changes, -⟩ := (closed _ _ _ _ union hunion).2 "pet" (case "pet" (.model .pet))
      (by decide) (seats ++ [_]) (List.perm_append_singleton _ _)
    refine ⟨union, other, hunion, hother, ?_⟩
    by_contra hchanged
    obtain ⟨members, hmembers, hpet⟩ := changes chair hchanged
    obtain rfl := Json.obj.inj hmembers
    simp [List.lookup_cons] at hpet
  · have built : ∃ union, OpenUnion.ofCandidates "Scalar" scalars = .ok union := ⟨_, rfl⟩
    obtain ⟨union, hunion⟩ := built
    obtain ⟨other, hother, changes⟩ := (opened _ _ union hunion).2 scalars.reverse (List.reverse_perm _)
    refine ⟨union, other, hunion, hother, (changes (.str "x")).2.1 ?_⟩
    refine ⟨("text", case "text" .string), ⟨by simp [scalars], "x", rfl⟩, fun candidate hcandidate => ?_⟩
    obtain ⟨hmem, payload, hread⟩ := hcandidate
    simp only [scalars, List.mem_cons, List.not_mem_nil, or_false] at hmem
    rcases hmem with rfl | rfl
    · cases hread
    · rfl
  · have built : ∃ union, OpenUnion.ofCandidates "Scalar" scalars = .ok union := ⟨_, rfl⟩
    obtain ⟨union, hunion⟩ := built
    have refused (raw : Json) (failures : List (String × CodecError))
        (h : (OpenUnion.tryEach "Scalar" raw [] scalars).result = .error (.allVariantsFailed "Scalar" failures)) :
        (union.decode raw).result = .error (.allVariantsFailed "Scalar" failures) := by
      obtain ⟨hname, hcandidates⟩ := OpenUnion.ofCandidates_eq_ok.1 hunion
      rw [OpenUnion.decode, hname, hcandidates]
      exact h
    obtain ⟨other, hother, changes⟩ := (opened _ _ union hunion).1 "flag" (case "flag" .bool) (by decide)
    refine ⟨other, hother, ?_, ?_⟩
    · obtain ⟨failures, -, accepts, -⟩ := (changes (.bool true)).2 _ (refused _ _ rfl)
      exact accepts true rfl
    · obtain ⟨failures, hfailures, -, refuses⟩ := (changes .null).2 _ (refused _ _ rfl)
      cases hfailures
      exact refuses _ rfl

end Sample.Labelled

end JsonWire
