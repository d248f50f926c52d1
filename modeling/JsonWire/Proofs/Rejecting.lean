/-
  JsonWire.Proofs.Rejecting — what an open union reports on the way to its answer.

  A candidate that does not read the document leaves the events of its attempt, then its
  rejection, which the log shows with the text of the failure (`shown_rejections`), and
  then the next one is tried with one failure more at hand
  (`tryEach_append_of_tried`). So the events of a run are those of the candidates before
  the one that reads the document, followed by its own (`events_of_decode_ok`), or those
  of all candidates if none does (`events_of_decode_error`). What stands behind the
  candidate that reads the document is never tried (`tryEach_append_of_ok`).
-/

import JsonWire.Proofs.Unions

namespace JsonWire

variable {U : Type} {raw : Json}

@[simp] theorem Case.events_decode (case : Case U) (raw : Json) :
    (case.decode raw).events = (case.codec.decode raw).events :=
  Traced.events_bind_pure _ _

namespace OpenUnion

variable {name candidate : String} {case : Case U} {before rest : List (String × Case U)}
  {earlier failures : List (String × CodecError)}

/-- What candidates report that all fail: each the events of its attempt, and then its rejection. -/
def rejections (name : String) (raw : Json) (candidates : List (String × Case U))
    (failures : List (String × CodecError)) : List Event :=
  (candidates.zip failures).flatMap fun (candidate, failure) =>
    (candidate.2.codec.decode raw).events ++ [.candidateRejected name failure.1 failure.2]

/-! ## Failures -/

theorem exists_tried (h : ∀ candidate ∈ before, ∃ e, (candidate.2.codec.decode raw).result = .error e) :
    ∃ failures, Tried raw before failures := by
  refine exists_forall₂_iff.2 fun candidate hcandidate => ?_
  obtain ⟨e, he⟩ := h candidate hcandidate
  exact ⟨(candidate.1, e), rfl, he⟩

/-- In the log each candidate has the lines of its own attempt, and then one with its name and the text of the
error that it failed with. -/
theorem shown_rejections (h : Tried raw before failures) :
    (rejections name raw before failures).map Event.shown
      = (before.zip failures).flatMap fun (candidate, failure) =>
          (candidate.2.codec.decode raw).events.map Event.shown
            ++ [(.debug, "candidate rejected",
              [("union", name), ("candidate", candidate.1), ("error", failure.2.message)])] := by
  induction h with
  | nil => rfl
  | @cons candidate failure before failures hfirst _ ih =>
    obtain ⟨hname, -⟩ := hfirst
    rw [List.zip_cons_cons, List.flatMap_cons, ← ih]
    simp [rejections, hname]

/-! ## Trying on -/

theorem tryEach_cons_of_error {e : CodecError} (h : (case.codec.decode raw).result = .error e) :
    tryEach name raw earlier ((candidate, case) :: rest)
      = ⟨(case.codec.decode raw).events ++ .candidateRejected name candidate e
            :: (tryEach name raw (earlier ++ [(candidate, e)]) rest).events,
          (tryEach name raw (earlier ++ [(candidate, e)]) rest).result⟩ := by
  have hdecode : (case.decode raw).result = .error e := Case.result_decode_eq_error.2 h
  simp [tryEach, hdecode]

theorem tryEach_cons_of_ok {payload : case.Payload} (h : (case.codec.decode raw).result = .ok payload) :
    tryEach name raw earlier ((candidate, case) :: rest)
      = ⟨(case.codec.decode raw).events, .ok ⟨candidate, case.wrap payload⟩⟩ := by
  have hdecode : (case.decode raw).result = .ok (case.wrap payload) := Case.result_decode_eq_ok.2 ⟨payload, h, rfl⟩
  simp [tryEach, hdecode]

/-- Candidates that fail pass their failures on. -/
theorem tryEach_append_of_tried (h : Tried raw before failures) :
    tryEach name raw earlier (before ++ rest)
      = ⟨rejections name raw before failures ++ (tryEach name raw (earlier ++ failures) rest).events,
          (tryEach name raw (earlier ++ failures) rest).result⟩ := by
  induction h generalizing earlier with
  | nil => simp [rejections]
  | @cons candidate failure before failures hfirst _ ih =>
    obtain ⟨candidate, case⟩ := candidate
    obtain ⟨failed, e⟩ := failure
    obtain ⟨rfl, he⟩ := hfirst
    have hpassed : earlier ++ [(failed, e)] ++ failures = earlier ++ (failed, e) :: failures := by simp
    rw [List.cons_append, tryEach_cons_of_error he, ih, hpassed]
    simp [rejections]

/-- A candidate that reads the document is the last that is tried. -/
theorem tryEach_append_of_ok {candidates : List (String × Case U)} {found : UnionValue U}
    (h : (tryEach name raw earlier candidates).result = .ok found) :
    tryEach name raw earlier (candidates ++ rest) = tryEach name raw earlier candidates := by
  obtain ⟨before, candidate, case, after, payload, rfl, hbefore, hread, -⟩ := tryEach_eq_ok.1 h
  obtain ⟨failures, htried⟩ := exists_tried hbefore
  rw [List.append_assoc, tryEach_append_of_tried htried, tryEach_append_of_tried htried, List.cons_append,
    tryEach_cons_of_ok hread, tryEach_cons_of_ok hread]

/-! ## Whole runs -/

variable {union : OpenUnion U}

theorem events_of_decode_ok {found : UnionValue U} (h : (union.decode raw).result = .ok found) :
    ∃ before candidate case after failures payload, union.candidates = before ++ (candidate, case) :: after
      ∧ Tried raw before failures ∧ (case.codec.decode raw).result = .ok payload
      ∧ found = ⟨candidate, case.wrap payload⟩
      ∧ (union.decode raw).events = rejections union.name raw before failures ++ (case.codec.decode raw).events := by
  obtain ⟨before, candidate, case, after, payload, hsplit, hbefore, hread, hfound⟩ := tryEach_eq_ok.1 h
  obtain ⟨failures, htried⟩ := exists_tried hbefore
  refine ⟨before, candidate, case, after, failures, payload, hsplit, htried, hread, hfound, ?_⟩
  rw [decode, hsplit, tryEach_append_of_tried htried, tryEach_cons_of_ok hread]

theorem events_of_decode_error {e : CodecError} (h : (union.decode raw).result = .error e) :
    ∃ failures, Tried raw union.candidates failures ∧ e = .allVariantsFailed union.name failures
      ∧ (union.decode raw).events = rejections union.name raw union.candidates failures := by
  obtain ⟨failures, htried, rfl⟩ := tryEach_eq_error.1 h
  refine ⟨failures, htried, rfl, ?_⟩
  have hrun : tryEach union.name raw [] (union.candidates ++ []) = _ := tryEach_append_of_tried htried
  rw [List.append_nil] at hrun
  rw [decode, hrun]
  simp [tryEach]

end OpenUnion

end JsonWire
