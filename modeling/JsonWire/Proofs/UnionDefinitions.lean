/-
  JsonWire.Proofs.UnionDefinitions — which lists of cases define a union.

  Cases make a union if there are any and no name is there twice; a closed union needs a
  key as well. What is wrong is told in this order: the key, the missing cases, the name
  (`ofCases_eq_error`, `ofCandidates_eq_error`). Of several names that are there twice it is
  the one at the least position whose name stands before it (`Entries.FirstRepeated`).

  There are two ways to find this name. One takes the cases up one by one and stops at a
  name that it has already (`Entries.collect`): what it carries along are the names before
  the position it is at. The other goes through the positions and compares the name at each
  with all before it (`Entries.scan?`). Both find the same (`collect_eq`, `scan?_eq`), so a
  list is right or wrong for both kinds of union alike (`definitions_are_checked_alike`).
-/

import JsonWire.Proofs.Evolving

namespace JsonWire

variable {U : Type}

/-! ## Repeated keys -/

namespace Entries

universe u

variable {α : Type u} {key : String}

/-- The key is the one at the least position whose key stands before it. -/
def FirstRepeated (keys : List String) (key : String) : Prop :=
  ∃ i, keys[i]? = some key ∧ key ∈ keys.take i ∧ ∀ j < i, ∀ other, keys[j]? = some other → other ∉ keys.take j

theorem repeatedAfter?_eq_some_iff {seen keys : List String} :
    repeatedAfter? seen keys = some key
      ↔ ∃ i, keys[i]? = some key ∧ (key ∈ seen ∨ key ∈ keys.take i)
          ∧ ∀ j < i, ∀ other, keys[j]? = some other → other ∉ seen ∧ other ∉ keys.take j := by
  induction keys generalizing seen with
  | nil => simp [repeatedAfter?]
  | cons first rest ih =>
    rw [repeatedAfter?]
    by_cases hseen : first ∈ seen
    · rw [if_pos hseen]
      constructor
      · intro h
        cases h
        exact ⟨0, rfl, .inl hseen, fun j hj => absurd hj (Nat.not_lt_zero j)⟩
      · rintro ⟨i, hkey, -, hbefore⟩
        cases i with
        | zero => exact hkey
        | succ i => exact absurd hseen (hbefore 0 (Nat.succ_pos i) first rfl).1
    · rw [if_neg hseen, ih]
      -- The positions behind the first key, which counts as seen from there on.
      constructor
      · rintro ⟨i, hkey, hmem, hbefore⟩
        refine ⟨i + 1, hkey, ?_, fun j hj other hother => ?_⟩
        · rw [List.take_succ_cons, List.mem_cons, or_left_comm, ← or_assoc, ← List.mem_cons]
          exact hmem
        · cases j with
          | zero =>
            cases hother
            exact ⟨hseen, List.not_mem_nil⟩
          | succ j =>
            obtain ⟨hne, hnot⟩ := hbefore j (Nat.lt_of_succ_lt_succ hj) other hother
            rw [List.mem_cons, not_or] at hne
            rw [List.take_succ_cons, List.mem_cons, not_or]
            exact ⟨hne.2, hne.1, hnot⟩
      · rintro ⟨i, hkey, hmem, hbefore⟩
        cases i with
        | zero =>
          cases hkey
          exact absurd (hmem.resolve_right List.not_mem_nil) hseen
        | succ i =>
          refine ⟨i, hkey, ?_, fun j hj other hother => ?_⟩
          · rw [List.mem_cons, or_assoc, or_left_comm, ← List.mem_cons]
            exact hmem
          · obtain ⟨hne, hnot⟩ := hbefore (j + 1) (Nat.succ_lt_succ hj) other hother
            rw [List.take_succ_cons, List.mem_cons, not_or] at hnot
            rw [List.mem_cons, not_or]
            exact ⟨⟨hnot.1, hne⟩, hnot.2⟩

theorem firstRepeated?_eq_some_iff {keys : List String} : firstRepeated? keys = some key ↔ FirstRepeated keys key := by
  rw [firstRepeated?, repeatedAfter?_eq_some_iff]
  simp [FirstRepeated]

/-! ### Two ways to find them -/

/-- Takes the pairs up one by one, until the key of one is there already. -/
def collect : (taken pairs : List (String × α)) → Except String (List (String × α))
  | taken, [] => .ok taken
  | taken, (key, value) :: rest => if key ∈ keys taken then .error key else collect (insert key value taken) rest

/-- Compares the key at each position with those before it. -/
def scan? (keys : List String) : Option String := do
  let i ← (List.range keys.length).find? fun i => (keys.take i).any (keys[i]? = some ·)
  keys[i]?

/-- What has been taken up has the keys that have been seen. -/
theorem collect_eq_of_seen {seen : List String} {taken : List (String × α)} (h : ∀ key, key ∈ seen ↔ key ∈ keys taken)
    (pairs : List (String × α)) :
    collect taken pairs = match repeatedAfter? seen (keys pairs) with
      | some key => .error key
      | none => .ok (taken ++ pairs) := by
  induction pairs generalizing seen taken with
  | nil => simp [collect, keys, repeatedAfter?]
  | cons pair rest ih =>
    obtain ⟨key, value⟩ := pair
    have hkeys : keys ((key, value) :: rest) = key :: keys rest := rfl
    rw [collect, hkeys, repeatedAfter?]
    by_cases htaken : key ∈ keys taken
    · rw [if_pos htaken, if_pos ((h key).2 htaken)]
    · have hseen : key ∉ seen := fun hseen => htaken ((h key).1 hseen)
      have hgrown (other : String) : other ∈ key :: seen ↔ other ∈ keys (taken ++ [(key, value)]) := by
        simp [h, keys, or_comm]
      rw [if_neg htaken, if_neg hseen, insert_of_not_mem htaken, ih hgrown, List.append_assoc, List.singleton_append]

theorem collect_eq (pairs : List (String × α)) :
    collect [] pairs = match firstRepeated? (keys pairs) with
      | some key => .error key
      | none => .ok pairs :=
  collect_eq_of_seen (fun _ => Iff.rfl) pairs

theorem scan?_eq (keys : List String) : scan? keys = firstRepeated? keys := by
  ext key
  rw [firstRepeated?_eq_some_iff, scan?]
  simp only [Option.bind_eq_bind, Option.bind_eq_some_iff, List.find?_range_eq_some, Bool.not_eq_true',
    List.any_eq_true, List.any_eq_false, decide_eq_true_eq, List.mem_range]
  constructor
  · rintro ⟨i, ⟨⟨other, hmem, hother⟩, -, hbefore⟩, hkey⟩
    obtain rfl : other = key := Option.some.inj (hother.symm.trans hkey)
    exact ⟨i, hkey, hmem, fun j hj other hother hmem => hbefore j hj other hmem hother⟩
  · rintro ⟨i, hkey, hmem, hbefore⟩
    have hlt : i < keys.length := (List.getElem?_eq_some_iff.1 hkey).1
    exact ⟨i, ⟨⟨key, hmem, hkey⟩, hlt, fun j hj other hmem hother => hbefore j hj other hother hmem⟩, hkey⟩

end Entries

/-! ## Closed unions -/

namespace ClosedUnion

variable {name key : String} {position : TagPosition} {cases : List (String × Case U)} {union : ClosedUnion U}

theorem exists_ofCases_iff :
    (∃ union, ofCases name key position cases = .ok union)
      ↔ key ≠ "" ∧ cases ≠ [] ∧ (Entries.keys cases).Nodup := by
  simp only [ofCases_eq_ok]
  constructor
  · rintro ⟨union, rfl, rfl, rfl, rfl⟩
    exact ⟨union.key_nonempty, union.cases_nonempty, union.tags_nodup⟩
  · rintro ⟨hkey, hcases, htags⟩
    exact ⟨⟨name, key, position, cases, hkey, hcases, htags⟩, rfl, rfl, rfl, rfl⟩

/-- The mistakes in their order. -/
theorem ofCases_eq_error {e : SchemaError} :
    ofCases name key position cases = .error e
      ↔ (key = "" ∧ e = .emptyDiscriminatorKey name) ∨ (key ≠ "" ∧ cases = [] ∧ e = .emptyUnion name)
        ∨ (key ≠ "" ∧ ∃ tag, Entries.FirstRepeated (Entries.keys cases) tag ∧ e = .duplicateTag name tag) := by
  by_cases hkey : key = ""
  · simp [ofCases, hkey, eq_comm]
  by_cases hcases : cases = []
  · simp [ofCases, hkey, hcases, Entries.FirstRepeated, Entries.keys, eq_comm]
  unfold ofCases
  rw [dif_neg hkey, dif_neg hcases]
  simp only [← Entries.firstRepeated?_eq_some_iff]
  split
  · rename_i tag htag
    simp [hkey, hcases, htag, eq_comm]
  · rename_i htags
    simp [hkey, hcases, htags]

/-- The cases are those taken up one by one. -/
theorem ofCases_eq_collect (hkey : key ≠ "") (hcases : cases ≠ []) :
    (ofCases name key position cases).map ClosedUnion.cases
      = (Entries.collect [] cases).mapError (.duplicateTag name) := by
  rw [Entries.collect_eq, ofCases, dif_neg hkey, dif_neg hcases]
  split
  · rename_i tag htag
    simp only [htag]
    rfl
  · rename_i htags
    simp only [htags]
    rfl

theorem case?_eq_some_iff {tag : String} {case : Case U} : union.case? tag = some case ↔ (tag, case) ∈ union.cases :=
  Entries.lookup_eq_some_iff_mem union.tags_nodup

end ClosedUnion

/-! ## Open unions -/

namespace OpenUnion

variable {name : String} {candidates : List (String × Case U)} {union : OpenUnion U}

theorem exists_ofCandidates_iff :
    (∃ union, ofCandidates name candidates = .ok union) ↔ candidates ≠ [] ∧ (Entries.keys candidates).Nodup := by
  constructor
  · rintro ⟨union, hunion⟩
    obtain ⟨-, rfl⟩ := ofCandidates_eq_ok.1 hunion
    exact ⟨union.candidates_nonempty, union.names_nodup⟩
  · rintro ⟨hcandidates, hnames⟩
    exact exists_ofCandidates name hcandidates hnames

theorem ofCandidates_eq_error {e : SchemaError} :
    ofCandidates name candidates = .error e
      ↔ (candidates = [] ∧ e = .emptyUnion name)
        ∨ ∃ candidate, Entries.FirstRepeated (Entries.keys candidates) candidate
          ∧ e = .duplicateCandidate name candidate := by
  by_cases hcandidates : candidates = []
  · simp [ofCandidates, hcandidates, Entries.FirstRepeated, Entries.keys, eq_comm]
  unfold ofCandidates
  rw [dif_neg hcandidates]
  simp only [← Entries.firstRepeated?_eq_some_iff]
  split
  · rename_i candidate hcandidate
    simp [hcandidates, hcandidate, eq_comm]
  · rename_i hnames
    simp [hcandidates, hnames]

/-- The candidates are those given, if the comparison of all positions finds nothing. -/
theorem ofCandidates_eq_scan (hcandidates : candidates ≠ []) :
    (ofCandidates name candidates).map OpenUnion.candidates
      = match Entries.scan? (Entries.keys candidates) with
        | some candidate => .error (.duplicateCandidate name candidate)
        | none => .ok candidates := by
  rw [Entries.scan?_eq, ofCandidates, dif_neg hcandidates]
  split
  · rename_i candidate hcandidate
    simp only [hcandidate]
    rfl
  · rename_i hnames
    simp only [hnames]
    rfl

theorem lookup_eq_some_iff {candidate : String} {case : Case U} :
    union.candidates.lookup candidate = some case ↔ (candidate, case) ∈ union.candidates :=
  Entries.lookup_eq_some_iff_mem union.names_nodup

end OpenUnion

/-! ## Both kinds -/

/-- A list of cases makes a closed union exactly if the key is not empty, there are cases and no name is there
twice, and an open one under the same conditions but the first. Otherwise an empty key is told before missing
cases and these before a name that is there twice, for both kinds the one at the least position whose name
stands before it; so with a key both kinds take the same lists and name the same mistake. It is found by
taking the cases up one by one as by comparing each position with all before it. A union has the names in
the order of the list, and under each the case that the list has for it. -/
theorem definitions_are_checked_alike (name key : String) (position : TagPosition) (cases : List (String × Case U)) :
    let closed := ClosedUnion.ofCases name key position cases
    let opened := OpenUnion.ofCandidates name cases
    let names := Entries.keys cases
    ((∃ union, closed = .ok union) ↔ key ≠ "" ∧ cases ≠ [] ∧ names.Nodup)
    ∧ (∀ e, closed = .error e
      ↔ (key = "" ∧ e = .emptyDiscriminatorKey name) ∨ (key ≠ "" ∧ cases = [] ∧ e = .emptyUnion name)
        ∨ (key ≠ "" ∧ ∃ tag, Entries.FirstRepeated names tag ∧ e = .duplicateTag name tag))
    ∧ ((∃ union, opened = .ok union) ↔ cases ≠ [] ∧ names.Nodup)
    ∧ (∀ e, opened = .error e
      ↔ (cases = [] ∧ e = .emptyUnion name)
        ∨ ∃ candidate, Entries.FirstRepeated names candidate ∧ e = .duplicateCandidate name candidate)
    ∧ (key ≠ "" → ((∃ union, closed = .ok union) ↔ ∃ union, opened = .ok union)
      ∧ ∀ repeated, closed = .error (.duplicateTag name repeated) ↔ opened = .error (.duplicateCandidate name repeated))
    ∧ (key ≠ "" → cases ≠ [] →
      closed.map ClosedUnion.cases = (Entries.collect [] cases).mapError (.duplicateTag name)
      ∧ opened.map OpenUnion.candidates = match Entries.scan? names with
        | some candidate => .error (.duplicateCandidate name candidate)
        | none => .ok cases)
    ∧ (∀ union, closed = .ok union → union.tags = names
      ∧ ∀ tag case, union.case? tag = some case ↔ (tag, case) ∈ cases)
    ∧ ∀ union, opened = .ok union → union.names = names
      ∧ ∀ candidate case, union.candidates.lookup candidate = some case ↔ (candidate, case) ∈ cases := by
  intro closed opened names
  refine ⟨ClosedUnion.exists_ofCases_iff, fun e => ClosedUnion.ofCases_eq_error, OpenUnion.exists_ofCandidates_iff,
    fun e => OpenUnion.ofCandidates_eq_error, fun hkey => ⟨?_, fun repeated => ?_⟩, fun hkey hcases => ⟨?_, ?_⟩, ?_, ?_⟩
  · rw [ClosedUnion.exists_ofCases_iff, OpenUnion.exists_ofCandidates_iff]
    exact and_iff_right hkey
  · rw [ClosedUnion.ofCases_eq_error, OpenUnion.ofCandidates_eq_error]
    simp [hkey]
  · exact ClosedUnion.ofCases_eq_collect hkey hcases
  · exact OpenUnion.ofCandidates_eq_scan hcases
  · intro union hunion
    obtain ⟨-, -, -, rfl⟩ := ClosedUnion.ofCases_eq_ok.1 hunion
    exact ⟨rfl, fun tag case => ClosedUnion.case?_eq_some_iff⟩
  · intro union hunion
    obtain ⟨-, rfl⟩ := OpenUnion.ofCandidates_eq_ok.1 hunion
    exact ⟨rfl, fun candidate case => OpenUnion.lookup_eq_some_iff⟩

namespace Sample.Labelled

/-- Two names are there twice. The integer comes first, but the second float comes before the second integer,
so both kinds of union tell of the float. The first two cases alone are a union. -/
theorem second_float_is_told_of :
    let numbers := [("int", case "int" (.int .int64)), ("float", case "float" .float64),
      ("float", case "single" .float32), ("int", case "byte" (.int .uint8))]
    ClosedUnion.ofCases "Number" "" .last numbers = .error (.emptyDiscriminatorKey "Number")
    ∧ ClosedUnion.ofCases "Number" "kind" .last numbers = .error (.duplicateTag "Number" "float")
    ∧ OpenUnion.ofCandidates "Number" numbers = .error (.duplicateCandidate "Number" "float")
    ∧ ∃ union, ClosedUnion.ofCases "Number" "kind" .last (numbers.take 2) = .ok union
      ∧ union.tags = ["int", "float"] ∧ union.case? "float" = some (case "float" .float64) := by
  intro numbers
  obtain ⟨-, keyless, -⟩ := definitions_are_checked_alike "Number" "" .last numbers
  obtain ⟨-, mistakes, -, -, alike, -⟩ := definitions_are_checked_alike "Number" "kind" .last numbers
  obtain ⟨defined, -, -, -, -, -, resolved, -⟩ := definitions_are_checked_alike "Number" "kind" .last (numbers.take 2)
  have first : Entries.FirstRepeated (Entries.keys numbers) "float" := by
    refine ⟨2, rfl, by decide, fun j hj other hother => ?_⟩
    match j, hj with
    | 0, _ => exact List.not_mem_nil
    | 1, _ =>
      cases hother
      decide
  have repeated := (mistakes _).2 (.inr (.inr ⟨by decide, "float", first, rfl⟩))
  obtain ⟨union, hunion⟩ := defined.2 ⟨by decide, by simp [numbers], by decide⟩
  obtain ⟨tags, cases⟩ := resolved union hunion
  refine ⟨(keyless _).2 (.inl ⟨rfl, rfl⟩), repeated, ?_, union, hunion, tags, (cases _ _).2 ?_⟩
  · exact ((alike (by decide)).2 "float").1 repeated
  · exact List.mem_of_getElem? (i := 1) rfl

end Sample.Labelled

end JsonWire
