/-
  JsonWire.Proofs.Paths — the path of an error tells its places.

  A path is one text, made of the names of places with a dot between them, or with none
  where an index in brackets follows. Different names can make the same text if a dot or an
  opening bracket is inside them. Without these (`IsSegment`) a path has one reading only:
  every segment behind another begins with a mark, a dot or an opening bracket, and has no
  mark further in (`IsSegment.exists_behind`), so it ends where the next mark comes
  (`body_inj`). Equal paths then have equal segments, whatever the number of segments in
  each (`flatMap_behind_inj`, `joinPath_inj`).

  An error is its cause inside its places (`within_fields_rootCause`). So its path and its
  cause are all there is to it (`error_is_its_path_and_cause`).
-/

import JsonWire.Codec.Collections
import JsonWire.Text.Digits

namespace JsonWire.CodecError

/-! ## Segments -/

/-- An index: a decimal number in brackets. -/
def IsIndex (segment : String) : Prop :=
  ∃ digits : List Char, digits ≠ [] ∧ (∀ c ∈ digits, c.isDigit = true) ∧ segment.toList = '[' :: (digits ++ [']'])

/-- A name without a dot and without an opening bracket. -/
def IsName (segment : String) : Prop := segment ≠ "" ∧ '.' ∉ segment.toList ∧ '[' ∉ segment.toList

def IsSegment (segment : String) : Prop := IsIndex segment ∨ IsName segment

/-- The place of an element is a segment. -/
theorem isSegment_indexField (i : Nat) : IsSegment (Codec.indexField i) := by
  refine .inl ⟨Nat.toDigits 10 i, Nat.toDigits_ne_nil, fun c hc => ?_, ?_⟩
  · exact Nat.isDigit_of_mem_toDigits (by decide) (by decide) hc
  · simp [Codec.indexField, toString, Nat.repr]

/-! ## Texts of segments -/

/-- What a segment behind another one begins with. -/
def isMark (c : Char) : Bool := c = '.' || c = '['

/-- The text that a segment adds to the path before it. -/
def behind (segment : String) : List Char :=
  if segment.toList.head? = some '[' then segment.toList else '.' :: segment.toList

theorem isMark_eq_false_iff {c : Char} : isMark c = false ↔ c ≠ '.' ∧ c ≠ '[' := by simp [isMark]

theorem IsIndex.exists_body {segment : String} (h : IsIndex segment) :
    ∃ body, segment.toList = '[' :: body ∧ ∀ c ∈ body, isMark c = false := by
  obtain ⟨digits, -, hdigits, htext⟩ := h
  refine ⟨digits ++ [']'], htext, fun c hc => isMark_eq_false_iff.2 ?_⟩
  rcases List.mem_append.1 hc with hc | hc
  · have hdigit := hdigits c hc
    constructor <;>
    · rintro rfl
      exact absurd hdigit (by decide)
  · obtain rfl := List.mem_singleton.1 hc
    decide

theorem IsName.unmarked {segment : String} (h : IsName segment) : ∀ c ∈ segment.toList, isMark c = false := by
  obtain ⟨-, hdot, hbracket⟩ := h
  intro c hc
  exact isMark_eq_false_iff.2 ⟨fun e => hdot (e ▸ hc), fun e => hbracket (e ▸ hc)⟩

theorem IsIndex.behind_eq {segment : String} (h : IsIndex segment) : behind segment = segment.toList := by
  obtain ⟨body, htext, -⟩ := h.exists_body
  exact if_pos (by rw [htext]; rfl)

theorem IsName.behind_eq {segment : String} (h : IsName segment) : behind segment = '.' :: segment.toList :=
  if_neg fun hhead => h.2.2 (List.mem_of_mem_head? hhead)

/-- At the head of a path a segment is a character and no mark behind it. -/
theorem IsSegment.exists_first {segment : String} (h : IsSegment segment) :
    ∃ c body, segment.toList = c :: body ∧ ∀ c ∈ body, isMark c = false := by
  rcases h with hindex | hname
  · obtain ⟨body, htext, hbody⟩ := hindex.exists_body
    exact ⟨'[', body, htext, hbody⟩
  · have hne : segment.toList ≠ [] := fun hnil => hname.1 (String.toList_eq_nil_iff.1 hnil)
    obtain ⟨c, body, htext⟩ := List.exists_cons_of_ne_nil hne
    have hunmarked := hname.unmarked
    rw [htext] at hunmarked
    exact ⟨c, body, htext, (List.forall_mem_cons.1 hunmarked).2⟩

theorem IsSegment.ne_empty {segment : String} (h : IsSegment segment) : segment ≠ "" := by
  obtain ⟨c, body, htext, -⟩ := h.exists_first
  rintro rfl
  cases htext

/-- Further in, a segment is a mark and no other mark behind it. -/
theorem IsSegment.exists_behind {segment : String} (h : IsSegment segment) :
    ∃ c body, behind segment = c :: body ∧ isMark c = true ∧ ∀ c ∈ body, isMark c = false := by
  rcases h with hindex | hname
  · obtain ⟨body, htext, hbody⟩ := hindex.exists_body
    exact ⟨'[', body, hindex.behind_eq.trans htext, rfl, hbody⟩
  · exact ⟨'.', segment.toList, hname.behind_eq, rfl, hname.unmarked⟩

/-- A name has its dot in front and an index does not, so the two are never taken for one another. -/
theorem IsSegment.behind_inj {segment other : String} (h : IsSegment segment) (hother : IsSegment other)
    (hsame : behind segment = behind other) : segment = other := by
  refine String.toList_inj.1 ?_
  rcases h with hindex | hname <;> rcases hother with hindex' | hname'
  · rwa [hindex.behind_eq, hindex'.behind_eq] at hsame
  · obtain ⟨body, htext, -⟩ := hindex.exists_body
    rw [hindex.behind_eq, hname'.behind_eq, htext] at hsame
    cases hsame
  · obtain ⟨body, htext, -⟩ := hindex'.exists_body
    rw [hname.behind_eq, hindex'.behind_eq, htext] at hsame
    cases hsame
  · rw [hname.behind_eq, hname'.behind_eq] at hsame
    exact (List.cons.inj hsame).2

/-! ## Texts of paths -/

/-- What comes next, if anything, is a mark. -/
def Marked (rest : List Char) : Prop := ∀ c, rest.head? = some c → isMark c = true

/-- Texts without a mark end where the first mark comes. -/
theorem body_inj {body other rest more : List Char} (hbody : ∀ c ∈ body, isMark c = false)
    (hother : ∀ c ∈ other, isMark c = false) (hrest : Marked rest) (hmore : Marked more)
    (h : body ++ rest = other ++ more) : body = other ∧ rest = more := by
  have split {body rest : List Char} (hbody : ∀ c ∈ body, isMark c = false) (hrest : Marked rest) :
      (body ++ rest).takeWhile (!isMark ·) = body ∧ (body ++ rest).dropWhile (!isMark ·) = rest :=
    Text.span_eq_iff.2 ⟨rfl, by simpa using hbody, by simpa [Marked] using hrest⟩
  obtain ⟨htake, hdrop⟩ := split hbody hrest
  obtain ⟨htake', hdrop'⟩ := split hother hmore
  rw [h] at htake hdrop
  exact ⟨htake.symm.trans htake', hdrop.symm.trans hdrop'⟩

theorem marked_flatMap_behind {segments : List String} (h : ∀ segment ∈ segments, IsSegment segment) :
    Marked (segments.flatMap behind) := by
  cases segments with
  | nil => nofun
  | cons segment rest =>
    obtain ⟨c, body, hbehind, hmark, -⟩ := (h segment List.mem_cons_self).exists_behind
    intro d hd
    rw [List.flatMap_cons, hbehind] at hd
    cases hd
    exact hmark

theorem flatMap_behind_inj {segments others : List String} (h : ∀ segment ∈ segments, IsSegment segment)
    (hothers : ∀ segment ∈ others, IsSegment segment) (hsame : segments.flatMap behind = others.flatMap behind) :
    segments = others := by
  induction segments generalizing others with
  | nil =>
    cases others with
    | nil => rfl
    | cons other more =>
      obtain ⟨c, body, hbehind, -⟩ := (hothers other List.mem_cons_self).exists_behind
      rw [List.flatMap_cons, hbehind] at hsame
      cases hsame
  | cons segment rest ih =>
    obtain ⟨hsegment, hrest⟩ := List.forall_mem_cons.1 h
    obtain ⟨c, body, hbehind, -, hbody⟩ := hsegment.exists_behind
    cases others with
    | nil =>
      rw [List.flatMap_cons, hbehind] at hsame
      cases hsame
    | cons other more =>
      obtain ⟨hother, hmore⟩ := List.forall_mem_cons.1 hothers
      obtain ⟨c', body', hbehind', -, hbody'⟩ := hother.exists_behind
      rw [List.flatMap_cons, List.flatMap_cons, hbehind, hbehind'] at hsame
      obtain ⟨rfl, htails⟩ := List.cons.inj hsame
      obtain ⟨rfl, hlater⟩ := body_inj hbody hbody' (marked_flatMap_behind hrest) (marked_flatMap_behind hmore) htails
      rw [hsegment.behind_inj hother (hbehind.trans hbehind'.symm), ih hrest hmore hlater]

/-- A path with one more segment. -/
def extended (path segment : String) : String :=
  if path.isEmpty || segment.toList.head? = some '[' then path ++ segment else path ++ "." ++ segment

theorem toList_extended {path : String} (h : path ≠ "") (segment : String) :
    (extended path segment).toList = path.toList ++ behind segment := by
  have hbegun : path.isEmpty = false := by simpa using h
  by_cases hindex : segment.toList.head? = some '['
  · simp [extended, behind, hindex]
  · simp [extended, behind, hindex, hbegun]

theorem toList_foldl_extended {path : String} (h : path ≠ "") (segments : List String) :
    (segments.foldl extended path).toList = path.toList ++ segments.flatMap behind := by
  induction segments generalizing path with
  | nil => simp
  | cons segment rest ih =>
    have hlonger : extended path segment ≠ "" := by
      rw [Ne, ← String.toList_eq_nil_iff, toList_extended h, List.append_eq_nil_iff]
      exact fun hnil => h (String.toList_eq_nil_iff.1 hnil.1)
    rw [List.foldl_cons, ih hlonger, toList_extended h, List.flatMap_cons, List.append_assoc]

theorem toList_joinPath {first : String} (h : first ≠ "") (rest : List String) :
    (joinPath (first :: rest)).toList = first.toList ++ rest.flatMap behind := by
  have hfirst : extended "" first = first := by simp [extended]
  have hjoin : joinPath (first :: rest) = rest.foldl extended (extended "" first) := rfl
  rw [hjoin, hfirst, toList_foldl_extended h]

theorem joinPath_inj {first other : String} {rest more : List String}
    (h : ∀ segment ∈ first :: rest, IsSegment segment) (hothers : ∀ segment ∈ other :: more, IsSegment segment)
    (hsame : joinPath (first :: rest) = joinPath (other :: more)) : first :: rest = other :: more := by
  obtain ⟨hfirst, hrest⟩ := List.forall_mem_cons.1 h
  obtain ⟨hother, hmore⟩ := List.forall_mem_cons.1 hothers
  have htext := congrArg String.toList hsame
  rw [toList_joinPath hfirst.ne_empty, toList_joinPath hother.ne_empty] at htext
  obtain ⟨c, body, hbody, hunmarked⟩ := hfirst.exists_first
  obtain ⟨c', body', hbody', hunmarked'⟩ := hother.exists_first
  rw [hbody, hbody'] at htext
  obtain ⟨rfl, htails⟩ := List.cons.inj htext
  obtain ⟨rfl, hlater⟩ :=
    body_inj hunmarked hunmarked' (marked_flatMap_behind hrest) (marked_flatMap_behind hmore) htails
  rw [String.toList_inj.1 (hbody.trans hbody'.symm), flatMap_behind_inj hrest hmore hlater]

/-- A dot inside a name reads like one between two. -/
example : joinPath ["box.legs"] = joinPath ["box", "legs"] := by decide

/-! ## Causes inside places -/

/-- The error inside these places, the outermost first. -/
def within (names : List String) (e : CodecError) : CodecError := names.foldr .inField e

theorem within_fields_rootCause (e : CodecError) : within e.fields e.rootCause = e := by
  induction e using rootCause.induct with
  | case1 name cause ih => exact congrArg (inField name) ih
  | case2 e plain => cases e <;> first | rfl | exact absurd rfl (plain _ _)

theorem rootCause_ne_inField (e : CodecError) (name : String) (cause : CodecError) :
    e.rootCause ≠ .inField name cause := by
  induction e using rootCause.induct with
  | case1 _ _ ih => exact ih
  | case2 e plain =>
    rw [rootCause.eq_2 e plain]
    exact plain name cause

theorem rootCause_within (names : List String) (e : CodecError) : (within names e).rootCause = e.rootCause := by
  induction names with
  | nil => rfl
  | cons name names ih => exact ih

/-- Places in common decide nothing. -/
theorem alike_within (names : List String) (e other : CodecError) :
    alike (within names e) (within names other) = alike e other := by
  induction names with
  | nil => rfl
  | cons name names ih =>
    show (name == name && alike (within names e) (within names other)) = alike e other
    rw [ih, beq_self_eq_true, Bool.true_and]

theorem fieldPath?_eq (e : CodecError) :
    e.fieldPath? = if e.fields = [] then none else some (joinPath e.fields) := by
  cases e <;> rfl

theorem fieldPath?_eq_none_iff {e : CodecError} : e.fieldPath? = none ↔ ∀ name cause, e ≠ .inField name cause := by
  cases e <;> simp [fieldPath?]

theorem fields_eq_of_fieldPath? {e other : CodecError} (h : ∀ segment ∈ e.fields, IsSegment segment)
    (hother : ∀ segment ∈ other.fields, IsSegment segment) (hpath : e.fieldPath? = other.fieldPath?) :
    e.fields = other.fields := by
  rw [fieldPath?_eq, fieldPath?_eq] at hpath
  generalize e.fields = fields at *
  generalize other.fields = others at *
  cases fields <;> cases others
  case nil.nil => rfl
  case nil.cons => cases hpath
  case cons.nil => cases hpath
  case cons.cons => exact joinPath_inj h hother (Option.some.inj hpath)

/-- Errors with the same path have the same places, if these are indices and names without a mark. They are
then equal if their causes are, and compare as their causes do. Whatever the places around an error, its
cause is the same and is inside no place, and it has no path exactly if it is inside none itself. -/
theorem error_is_its_path_and_cause :
    (∀ e other : CodecError, (∀ segment ∈ e.fields, IsSegment segment) →
      (∀ segment ∈ other.fields, IsSegment segment) → e.fieldPath? = other.fieldPath? →
      e.fields = other.fields ∧ (e.rootCause = other.rootCause → e = other)
        ∧ alike e other = alike e.rootCause other.rootCause)
    ∧ ∀ (names : List String) (e : CodecError), (within names e).rootCause = e.rootCause
      ∧ (∀ name cause, e.rootCause ≠ .inField name cause)
      ∧ ((within names e).fieldPath? = none ↔ ∀ name cause, within names e ≠ .inField name cause) := by
  constructor
  · intro e other hsegments hothers hpath
    have hfields := fields_eq_of_fieldPath? hsegments hothers hpath
    have hother : within e.fields other.rootCause = other := hfields ▸ within_fields_rootCause other
    refine ⟨hfields, fun hroot => ?_, ?_⟩
    · calc e = within e.fields e.rootCause := (within_fields_rootCause e).symm
        _ = within e.fields other.rootCause := by rw [hroot]
        _ = other := hother
    · calc alike e other = alike (within e.fields e.rootCause) (within e.fields other.rootCause) := by
            rw [within_fields_rootCause, hother]
        _ = alike e.rootCause other.rootCause := alike_within _ _ _
  · intro names e
    exact ⟨rootCause_within names e, rootCause_ne_inField e, fieldPath?_eq_none_iff⟩

/-- Two failures at the legs of the second seat, over documents whose members stand in another order: not
equal, but alike. -/
theorem second_seat_is_told_once :
    let found := Json.obj [("length", .null), ("seats", .bool true)]
    let e := within ["seating", Codec.indexField 1, "legs"] (.notInDomain "Legs" found)
    let other := inField "seating" (.inField "[1]" (.inField "legs"
      (.notInDomain "Legs" (.obj [("seats", .bool true), ("length", .null)]))))
    e.fieldPath? = some "seating[1].legs" ∧ e.fieldPath? = other.fieldPath? ∧ e.fields = other.fields
      ∧ alike e other = true ∧ e ≠ other := by
  intro found e other
  have segments : ∀ segment ∈ ["seating", Codec.indexField 1, "legs"], IsSegment segment := by
    simp only [List.forall_mem_cons]
    exact ⟨.inr (by simp [IsName]), isSegment_indexField 1, .inr (by simp [IsName]), List.forall_mem_nil _⟩
  have hpath : e.fieldPath? = some "seating[1].legs" := by decide +kernel
  have hother : other.fieldPath? = some "seating[1].legs" := by decide +kernel
  obtain ⟨hfields, -, hcompare⟩ :=
    error_is_its_path_and_cause.1 e other segments segments (hpath.trans hother.symm)
  refine ⟨hpath, hpath.trans hother.symm, hfields, hcompare.trans ?_, ?_⟩
  · decide +kernel
  · simp [e, other, found, within]

end JsonWire.CodecError
