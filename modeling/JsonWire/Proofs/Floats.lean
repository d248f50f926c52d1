/-
  JsonWire.Proofs.Floats — which float stops an encoding.

  A float of a value has a path, the names of the places that lead to it. The floats that
  a codec writes stand in the order of writing (`Codec.WritesFloats`): along an array by
  index, along a record by entry, along a shape by field. A field that is absent, null or
  a constant shows none, a place that is no field's shows none either, and neither an
  enumeration nor a union adds a name to the path.

  Only floats can stop an encoding. A run `StopsAt` a list of floats when it fails exactly
  where one of them is not finite, with the error of the first such. Runs one after another
  stop at the floats of both (`StopsAt.bind`), a run inside a place at its floats under the
  name of the place (`StopsAt.inField`), and so every encoding stops at the floats that its
  codec writes (`Codec.WritesFloats.stopsAt`).
-/

import JsonWire.Proofs.Strict

namespace JsonWire

variable {α β T F U : Type}

/-! ## Floats at places -/

structure FloatAt where
  path : List String
  number : Double

namespace FloatAt

/-- How encoding the float fails, if it is not finite. -/
def error (float : FloatAt) : CodecError := float.path.foldr .inField (.nonFinite float.number)

theorem fields_error (float : FloatAt) : float.error.fields = float.path := by
  obtain ⟨path, number⟩ := float
  induction path with
  | nil => rfl
  | cons name path ih => exact congrArg (name :: ·) ih

theorem rootCause_error (float : FloatAt) : float.error.rootCause = .nonFinite float.number := by
  obtain ⟨path, number⟩ := float
  induction path with
  | nil => rfl
  | cons name path ih => exact ih

/-- The float as it is seen from outside the named place. -/
def inside (name : String) (float : FloatAt) : FloatAt := { float with path := name :: float.path }

theorem error_inside (name : String) (float : FloatAt) : (float.inside name).error = .inField name float.error := rfl

def under (name : String) (floats : List FloatAt) : List FloatAt := floats.map (inside name)

def firstNonFinite? (floats : List FloatAt) : Option FloatAt := floats.find? fun float => !float.number.isFinite

theorem firstNonFinite?_append (before after : List FloatAt) :
    firstNonFinite? (before ++ after) = (firstNonFinite? before).or (firstNonFinite? after) :=
  List.find?_append

theorem firstNonFinite?_under (name : String) (floats : List FloatAt) :
    firstNonFinite? (under name floats) = (firstNonFinite? floats).map (inside name) :=
  List.find?_map ..

theorem firstNonFinite?_eq_none {floats : List FloatAt} :
    firstNonFinite? floats = none ↔ ∀ float ∈ floats, float.number.isFinite = true := by
  simp [firstNonFinite?]

theorem firstNonFinite?_eq_some {floats : List FloatAt} {stop : FloatAt} :
    firstNonFinite? floats = some stop ↔ stop.number.isFinite = false
      ∧ ∃ before after, floats = before ++ stop :: after ∧ ∀ float ∈ before, float.number.isFinite = true := by
  simp [firstNonFinite?, List.find?_eq_some_iff_append]

end FloatAt

open FloatAt

/-! ## Stopping -/

/-- The run fails exactly if some float is not finite, with the error of the first such. -/
def Traced.StopsAt (run : Traced α) (floats : List FloatAt) : Prop :=
  ∀ e, run.result = .error e ↔ ∃ stop, firstNonFinite? floats = some stop ∧ stop.error = e

namespace Traced

variable {run : Traced α} {floats : List FloatAt}

theorem stopsAt_pure (a : α) : (pure a : Traced α).StopsAt [] := by
  intro e
  simp [firstNonFinite?]

theorem StopsAt.ok_iff (h : run.StopsAt floats) :
    (∃ a, run.result = .ok a) ↔ ∀ float ∈ floats, float.number.isFinite = true := by
  rw [← firstNonFinite?_eq_none]
  constructor
  · intro hrun
    obtain ⟨a, hrun⟩ := hrun
    cases hstop : firstNonFinite? floats with
    | none => rfl
    | some stop =>
      have herror := (h stop.error).2 ⟨stop, hstop, rfl⟩
      rw [hrun] at herror
      cases herror
  · intro hnone
    refine exists_ok_of_forall_ne_error fun e he => ?_
    obtain ⟨stop, hstop, -⟩ := (h e).1 he
    rw [hnone] at hstop
    cases hstop

theorem StopsAt.bind {next : α → Traced β} {later : List FloatAt} (h : run.StopsAt floats)
    (hnext : ∀ a, run.result = .ok a → (next a).StopsAt later) : (run >>= next).StopsAt (floats ++ later) := by
  intro e
  rw [result_bind_eq_error, firstNonFinite?_append]
  cases hrun : run.result with
  | error cause =>
    obtain ⟨stop, hstop, rfl⟩ := (h cause).1 hrun
    simp [hstop]
  | ok a =>
    have hnone : firstNonFinite? floats = none := firstNonFinite?_eq_none.2 (h.ok_iff.1 ⟨a, hrun⟩)
    simp [hnone, hnext a hrun e]

theorem StopsAt.map (h : run.StopsAt floats) (f : α → β) : (f <$> run).StopsAt floats := by
  intro e
  rw [result_map_eq_error]
  exact h e

/-- What is made of the outcome cannot fail. -/
theorem StopsAt.bind_pure (h : run.StopsAt floats) (f : α → β) : (run >>= fun a => pure (f a)).StopsAt floats := by
  rw [← map_eq_pure_bind]
  exact h.map f

theorem StopsAt.inField (h : run.StopsAt floats) (name : String) : (run.inField name).StopsAt (under name floats) := by
  intro e
  rw [result_inField, mapError_eq_error, firstNonFinite?_under]
  constructor
  · intro he
    obtain ⟨cause, hcause, rfl⟩ := he
    obtain ⟨stop, hstop, rfl⟩ := (h cause).1 hcause
    exact ⟨stop.inside name, by rw [hstop, Option.map_some], stop.error_inside name⟩
  · intro hstop
    obtain ⟨outer, houter, rfl⟩ := hstop
    obtain ⟨stop, hstop, rfl⟩ := Option.map_eq_some_iff.1 houter
    exact ⟨stop.error, (h _).2 ⟨stop, hstop, rfl⟩, (stop.error_inside name).symm⟩

/-- An error tells the first float that is not finite, and the way to it. -/
theorem StopsAt.of_error (h : run.StopsAt floats) {e : CodecError} (he : run.result = .error e) :
    ∃ before stop after, floats = before ++ stop :: after ∧ (∀ float ∈ before, float.number.isFinite = true)
      ∧ stop.number.isFinite = false ∧ e.fields = stop.path ∧ e.rootCause = .nonFinite stop.number := by
  obtain ⟨stop, hstop, rfl⟩ := (h e).1 he
  obtain ⟨hnot, before, after, hsplit, hbefore⟩ := firstNonFinite?_eq_some.1 hstop
  exact ⟨before, stop, after, hsplit, hbefore, hnot, stop.fields_error, stop.rootCause_error⟩

end Traced

/-! ## The floats of a value -/

/-- The floats that the codec writes of the value, in the order of writing. -/
inductive Codec.WritesFloats : {α : Type} → Codec α → α → List FloatAt → Prop
  | any (json : Json) : WritesFloats any json []
  | string (text : String) : WritesFloats string text []
  | bool (b : Bool) : WritesFloats bool b []
  | int {t : IntType} (n : IntOf t) : WritesFloats (int t) n []
  | duration (d : Duration) : WritesFloats duration d []
  | float64 (x : Double) : WritesFloats float64 x [⟨[], x⟩]
  | float32 (x : Single) : WritesFloats float32 x [⟨[], x.widen⟩]
  | enum {S α : Type} [Scalar S] (domain : Domain S) {wrap : S → α} {unwrap : α → S} {value : α}
      {floats : List FloatAt} : WritesFloats (Scalar.codec : Codec S) (unwrap value) floats →
      WritesFloats (domain.codec.imap wrap unwrap) value floats
  | list {α : Type} {codec : Codec α} {values : List α} (floats : α → List FloatAt) :
      (∀ value ∈ values, WritesFloats codec value (floats value)) →
      WritesFloats (list codec) values
        (values.zipIdx.flatMap fun (value, i) => under (indexField i) (floats value))
  | record {α : Type} {codec : Codec α} {values : Record α} (floats : α → List FloatAt) :
      (∀ entry ∈ values.entries, WritesFloats codec entry.2 (floats entry.2)) →
      WritesFloats (record codec) values (values.entries.flatMap fun (key, value) => under key (floats value))
  | shape {T : Type} [Inhabited T] {shape : Shape T} {x : T} (floats : Access T → List FloatAt) :
      (∀ field ∈ shape.fields, ∀ ⦃F : Type⦄ (codec : Codec F) (value : F), field.2.Carries x codec value →
        WritesFloats codec value (floats field.2)) →
      (∀ field ∈ shape.fields, (∀ ⦃F : Type⦄ (codec : Codec F) (value : F), ¬ field.2.Carries x codec value) →
        floats field.2 = []) →
      WritesFloats shape.codec x (shape.fields.flatMap fun (name, access) => under name (floats access))
  | case {U : Type} [Tagged U] {union : ClosedUnion U} {u : U} {case : Case U} {payload : case.Payload}
      {floats : List FloatAt} : union.case? (Tagged.tag u) = some case → case.unwrap u = some payload →
      case.codec.WritesObjects → WritesFloats case.codec payload floats → WritesFloats union.codec u floats
  | candidate {U : Type} [Tagged U] {union : OpenUnion U} {u : U} {case : Case U} {payload : case.Payload}
      {floats : List FloatAt} : union.candidates.lookup (Tagged.tag u) = some case → case.unwrap u = some payload →
      WritesFloats case.codec payload floats → WritesFloats union.codec u floats

/-! ## What the pieces stop at -/

namespace Codec

theorem stopsAt_encodeFloat (x : Double) : (encodeFloat x).StopsAt [⟨[], x⟩] := by
  intro e
  by_cases h : x.isFinite = true
  · simp [encodeFloat_of_isFinite h, firstNonFinite?, h]
  · simp [encodeFloat, Json.ofDouble?, firstNonFinite?, h, FloatAt.error]

theorem stopsAt_eachItem {step : α → Traced β} {floats : α → List FloatAt} {values : List α}
    (h : ∀ value ∈ values, (step value).StopsAt (floats value)) (i : Nat) :
    (eachItem step i values).StopsAt
      ((values.zipIdx i).flatMap fun (value, i) => under (indexField i) (floats value)) := by
  induction values generalizing i with
  | nil => exact Traced.stopsAt_pure []
  | cons value rest ih =>
    obtain ⟨hhere, hlater⟩ := List.forall_mem_cons.1 h
    rw [List.zipIdx_cons, List.flatMap_cons]
    refine (hhere.inField (indexField i)).bind fun done _ => ?_
    exact (ih hlater (i + 1)).bind_pure _

theorem stopsAt_eachEntry {step : α → Traced β} {floats : α → List FloatAt} {entries : List (String × α)}
    (h : ∀ entry ∈ entries, (step entry.2).StopsAt (floats entry.2)) :
    (eachEntry step entries).StopsAt (entries.flatMap fun (key, value) => under key (floats value)) := by
  induction entries with
  | nil => exact Traced.stopsAt_pure []
  | cons entry rest ih =>
    obtain ⟨key, value⟩ := entry
    obtain ⟨hhere, hlater⟩ := List.forall_mem_cons.1 h
    rw [List.flatMap_cons]
    refine (hhere.inField key).bind fun done _ => ?_
    exact (ih hlater).bind_pure _

end Codec

namespace Access

variable {x : T} {access : Access T}

/-- A field shows what its codec writes. -/
theorem Carries.encode_eq {codec : Codec F} {value : F} (h : access.Carries x codec value) :
    access.encode x = Presence.present <$> codec.encode value := by
  cases h with
  | required lens codec => rfl
  | optional hvalue =>
    rw [encode, hvalue]
    rfl
  | nullable hvalue =>
    rw [encode, hvalue]
    rfl

/-- A field either has a value or shows something without writing any. -/
theorem carries_or_pure (access : Access T) (x : T) :
    (∃ (F : Type) (codec : Codec F) (value : F), access.Carries x codec value)
      ∨ (∀ ⦃F : Type⦄ (codec : Codec F) (value : F), ¬ access.Carries x codec value)
        ∧ ∃ slot, access.encode x = pure slot := by
  cases access with
  | required lens codec => exact .inl ⟨_, codec, _, .required lens codec⟩
  | constant literal => exact .inr ⟨nofun, _, rfl⟩
  | optional lens codec =>
    cases hcontent : lens.get x with
    | some value => exact .inl ⟨_, codec, value, .optional hcontent⟩
    | none =>
      refine .inr ⟨fun F inner value h => ?_, .absent, ?_⟩
      · cases h with
        | optional hvalue =>
          rw [hcontent] at hvalue
          cases hvalue
      · rw [encode, hcontent]
        rfl
  | nullable lens codec =>
    cases hcontent : lens.get x with
    | present value => exact .inl ⟨_, codec, value, .nullable hcontent⟩
    | absent | null =>
      refine .inr ⟨fun F inner value h => ?_, ?_⟩
      · cases h with
        | nullable hvalue =>
          rw [hcontent] at hvalue
          cases hvalue
      · rw [encode, hcontent]
        exact ⟨_, rfl⟩

end Access

theorem Shape.stopsAt_encodeFields {fields : List (String × Access T)} {x : T} {floats : Access T → List FloatAt}
    (h : ∀ field ∈ fields, (field.2.encode x).StopsAt (floats field.2)) :
    (encodeFields x fields).StopsAt (fields.flatMap fun (name, access) => under name (floats access)) := by
  induction fields with
  | nil => exact Traced.stopsAt_pure []
  | cons field rest ih =>
    obtain ⟨name, access⟩ := field
    obtain ⟨hhere, hlater⟩ := List.forall_mem_cons.1 h
    rw [List.flatMap_cons]
    refine (hhere.inField name).bind fun slot _ => ?_
    exact (ih hlater).bind_pure _

/-! ## Encodings -/

/-- An encoding fails exactly at the first of the floats it writes that is not finite. -/
theorem Codec.WritesFloats.stopsAt {codec : Codec α} {value : α} {floats : List FloatAt}
    (h : codec.WritesFloats value floats) : (codec.encode value).StopsAt floats := by
  induction h with
  | any json => exact Traced.stopsAt_pure _
  | string text => exact Traced.stopsAt_pure _
  | bool b => exact Traced.stopsAt_pure _
  | int n => exact Traced.stopsAt_pure _
  | duration d => exact Traced.stopsAt_pure _
  | float64 x => exact stopsAt_encodeFloat x
  | float32 x => exact stopsAt_encodeFloat x.widen
  | enum domain _ ih => exact ih
  | list floats _ ih => exact (stopsAt_eachItem ih 0).bind_pure _
  | record floats _ ih => exact (stopsAt_eachEntry ih).bind_pure _
  | @shape _ _ shape x floats _ hnone ih =>
    refine (Shape.stopsAt_encodeFields fun field hfield => ?_).bind_pure _
    rcases field.2.carries_or_pure x with ⟨F, codec, value, carries⟩ | ⟨none, slot, hslot⟩
    · rw [carries.encode_eq]
      exact (ih field hfield codec value carries).map _
    · rw [hnone field hfield none, hslot]
      exact Traced.stopsAt_pure slot
  | @case _ _ union u case payload floats hcase hunwrap objects _ ih =>
    have hencode := ClosedUnion.encode_eq_tagged hcase hunwrap
    show (union.encode u).StopsAt floats
    rw [hencode, ← List.append_nil floats]
    -- Whatever the case writes is an object, so taking the tag cannot fail.
    refine ih.bind fun json hjson => ?_
    obtain ⟨members, rfl⟩ := objects payload json hjson
    exact Traced.stopsAt_pure _
  | @candidate _ _ union u case payload floats hcase hunwrap _ ih =>
    show (union.encode u).StopsAt floats
    rw [OpenUnion.encode_of_unwrap hcase hunwrap]
    exact ih

/-! ## Codecs whose floats are known -/

/-- Every value has its list of floats. -/
def Codec.FloatsKnown (codec : Codec α) : Prop := ∀ value, ∃ floats, codec.WritesFloats value floats

namespace Codec

@[simp] theorem floatsKnown_any : any.FloatsKnown := fun json => ⟨_, .any json⟩

@[simp] theorem floatsKnown_string : string.FloatsKnown := fun text => ⟨_, .string text⟩

@[simp] theorem floatsKnown_bool : bool.FloatsKnown := fun b => ⟨_, .bool b⟩

@[simp] theorem floatsKnown_int {t : IntType} : (int t).FloatsKnown := fun n => ⟨_, .int n⟩

@[simp] theorem floatsKnown_duration : duration.FloatsKnown := fun d => ⟨_, .duration d⟩

@[simp] theorem floatsKnown_float64 : float64.FloatsKnown := fun x => ⟨_, .float64 x⟩

@[simp] theorem floatsKnown_float32 : float32.FloatsKnown := fun x => ⟨_, .float32 x⟩

theorem FloatsKnown.enum [Scalar β] (domain : Domain β) {wrap : β → α} {unwrap : α → β}
    (h : (Scalar.codec : Codec β).FloatsKnown) : (domain.codec.imap wrap unwrap).FloatsKnown := by
  intro value
  obtain ⟨floats, hfloats⟩ := h (unwrap value)
  exact ⟨floats, .enum domain hfloats⟩

@[simp] theorem FloatsKnown.list {codec : Codec α} (h : codec.FloatsKnown) : (list codec).FloatsKnown := by
  intro values
  choose floats hfloats using h
  exact ⟨_, .list floats fun value _ => hfloats value⟩

@[simp] theorem FloatsKnown.record {codec : Codec α} (h : codec.FloatsKnown) : (record codec).FloatsKnown := by
  intro values
  choose floats hfloats using h
  exact ⟨_, .record floats fun entry _ => hfloats entry.2⟩

end Codec

/-- The codec that the field uses knows its floats. -/
def Access.FloatsKnown (access : Access T) : Prop :=
  ∀ ⦃F : Type⦄ (codec : Codec F), access.Uses codec → codec.FloatsKnown

namespace Access

@[simp] theorem floatsKnown_required {lens : Lens T F} {codec : Codec F} :
    (required lens codec).FloatsKnown ↔ codec.FloatsKnown :=
  forall_uses_required

@[simp] theorem floatsKnown_optional {lens : Lens T (Option F)} {codec : Codec F} :
    (optional lens codec).FloatsKnown ↔ codec.FloatsKnown :=
  forall_uses_optional

@[simp] theorem floatsKnown_nullable {lens : Lens T (Presence F)} {codec : Codec F} :
    (nullable lens codec).FloatsKnown ↔ codec.FloatsKnown :=
  forall_uses_nullable

@[simp] theorem floatsKnown_constant {literal : Json} : (constant literal : Access T).FloatsKnown :=
  forall_uses_constant

/-- A field has one value at most, so its floats are those of that value. -/
theorem Carries.writesFloats_of_carries {x : T} {access : Access T} {F G : Type} {codec : Codec F} {inner : Codec G}
    {value : F} {other : G} {floats : List FloatAt} (h : access.Carries x codec value)
    (hother : access.Carries x inner other) (hfloats : codec.WritesFloats value floats) :
    inner.WritesFloats other floats := by
  cases h with
  | required lens codec =>
    cases hother
    exact hfloats
  | optional hvalue =>
    cases hother with
    | optional hsame =>
      obtain rfl := Option.some.inj (hvalue.symm.trans hsame)
      exact hfloats
  | nullable hvalue =>
    cases hother with
    | nullable hsame =>
      obtain rfl := Presence.present.inj (hvalue.symm.trans hsame)
      exact hfloats

/-- The floats that the field of `x` shows: those of its value, if it has one. -/
def ShowsFloats (access : Access T) (x : T) (floats : List FloatAt) : Prop :=
  (∀ ⦃F : Type⦄ (codec : Codec F) (value : F), access.Carries x codec value → codec.WritesFloats value floats)
    ∧ ((∀ ⦃F : Type⦄ (codec : Codec F) (value : F), ¬ access.Carries x codec value) → floats = [])

theorem FloatsKnown.exists_shows {access : Access T} (h : access.FloatsKnown) (x : T) :
    ∃ floats, access.ShowsFloats x floats := by
  rcases access.carries_or_pure x with ⟨F, codec, value, carries⟩ | ⟨none, -⟩
  · obtain ⟨floats, hfloats⟩ := h codec carries.uses value
    refine ⟨floats, fun G inner other hother => carries.writesFloats_of_carries hother hfloats, fun none => ?_⟩
    exact absurd carries (none codec value)
  · exact ⟨[], fun F codec value carries => absurd carries (none codec value), fun _ => rfl⟩

end Access

theorem Shape.floatsKnown_codec [Inhabited T] {shape : Shape T} (h : ∀ field ∈ shape.fields, field.2.FloatsKnown) :
    shape.codec.FloatsKnown := by
  intro x
  have known : ∀ access : Access T, access.FloatsKnown → ∃ floats, access.ShowsFloats x floats :=
    fun _ haccess => haccess.exists_shows x
  choose! floats hfloats using known
  have shows (field : String × Access T) (hfield : field ∈ shape.fields) : field.2.ShowsFloats x (floats field.2) :=
    hfloats field.2 (h field hfield)
  exact ⟨_, .shape floats (fun field hfield => (shows field hfield).1) fun field hfield => (shows field hfield).2⟩

/-- Every value of the union holds a case that is known. -/
theorem ClosedUnion.floatsKnown_codec [Tagged U] {union : ClosedUnion U}
    (h : ∀ u, ∃ (case : Case U) (payload : case.Payload), union.case? (Tagged.tag u) = some case
      ∧ case.unwrap u = some payload ∧ case.codec.FloatsKnown ∧ case.codec.WritesObjects) :
    union.codec.FloatsKnown := by
  intro u
  obtain ⟨case, payload, hcase, hunwrap, known, objects⟩ := h u
  obtain ⟨floats, hfloats⟩ := known payload
  exact ⟨floats, .case hcase hunwrap objects hfloats⟩

theorem OpenUnion.floatsKnown_codec [Tagged U] {union : OpenUnion U}
    (h : ∀ u, ∃ (case : Case U) (payload : case.Payload), union.candidates.lookup (Tagged.tag u) = some case
      ∧ case.unwrap u = some payload ∧ case.codec.FloatsKnown) : union.codec.FloatsKnown := by
  intro u
  obtain ⟨case, payload, hcase, hunwrap, known⟩ := h u
  obtain ⟨floats, hfloats⟩ := known payload
  exact ⟨floats, .candidate hcase hunwrap hfloats⟩

end JsonWire
