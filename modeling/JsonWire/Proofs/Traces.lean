/-
  JsonWire.Proofs.Traces — the trace of a run is that of its steps, up to the first that fails.

  A list reads its elements, a record its entries and a shape its fields one after
  another, and the first that fails ends the run: what is told of passed-over keys is
  what each of them tells, up to that one (`traces_eachItem`, `traces_eachEntry`,
  `traces_decodeFields`), and nothing told before is taken back. After its fields, and
  only if none fails, a shape tells of its own undeclared keys (`traces_patch`). An open
  union tells what each candidate does, up to the one that reads the document
  (`traces_tryEach`). All this is the same whatever the target.
-/

import JsonWire.Proofs.Composed
import JsonWire.Proofs.Patching
import JsonWire.Proofs.Rejecting

namespace JsonWire

variable {α β S T U F : Type}

/-! ## Up to the first that stops -/

/-- The elements up to the first that stops, and that one. -/
def upToFirst {ι : Type*} (stops : ι → Bool) : List ι → List ι
  | [] => []
  | item :: rest => item :: if stops item then [] else upToFirst stops rest

theorem mem_of_mem_upToFirst {ι : Type*} {stops : ι → Bool} {item : ι} {items : List ι}
    (h : item ∈ upToFirst stops items) : item ∈ items := by
  induction items with
  | nil => exact h
  | cons head rest ih =>
    rcases List.mem_cons.1 h with rfl | h
    · exact List.mem_cons_self
    · split at h
      · cases h
      · exact List.mem_cons_of_mem _ (ih h)

theorem flatMap_upToFirst_cons {ι κ : Type*} (stops : ι → Bool) (item : ι) (rest : List ι) (f : ι → List κ) :
    (upToFirst stops (item :: rest)).flatMap f
      = f item ++ if stops item then [] else (upToFirst stops rest).flatMap f := by
  rw [upToFirst, List.flatMap_cons]
  split <;> rfl

theorem any_upToFirst {ι : Type*} (stops : ι → Bool) (items : List ι) :
    (upToFirst stops items).any stops = items.any stops := by
  induction items with
  | nil => rfl
  | cons item rest ih =>
    rw [upToFirst]
    cases h : stops item <;> simp [h, ih]

/-! ## Traces of runs -/

namespace Traced

/-- Whether the run ends with a failure. -/
def fails (run : Traced α) : Bool :=
  match run.result with
  | .ok _ => false
  | .error _ => true

@[simp] theorem fails_inField (run : Traced α) (field : String) : (run.inField field).fails = run.fails := by
  cases h : run.result <;> simp [fails, h, Except.mapError]

/-- A sequence fails if its first run does or its sequel. -/
theorem fails_bind {x : Traced α} {next : α → Traced β} {later : Bool}
    (h : ∀ a, x.result = .ok a → (next a).fails = later) : (x >>= next).fails = (x.fails || later) := by
  cases hx : x.result with
  | ok a =>
    rw [bind_of_ok hx, ← h a hx]
    simp [fails, hx]
  | error e =>
    rw [bind_of_error hx]
    simp [fails, hx]

/-- What is told of keys that are passed over. -/
def traces (run : Traced α) : List Event := run.events.filter (·.level = .trace)

@[simp] theorem traces_inField (run : Traced α) (field : String) : (run.inField field).traces = run.traces := rfl

/-- Only a run that does not fail has a sequel. -/
theorem traces_bind {x : Traced α} {next : α → Traced β} {later : List Event}
    (h : ∀ a, x.result = .ok a → (next a).traces = later) :
    (x >>= next).traces = x.traces ++ if x.fails then [] else later := by
  cases hx : x.result with
  | ok a =>
    rw [bind_of_ok hx, ← h a hx]
    simp [traces, fails, hx]
  | error e =>
    rw [bind_of_error hx]
    simp [traces, fails, hx]

theorem traces_bind_of_silent {x : Traced α} {next : α → Traced β} (h : ∀ a, (next a).traces = []) :
    (x >>= next).traces = x.traces := by
  rw [traces_bind fun a _ => h a, ite_self, List.append_nil]

end Traced

/-! ## Built-in codecs and enumerations -/

namespace Codec

variable {codec : Codec α} {raw : Json}

theorem traces_expecting {name : String} {read? : Json → Option α} : (expecting name read? raw).traces = [] := by
  unfold expecting
  split <;> rfl

theorem BuiltIn.traces_decode (h : codec.BuiltIn) (raw : Json) : (codec.decode raw).traces = [] := by
  cases h with
  | any => rfl
  | string => exact traces_expecting
  | bool => exact traces_expecting
  | int t =>
    refine (Traced.traces_bind_of_silent fun n => ?_).trans traces_expecting
    split <;> rfl
  | float64 => exact traces_expecting
  | float32 =>
    refine (Traced.traces_bind_of_silent fun x => ?_).trans traces_expecting
    split <;> rfl
  | duration => exact (Traced.traces_bind_of_silent fun text => rfl).trans traces_expecting

theorem traces_decode_imap (wrap : α → β) (unwrap : β → α) :
    ((codec.imap wrap unwrap).decode raw).traces = (codec.decode raw).traces :=
  Traced.traces_bind_of_silent fun _ => rfl

end Codec

theorem Domain.traces_decode [Scalar S] (domain : Domain S) (raw : Json) :
    (domain.codec.decode raw).traces = ((Scalar.codec : Codec S).decode raw).traces := by
  refine Traced.traces_bind_of_silent fun scalar => ?_
  split <;> rfl

/-! ## Collections -/

namespace Codec

variable {step : α → Traced β}

theorem traces_eachItem (i : Nat) (items : List α) :
    (eachItem step i items).traces
      = (upToFirst (fun item => (step item).fails) items).flatMap fun item => (step item).traces := by
  induction items generalizing i with
  | nil => rfl
  | cons item rest ih =>
    have hrest (done : β) : (eachItem step (i + 1) rest >>= fun more => pure (done :: more)).traces = _ :=
      (Traced.traces_bind_of_silent fun _ => rfl).trans (ih (i + 1))
    rw [eachItem, Traced.traces_bind fun done _ => hrest done, flatMap_upToFirst_cons]
    simp

theorem traces_eachEntry (entries : List (String × α)) :
    (eachEntry step entries).traces
      = (upToFirst (fun entry => (step entry.2).fails) entries).flatMap fun entry => (step entry.2).traces := by
  induction entries with
  | nil => rfl
  | cons entry rest ih =>
    have hrest (done : β) : (eachEntry step rest >>= fun more => pure ((entry.1, done) :: more)).traces = _ :=
      (Traced.traces_bind_of_silent fun _ => rfl).trans ih
    rw [eachEntry, Traced.traces_bind fun done _ => hrest done, flatMap_upToFirst_cons]
    simp

end Codec

/-! ## Shapes -/

/-- The codec reads the member: no constant stands there, and no null that an optional or a nullable field
takes for itself or refuses. -/
def Access.Decodes (access : Access T) (item : Json) (codec : Codec F) : Prop :=
  access.Uses codec ∧ (item.isNull = true → access.kind = .required)

namespace Shape

variable {policy : NullPolicy} {members : List (String × Json)}

/-- A field tells what the codec tells that reads its member. -/
theorem traces_of_decodes {access : Access T} {item : Json} {codec : Codec F} (h : access.Decodes item codec) :
    (readField policy access item).traces = (codec.decode item).traces := by
  obtain ⟨huses, hrequired⟩ := h
  cases huses with
  | required lens codec =>
    rw [readField_required]
    rfl
  | optional lens codec =>
    have hnull : item.isNull = false := Bool.eq_false_iff.2 fun hnull => nomatch hrequired hnull
    rw [readField_optional lens codec hnull]
    exact Traced.traces_bind_of_silent fun _ => rfl
  | nullable lens codec =>
    have hnull : item.isNull = false := Bool.eq_false_iff.2 fun hnull => nomatch hrequired hnull
    rw [readField_nullable]
    simp only [Codec.decodeNullable, hnull]
    exact Traced.traces_bind_of_silent fun _ => rfl

theorem traces_of_not_decodes {access : Access T} {item : Json}
    (h : ∀ ⦃F : Type⦄ (codec : Codec F), ¬ access.Decodes item codec) : (readField policy access item).traces = [] := by
  cases access with
  | required lens codec => exact absurd ⟨.required lens codec, fun _ => rfl⟩ (h codec)
  | optional lens codec =>
    cases hnull : item.isNull with
    | true =>
      simp only [readField, Access.read, hnull]
      split <;> rfl
    | false => exact absurd ⟨.optional lens codec, by simp [hnull]⟩ (h codec)
  | nullable lens codec =>
    cases hnull : item.isNull with
    | true =>
      rw [readField_nullable]
      simp only [Codec.decodeNullable, hnull]
      rfl
    | false => exact absurd ⟨.nullable lens codec, by simp [hnull]⟩ (h codec)
  | constant literal =>
    rw [readField_constant]
    rfl

/-- The fields that have a member, each with it, in the order of the shape. -/
def present (members : List (String × Json)) (fields : List (String × Access T)) : List (Access T × Json) :=
  fields.filterMap fun field => (members.lookup field.1).map fun item => (field.2, item)

/-- Whether the field fails on its member. -/
def stops (policy : NullPolicy) (reading : Access T × Json) : Bool := (readField policy reading.1 reading.2).fails

theorem present_cons_of_none {name : String} {access : Access T} {rest : List (String × Access T)}
    (h : members.lookup name = none) : present members ((name, access) :: rest) = present members rest := by
  simp [present, h]

theorem present_cons_of_some {name : String} {access : Access T} {item : Json} {rest : List (String × Access T)}
    (h : members.lookup name = some item) :
    present members ((name, access) :: rest) = (access, item) :: present members rest := by
  simp [present, h]

/-- The target only takes what is read. -/
theorem traces_decodeField (access : Access T) (item : Json) (target : T) :
    (decodeField policy access item target).traces = (readField policy access item).traces := by
  rw [decodeField_eq]
  exact Traced.traces_bind_of_silent fun _ => rfl

theorem fails_decodeField (access : Access T) (item : Json) (target : T) :
    (decodeField policy access item target).fails = stops policy (access, item) := by
  have hwritten (content : access.Content) : (pure (access.lens.set content target) : Traced T).fails = false := rfl
  rw [decodeField_eq, Traced.fails_bind fun content _ => hwritten content, Bool.or_false]
  rfl

theorem traces_decodeFields (fields : List (String × Access T)) (target : T) :
    (decodeFields policy members fields target).traces
      = (upToFirst (stops policy) (present members fields)).flatMap fun reading =>
          (readField policy reading.1 reading.2).traces := by
  induction fields generalizing target with
  | nil => rfl
  | cons field rest ih =>
    obtain ⟨name, access⟩ := field
    cases hitem : members.lookup name with
    | none =>
      rw [decodeFields_missing hitem, ih, present_cons_of_none hitem]
    | some item =>
      simp only [decodeFields, hitem]
      rw [Traced.traces_bind fun written _ => ih written, present_cons_of_some hitem, flatMap_upToFirst_cons]
      simp only [Traced.traces_inField, Traced.fails_inField, traces_decodeField, fails_decodeField]

/-- The fields that are read, each with its member: those that have one, up to the first that fails. -/
def readings (shape : Shape T) (members : List (String × Json)) : List (Access T × Json) :=
  upToFirst (stops shape.nullPolicy) (present members shape.fields)

theorem exists_field_of_mem_readings {shape : Shape T} {reading : Access T × Json}
    (h : reading ∈ shape.readings members) : ∃ name, (name, reading.1) ∈ shape.fields := by
  obtain ⟨⟨name, access⟩, hfield, hmember⟩ := List.mem_filterMap.1 (mem_of_mem_upToFirst h)
  obtain ⟨item, -, rfl⟩ := Option.map_eq_some_iff.1 hmember
  exact ⟨name, hfield⟩

/-- What an object tells of its own: its undeclared keys, unless a field fails. -/
def leftover (shape : Shape T) (members : List (String × Json)) : List Event :=
  if (shape.readings members).any (stops shape.nullPolicy) then []
  else ((Entries.keys members).filter (· ∉ Entries.keys shape.fields)).map (.unknownKey shape.name)

theorem traces_reportAll_unknownKeys (shape : Shape T) (members : List (String × Json)) :
    (Traced.reportAll (shape.unknownKeys members)).traces = shape.unknownKeys members := by
  refine List.filter_eq_self.2 fun event hevent => ?_
  obtain ⟨key, -, rfl⟩ := List.mem_map.1 hevent
  rfl

theorem fails_decodeFields (fields : List (String × Access T)) (target : T) :
    (decodeFields policy members fields target).fails = (present members fields).any (stops policy) := by
  induction fields generalizing target with
  | nil => rfl
  | cons field rest ih =>
    obtain ⟨name, access⟩ := field
    cases hitem : members.lookup name with
    | none => rw [decodeFields_missing hitem, ih, present_cons_of_none hitem]
    | some item =>
      simp only [decodeFields, hitem]
      rw [Traced.fails_bind fun written _ => ih written, present_cons_of_some hitem, List.any_cons,
        Traced.fails_inField, fails_decodeField]

theorem traces_patch (shape : Shape T) (members : List (String × Json)) (target : T) :
    (shape.patch (.obj members) target).traces
      = ((shape.readings members).flatMap fun reading => (readField shape.nullPolicy reading.1 reading.2).traces)
        ++ shape.leftover members := by
  have htold (result : T) : (do Traced.reportAll (shape.unknownKeys members); return result : Traced T).traces
      = shape.unknownKeys members :=
    (Traced.traces_bind_of_silent fun _ => rfl).trans (shape.traces_reportAll_unknownKeys members)
  rw [patch, Traced.traces_bind fun result _ => htold result, traces_decodeFields, fails_decodeFields, leftover,
    readings, any_upToFirst]
  rfl

theorem any_stops_readings (shape : Shape T) (members : List (String × Json)) (target : T) :
    (shape.readings members).any (stops shape.nullPolicy) = (shape.patch (.obj members) target).fails := by
  have hfails : (shape.patch (.obj members) target).fails
      = (decodeFields shape.nullPolicy members shape.fields target).fails := by
    simp only [Traced.fails, result_patch_obj]
  rw [hfails, fails_decodeFields, readings, any_upToFirst]

/-- A shape that fails keeps its own undeclared keys to itself. -/
theorem leftover_of_error {shape : Shape T} {target : T} {e : CodecError}
    (h : (shape.patch (.obj members) target).result = .error e) : shape.leftover members = [] := by
  rw [leftover, shape.any_stops_readings members target]
  simp [Traced.fails, h]

theorem leftover_of_ok {shape : Shape T} {target result : T}
    (h : (shape.patch (.obj members) target).result = .ok result) :
    shape.leftover members = shape.unknownKeys members := by
  rw [leftover, shape.any_stops_readings members target]
  simp only [Traced.fails, h]
  rfl

end Shape

/-! ## Unions -/

namespace ClosedUnion

variable {union : ClosedUnion U} {raw : Json}

theorem traces_codec_decode [Tagged U] : (union.codec.decode raw).traces = (union.decode raw).traces :=
  Traced.traces_bind_of_silent fun _ => rfl

end ClosedUnion

namespace OpenUnion

theorem traces_tryEach (name : String) (raw : Json) (failures : List (String × CodecError))
    (candidates : List (String × Case U)) :
    (tryEach name raw failures candidates).traces
      = (upToFirst (fun candidate => !(candidate.2.codec.decode raw).fails) candidates).flatMap fun candidate =>
          (candidate.2.codec.decode raw).traces := by
  induction candidates generalizing failures with
  | nil => rfl
  | cons head rest ih =>
    obtain ⟨candidate, case⟩ := head
    rw [flatMap_upToFirst_cons]
    cases h : (case.codec.decode raw).result with
    | ok payload =>
      have haccepts : (case.codec.decode raw).fails = false := by simp [Traced.fails, h]
      rw [tryEach_cons_of_ok h, haccepts]
      simp [Traced.traces]
    | error e =>
      have hrejects : (case.codec.decode raw).fails = true := by simp [Traced.fails, h]
      rw [tryEach_cons_of_error h, hrejects, ← ih (failures ++ [(candidate, e)])]
      -- The rejection itself is no trace.
      exact List.filter_append ..

theorem traces_codec_decode [Tagged U] {union : OpenUnion U} {raw : Json} :
    (union.codec.decode raw).traces = (union.decode raw).traces :=
  Traced.traces_bind_of_silent fun _ => rfl

end OpenUnion

end JsonWire
