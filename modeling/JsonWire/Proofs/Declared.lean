/-
  JsonWire.Proofs.Declared — only what a shape declares matters.

  Reading asks a document for the member of each field in the order of the shape, and
  for nothing else. A constant is passed over whether or not it has a member
  (`decodeFields_constant`). So two documents that have the same under the name of every
  other field (`Agree`) are read alike: the order of their members, keys that no field
  declares and whatever stands for a constant decide neither the value nor the error
  (`only_declared_members_matter`).
-/

import JsonWire.Proofs.Patching

namespace JsonWire.Shape

variable {T : Type} {policy : NullPolicy} {fields : List (String × Access T)} {a b : List (String × Json)}

/-- Two documents have the same, or both nothing, under the name of every field with content. -/
def Agree (fields : List (String × Access T)) (a b : List (String × Json)) : Prop :=
  ∀ field ∈ fields, field.2.kind ≠ .constant → a.lookup field.1 = b.lookup field.1

/-- Under a name that is no field's, or only a constant's, the documents may differ. -/
theorem agree_of_ne {key : String} (constant : ∀ field ∈ fields, field.1 = key → field.2.kind = .constant)
    (h : ∀ name, name ≠ key → a.lookup name = b.lookup name) : Agree fields a b := by
  intro field hfield hkind
  apply h
  intro hname
  exact hkind (constant field hfield hname)

/-! ## Reading along the fields -/

theorem decodeFields_constant {members : List (String × Json)} {name : String} {access : Access T}
    (h : access.kind = .constant) (rest : List (String × Access T)) (target : T) :
    decodeFields policy members ((name, access) :: rest) target = decodeFields policy members rest target := by
  cases access with
  | constant literal =>
    cases hitem : members.lookup name with
    | none => exact decodeFields_missing hitem
    | some item =>
      have hfield : decodeField policy (.constant literal) item target = pure target := by
        simp [decodeField, refusesNull, Access.kind, Access.decode]
      simp only [decodeFields, hitem, hfield]
      rfl
  | _ => cases h

theorem decodeFields_congr (agree : Agree fields a b) (target : T) :
    decodeFields policy a fields target = decodeFields policy b fields target := by
  induction fields generalizing target with
  | nil => rfl
  | cons field rest ih =>
    obtain ⟨name, access⟩ := field
    have hrest : Agree rest a b := fun field hfield => agree field (List.mem_cons_of_mem _ hfield)
    by_cases hkind : access.kind = .constant
    · rw [decodeFields_constant hkind, decodeFields_constant hkind]
      exact ih hrest target
    · have hname : a.lookup name = b.lookup name := agree (name, access) List.mem_cons_self hkind
      rw [decodeFields, decodeFields, hname]
      split
      · exact ih hrest target
      · simp only [ih hrest]

theorem result_patch_congr {shape : Shape T} (agree : Agree shape.fields a b) (target : T) :
    (shape.patch (.obj a) target).result = (shape.patch (.obj b) target).result := by
  rw [result_patch_obj, result_patch_obj, decodeFields_congr agree]

/-! ## Two documents -/

/-- Objects that agree under the names of a shape's fields, constants aside, are read alike over every
target, and so over the default value: with the same result or the same error. What they hold besides, and
in which order, is never asked for; the error is that of the first field of the shape that does not read
its member. -/
theorem only_declared_members_matter [Inhabited T] (shape : Shape T) {a b : List (String × Json)}
    (agree : Agree shape.fields a b) :
    (∀ target, (shape.patch (.obj a) target).result = (shape.patch (.obj b) target).result
        ∧ shape.patched (.obj a) target = shape.patched (.obj b) target)
    ∧ (shape.decode (.obj a)).result = (shape.decode (.obj b)).result
    ∧ ∀ target e, (shape.patch (.obj a) target).result = .error e
        ↔ FirstFailure shape.nullPolicy b shape.fields e := by
  have same := result_patch_congr agree
  refine ⟨fun target => ⟨same target, ?_⟩, same default, fun target e => ?_⟩
  · rw [patched, patched, run_patchInto, run_patchInto, same target]
  · rw [same target, result_patch_obj]
    exact decodeFields_eq_error

namespace Told

/-- Of two members that are not read the document may have either in front: the error is that of the name,
the first field of the two. What stands for the constant, and a color, make no difference. -/
theorem name_is_blamed_in_any_order :
    let tagsFirst := [("tags", .str "good"), ("name", .bool true)]
    let nameFirst := [("name", .bool true), ("age", .null), ("color", .str "red"), ("tags", .str "good")]
    let e := CodecError.inField "name" (.unexpectedType "string" "boolean")
    Agree shape.fields tagsFirst nameFirst
    ∧ (shape.patch (.obj tagsFirst) rex).result = .error e
    ∧ (shape.patch (.obj nameFirst) rex).result = .error e
    ∧ shape.patched (.obj nameFirst) rex = rex := by
  intro tagsFirst nameFirst e
  have agree : Agree shape.fields tagsFirst nameFirst := by
    simp [Agree, shape, Sample.Pet.shape, Entries.ofList, Entries.insert, tagsFirst, nameFirst, Access.kind,
      List.lookup_cons]
  obtain ⟨same, -, -⟩ := only_declared_members_matter shape agree
  have failed : (shape.patch (.obj tagsFirst) rex).result = .error e := rfl
  have unchanged : shape.patched (.obj tagsFirst) rex = rex := rfl
  exact ⟨agree, failed, (same rex).1.symm.trans failed, (same rex).2.symm.trans unchanged⟩

end Told

end JsonWire.Shape
