/-
  JsonWire.Proofs.Determined — what was read is determined by its contents.

  Reading only writes at places of the shape, so a result is `Reached` from the target by
  such writes. Copying all contents of a reached value over the target gives the value
  again (`copy_of_reached`): the last write at each place is all that is left of the
  writes. Two values that were read over one target and agree at every place of the
  shape are therefore equal (`eq_of_reached`), whatever else the type holds.
-/

import JsonWire.Proofs.Patching

namespace JsonWire.Shape

variable {T : Type} {fields : List (String × Access T)} {x y target : T}

/-- What writing at places of the fields makes of a target. -/
inductive Reached (fields : List (String × Access T)) (target : T) : T → Prop
  | start : Reached fields target target
  | write {x : T} {field : String × Access T} (content : field.2.Content) : field ∈ fields →
      Reached fields target x → Reached fields target (field.2.lens.set content x)

theorem reached_of_decodeFields {policy : NullPolicy} {members : List (String × Json)} {result : T}
    (h : (decodeFields policy members fields target).result = .ok result) : Reached fields target result := by
  have grown : ∀ later : List (String × Access T), (∀ field ∈ later, field ∈ fields) →
      ∀ x, Reached fields target x → (decodeFields policy members later x).result = .ok result →
      Reached fields target result := by
    intro later
    induction later with
    | nil =>
      intro _ x hx hrun
      cases hrun
      exact hx
    | cons field rest ih =>
      intro hmem x hx hrun
      obtain ⟨name, access⟩ := field
      have hrest := fun field hfield => hmem field (List.mem_cons_of_mem _ hfield)
      cases hitem : members.lookup name with
      | none =>
        rw [decodeFields_missing hitem] at hrun
        exact ih hrest x hx hrun
      | some item =>
        obtain ⟨content, -, hrun⟩ := (decodeFields_cons_eq_ok hitem).1 hrun
        exact ih hrest _ (.write content (hmem _ List.mem_cons_self) hx) hrun
  exact grown fields (fun _ h => h) target .start h

/-- The contents of a value written over a target. -/
def copy (fields : List (String × Access T)) (x target : T) : T :=
  fields.foldl (fun t field => field.2.lens.set (field.2.lens.get x) t) target

theorem copy_congr (h : ∀ field ∈ fields, field.2.lens.get x = field.2.lens.get y) :
    copy fields x target = copy fields y target := by
  induction fields generalizing target with
  | nil => rfl
  | cons field rest ih =>
    rw [copy, copy, List.foldl_cons, List.foldl_cons, h field List.mem_cons_self]
    exact ih fun field hfield => h field (List.mem_cons_of_mem _ hfield)

theorem copy_self (lawful : ∀ field ∈ fields, field.2.lens.Lawful) : copy fields x x = x := by
  induction fields with
  | nil => rfl
  | cons field rest ih =>
    rw [copy, List.foldl_cons, (lawful field List.mem_cons_self).set_get]
    exact ih fun field hfield => lawful field (List.mem_cons_of_mem _ hfield)

section Write

variable {place : Place T} (lawful : place.lens.Lawful) (apart : ∀ field ∈ fields, field.2.place.Apart place)
  (content : place.Content)

include lawful apart

/-- A write after copying is a write before it, to the source as well. -/
theorem set_copy : place.lens.set content (copy fields x target)
    = copy fields (place.lens.set content x) (place.lens.set content target) := by
  induction fields generalizing target with
  | nil => rfl
  | cons field rest ih =>
    rw [copy, copy, List.foldl_cons, List.foldl_cons]
    refine (ih fun field hfield => apart field (List.mem_cons_of_mem _ hfield)).trans (congrArg (copy rest _) ?_)
    rcases apart field List.mem_cons_self with rfl | hindependent
    · rw [lawful.set_set, lawful.get_set, lawful.set_set]
    · rw [hindependent.get_set_left, hindependent.set_comm]

/-- Copying undoes a write at one of the places. -/
theorem copy_set (hplace : ∃ field ∈ fields, field.2.place = place) :
    copy fields x (place.lens.set content target) = copy fields x target := by
  induction fields generalizing target with
  | nil =>
    obtain ⟨field, hfield, -⟩ := hplace
    cases hfield
  | cons field rest ih =>
    rw [copy, copy, List.foldl_cons, List.foldl_cons]
    by_cases hhead : field.2.place = place
    · subst hhead
      rw [lawful.set_set]
    · have hindependent := (apart field List.mem_cons_self).resolve_left hhead
      rw [hindependent.set_comm]
      refine ih (fun field hfield => apart field (List.mem_cons_of_mem _ hfield)) ?_
      obtain ⟨written, hwritten, hplace⟩ := hplace
      rcases List.mem_cons.1 hwritten with rfl | hwritten
      · exact absurd hplace hhead
      · exact ⟨written, hwritten, hplace⟩

end Write

section Separate

variable {shape : Shape T} (separate : shape.Separate)

include separate

theorem copy_of_reached (h : Reached shape.fields target x) : copy shape.fields x target = x := by
  induction h with
  | start => exact copy_self separate.lawful
  | @write x field content hfield _ ih =>
    have lawful := separate.lawful field hfield
    have apart := fun other hother => separate.apart other hother field hfield
    calc copy shape.fields (field.2.lens.set content x) target
        = copy shape.fields (field.2.lens.set content x) (field.2.lens.set content target) :=
          (copy_set lawful apart content ⟨field, hfield, rfl⟩).symm
      _ = field.2.lens.set content (copy shape.fields x target) := (set_copy lawful apart content).symm
      _ = field.2.lens.set content x := by rw [ih]

theorem eq_of_reached (hx : Reached shape.fields target x) (hy : Reached shape.fields target y)
    (h : ∀ field ∈ shape.fields, field.2.lens.get x = field.2.lens.get y) : x = y := by
  rw [← copy_of_reached separate hx, copy_congr h, copy_of_reached separate hy]

end Separate

end JsonWire.Shape
