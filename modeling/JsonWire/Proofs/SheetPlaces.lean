/-
  JsonWire.Proofs.SheetPlaces — the fields of a shape over sheets lie in its sheets.

  Every field of a blueprint's shape is a constant or a slot of the sheet at some depth
  (`OnSheet`). A slot has one access only, two slots of a sheet are independent, and so
  are two sheets. The shape is therefore uniform, however its declarations repeat names
  and slots (`Blueprint.uniform_shape`).
-/

import JsonWire.Proofs.Places
import JsonWire.Sample.Blueprint

namespace JsonWire

namespace Sample

/-! ## Sheets -/

namespace Layered

variable {level depth : Nat} {sheet : Lens (Layered level) Sheet}

theorem lawful_own (level : Nat) : (own level).Lawful := by
  cases level with
  | zero => exact Lens.lawful_id
  | succ below => exact ⟨fun _ _ => rfl, fun _ => rfl, fun _ _ _ => rfl⟩

theorem lawful_base (level : Nat) : (base level).Lawful := ⟨fun _ _ => rfl, fun _ => rfl, fun _ _ _ => rfl⟩

/-- A sheet below is a sheet of what the layer inherits from. -/
theorem sheet?_succ {below : Nat} {lens : Lens (Layered (below + 1)) Sheet}
    (h : sheet? (below + 1) (depth + 1) = some lens) :
    ∃ inner, sheet? below depth = some inner ∧ (base below).comp inner = lens := by
  simpa [sheet?] using h

theorem lawful_sheet (h : sheet? level depth = some sheet) : sheet.Lawful := by
  induction level generalizing depth with
  | zero =>
    cases depth with
    | zero =>
      cases h
      exact lawful_own 0
    | succ depth => cases h
  | succ below ih =>
    cases depth with
    | zero =>
      cases h
      exact lawful_own (below + 1)
    | succ depth =>
      obtain ⟨inner, hinner, rfl⟩ := sheet?_succ h
      exact (lawful_base below).comp (ih hinner)

theorem independent_own_below {below : Nat} (inner : Lens (Layered below) Sheet) :
    (own (below + 1)).Independent ((base below).comp inner) :=
  ⟨fun _ _ => rfl, fun _ _ => rfl, fun _ _ _ => rfl⟩

/-- Two sheets at different depths are independent. -/
theorem independent_sheet {other : Nat} {otherSheet : Lens (Layered level) Sheet}
    (h : sheet? level depth = some sheet) (hother : sheet? level other = some otherSheet) (hne : depth ≠ other) :
    sheet.Independent otherSheet := by
  induction level generalizing depth other with
  | zero =>
    cases depth <;> cases other
    · exact absurd rfl hne
    · cases hother
    · cases h
    · cases h
  | succ below ih =>
    cases depth with
    | zero =>
      cases other with
      | zero => exact absurd rfl hne
      | succ other =>
        cases h
        obtain ⟨inner, -, rfl⟩ := sheet?_succ hother
        exact independent_own_below inner
    | succ depth =>
      obtain ⟨inner, hinner, rfl⟩ := sheet?_succ h
      cases other with
      | zero =>
        cases hother
        exact (independent_own_below inner).symm
      | succ other =>
        obtain ⟨otherInner, hotherInner, rfl⟩ := sheet?_succ hother
        have hdepth : depth ≠ other := fun e => hne (congrArg (· + 1) e)
        exact (ih hinner hotherInner hdepth).within (lawful_base below)

end Layered

/-! ## Slots -/

namespace Slot

variable {T C : Type}

theorem lawful_access {slot : Slot} {lens : Lens T slot.Content} (h : lens.Lawful) : (slot.access lens).lens.Lawful := by
  obtain ⟨name, kind, type⟩ := slot
  cases kind <;> exact h

theorem independent_access {slot other : Slot} {lens : Lens T slot.Content} {otherLens : Lens T other.Content}
    (h : lens.Independent otherLens) : (slot.access lens).lens.Independent (other.access otherLens).lens := by
  obtain ⟨name, kind, type⟩ := slot
  obtain ⟨otherName, otherKind, otherType⟩ := other
  cases kind <;> cases otherKind <;> exact h

theorem through_access (slot : Slot) (outer : Lens C T) (lens : Lens T slot.Content) :
    (slot.access lens).through outer = slot.access (outer.comp lens) := by
  obtain ⟨name, kind, type⟩ := slot
  cases kind <;> rfl

end Slot

/-- A constant, or a slot of one of the sheets. -/
inductive OnSheet (level : Nat) : Access (Layered level) → Prop
  | constant (literal : Json) : OnSheet level (.constant literal)
  | slot {depth : Nat} {sheet : Lens (Layered level) Sheet} (slot : Slot) :
      Layered.sheet? level depth = some sheet → OnSheet level (slot.access (sheet.comp (Sheet.lens slot)))

namespace OnSheet

variable {level : Nat} {access other : Access (Layered level)}

theorem lawful (h : OnSheet level access) : access.lens.Lawful := by
  cases h with
  | constant literal => exact Lens.lawful_nowhere
  | slot slot hsheet => exact Slot.lawful_access ((Layered.lawful_sheet hsheet).comp (Sheet.lawful_lens slot))

theorem same_or_independent (h : OnSheet level access) (hother : OnSheet level other) :
    access = other ∨ access.lens.Independent other.lens := by
  cases h with
  | constant literal => exact .inr (Lens.independent_nowhere other.lens)
  | @slot depth sheet slot hsheet =>
    cases hother with
    | constant literal => exact .inr (Lens.independent_nowhere _).symm
    | @slot otherDepth otherSheet otherSlot hotherSheet =>
      -- One slot of one sheet has one access; two accesses differ in the depth of the sheet or in the slot.
      by_cases hdepth : depth = otherDepth
      · subst hdepth
        obtain rfl : sheet = otherSheet := Option.some.inj (hsheet.symm.trans hotherSheet)
        by_cases hslot : slot = otherSlot
        · subst hslot
          exact .inl rfl
        · have hslots := (Sheet.independent_lens hslot).within (Layered.lawful_sheet hsheet)
          exact .inr (Slot.independent_access hslots)
      · have hsheets := Layered.independent_sheet hsheet hotherSheet hdepth
        exact .inr (Slot.independent_access (hsheets.comp _ _))

/-- At level zero a parent lies where the child does. -/
theorem through_id {access : Access (Layered 0)} (h : OnSheet 0 access) : OnSheet 0 (access.through Lens.id) := by
  cases h with
  | constant literal => exact .constant literal
  | slot slot hsheet =>
    rw [Slot.through_access]
    exact .slot slot hsheet

theorem through_base {below : Nat} {access : Access (Layered below)} (h : OnSheet below access) :
    OnSheet (below + 1) (access.through (Layered.base below)) := by
  cases h with
  | constant literal => exact .constant literal
  | @slot depth sheet slot hsheet =>
    have hlower : Layered.sheet? (below + 1) (depth + 1) = some ((Layered.base below).comp sheet) := by
      simp [Layered.sheet?, hsheet]
    rw [Slot.through_access]
    exact .slot slot hlower

end OnSheet

/-! ## Blueprints -/

mutual

theorem Blueprint.onSheet_shape (level : Nat) : (b : Blueprint) → ∀ field ∈ (b.shape level).fields, OnSheet level field.2
  | .mk _ _ steps => by
    rw [Blueprint.shape]
    refine Shape.forall_fields_build (List.forall_mem_cons.2 ⟨nofun, ?_⟩)
    exact onSheet_declarations level steps

theorem onSheet_declarations (level : Nat) : (steps : List BlueprintStep) →
    ∀ declaration ∈ declarations level steps, ∀ field ∈ declaration.fields, OnSheet level field.2
  | [] => by
    rw [declarations]
    nofun
  | step :: rest => by
    rw [declarations]
    exact List.forall_mem_cons.2 ⟨step.onSheet_declaration level, onSheet_declarations level rest⟩

theorem BlueprintStep.onSheet_declaration (level : Nat) : (step : BlueprintStep) →
    ∀ field ∈ (step.declaration level).fields, OnSheet level field.2
  | .field name slot => by
    rw [BlueprintStep.declaration]
    intro field hfield
    obtain rfl := List.mem_singleton.1 hfield
    have houtermost : Layered.sheet? level 0 = some (Layered.own level) := by
      cases level <;> rfl
    exact .slot slot houtermost
  | .constant name literal => by
    rw [BlueprintStep.declaration]
    intro field hfield
    obtain rfl := List.mem_singleton.1 hfield
    exact .constant literal
  | .inherits parent => by
    cases level with
    | zero =>
      rw [BlueprintStep.declaration]
      intro field hfield
      obtain ⟨inherited, hinherited, rfl⟩ := List.mem_map.1 hfield
      exact (parent.onSheet_shape 0 inherited hinherited).through_id
    | succ below =>
      rw [BlueprintStep.declaration]
      intro field hfield
      obtain ⟨inherited, hinherited, rfl⟩ := List.mem_map.1 hfield
      exact (parent.onSheet_shape below inherited hinherited).through_base

end

theorem Blueprint.uniform_shape (b : Blueprint) (level : Nat) : (b.shape level).Uniform where
  lawful field hfield := (b.onSheet_shape level field hfield).lawful
  same_or_independent a ha c hc := (b.onSheet_shape level a ha).same_or_independent (b.onSheet_shape level c hc)

end Sample

end JsonWire
