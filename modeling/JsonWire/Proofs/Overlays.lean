/-
  JsonWire.Proofs.Overlays — two patches one after another are one patch.

  Reading writes whole contents: what a field gets does not depend on what it held
  (`readField`), and where places are independent no other field touches it. So after a
  patch each field holds what it read from its own member or, without one, what it held
  (`Disjoint.get_of_decodeFields`). The members of two documents laid over each other
  (`Entries.overlay`) give every field the last of the two that it would have read, and
  all that a patch changes are fields (`Disjoint.patch_overlay`).

  Of the document laid over itself, and of two that have no field in common laid over
  each other in either order, the shape sees the same. Repeating a patch and exchanging
  two such patches are therefore cases of the one law.
-/

import JsonWire.Proofs.Declared
import JsonWire.Proofs.Determined
import JsonWire.Proofs.SamplePlaces

namespace JsonWire

/-! ## Entries laid over others -/

namespace Entries

universe u

variable {α : Type u}

/-- The entries of a base, each with the value that the top has under its key if it has one, and behind them
the entries of the top under other keys. -/
def overlay (base top : List (String × α)) : List (String × α) :=
  base.map (fun entry => (entry.1, (top.lookup entry.1).getD entry.2)) ++ top.filter (·.1 ∉ keys base)

theorem lookup_map_value (f : String → α → α) (entries : List (String × α)) (key : String) :
    (entries.map fun entry => (entry.1, f entry.1 entry.2)).lookup key = (entries.lookup key).map (f key) := by
  induction entries with
  | nil => rfl
  | cons entry rest ih =>
    obtain ⟨name, value⟩ := entry
    by_cases hkey : key = name
    · subst hkey
      simp
    · rw [List.map_cons, List.lookup_cons, List.lookup_cons, beq_false_of_ne hkey]
      exact ih

theorem lookup_overlay (base top : List (String × α)) (key : String) :
    (overlay base top).lookup key = (top.lookup key).or (base.lookup key) := by
  have hbase := lookup_map_value (fun name value => (top.lookup name).getD value) base key
  have htop := lookup_filter (fun name => decide (name ∉ keys base)) top key
  rw [overlay, List.lookup_append, hbase, htop]
  cases hvalue : base.lookup key with
  | none =>
    have hnot : key ∉ keys base := lookup_eq_none_iff.1 hvalue
    simp [hnot]
  | some value => cases top.lookup key <;> simp

end Entries

namespace Shape

variable {T : Type} {shape : Shape T} {policy : NullPolicy} {members a b : List (String × Json)}
  {t t₁ t₂ target result : T}

/-! ## One patch -/

theorem Disjoint.spares (disjoint : shape.Disjoint) {before after : List (String × Access T)}
    {field : String × Access T} (hsplit : shape.fields = before ++ field :: after) :
    ∀ other ∈ before ++ after, other.2.lens.Spares field.2.lens := by
  have hindependent := disjoint.independent
  rw [hsplit] at hindependent
  obtain ⟨-, hfield, hbefore⟩ := List.pairwise_append.1 hindependent
  intro other hother
  rcases List.mem_append.1 hother with hother | hother
  · exact (hbefore other hother field List.mem_cons_self).spares
  · exact ((List.pairwise_cons.1 hfield).1 other hother).symm.spares

/-- After a patch a field holds what it read from its member; without one it holds what it held. -/
theorem Disjoint.get_of_decodeFields (disjoint : shape.Disjoint)
    (h : (decodeFields policy members shape.fields target).result = .ok result) {name : String} {access : Access T}
    (hfield : (name, access) ∈ shape.fields) :
    (∀ item, members.lookup name = some item → (readField policy access item).result = .ok (access.lens.get result))
    ∧ (members.lookup name = none → access.lens.get result = access.lens.get target) := by
  have lawful := disjoint.lawful (name, access) hfield
  obtain ⟨before, after, hsplit⟩ := List.append_of_mem hfield
  have spares := disjoint.spares hsplit
  rw [hsplit] at h
  refine ⟨fun item hitem => ?_, fun hnone => ?_⟩
  · exact get_of_last h lawful hitem fun later hlater _ => spares later (List.mem_append_right _ hlater)
  · refine get_of_spared h fun other hother hmember => ?_
    rcases List.mem_append.1 hother with hother | hother
    · exact spares other (List.mem_append_left _ hother)
    · rcases List.mem_cons.1 hother with rfl | hother
      · exact absurd hnone hmember
      · exact spares other (List.mem_append_right _ hother)

/-- A document that can be read over one value can be read over any other. -/
theorem exists_patch_of_patch {raw : Json} (h : (shape.patch raw t).result = .ok result) (other : T) :
    ∃ found, (shape.patch raw other).result = .ok found := by
  refine Traced.exists_ok_of_forall_ne_error fun e he => ?_
  rw [shape.patch_eq_error_of_target raw other t, h] at he
  cases he

/-! ## Two patches -/

theorem Reached.trans {fields : List (String × Access T)} (h : Reached fields t t₁) (h₂ : Reached fields t₁ t₂) :
    Reached fields t t₂ := by
  induction h₂ with
  | start => exact h
  | write content hfield _ ih => exact .write content hfield ih

theorem Reads.overlay {fields : List (String × Access T)} (ha : Reads policy a fields) (hb : Reads policy b fields) :
    Reads policy (Entries.overlay a b) fields := by
  intro field hfield item hitem
  rw [Entries.lookup_overlay, Option.or_eq_some_iff] at hitem
  rcases hitem with hitem | ⟨-, hitem⟩
  · exact hb field hfield item hitem
  · exact ha field hfield item hitem

/-- One document over another does in one patch what the two do in turn. -/
theorem Disjoint.patch_overlay (disjoint : shape.Disjoint) (ha : (shape.patch (.obj a) t).result = .ok t₁)
    (hb : (shape.patch (.obj b) t₁).result = .ok t₂) :
    (shape.patch (.obj (Entries.overlay a b)) t).result = .ok t₂ := by
  rw [result_patch_obj] at ha hb ⊢
  have reads := (reads_of_decodeFields ha).overlay (reads_of_decodeFields hb)
  obtain ⟨t', h⟩ := exists_ok_of_reads reads t
  have same : ∀ field ∈ shape.fields, field.2.lens.get t' = field.2.lens.get t₂ := by
    intro field hfield
    obtain ⟨read, kept⟩ := disjoint.get_of_decodeFields h hfield
    obtain ⟨readA, keptA⟩ := disjoint.get_of_decodeFields ha hfield
    obtain ⟨readB, keptB⟩ := disjoint.get_of_decodeFields hb hfield
    rw [Entries.lookup_overlay] at read kept
    cases hitemB : b.lookup field.1 with
    | some item => exact Except.ok.inj ((read item (by simp [hitemB])).symm.trans (readB item hitemB))
    | none =>
      rw [keptB hitemB]
      cases hitemA : a.lookup field.1 with
      | some item => exact Except.ok.inj ((read item (by simp [hitemB, hitemA])).symm.trans (readA item hitemA))
      | none => exact (kept (by simp [hitemB, hitemA])).trans (keptA hitemA).symm
  have reached := (reached_of_decodeFields ha).trans (reached_of_decodeFields hb)
  obtain rfl := eq_of_reached disjoint.separate (reached_of_decodeFields h) reached same
  exact h

theorem agree_overlay_self (fields : List (String × Access T)) : Agree fields (Entries.overlay a a) a := by
  intro field _ _
  rw [Entries.lookup_overlay, Option.or_self]

/-- With no field in common it makes no difference which document lies over which. -/
theorem agree_overlay_comm {fields : List (String × Access T)}
    (apart : ∀ field ∈ fields, field.2.kind ≠ .constant → field.1 ∈ Entries.keys a → field.1 ∉ Entries.keys b) :
    Agree fields (Entries.overlay a b) (Entries.overlay b a) := by
  intro field hfield hkind
  rw [Entries.lookup_overlay, Entries.lookup_overlay]
  by_cases hmem : field.1 ∈ Entries.keys a
  · rw [Entries.lookup_eq_none_of_not_mem (apart field hfield hkind hmem), Option.none_or, Option.or_none]
  · rw [Entries.lookup_eq_none_of_not_mem hmem, Option.none_or, Option.or_none]

/-- Where places are independent, patches compose. Two documents that can be read one after another can be read
as one, the second laid over the first, and that gives the same. Reading a document a second time changes
nothing. If the two have no field in common, constants aside, they can be read in the other order as well and
give the same. -/
theorem patches_compose (shape : Shape T) (disjoint : shape.Disjoint) {a b : List (String × Json)} {t t₁ t₂ : T}
    (ha : (shape.patch (.obj a) t).result = .ok t₁) (hb : (shape.patch (.obj b) t₁).result = .ok t₂) :
    (shape.patch (.obj (Entries.overlay a b)) t).result = .ok t₂
    ∧ (shape.patch (.obj a) t₁).result = .ok t₁
    ∧ ((∀ field ∈ shape.fields, field.2.kind ≠ .constant → field.1 ∈ Entries.keys a → field.1 ∉ Entries.keys b) →
        ∃ u, (shape.patch (.obj b) t).result = .ok u ∧ (shape.patch (.obj a) u).result = .ok t₂) := by
  have composed := disjoint.patch_overlay ha hb
  refine ⟨composed, ?_, fun apart => ?_⟩
  · obtain ⟨t', htwice⟩ := exists_patch_of_patch ha t₁
    have honce := disjoint.patch_overlay ha htwice
    rw [result_patch_congr (agree_overlay_self shape.fields), ha] at honce
    obtain rfl := Except.ok.inj honce
    exact htwice
  · obtain ⟨u, hu⟩ := exists_patch_of_patch hb t
    obtain ⟨t', ht'⟩ := exists_patch_of_patch ha u
    have hswapped := disjoint.patch_overlay hu ht'
    rw [← result_patch_congr (agree_overlay_comm apart), composed] at hswapped
    obtain rfl := Except.ok.inj hswapped
    exact ⟨u, hu, ht'⟩

end Shape

namespace Sample.Dog

open Shape.Told (rex)

/-- A birthday that takes away the nickname and a new name with yet another age are one document, in which the
second age counts. Without an age the new name may come first; that both have the constant makes no difference. -/
theorem birthday_and_name_are_one_patch :
    let birthday := [("species", .null), ("age", .num (.int 4 (by decide))), ("nickname", .null)]
    let renamed := [("species", .str "cat"), ("name", .str "Bo"), ("age", .num (.int 5 (by decide)))]
    let both := [("species", .str "cat"), ("age", .num (.int 5 (by decide))), ("nickname", .null), ("name", .str "Bo")]
    let named := [("species", .str "cat"), ("name", .str "Bo")]
    let older : Dog := { rex with age := ⟨4, by decide⟩, pet := { rex.pet with nickname := none } }
    let oldest : Dog := { older with age := ⟨5, by decide⟩, pet := { older.pet with name := "Bo" } }
    shape.Disjoint
    ∧ (shape.patch (.obj birthday) rex).result = .ok older ∧ (shape.patch (.obj renamed) older).result = .ok oldest
    ∧ (shape.patch (.obj both) rex).result = .ok oldest
    ∧ (shape.patch (.obj birthday) older).result = .ok older
    ∧ (∀ field ∈ shape.fields, field.2.kind ≠ .constant →
        field.1 ∈ Entries.keys birthday → field.1 ∉ Entries.keys named)
    ∧ ∃ bo, (shape.patch (.obj named) rex).result = .ok bo
        ∧ (shape.patch (.obj birthday) bo).result = .ok { older with pet := { older.pet with name := "Bo" } } := by
  intro birthday renamed both named older oldest
  have first : (shape.patch (.obj birthday) rex).result = .ok older := rfl
  have second : (shape.patch (.obj renamed) older).result = .ok oldest := rfl
  have apart : ∀ field ∈ shape.fields, field.2.kind ≠ .constant →
      field.1 ∈ Entries.keys birthday → field.1 ∉ Entries.keys named := by
    simp [shape, Pet.shape, Entries.ofList, Entries.insert, Entries.keys, birthday, named, Access.kind]
  obtain ⟨composed, repeated, -⟩ := Shape.patches_compose shape disjoint_shape first second
  obtain ⟨-, -, exchanged⟩ := Shape.patches_compose shape disjoint_shape (b := named) first rfl
  exact ⟨disjoint_shape, first, second, composed, repeated, apart, exchanged apart⟩

end Sample.Dog

end JsonWire
