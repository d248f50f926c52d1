/-
  JsonWire.Lens — a place in a value that can be read and replaced.

  A lens is a pair of functions; that they agree is a predicate of its own
  (`Lens.Lawful`), and lawful lenses compose (`Lawful.comp`). Two lenses of one type
  are `Independent` when writing through one leaves what the other reads.
-/

namespace JsonWire

structure Lens (S F : Type) where
  get : S → F
  set : F → S → S

namespace Lens

variable {S F G : Type}

/-- The whole value. -/
def id : Lens S S := ⟨fun s => s, fun s _ => s⟩

/-- A place inside a place. -/
def comp (outer : Lens S F) (inner : Lens F G) : Lens S G where
  get s := inner.get (outer.get s)
  set g s := outer.set (inner.set g (outer.get s)) s

structure Lawful (lens : Lens S F) : Prop where
  get_set : ∀ f s, lens.get (lens.set f s) = f
  set_get : ∀ s, lens.set (lens.get s) s = s
  set_set : ∀ f f' s, lens.set f (lens.set f' s) = lens.set f s

structure Independent (a : Lens S F) (b : Lens S G) : Prop where
  get_set_left : ∀ g s, a.get (b.set g s) = a.get s
  get_set_right : ∀ f s, b.get (a.set f s) = b.get s
  set_comm : ∀ f g s, a.set f (b.set g s) = b.set g (a.set f s)

theorem lawful_id : (id : Lens S S).Lawful := ⟨fun _ _ => rfl, fun _ => rfl, fun _ _ _ => rfl⟩

theorem Lawful.comp {outer : Lens S F} {inner : Lens F G} (ho : outer.Lawful) (hi : inner.Lawful) :
    (outer.comp inner).Lawful where
  get_set g s := by simp [Lens.comp, ho.get_set, hi.get_set]
  set_get s := by simp [Lens.comp, ho.set_get, hi.set_get]
  set_set g g' s := by simp [Lens.comp, ho.get_set, ho.set_set, hi.set_set]

end Lens

end JsonWire
