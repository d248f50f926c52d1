/-
  JsonWire.Traced — a computation that reports events and may fail.

  The events come first and the result second: a failure keeps what was reported before
  it. Sequencing appends (`events_bind`), so the events of a run are those of its steps
  in order, up to and including the step that fails.
-/

import JsonWire.Event

namespace JsonWire

@[ext] structure Traced (α : Type) where
  events : List Event
  result : Except CodecError α

namespace Traced

variable {α β : Type}

instance : Monad Traced where
  pure a := ⟨[], .ok a⟩
  bind x next :=
    match x.result with
    | .ok a =>
      let y := next a
      ⟨x.events ++ y.events, y.result⟩
    | .error e => ⟨x.events, .error e⟩

def fail (error : CodecError) : Traced α := ⟨[], .error error⟩

def report (event : Event) : Traced Unit := ⟨[event], .ok ()⟩

def reportAll (events : List Event) : Traced Unit := ⟨events, .ok ()⟩

def ofExcept (result : Except CodecError α) : Traced α := ⟨[], result⟩

/-- A failure becomes a failure of the named place. -/
def inField (field : String) (x : Traced α) : Traced α :=
  ⟨x.events, x.result.mapError (.inField field)⟩

/-! ## Results and events of the pieces -/

@[simp] theorem events_pure (a : α) : (pure a : Traced α).events = [] := rfl

@[simp] theorem result_pure (a : α) : (pure a : Traced α).result = .ok a := rfl

@[simp] theorem events_fail (e : CodecError) : (fail e : Traced α).events = [] := rfl

@[simp] theorem result_fail (e : CodecError) : (fail e : Traced α).result = .error e := rfl

theorem result_bind (x : Traced α) (next : α → Traced β) :
    (x >>= next).result = x.result >>= fun a => (next a).result := by
  show (match x.result with | .ok a => _ | .error e => _ : Traced β).result = _
  split <;> simp_all [bind, Except.bind]

theorem events_bind (x : Traced α) (next : α → Traced β) :
    (x >>= next).events
      = x.events ++ match x.result with
          | .ok a => (next a).events
          | .error _ => [] := by
  show (match x.result with | .ok a => _ | .error e => _ : Traced β).events = _
  split <;> simp_all

instance : LawfulMonad Traced := LawfulMonad.mk' Traced
  (fun ⟨events, result⟩ => by cases result <;> simp [Functor.map])
  (fun _ _ => rfl)
  (fun x f g => by
    apply Traced.ext
    · simp only [events_bind, result_bind, List.append_assoc]
      cases x.result with
      | error e => simp [bind, Except.bind]
      | ok a => rfl
    · simp only [result_bind, bind_assoc])

@[simp] theorem events_inField (field : String) (x : Traced α) :
    (x.inField field).events = x.events := rfl

@[simp] theorem result_inField (field : String) (x : Traced α) :
    (x.inField field).result = x.result.mapError (.inField field) := rfl

end Traced

end JsonWire
