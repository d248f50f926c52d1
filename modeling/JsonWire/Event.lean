/-
  JsonWire.Event — what a codec reports beside its result.

  Events never change a result. They tell of input that is passed over: a key that no
  field declares, a candidate of an open union that does not fit, a tag that no variant
  has.
-/

import JsonWire.Error
import JsonWire.Text.Quoted

namespace JsonWire

inductive Event where
  | unknownKey (shape key : String)
  | candidateRejected (union candidate : String) (error : CodecError)
  | unknownDiscriminator (union : String) (tag : Option String)

namespace Event

inductive Level where
  | trace
  | debug
  deriving DecidableEq

def Level.name : Level → String
  | .trace => "TRACE"
  | .debug => "DEBUG"

def level : Event → Level
  | .unknownKey .. => .trace
  | .candidateRejected .. => .debug
  | .unknownDiscriminator .. => .debug

def message : Event → String
  | .unknownKey .. => "ignoring unknown key"
  | .candidateRejected .. => "candidate rejected"
  | .unknownDiscriminator .. => "unknown discriminator"

/-- The details by name, as the log shows them. -/
def details : Event → List (String × String)
  | .unknownKey shape key => [("shape", shape), ("key", key)]
  | .candidateRejected union candidate error =>
    [("union", union), ("candidate", candidate), ("error", error.message)]
  | .unknownDiscriminator union tag =>
    [("union", union), ("tag", match tag with
      | some tag => s!"Some({Text.quoted tag})"
      | none => "None")]

/-- All that the log shows of an event. -/
def shown (event : Event) : Level × String × List (String × String) := (event.level, event.message, event.details)

/-- A rejection is shown with the text of its error. -/
@[simp] theorem shown_candidateRejected (union candidate : String) (error : CodecError) :
    (candidateRejected union candidate error).shown
      = (.debug, "candidate rejected", [("union", union), ("candidate", candidate), ("error", error.message)]) := rfl

end Event

end JsonWire
