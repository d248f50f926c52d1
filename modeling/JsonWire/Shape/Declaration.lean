/-
  JsonWire.Shape.Declaration — shapes from declarations.

  A declaration names a field, takes over the fields of a parent shape through the place
  where the parent lies, or sets the null policy. Redeclaring a name replaces the field
  in its place; a new name goes to the end. The last policy counts, and a parent's policy
  is not taken over.
-/

import JsonWire.Shape.Basic

namespace JsonWire

inductive Declaration (T : Type) : Type 1 where
  | field (name : String) (access : Access T)
  | inherits {P : Type} (parent : Shape P) (lens : Lens T P)
  | nulls (policy : NullPolicy)

namespace Declaration

variable {T : Type}

def required {F : Type} (name : String) (codec : Codec F) (lens : Lens T F) : Declaration T :=
  .field name (.required lens codec)

def optional {F : Type} (name : String) (codec : Codec F) (lens : Lens T (Option F)) :
    Declaration T :=
  .field name (.optional lens codec)

def nullable {F : Type} (name : String) (codec : Codec F) (lens : Lens T (Presence F)) :
    Declaration T :=
  .field name (.nullable lens codec)

def constant (name : String) (literal : Json) : Declaration T := .field name (.constant literal)

/-- The fields a declaration brings, in order. -/
def fields : Declaration T → List (String × Access T)
  | .field name access => [(name, access)]
  | .inherits parent lens => parent.fields.map fun (name, access) => (name, access.through lens)
  | .nulls _ => []

/-- The policy after a declaration. -/
def policyAfter (policy : NullPolicy) : Declaration T → NullPolicy
  | .nulls policy => policy
  | _ => policy

end Declaration

def Shape.build {T : Type} (name : String) (declarations : List (Declaration T)) : Shape T where
  name := name
  fields := Entries.ofList (declarations.flatMap Declaration.fields)
  nullPolicy := declarations.foldl Declaration.policyAfter .treatAsAbsent
  names_nodup := Entries.keys_ofList_nodup _

end JsonWire
