import EntitySchema.Schema.Backref
import EntitySchema.Schema.Declaration
import EntitySchema.Schema.Reference

/-!
# Schema/Assembly — a schema from a record

A record is declared, checked and completed: every entity is read, the first dangling explicit
reference refuses the schema, and inverse fields are added last.
-/

namespace EntitySchema

/-- Why a record is no schema. -/
inductive SchemaError where
  /-- An entity has no valid declaration. -/
  | declaration (cause : DeclarationError)
  /-- An explicit reference leads nowhere. -/
  | reference (cause : ReferenceError)
deriving DecidableEq

namespace SchemaError

/-- The message of a schema error. -/
def message : SchemaError → String
  | .declaration cause => cause.message
  | .reference cause => cause.message

/-- The entity at fault. -/
def entity : SchemaError → String
  | .declaration (.notMapping entity) => entity
  | .declaration (.badField entity _ _) => entity
  | .reference cause => cause.entity

/-- The field at fault, if one is. -/
def field : SchemaError → String
  | .declaration (.notMapping _) => ""
  | .declaration (.badField _ field _) => field
  | .reference cause => cause.field

/-- The entity that is missing, if one is. -/
def missingType : SchemaError → String
  | .declaration _ => ""
  | .reference cause => cause.missingType

end SchemaError

/-- A step of assembling a schema. -/
inductive AssemblyStep where
  /-- All entities are declared. -/
  | declared (count : Nat)
  /-- An inverse field was added. -/
  | inverse (added : Inverse)
deriving DecidableEq

namespace Schema

/-- Refuses a schema with a dangling explicit reference. -/
def checkReferences (s : Schema) : Except SchemaError Unit :=
  match s.referenceErrors with
  | [] => .ok ()
  | e :: _ => .error (.reference e)

/-- The schema of a record with the steps taken; `check` tells whether references are checked. -/
def assembleSteps (raw : Record) (check : Bool) : Except SchemaError Schema × List AssemblyStep :=
  match declare raw with
  | .error e => (.error (.declaration e), [])
  | .ok s =>
      let declared := AssemblyStep.declared s.entities.size
      match if check then s.checkReferences else .ok () with
      | .error e => (.error e, [declared])
      | .ok () => (.ok s.complete.1, declared :: s.complete.2.map .inverse)

/-- The schema of a record; `check` tells whether references are checked. -/
def assemble (raw : Record) (check : Bool := true) : Except SchemaError Schema :=
  (assembleSteps raw check).1

end Schema

end EntitySchema
