import EntitySchema.Schema.Basic

/-!
# Schema/Backref — inverse fields

A relation that names a backref asks for an inverse field on its target.  The inverse is an array
relation back to the declaring entity; a field that is already there, declared or inverse, is never
replaced.  Entities are visited in order, each with the fields it has when its turn comes.
-/

namespace EntitySchema

/-- An inverse field that was added. -/
structure Inverse where
  /-- The entity with the inverse field. -/
  target : String
  /-- The name of the inverse field. -/
  field : String
  /-- The entity that asked for it. -/
  source : String
deriving DecidableEq

/-- The inverse field `backref` of the field `f` of the entity `source`. -/
def Field.inverse (f : Field) (source backref : String) : Field :=
  { name := backref, type := source, modifiers := { array := true }
    shape := .relation { relatedType := source, backref := some f.name } }

namespace Schema

/-- The inverse field that the field `f` of `source` asks for and does not find. -/
def missingInverse? (s : Schema) (source : String) (f : Field) : Option Inverse := do
  let r ← f.relation?
  let backref ← r.backref
  let target ← s.entity? r.relatedType
  if r.relatedType = "" ∨ backref = "" ∨ target.fields.contains backref then none
  else pure ⟨r.relatedType, backref, source⟩

/-- Adds a field to the entity under `name`. -/
def addField (s : Schema) (name : String) (f : Field) : Schema :=
  { s with
    entities := s.entities.modify name fun e => { e with fields := e.fields.insert f.name f } }

/-- Adds the inverse fields that the fields `fs` of `source` ask for, in order. -/
def completeFields (source : String) : List Field → Schema → Schema × List Inverse
  | [], s => (s, [])
  | f :: fs, s =>
      match s.missingInverse? source f with
      | none => completeFields source fs s
      | some i =>
          let (s, is) := completeFields source fs (s.addField i.target (f.inverse source i.field))
          (s, i :: is)

/-- Visits the entities under `names`, in order. -/
def completeEntities : List String → Schema → Schema × List Inverse
  | [], s => (s, [])
  | name :: names, s =>
      let fields := ((s.entity? name).map (·.fields.values)).getD []
      let (s, is) := completeFields name fields s
      let (s, is') := completeEntities names s
      (s, is ++ is')

/-- The schema with all inverse fields, and those that were added, in order. -/
def complete (s : Schema) : Schema × List Inverse := completeEntities s.entityNames s

/-- The schema with all inverse fields. -/
def withInverses (s : Schema) : Schema := s.complete.1

end Schema

end EntitySchema
