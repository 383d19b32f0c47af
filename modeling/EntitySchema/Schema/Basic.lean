import EntitySchema.Field.Basic
import EntitySchema.Value.Basic

/-!
# Schema/Basic — entities and schemas

A schema is a table of entities, an entity a table of fields, both in order of declaration.  An
entity keeps the record that declared it, since settings such as its fuzzy threshold are read there.
-/

namespace EntitySchema

/-- An entity type. -/
@[ext] structure Entity where
  /-- The name of the entity. -/
  name : String
  /-- Its fields under their names, in order of declaration. -/
  fields : Table String Field := .empty
  /-- The record that declared the entity. -/
  definition : Record := .empty
  /-- The address of the type elsewhere. -/
  typeUri : Option String := none
  /-- The settings among the members of the definition. -/
  directives : Record := .empty
deriving DecidableEq

/-- Entities with the addresses of their types. -/
@[ext] structure Schema where
  /-- The entities under their names, in order of declaration. -/
  entities : Table String Entity := .empty
  /-- The addresses of the types that have one. -/
  typeUris : Table String String := .empty
deriving DecidableEq, Inhabited

namespace Entity

/-- The fuzzy threshold of an entity that sets none: three quarters. -/
def defaultFuzzyThreshold : Binary64 := .ofMagnitude (.ofRatio 3 4)

/-- The fuzzy threshold: what the definition says, if that is a number. -/
def fuzzyThreshold (e : Entity) : Binary64 :=
  match e.definition.get? "$fuzzyThreshold" with
  | some (.number n) => n.toBinary64
  | _ => defaultFuzzyThreshold

/-- The relation fields, in order. -/
def relationFields (e : Entity) : List Field := e.fields.values.filter (·.isRelation)

end Entity

namespace Schema

/-- The names of the entities, in order. -/
def entityNames (s : Schema) : List String := s.entities.keys

/-- The entity under `name`. -/
def entity? (s : Schema) (name : String) : Option Entity := s.entities.get? name

/-- Whether there is an entity under `name`. -/
def hasEntity (s : Schema) (name : String) : Bool := s.entities.contains name

/-- The relation fields of the entity under `name`. -/
def relationFields (s : Schema) (name : String) : List Field :=
  ((s.entity? name).map (·.relationFields)).getD []

/-- The names of the entities with a relation to `name`. -/
def referencingEntities (s : Schema) (name : String) : List String :=
  (s.entities.entries.filter fun p =>
    p.2.fields.values.any fun f => f.relatedType? = some name).map Prod.fst

end Schema

end EntitySchema
