import EntitySchema.Schema.Basic

/-!
# Schema/EdgeRecord — relations as records of their own

Every relation field with a target is described by one edge record.  A backward relation leads from
its target to the declaring entity.
-/

namespace EntitySchema

/-- How many entities stand at either end of an edge. -/
inductive Cardinality where
  /-- An array that has an inverse. -/
  | manyToMany
  /-- An array without an inverse. -/
  | oneToMany
  /-- A single value. -/
  | manyToOne
deriving DecidableEq

/-- The word for a cardinality. -/
def Cardinality.word : Cardinality → String
  | .manyToMany => "many-to-many"
  | .oneToMany => "one-to-many"
  | .manyToOne => "many-to-one"

/-- A relation field as a record. -/
structure EdgeRecord where
  /-- The entity the edge leads from. -/
  source : String
  /-- The name of the field. -/
  name : String
  /-- The entity the edge leads to. -/
  target : String
  /-- The name of the inverse field. -/
  backref : Option String
  /-- How many entities stand at either end. -/
  cardinality : Cardinality
  /-- The direction of the field. -/
  direction : Direction
  /-- The match mode of the field. -/
  matchMode : MatchMode
deriving DecidableEq

/-- The cardinality of a relation field: an empty backref counts as none. -/
def Field.cardinality (f : Field) : Cardinality :=
  if f.modifiers.array then
    if (f.backref?.getD "") = "" then .oneToMany else .manyToMany
  else .manyToOne

/-- The record of the field `f` under `name` of the entity `owner`, if it has a target. -/
def Field.edgeRecord? (f : Field) (owner name : String) : Option EdgeRecord :=
  match f.relatedType? with
  | none => none
  | some related =>
      if related = "" then none
      else
        let (source, target) := match f.direction with
          | .backward => (related, owner)
          | .forward => (owner, related)
        some
          { source, name, target, backref := f.backref?, cardinality := f.cardinality
            direction := f.direction, matchMode := f.matchMode }

/-- The records of the relation fields of an entity, in order. -/
def Entity.edgeRecords (e : Entity) (owner : String) : List EdgeRecord :=
  e.fields.entries.filterMap fun (name, f) => f.edgeRecord? owner name

end EntitySchema
