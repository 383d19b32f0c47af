import EntitySchema.Diff.Field
import EntitySchema.Diff.Rename
import EntitySchema.Schema.Basic

/-!
# Diff/Schema — how entities and schemas changed

Entities and fields are matched by their names.  An entity in both versions is modified if a field
came, went or changed.
-/

namespace EntitySchema

/-- How an entity changed. -/
structure EntityDiff where
  /-- The name of the entity. -/
  entity : String
  /-- The fields that came, in their new order. -/
  added : List Field
  /-- The fields that went, in their old order. -/
  removed : List Field
  /-- The fields that changed, in their old order. -/
  changed : List FieldChange
deriving DecidableEq

/-- How a schema changed. -/
structure SchemaDiff where
  /-- The entities that came, in their new order. -/
  added : List String
  /-- The entities that went, in their old order. -/
  removed : List String
  /-- The entities that changed, in their old order. -/
  modified : List EntityDiff
deriving DecidableEq

/-- The values under keys that the other table does not have. -/
def Table.without {α β : Type} (t : Table String α) (other : Table String β) : List (String × α) :=
  t.entries.filter fun p => !other.contains p.1

namespace EntityDiff

/-- How the entity under `name` changed. -/
def between (name : String) (old new : Entity) : EntityDiff :=
  { entity := name
    added := (new.fields.without old.fields).map (·.2)
    removed := (old.fields.without new.fields).map (·.2)
    changed := old.fields.entries.filterMap fun (key, f) =>
      (new.fields.get? key).bind (Field.change? key f) }

/-- Whether the entity changed at all. -/
def hasChanges (d : EntityDiff) : Bool := d.added ≠ [] || d.removed ≠ [] || d.changed ≠ []

/-- The fields that may have been renamed. -/
def renames (d : EntityDiff) : List Rename := Rename.proposals d.removed d.added

end EntityDiff

namespace SchemaDiff

/-- How a schema changed. -/
def between (old new : Schema) : SchemaDiff :=
  { added := (new.entities.without old.entities).map (·.1)
    removed := (old.entities.without new.entities).map (·.1)
    modified := old.entities.entries.filterMap fun (name, e) =>
      (new.entity? name).bind fun e' =>
        let d := EntityDiff.between name e e'
        if d.hasChanges then some d else none }

/-- Whether the schema changed at all. -/
def hasChanges (d : SchemaDiff) : Bool := d.added ≠ [] || d.removed ≠ [] || d.modified ≠ []

end SchemaDiff

end EntitySchema
