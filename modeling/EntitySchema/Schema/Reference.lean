import EntitySchema.Schema.Basic

/-!
# Schema/Reference — the explicit references of a schema

Only relations with an operator are checked.  A field may always refer to its own entity.  A union
of foreign types alone is not checked; once one candidate is an entity of the schema, every other
must be one too.
-/

namespace EntitySchema

/-- A reference to an entity that the schema does not have. -/
structure ReferenceError where
  /-- The entity with the reference. -/
  entity : String
  /-- The field with the reference. -/
  field : String
  /-- The entity that is missing. -/
  missingType : String
deriving DecidableEq

/-- The message of a reference error. -/
def ReferenceError.message (e : ReferenceError) : String :=
  "Invalid schema: " ++ e.entity ++ "." ++ e.field ++ " references non-existent type '"
    ++ e.missingType ++ "'"

namespace Schema

/-- The entities that a relation with an operator misses, declared by the entity named `owner`. -/
def missingTypes (s : Schema) (owner : String) (r : Relation) : List String :=
  if r.operator.isNone ∨ r.relatedType = owner then []
  else
    match r.unionTypes with
    | some (t :: ts) =>
        if (t :: ts).any s.hasEntity then
          (t :: ts).filter fun t => !s.hasEntity t && t != owner
        else []
    | _ => if s.hasEntity r.relatedType then [] else [r.relatedType]

/-- The reference errors of a field of `e`. -/
def fieldErrors (s : Schema) (e : Entity) (f : Field) : List ReferenceError :=
  match f.relation? with
  | some r => (s.missingTypes e.name r).map fun t => ⟨e.name, f.name, t⟩
  | none => []

/-- The reference errors of a schema, in order of declaration. -/
def referenceErrors (s : Schema) : List ReferenceError :=
  s.entities.values.flatMap fun e => e.fields.values.flatMap (s.fieldErrors e)

end Schema

end EntitySchema
