import EntitySchema.Dependency.Order

/-!
# Validation — design problems of a schema

Beyond dangling explicit references, a schema can require entities in a circle, which makes it
useless, or hold declarations that have no effect, which is only worth a warning.
-/

namespace EntitySchema

/-- A declaration that has no effect or will not do what it seems to. -/
inductive Warning where
  /-- An entity requires another one of its own type. -/
  | ownType (entity : String)
  /-- A relation without an operator leads nowhere. -/
  | dangling (entity field target : String)
  /-- A relation has a threshold, though it is matched exactly. -/
  | ignoredThreshold (entity field : String) (operator : Operator)
  /-- A backref names a field that was declared for something else. -/
  | shadowed (related backref entity field : String)
deriving DecidableEq

/-- The message of a warning. -/
def Warning.message : Warning → String
  | .ownType entity => "Entity '" ++ entity ++ "' requires an entity of its own type."
  | .dangling entity field target =>
      "Field '" ++ entity ++ "." ++ field ++ "' refers to '" ++ target
        ++ "', which is not defined in the schema."
  | .ignoredThreshold entity field operator =>
      "Field '" ++ entity ++ "." ++ field ++ "' sets a threshold on exact operator '"
        ++ operator.symbol ++ "'; it is ignored."
  | .shadowed related backref entity field =>
      "Backref '" ++ related ++ "." ++ backref ++ "' of '" ++ entity ++ "." ++ field
        ++ "' is shadowed by an explicit field."

/-- Entities that require each other in a circle; the first one is repeated at the end. -/
structure RequiredCycle where
  /-- The entities on the cycle. -/
  path : List String
deriving DecidableEq

/-- The message of a required cycle. -/
def RequiredCycle.message (c : RequiredCycle) : String :=
  "Required relation cycle detected: " ++ " -> ".intercalate c.path ++ "."

/-- What is wrong with the design of a schema. -/
structure Findings where
  /-- What makes the schema useless. -/
  errors : List RequiredCycle
  /-- What is only odd. -/
  warnings : List Warning
deriving DecidableEq

/-- Whether there are errors. -/
def Findings.hasErrors (f : Findings) : Bool := f.errors ≠ []

namespace Schema

/-- What `check` finds in the fields, in order of declaration. -/
def forFields {α : Type} (s : Schema) (check : Entity → Field → Option α) : List α :=
  s.entities.values.flatMap fun e => e.fields.values.filterMap (check e)

/-- A relation without an operator whose target the schema does not have. -/
def dangling? (s : Schema) (e : Entity) (f : Field) : Option Warning := do
  let r ← f.relation?
  if r.operator.isNone ∧ !s.hasEntity r.relatedType then
    pure (.dangling e.name f.name r.relatedType)
  else none

/-- An exact relation with a threshold. -/
def ignoredThreshold? (e : Entity) (f : Field) : Option Warning := do
  let o ← f.operator?
  if f.threshold?.isSome ∧ o.matchMode = .exact then pure (.ignoredThreshold e.name f.name o)
  else none

/-- A backref whose name belongs to a field with another target. -/
def shadowed? (s : Schema) (e : Entity) (f : Field) : Option Warning := do
  let r ← f.relation?
  let backref ← r.backref
  if backref = "" ∨ r.relatedType = "" then none
  else
    let existing ← (← s.entity? r.relatedType).fields.get? backref
    if existing.relatedType? = some e.name then none
    else pure (.shadowed r.relatedType backref e.name f.name)

/-- The required cycles, those of a single entity included. -/
def requiredCycles (s : Schema) : List (List String) := s.dependencyGraph.cycles true

/-- A cycle through a single entity. -/
def ownType? : List String → Option Warning
  | [name, _] => some (.ownType name)
  | _ => none

/-- A cycle through more than one entity. -/
def longCycle? : List String → Option RequiredCycle
  | [_, _] => none
  | path => some ⟨path⟩

/-- What is wrong with the design of a schema. -/
def validate (s : Schema) : Findings :=
  { errors := s.requiredCycles.filterMap longCycle?
    warnings := s.requiredCycles.filterMap ownType? ++ s.forFields s.dangling?
      ++ s.forFields ignoredThreshold? ++ s.forFields s.shadowed? }

end Schema

end EntitySchema
