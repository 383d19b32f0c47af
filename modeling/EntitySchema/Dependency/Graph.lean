import EntitySchema.Schema.Basic

/-!
# Dependency/Graph — what has to exist before an entity

The target of a required forward relation has to exist first: a *hard* dependency.  The target of a
fuzzy or optional relation can wait: a *soft* one.  A relation without an operator counts as a
forward one, unless it is the inverse side of a pair of fields (`Schema.isInverseSide`); backward
relations depend on nothing.
-/

namespace EntitySchema.Dependency

/-- A relation field, seen from the graph. -/
structure Edge where
  /-- The entity with the field. -/
  source : String
  /-- The target of the field. -/
  target : String
  /-- Whether the field holds a list. -/
  array : Bool
  /-- The operator of the field, also where it is implicit. -/
  operator : Operator
  /-- The name of the field, with `?` behind the name of an optional one. -/
  label : String
deriving DecidableEq

/-- Whether an edge is optional: its label ends in `?`. -/
def Edge.isOptional (e : Edge) : Bool := e.label.toList.getLast? = some '?'

/-- An entity type with its dependencies. -/
structure Node where
  /-- The name of the type. -/
  name : String
  /-- The types it depends on. -/
  hard : List String := []
  /-- The types it depends on softly. -/
  soft : List String := []
  /-- The types that depend on it. -/
  dependents : List String := []
deriving DecidableEq

/-- The types of a schema and their relations. -/
structure Graph where
  /-- The types under their names. -/
  nodes : Table String Node := .empty
  /-- The relations, in order of declaration. -/
  edges : List Edge := []
deriving DecidableEq

/-- The names with `name` at the end, unless it is there already. -/
def addName (names : List String) (name : String) : List String :=
  if names.contains name then names else names ++ [name]

namespace Graph

/-- The graph with a node under `name`. -/
def ensure (g : Graph) (name : String) : Graph :=
  if g.nodes.contains name then g else { g with nodes := g.nodes.insert name { name } }

/-- Adds a soft dependency. -/
def addSoft (g : Graph) (source target : String) : Graph :=
  { g with nodes := g.nodes.modify source fun n => { n with soft := addName n.soft target } }

/-- Adds a hard dependency to both of its ends. -/
def addHard (g : Graph) (source target : String) : Graph :=
  { g with
    nodes := (g.nodes.modify source fun n => { n with hard := addName n.hard target }).modify target
      fun n => { n with dependents := addName n.dependents source } }

/-- The hard dependencies of a type. -/
def hard (g : Graph) (name : String) : List String := ((g.nodes.get? name).map (·.hard)).getD []

/-- The types that depend on a type. -/
def dependents (g : Graph) (name : String) : List String :=
  ((g.nodes.get? name).map (·.dependents)).getD []

/-- The edges from `source` to `target`. -/
def edgesBetween (g : Graph) (source target : String) : List Edge :=
  g.edges.filter fun e => e.source = source ∧ e.target = target

/-- The hard dependencies of a type; with `skipOptional`, without those that only optional fields
lead to. -/
def dependencies (g : Graph) (skipOptional : Bool) (name : String) : List String :=
  if skipOptional then
    (g.hard name).filter fun d => !(g.edgesBetween name d).all (·.isOptional)
  else g.hard name

end Graph

end Dependency

namespace Schema

open Dependency

/-- Whether the field `f` of `owner` is the inverse side of a pair: an array whose backref names a
field that points back by name and is declared with an operator or holds a single value. -/
def isInverseSide (s : Schema) (owner : String) (f : Field) : Bool :=
  match f.relation? with
  | none => false
  | some r =>
      let backref := r.backref.getD ""
      if !f.modifiers.array || backref = "" || r.relatedType = "" then false
      else
        match (s.entity? r.relatedType).bind (·.fields.get? backref) with
        | none => false
        | some partner =>
            partner.backref? = some f.name && partner.relatedType? = some owner
              && (partner.operator?.isSome || !partner.modifiers.array)

/-- The operator that a relation field counts with. -/
def effectiveOperator (s : Schema) (owner : String) (f : Field) : Operator :=
  f.operator?.getD (if s.isInverseSide owner f then .backwardExact else .forwardExact)

/-- The edge of the field `f` under `key`, if it has a target that is no built-in type. -/
def edge? (s : Schema) (owner key : String) (f : Field) : Option Edge := do
  let r ← f.relation?
  if r.relatedType = "" ∨ isPrimitive r.relatedType then none
  else
    some
      { source := owner, target := r.relatedType, array := f.modifiers.array
        operator := s.effectiveOperator owner f
        label := if f.modifiers.optional then key ++ "?" else key }

/-- Adds an edge and the dependency that comes with it. -/
def linkEdge (g : Graph) (optional : Bool) (e : Edge) : Graph :=
  let g := { g with edges := g.edges ++ [e] }.ensure e.target
  if e.operator.matchMode = .fuzzy ∨ optional then g.addSoft e.source e.target
  else if e.operator = .forwardExact then g.addHard e.source e.target
  else g

/-- Adds the edges of the entity `owner`. -/
def linkEntity (s : Schema) (g : Graph) (owner : String) (e : Entity) : Graph :=
  e.fields.entries.foldl
    (fun g (key, f) =>
      match s.edge? owner key f with
      | some edge => linkEdge g f.modifiers.optional edge
      | none => g)
    g

/-- The dependency graph of a schema: its entities in order, then the targets it does not have. -/
def dependencyGraph (s : Schema) : Graph :=
  s.entities.entries.foldl (fun g (owner, e) => s.linkEntity g owner e)
    { nodes := s.entities.mapValues fun name _ => { name } }

end Schema

end EntitySchema
