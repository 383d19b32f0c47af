import EntitySchema.Schema.Declaration

/-!
# Schema/System — entities that describe the schema itself

Every schema can carry three built-in entities: `Noun` for entity types, `Verb` for actions and
`Edge` for relations.  They replace entities of the same name.
-/

namespace EntitySchema

/-- The built-in entities with the definitions of their fields. -/
def systemDefinitions : List (String × List (String × String)) :=
  [("Noun",
    [("name", "string"), ("singular", "string"), ("plural", "string"), ("slug", "string"),
     ("slugPlural", "string"), ("description", "string?"), ("properties", "json?"),
     ("relationships", "json?"), ("actions", "json?"), ("events", "json?"),
     ("metadata", "json?")]),
   ("Verb",
    [("action", "string"), ("actor", "string?"), ("act", "string?"), ("activity", "string?"),
     ("result", "string?"), ("reverse", "json?"), ("inverse", "string?"),
     ("description", "string?")]),
   ("Edge",
    [("from", "string"), ("name", "string"), ("to", "string"), ("backref", "string?"),
     ("cardinality", "string"), ("direction", "string"), ("matchMode", "string?"),
     ("required", "boolean?"), ("description", "string?")])]

/-- The entity with the given field definitions. -/
def Entity.ofDefinitions (name : String) (definitions : List (String × String)) : Entity :=
  { name
    fields := .ofList (definitions.map fun (k, d) => (k, Field.parse k d))
    definition := .ofList (definitions.map fun (k, d) => (k, .text d)) }

/-- Whether `name` belongs to a built-in entity. -/
def isSystemEntity (name : String) : Bool := systemDefinitions.any fun p => p.1 = name

/-- The schema with the built-in entities. -/
def Schema.withSystemEntities (s : Schema) : Schema :=
  { s with
    entities := systemDefinitions.foldl
      (fun t (name, definitions) => t.insert name (.ofDefinitions name definitions)) s.entities }

end EntitySchema
