import EntitySchema.Grammar.Definition
import EntitySchema.Schema.Basic

/-!
# Schema/Declaration — entities from their declarations

An entity is declared by a record from field names to definitions, or by a text, the address of its
type.  Members whose name starts with `$` are settings, and a member that is neither a text nor a
list declares nothing.
-/

namespace EntitySchema

/-- Why a value declares no entity. -/
inductive DeclarationError where
  /-- The entity is declared by neither a mapping nor a text. -/
  | notMapping (entity : String)
  /-- A field of the entity has no valid definition. -/
  | badField (entity field : String) (cause : DefinitionError)
deriving DecidableEq

/-- The message of a declaration error. -/
def DeclarationError.message : DeclarationError → String
  | .notMapping entity =>
      "Invalid schema: entity '" ++ entity ++ "' must be a mapping or a type URI string"
  | .badField entity field cause =>
      "Invalid schema: " ++ entity ++ "." ++ field ++ ": " ++ cause.message

/-- Whether a member is a setting. -/
def isSetting (key : String) : Bool := key.toList.head? = some '$'

namespace Entity

/-- Adds what the member `key: value` declares. -/
def declareMember (e : Entity) (key : String) (value : Value) : Except DeclarationError Entity :=
  if isSetting key then
    match key, value with
    | "$type", .text uri => .ok { e with typeUri := some uri }
    | _, _ => .ok { e with directives := e.directives.insert key value }
  else
    match value with
    | .text _ | .list _ =>
        match Field.ofValue key value with
        | .ok f => .ok { e with fields := e.fields.insert key f }
        | .error cause => .error (.badField e.name key cause)
    | _ => .ok e

/-- Adds what the members declare, in order. -/
def declareMembers (e : Entity) : List (String × Value) → Except DeclarationError Entity
  | [] => .ok e
  | (key, value) :: ms =>
      match e.declareMember key value with
      | .ok e => declareMembers e ms
      | .error err => .error err

/-- The entity that a record declares. -/
def ofRecord (name : String) (definition : Record) : Except DeclarationError Entity :=
  declareMembers { name, definition } definition.entries

/-- The entity that a value declares. -/
def ofValue (name : String) : Value → Except DeclarationError Entity
  | .text uri => .ok { name, typeUri := some uri }
  | .null => ofRecord name .empty
  | .map ms => ofRecord name (.ofList ms)
  | _ => .error (.notMapping name)

end Entity

namespace Schema

/-- Adds an entity and the address of its type. -/
def addEntity (s : Schema) (name : String) (e : Entity) : Schema :=
  { entities := s.entities.insert name e
    typeUris := match e.typeUri with
      | some uri => s.typeUris.insert name uri
      | none => s.typeUris }

/-- Adds the entities that the members declare, in order. -/
def declareMembers (s : Schema) : List (String × Value) → Except DeclarationError Schema
  | [] => .ok s
  | (name, value) :: ms =>
      if isSetting name then declareMembers s ms
      else
        match Entity.ofValue name value with
        | .ok e => declareMembers (s.addEntity name e) ms
        | .error err => .error err

/-- The schema that a record declares, without inverse fields. -/
def declare (raw : Record) : Except DeclarationError Schema := declareMembers {} raw.entries

end Schema

end EntitySchema
