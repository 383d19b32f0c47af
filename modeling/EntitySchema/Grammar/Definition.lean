import EntitySchema.Grammar.Arrow
import EntitySchema.Grammar.Plain
import EntitySchema.Value.Basic

/-!
# Grammar/Definition — fields from their definitions

A field is defined by a text, or by a list of one text, which makes it an array.
-/

namespace EntitySchema

/-- Why a value defines no field. -/
inductive DefinitionError where
  /-- A list that does not hold exactly one text. -/
  | notOneText (field : String)
  /-- Neither a text nor a list. -/
  | notText (field : String) (kind : String)
deriving DecidableEq

/-- The message of a definition error. -/
def DefinitionError.message : DefinitionError → String
  | .notOneText field => "Field '" ++ field ++ "': array definitions must hold exactly one string"
  | .notText field kind => "Field '" ++ field ++ "': definition must be a string, got " ++ kind

namespace Grammar

/-- The field that a definition with an operator declares. -/
def relationField (name : String) (arrow : Arrow) : Field :=
  let (base, modifiers) := stripModifiers arrow.target.toList
  let (type, backref) := splitBackref base
  let related := match arrow.unionTypes with
    | some (first :: _) => first
    | _ => .ofList (unaliased type)
  { name, type := related, modifiers
    shape := .relation
      { relatedType := related
        backref := backref.map .ofList
        operator := some arrow.operator
        threshold := arrow.threshold
        unionTypes := arrow.unionTypes
        prompt := arrow.prompt } }

end Grammar

namespace Field

/-- The field that a text declares. -/
def parse (name : String) (definition : String) : Field :=
  match Arrow.parse? definition with
  | some arrow => Grammar.relationField name arrow
  | none => Grammar.plainField name (Text.trim definition.toList)

/-- The same field, as an array. -/
def asArray (f : Field) : Field := { f with modifiers := { f.modifiers with array := true } }

/-- The field that a value declares. -/
def ofValue (name : String) : Value → Except DefinitionError Field
  | .text s => .ok (parse name s)
  | .list [.text s] => .ok (parse name s).asArray
  | .list _ => .error (.notOneText name)
  | v => .error (.notText name v.kind)

end Field

end EntitySchema
