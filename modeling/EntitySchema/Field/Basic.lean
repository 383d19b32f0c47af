import EntitySchema.Field.Operator
import EntitySchema.Number.Binary64

/-!
# Field/Basic — fields of an entity

What every field has (a name, a type, modifiers) stands beside its shape, and what only one kind of
field has stands inside the shape: sizes in a parametric one, type arguments in a generic one, a
target in a relation.  Types are names, some of them built-in.
-/

namespace EntitySchema

/-! ## Built-in types -/

/-- The names of the built-in types. -/
def primitiveTypes : List String :=
  ["string", "text", "markdown", "url", "email", "number", "int", "long", "bigint", "float",
   "double", "decimal", "boolean", "date", "datetime", "timestamp", "timestamptz", "time", "uuid",
   "binary", "json", "object", "array", "varchar", "char", "fixed", "map", "struct", "enum", "ref",
   "list"]

/-- Whether `name` is a built-in type. -/
def isPrimitive (name : String) : Bool := primitiveTypes.contains name

/-- The full name of a type: `bool` is short for `boolean`. -/
def unaliased (name : List Char) : List Char :=
  if name = ['b', 'o', 'o', 'l'] then ['b', 'o', 'o', 'l', 'e', 'a', 'n'] else name

/-! ## Fields -/

/-- The modifiers of a field. -/
structure Modifiers where
  /-- The field holds a list. -/
  array : Bool := false
  /-- The field may be left unset. -/
  optional : Bool := false
  /-- The field must be set. -/
  required : Bool := false
  /-- No two entities have the same value. -/
  unique : Bool := false
  /-- The field is indexed. -/
  indexed : Bool := false
deriving DecidableEq, Inhabited

/-- The sizes of a parametric type. -/
structure Parametric where
  /-- Count of digits. -/
  precision : Option Int := none
  /-- Count of digits behind the point. -/
  scale : Option Int := none
  /-- Length in characters or bytes. -/
  length : Option Int := none
deriving DecidableEq

/-- The arguments of a generic type. -/
structure Generic where
  /-- Type of the keys of a map. -/
  keyType : Option String := none
  /-- Type of the values of a map. -/
  valueType : Option String := none
  /-- Type of the elements of a list. -/
  elementType : Option String := none
  /-- Name of a structure. -/
  structName : Option String := none
  /-- Name of an enumeration. -/
  enumName : Option String := none
  /-- Target of a reference. -/
  refTarget : Option String := none
deriving DecidableEq

/-- The target of a relation and how it is found. -/
structure Relation where
  /-- Name of the target entity; of a union, its first candidate. -/
  relatedType : String
  /-- Name of the inverse field on the target. -/
  backref : Option String := none
  /-- The operator; an implicit relation has none. -/
  operator : Option Operator := none
  /-- The least similarity of a fuzzy match. -/
  threshold : Option Binary64 := none
  /-- The candidates of a union, in order. -/
  unionTypes : Option (List String) := none
  /-- The text in front of the operator. -/
  prompt : Option String := none
deriving DecidableEq

/-- What depends on the kind of a field. -/
inductive Shape where
  /-- A primitive or free text. -/
  | scalar
  /-- A primitive with sizes. -/
  | parametric (sizes : Parametric)
  /-- A type with type arguments. -/
  | generic (arguments : Generic)
  /-- A relation to another entity. -/
  | relation (target : Relation)
deriving DecidableEq

/-- A field of an entity. -/
structure Field where
  /-- The name of the field. -/
  name : String
  /-- The name of its type. -/
  type : String
  /-- Its modifiers. -/
  modifiers : Modifiers := {}
  /-- Its shape. -/
  shape : Shape := .scalar
deriving DecidableEq

namespace Shape

/-- The word for the kind of a shape. -/
def kind : Shape → String
  | .scalar => "scalar"
  | .parametric _ => "parametric"
  | .generic _ => "generic"
  | .relation _ => "relation"

/-- The target of a relation. -/
def relation? : Shape → Option Relation
  | .relation r => some r
  | _ => none

/-- The sizes of a parametric type. -/
def sizes : Shape → Parametric
  | .parametric p => p
  | _ => {}

/-- The arguments of a generic type. -/
def arguments : Shape → Generic
  | .generic g => g
  | _ => {}

end Shape

namespace Field

/-- The relation a field declares. -/
def relation? (f : Field) : Option Relation := f.shape.relation?

/-- Whether a field is a relation. -/
def isRelation (f : Field) : Bool := f.relation?.isSome

/-- The name of the related entity. -/
def relatedType? (f : Field) : Option String := f.relation?.map (·.relatedType)

/-- The name of the inverse field. -/
def backref? (f : Field) : Option String := f.relation?.bind (·.backref)

/-- The operator of a relation. -/
def operator? (f : Field) : Option Operator := f.relation?.bind (·.operator)

/-- The threshold of a relation. -/
def threshold? (f : Field) : Option Binary64 := f.relation?.bind (·.threshold)

/-- The candidates of a union. -/
def unionTypes? (f : Field) : Option (List String) := f.relation?.bind (·.unionTypes)

/-- The prompt of a relation. -/
def prompt? (f : Field) : Option String := f.relation?.bind (·.prompt)

/-- The direction of a field: forward unless its operator says otherwise. -/
def direction (f : Field) : Direction := (f.operator?.map (·.direction)).getD .forward

/-- The match mode of a field: exact unless its operator says otherwise. -/
def matchMode (f : Field) : MatchMode := (f.operator?.map (·.matchMode)).getD .exact

end Field

end EntitySchema
