import EntitySchema.Schema.Basic

/-!
# Snapshot/Models — typed models and libraries for them

Shapes, fields, entities and schemas are models: their members have names, types and an order.  A
library dumps models as data and reads them from data; which library that is, snapshots leave open.
A member says what its content is dumped as, and what it may be read from.
-/

namespace EntitySchema

/-- A way to dump the models of a type as data, and to read them from data. -/
structure Codec (α : Type) where
  /-- A model as data. -/
  dump : α → Value
  /-- The model that data describes, if it describes one. -/
  read? : Value → Option α

/-- A library for the models. -/
structure Models where
  /-- The shapes of fields. -/
  shape : Codec Shape
  /-- The fields of entities. -/
  field : Codec Field
  /-- The entities of schemas. -/
  entity : Codec Entity
  /-- Schemas. -/
  schema : Codec Schema

/-! ## Data -/

namespace Value

/-- A text or null. -/
def ofText? (o : Option String) : Value := (o.map .text).getD .null

/-- A whole number or null. -/
def ofInt? (o : Option Int) : Value := (o.map .int).getD .null

mutual

/-- The value as it is stored: a number that is not finite becomes null. -/
def stored : Value → Value
  | .number (.float x) => if x.isFinite then .number (.float x) else .null
  | .list xs => .list (storedList xs)
  | .map ms => .map (storedMembers ms)
  | v => v

/-- The values as they are stored. -/
def storedList : List Value → List Value
  | [] => []
  | x :: xs => stored x :: storedList xs

/-- The members as they are stored. -/
def storedMembers : List (String × Value) → List (String × Value)
  | [] => []
  | (k, x) :: ms => (k, stored x) :: storedMembers ms

end

end Value

/-! ## Members -/

/-- A member of a model, with its content. -/
structure Member where
  /-- The name of the member. -/
  name : String
  /-- What the content is dumped as. -/
  data : Value
  /-- What the content is read from. -/
  Reads : Value → Prop

namespace Member

/-- A member as it is dumped. -/
def entry (m : Member) : String × Value := (m.name, m.data)

/-- A member whose content is data: texts, numbers, truth values, null, or whatever is stored. -/
def plain (name : String) (data : Value) : Member := ⟨name, data, fun v => v = data⟩

@[simp] theorem name_plain (name : String) (data : Value) : (plain name data).name = name := rfl

@[simp] theorem data_plain (name : String) (data : Value) : (plain name data).data = data := rfl

variable {α : Type}

/-- A member whose content is a model. -/
def model (name : String) (c : Codec α) (a : α) : Member :=
  ⟨name, c.dump a, fun v => c.read? v = some a⟩

@[simp] theorem name_model (name : String) (c : Codec α) (a : α) :
    (model name c a).name = name := rfl

@[simp] theorem data_model (name : String) (c : Codec α) (a : α) :
    (model name c a).data = c.dump a := rfl

/-- A member whose content is a table of models. -/
def models (name : String) (c : Codec α) (t : Table String α) : Member where
  name := name
  data := .map (t.entries.map fun p => (p.1, c.dump p.2))
  Reads v := ∃ ms, v = .map ms ∧
    ms.map (fun m => (m.1, c.read? m.2)) = t.entries.map fun p => (p.1, some p.2)

@[simp] theorem name_models (name : String) (c : Codec α) (t : Table String α) :
    (models name c t).name = name := rfl

@[simp] theorem data_models (name : String) (c : Codec α) (t : Table String α) :
    (models name c t).data = .map (t.entries.map fun p => (p.1, c.dump p.2)) := rfl

end Member

/-- The members of a shape; the first one says its kind. -/
def Shape.members : Shape → List Member
  | .scalar => [.plain "kind" (.text "scalar")]
  | .parametric p =>
      [.plain "kind" (.text "parametric"), .plain "precision" (.ofInt? p.precision),
       .plain "scale" (.ofInt? p.scale), .plain "length" (.ofInt? p.length)]
  | .generic g =>
      [.plain "kind" (.text "generic"), .plain "key_type" (.ofText? g.keyType),
       .plain "value_type" (.ofText? g.valueType), .plain "element_type" (.ofText? g.elementType),
       .plain "struct_name" (.ofText? g.structName), .plain "enum_name" (.ofText? g.enumName),
       .plain "ref_target" (.ofText? g.refTarget)]
  | .relation r =>
      [.plain "kind" (.text "relation"), .plain "related_type" (.text r.relatedType),
       .plain "backref" (.ofText? r.backref),
       .plain "operator" (.ofText? (r.operator.map (·.symbol))),
       .plain "threshold" ((r.threshold.map .float).getD .null),
       .plain "union_types" ((r.unionTypes.map fun ts => .list (ts.map .text)).getD .null),
       .plain "prompt" (.ofText? r.prompt)]

/-- The members of a field. -/
def Field.members (shape : Codec Shape) (f : Field) : List Member :=
  [.plain "name" (.text f.name), .plain "type" (.text f.type),
   .plain "is_array" (.bool f.modifiers.array), .plain "is_optional" (.bool f.modifiers.optional),
   .plain "is_required" (.bool f.modifiers.required), .plain "is_unique" (.bool f.modifiers.unique),
   .plain "is_indexed" (.bool f.modifiers.indexed), .model "shape" shape f.shape]

/-- The members of an entity. -/
def Entity.members (field : Codec Field) (e : Entity) : List Member :=
  [.plain "name" (.text e.name), .models "fields" field e.fields,
   .plain "definition" (Value.ofRecord e.definition).stored, .plain "type_uri" (.ofText? e.typeUri),
   .plain "directives" (Value.ofRecord e.directives).stored]

/-- The members of a schema. -/
def Schema.members (entity : Codec Entity) (s : Schema) : List Member :=
  [.models "entities" entity s.entities, .plain "type_uris" (.ofTexts s.typeUris)]

end EntitySchema
