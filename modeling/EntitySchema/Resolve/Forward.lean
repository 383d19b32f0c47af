import EntitySchema.Resolve.Backward
import EntitySchema.Resolve.Pending
import EntitySchema.Value.Display

/-!
# Resolve/Forward — fields filled by reuse or generation

A forward fuzzy field is filled with an existing entity if a match reaches the threshold of the
field, or else of the entity; otherwise a new one is generated and created.  Every hint of an array
field is resolved on its own, and no entity is reused twice within a field.  The relations are left
pending, to be stored with the entity.
-/

namespace EntitySchema.Resolve

/-- A relation to store once the entity is. -/
structure Pending where
  /-- The relation field. -/
  field : String
  /-- The type of the related entity. -/
  type : String
  /-- The id of the related entity. -/
  id : Value
  /-- The score, if the entity was found by a search. -/
  similarity : Option Value
deriving DecidableEq

/-- Data with the relations to store. -/
structure Forward where
  /-- The data. -/
  data : Record
  /-- The relations, in order. -/
  pending : List Pending
deriving DecidableEq

/-- What forward resolution knows from start to end. -/
structure Setting where
  /-- What answers the calls. -/
  backend : Backend
  /-- The schema. -/
  schema : Schema
  /-- For whom payloads are generated. -/
  context : Context
  /-- Creates what a generated payload carries. -/
  resolveNested : Entity → Value → Run Record

namespace Setting

/-- The payload as it is created: marked as generated for the field. -/
def marked (st : Setting) (field : String) (payload : Record) : Record :=
  ((payload.insert "$generated" (.bool true)).insert "$generatedBy"
    (.text st.context.parentId)).insert "$sourceField" (.text field)

/-- Generates an entity for a field and creates it; an entity of an unknown type is not created. -/
def generate (st : Setting) (field type hint : String) : Run (Option Pending) := do
  let generated ← st.backend.generatePayload type hint st.context
  match st.schema.entity? type with
  | none => pure none
  | some e => do
      let payload ← st.resolveNested e generated
      let id ← st.backend.createEntity type (st.marked field payload)
      pure (some ⟨field, type, id, none⟩)

/-- Links a match to a field and marks it as reused. -/
def reuse (st : Setting) (field type : String) (id score : Value) : Run Pending := do
  st.backend.updateEntity type id
    (.ofList [("$generated", .bool false), ("$similarity", score)])
  pure ⟨field, type, id, some score⟩

/-- The id and score of the first match that reaches the threshold and is not used. -/
def firstUnused (threshold : Number) (used : List Value) :
    List Match → Except Failure (Option (Value × Value))
  | [] => .ok none
  | m :: ms => do
      let score ← Record.require m Match.scoreKey
      if ← score.isAtLeast threshold then
        let id ← Record.require m Match.idKey
        checkHashable id
        if used.any id.same then firstUnused threshold used ms
        else pure (some (id, score))
      else firstUnused threshold used ms

/-- The id and score of the best match, if it reaches the threshold. -/
def best (threshold : Number) : List Match → Except Failure (Option (Value × Value))
  | [] => .ok none
  | m :: _ => do
      let score ← Record.require m Match.scoreKey
      if ← score.isAtLeast threshold then
        let id ← Record.require m Match.idKey
        pure (some (id, score))
      else pure none

/-! ## Arrays -/

/-- The hints in a value: the items of a list, or a single value that is filled. -/
def hintsOf : Option Value → List Value
  | some (.list hints) => hints
  | some v => if v.isFilled then [v] else []
  | none => []

/-- What is searched for because of a hint. -/
def hintQuery (key : String) (hint : Value) : String := if hint.isFilled then hint.display else key

/-- The ids and relations that an array field has so far, and the ids it reused. -/
structure Links where
  /-- The ids, in order of their hints. -/
  ids : List Value := []
  /-- The relations, in order. -/
  pending : List Pending := []
  /-- The ids of reused entities. -/
  used : List Value := []

/-- A generated entity among the links; an id that is null is not stored. -/
def Links.addGenerated (l : Links) : Option Pending → Links
  | none => l
  | some p =>
      { l with
        ids := if p.id = .null then l.ids else l.ids ++ [p.id]
        pending := l.pending ++ [p] }

/-- Links what one hint of an array field asks for. -/
def linkHint (st : Setting) (key field type : String) (threshold : Number) (l : Links)
    (hint : Value) : Run Links := do
  let query := hintQuery key hint
  let found ← st.backend.searchFor type query threshold 10
  match ← firstUnused threshold l.used found with
  | some (id, score) => do
      let p ← st.reuse field type id score
      pure { ids := l.ids ++ [id], pending := l.pending ++ [p], used := l.used ++ [id] }
  | none => do
      let p ← st.generate field type query
      pure (l.addGenerated p)

/-- Links what the hints of an array field ask for, one after another. -/
def linkHints (st : Setting) (key field type : String) (threshold : Number) :
    Links → List Value → Run Links
  | l, [] => pure l
  | l, hint :: hints => do
      let l ← st.linkHint key field type threshold l hint
      st.linkHints key field type threshold l hints

/-! ## Fields -/

/-- Fills an array field. -/
def fillArray (st : Setting) (key : String) (f : Field) (type : String) (threshold : Number)
    (r : Forward) : Run Forward := do
  let l ← st.linkHints key f.name type threshold {}
    (hintsOf (st.context.parentData.get? (key ++ "Hint")))
  pure ⟨r.data.insert key (.list l.ids), r.pending ++ l.pending⟩

/-- What is searched for to fill a single field: its hint, its prompt, or its name. -/
def singleQuery (st : Setting) (key : String) (r : Relation) : String :=
  ((hintText? st.context.parentData key).or (nonempty? r.prompt)).getD key

/-- Fills a single field. -/
def fillSingle (st : Setting) (key : String) (f : Field) (rel : Relation) (threshold : Number)
    (r : Forward) : Run Forward := do
  let query := st.singleQuery key rel
  let found ← st.backend.searchFor rel.relatedType query threshold 5
  match ← best threshold found with
  | some (id, score) => do
      let p ← st.reuse f.name rel.relatedType id score
      let data := ((r.data.insert key id).insert (key ++ "$matched") (.bool true)).insert
        (key ++ "$score") score
      pure ⟨data, r.pending ++ [p]⟩
  | none => do
      match ← st.generate f.name rel.relatedType query with
      | none => pure r
      | some p =>
          let data := if p.id = .null then r.data else r.data.insert key p.id
          pure ⟨data, r.pending ++ [p]⟩

/-- The relations of an array field that is set already. -/
def keptRelations (key type : String) : Option Value → List Pending
  | some (.list ids) => ids.map fun id => ⟨key, type, id, none⟩
  | _ => []

/-- Resolves the field `f` under `key`, if it is forward fuzzy. -/
def forwardField (st : Setting) (default : Number) (r : Forward) (key : String) (f : Field) :
    Run Forward :=
  match f.relation? with
  | none => pure r
  | some rel =>
      if rel.operator ≠ some .forwardFuzzy then pure r
      else if isSet r.data key then
        pure
          { r with
            pending := r.pending ++
              if f.modifiers.array then keptRelations key rel.relatedType (r.data.get? key) else [] }
      else
        let threshold := (rel.threshold.map Number.float).getD default
        if f.modifiers.array then st.fillArray key f rel.relatedType threshold r
        else st.fillSingle key f rel threshold r

/-- Resolves the fields one after another. -/
def forwardFields (st : Setting) (default : Number) : Forward → List (String × Field) → Run Forward
  | r, [] => pure r
  | r, (key, f) :: fields => do
      let r ← st.forwardField default r key f
      st.forwardFields default r fields

end Setting

/-- The data with the forward fuzzy fields of the entity filled, and the relations to store. -/
def forward (st : Setting) (e : Entity) : Run Forward :=
  st.forwardFields (.float e.fuzzyThreshold) ⟨st.context.parentData, []⟩ e.fields.entries

/-- The setting in which payloads are resolved by `nestedPending`. -/
def Setting.of (backend : Backend) (schema : Schema) (context : Context) : Setting :=
  { backend, schema, context, resolveNested := nestedPending backend schema }

end EntitySchema.Resolve
