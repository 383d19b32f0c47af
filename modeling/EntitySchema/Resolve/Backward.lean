import EntitySchema.Resolve.Call

/-!
# Resolve/Backward — fields filled from what exists

A backward fuzzy field is filled from a search alone: an array with all matches that reach the
threshold of the entity, a single field with the first match.  The candidates of a union are
searched in order, and the type that matched is noted beside the field.  What finds no match stays
unset, and nothing is ever created.
-/

namespace EntitySchema.Resolve

/-- How many matches a field asks for. -/
def backwardLimit (f : Field) : Int := if f.modifiers.array then 10 else 1

/-- The ids of the matches that reach the threshold. -/
def qualifyingIds (threshold : Number) : List Match → Except Failure (List Value)
  | [] => .ok []
  | m :: ms => do
      let score ← Record.require m Match.scoreKey
      if ← score.isAtLeast threshold then
        let id ← Record.require m Match.idKey
        let rest ← qualifyingIds threshold ms
        pure (id :: rest)
      else qualifyingIds threshold ms

/-- The ids of all matches. -/
def allIds : List Match → Except Failure (List Value)
  | [] => .ok []
  | m :: ms => do
      let id ← Record.require m Match.idKey
      let rest ← allIds ms
      pure (id :: rest)

/-- Fills a field with one of several candidates. -/
def fillFromUnion (b : Backend) (threshold : Number) (key query : String) (f : Field)
    (types : List String) (data : Record) : Run Record := do
  let r ← Search.search (Search.ofProvider b.searchFor)
    { threshold := some threshold, limit := some (backwardLimit f) } query types
  match r.found with
  | [] => pure data
  | m :: ms => do
      let filled ← if f.modifiers.array then Value.list <$> allIds (m :: ms)
        else Record.require m Match.idKey
      pure ((data.insert key filled).insert (key ++ "$matchedType") r.matchedType)

/-- Fills a field with a single target. -/
def fillFromTarget (b : Backend) (threshold : Number) (key query : String) (f : Field)
    (type : String) (data : Record) : Run Record := do
  let found ← b.searchFor type query threshold (backwardLimit f)
  match found with
  | [] => pure data
  | m :: ms => do
      let filled ← if f.modifiers.array then Value.list <$> qualifyingIds threshold (m :: ms)
        else Record.require m Match.idKey
      pure (data.insert key filled)

/-- Fills the field `f` under `key`, if it is backward fuzzy, unset and has a query. -/
def backwardField (b : Backend) (threshold : Number) (given data : Record) (key : String)
    (f : Field) : Run Record :=
  match f.relation? with
  | none => pure data
  | some r =>
      if r.operator ≠ some .backwardFuzzy ∨ isSet data key then pure data
      else
        match (hintText? given key).or (nonempty? r.prompt) with
        | none => pure data
        | some query =>
            if !b.canSearch then pure data
            else
              match r.unionTypes with
              | some (t :: ts) => fillFromUnion b threshold key query f (t :: ts) data
              | _ => fillFromTarget b threshold key query f r.relatedType data

/-- Fills the fields one after another. -/
def backwardFields (b : Backend) (threshold : Number) (given : Record) :
    Record → List (String × Field) → Run Record
  | data, [] => pure data
  | data, (key, f) :: fields => do
      let data ← backwardField b threshold given data key f
      backwardFields b threshold given data fields

/-- The data with the backward fuzzy fields of the entity filled. -/
def backward (b : Backend) (e : Entity) (data : Record) : Run Record :=
  backwardFields b (.float e.fuzzyThreshold) data data e.fields.entries

end EntitySchema.Resolve
