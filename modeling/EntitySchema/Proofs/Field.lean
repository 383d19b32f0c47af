import EntitySchema.Field.Basic

/-!
# Proofs/Field — the candidates of a field

A relation is a union of candidates or has one target; `Field.candidates` lists what it may point at
in both cases.
-/

namespace EntitySchema

namespace Field

/-- The types a relation field may be filled from: the candidates of a union, or the related
type. -/
def candidates (f : Field) : List String :=
  match f.unionTypes? with
  | some (t :: ts) => t :: ts
  | _ => f.relatedType?.toList

/-- Whether a relation field has the candidates of a union. -/
def isUnion (f : Field) : Bool :=
  match f.unionTypes? with
  | some (_ :: _) => true
  | _ => false

variable {f : Field} {r : Relation}

theorem candidates_of_union (hr : f.relation? = some r) {type : String} {types : List String}
    (h : r.unionTypes = some (type :: types)) :
    f.isUnion = true ∧ f.candidates = type :: types := by
  have htypes : f.unionTypes? = some (type :: types) := by
    rw [unionTypes?, hr, Option.bind_some, h]
  rw [isUnion, candidates, htypes]
  exact ⟨rfl, rfl⟩

theorem candidates_of_not_union (hr : f.relation? = some r)
    (h : ∀ type types, r.unionTypes = some (type :: types) → False) :
    f.isUnion = false ∧ f.candidates = [r.relatedType] := by
  have htypes : f.unionTypes? = r.unionTypes := by rw [unionTypes?, hr, Option.bind_some]
  have hrelated : f.relatedType? = some r.relatedType := by rw [relatedType?, hr, Option.map_some]
  rw [isUnion, candidates, htypes, hrelated]
  split
  · exact (h _ _ ‹_›).elim
  · exact ⟨rfl, rfl⟩

end Field

end EntitySchema
