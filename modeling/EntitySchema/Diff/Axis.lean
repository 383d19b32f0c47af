import EntitySchema.Field.Basic
import EntitySchema.Number.Magnitude

/-!
# Diff/Axis — the axes along which a field can change

Two fields are compared along five axes.  Every axis has a word, a sentence for each way to change
along it, and a weight for agreement when a field may have been renamed.
-/

namespace EntitySchema

/-- An axis along which a field can change. -/
inductive Axis where
  /-- The name of the type. -/
  | type
  /-- Whether the field may be left unset. -/
  | optional
  /-- Whether the field holds a list. -/
  | array
  /-- Whether the field is a relation. -/
  | relation
  /-- The operator of a relation. -/
  | operator
deriving DecidableEq

/-- How the operator of a field is named in messages. -/
def Field.operatorLabel (f : Field) : String := (f.operator?.map (·.symbol)).getD "none"

namespace Axis

/-- All axes, in the order in which changes are listed. -/
def all : List Axis := [.type, .optional, .array, .relation, .operator]

/-- All axes, in the order in which agreement is weighed. -/
def byWeight : List Axis := [.type, .relation, .array, .optional, .operator]

/-- The word for an axis. -/
def word : Axis → String
  | .type => "type"
  | .optional => "optional"
  | .array => "array"
  | .relation => "relation"
  | .operator => "operator"

/-- Whether two fields agree along an axis. -/
def agrees (old new : Field) : Axis → Bool
  | .type => old.type = new.type
  | .optional => old.modifiers.optional = new.modifiers.optional
  | .array => old.modifiers.array = new.modifiers.array
  | .relation => old.isRelation = new.isRelation
  | .operator => old.operator? = new.operator?

/-- What changed along an axis. -/
def describe (old new : Field) : Axis → String
  | .type => "Type changed from '" ++ old.type ++ "' to '" ++ new.type ++ "'"
  | .optional =>
      if new.modifiers.optional then "Field changed from required to optional"
      else "Field changed from optional to required"
  | .array =>
      if new.modifiers.array then "Field changed from single value to array"
      else "Field changed from array to single value"
  | .relation =>
      if new.isRelation then "Field changed from primitive to relation"
      else "Field changed from relation to primitive"
  | .operator =>
      "Operator changed from '" ++ old.operatorLabel ++ "' to '" ++ new.operatorLabel ++ "'"

/-- The weight of agreement along an axis; the weights sum to one. -/
def weight : Axis → Magnitude
  | .type => .ofRatio 1 2
  | .relation | .array => .ofRatio 15 100
  | .optional | .operator => .ofRatio 1 10

/-- The words for agreement along an axis. -/
def agreement : Axis → String
  | .type => "same type"
  | .relation => "same relation status"
  | .array => "same array status"
  | .optional => "same optional status"
  | .operator => "same operator"

end Axis

end EntitySchema
