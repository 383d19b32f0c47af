import EntitySchema.Diff.Axis

/-!
# Diff/Field — how a field changed

A change lists the axes along which two versions of a field differ.  Compared on their own, fields
have one change for every axis; within an entity all axes of a field go into one change.
-/

namespace EntitySchema

/-- A change of a field that both versions have. -/
structure FieldChange where
  /-- The name of the field. -/
  name : String
  /-- The axes along which it changed. -/
  axes : List Axis
  /-- The field before. -/
  old : Field
  /-- The field after. -/
  new : Field
deriving DecidableEq

namespace FieldChange

/-- The word for the kind of a change: its axis, or `multiple`. -/
def kind (c : FieldChange) : String :=
  match c.axes with
  | [a] => a.word
  | _ => "multiple"

/-- The description of a change, axis by axis. -/
def description (c : FieldChange) : String :=
  "; ".intercalate (c.axes.map (Axis.describe c.old c.new))

end FieldChange

namespace Field

/-- The axes along which two fields differ. -/
def changedAxes (old new : Field) : List Axis := Axis.all.filter fun a => !a.agrees old new

/-- One change for every axis along which two fields differ. -/
def changes (old new : Field) : List FieldChange :=
  (changedAxes old new).map fun a => ⟨new.name, [a], old, new⟩

/-- All that changed in the field under `key`, as one change. -/
def change? (key : String) (old new : Field) : Option FieldChange :=
  match changedAxes old new with
  | [] => none
  | [a] => some ⟨new.name, [a], old, new⟩
  | axes => some ⟨key, axes, old, new⟩

end Field

end EntitySchema
