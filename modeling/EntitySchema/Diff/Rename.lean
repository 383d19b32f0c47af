import EntitySchema.Diff.Axis
import EntitySchema.Number.Binary64
import EntitySchema.Sorted

/-!
# Diff/Rename — fields that may have been renamed

A removed and an added field may be one field under two names.  Their confidence is the sum of the
weights of the axes along which they agree, added up in the order of `Axis.byWeight`; a half is
enough.
-/

namespace EntitySchema

/-- A removed field and an added one that may be the same. -/
structure Rename where
  /-- The name of the removed field. -/
  old : String
  /-- The name of the added field. -/
  new : String
  /-- How much speaks for it, between zero and one. -/
  confidence : Magnitude
  /-- The axes along which the fields agree. -/
  agreement : List Axis
deriving DecidableEq

namespace Rename

/-- The least confidence of a rename. -/
def leastConfidence : Magnitude := .ofRatio 1 2

/-- The axes along which two fields agree. -/
def agreedAxes (old new : Field) : List Axis := Axis.byWeight.filter (·.agrees old new)

/-- The sum of the weights of the axes, rounded after each addition. -/
def totalWeight (axes : List Axis) : Magnitude :=
  axes.foldl (fun sum a => sum.add a.weight) .zero

/-- The rename of `old` to `new`, if enough speaks for it. -/
def between? (old new : Field) : Option Rename :=
  let axes := agreedAxes old new
  let confidence := totalWeight axes
  if old.name ≠ new.name ∧ leastConfidence.le confidence then
    some ⟨old.name, new.name, confidence, axes⟩
  else none

/-- What speaks for a rename, in words. -/
def reason (r : Rename) : String := ", ".intercalate (r.agreement.map (·.agreement))

/-- The confidence in percent, a half rounded up. -/
def percent (r : Rename) : Nat :=
  ((r.confidence.mul (.ofNat 100)).add (.ofRatio 1 2)).floor

/-- Whether `a` may stand in front of `b`: it is no less likely. -/
def mayPrecede (a b : Rename) : Bool := b.confidence.le a.confidence

/-- All renames between removed and added fields, the most likely first. -/
def proposals (removed added : List Field) : List Rename :=
  sorted mayPrecede (removed.flatMap fun old => added.filterMap fun new => between? old new)

end Rename

end EntitySchema
