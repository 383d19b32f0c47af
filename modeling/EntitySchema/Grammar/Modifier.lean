import EntitySchema.Field.Basic
import EntitySchema.Text.Split

/-!
# Grammar/Modifier — modifiers at the end of a type

`?` makes a field optional, `[]` an array, `!` required and unique, `#` indexed.  They stand at the
end of a type in any order and any number (`stripModifiers`).
-/

namespace EntitySchema

/-- A modifier as it is written. -/
inductive Modifier where
  /-- `?` -/
  | optional
  /-- `[]` -/
  | array
  /-- `!` -/
  | required
  /-- `#` -/
  | indexed
deriving DecidableEq

namespace Modifier

/-- How a modifier is written. -/
def token : Modifier → List Char
  | .optional => ['?']
  | .array => ['[', ']']
  | .required => ['!']
  | .indexed => ['#']

/-- Adds what a modifier says. -/
def addTo : Modifier → Modifiers → Modifiers
  | .optional, m => { m with optional := true }
  | .array, m => { m with array := true }
  | .required, m => { m with required := true, unique := true }
  | .indexed, m => { m with indexed := true }

end Modifier

namespace Grammar

/-- Takes modifiers off a reversed text, adding them to `m`. -/
def stripReversed : List Char → Modifiers → List Char × Modifiers
  | '?' :: cs, m => stripReversed cs (Modifier.optional.addTo m)
  | ']' :: '[' :: cs, m => stripReversed cs (Modifier.array.addTo m)
  | '!' :: cs, m => stripReversed cs (Modifier.required.addTo m)
  | '#' :: cs, m => stripReversed cs (Modifier.indexed.addTo m)
  | cs, m => (cs, m)

/-- Takes the modifiers off the end of a text, then trims what is left. -/
def stripModifiers (cs : List Char) : List Char × Modifiers :=
  let (rest, m) := stripReversed cs.reverse {}
  (Text.trim rest.reverse, m)

end Grammar

end EntitySchema
