import EntitySchema.Field.Basic
import EntitySchema.Grammar.Modifier
import EntitySchema.Grammar.Target
import EntitySchema.Grammar.Threshold

/-!
# Grammar/Arrow — an operator with what stands around it

A definition with an operator falls into a prompt, the operator and a target.  Operators are looked
for in the order of `scanOrder`; the first that occurs anywhere wins, at its first place.
-/

namespace EntitySchema

/-- An operator with what stands around it. -/
structure Arrow where
  /-- The operator. -/
  operator : Operator
  /-- The text behind the operator without its threshold; modifiers and backref are still there. -/
  target : String
  /-- The candidates, if there are two or more. -/
  unionTypes : Option (List String)
  /-- The threshold of the target. -/
  threshold : Option Binary64
  /-- The trimmed text in front of the operator, unless it is empty. -/
  prompt : Option String
deriving DecidableEq

namespace Grammar

/-- The order in which operators are looked for. -/
def scanOrder : List Operator := [.forwardFuzzy, .backwardFuzzy, .forwardExact, .backwardExact]

/-- The operator of a definition, and what stands before and behind it. -/
def findOperator? (cs : List Char) : Option (Operator × List Char × List Char) :=
  scanOrder.findSome? fun o => (Text.splitFirst? o.symbol.toList cs).map (o, ·)

/-- Takes a valid threshold out of a target. -/
def takeThreshold (target : List Char) : List Char × Option Binary64 :=
  match splitThreshold? target with
  | some (before, inner, after) =>
      match threshold? inner with
      | some t => (Text.trim before ++ after, some t)
      | none => (target, none)
  | none => (target, none)

/-- The candidates of a target, if there are two or more. -/
def candidates? (target : List Char) : Option (List String) :=
  let parts := barParts (splitBackref (stripModifiers target).1).1
  if 2 ≤ parts.length then some (parts.map .ofList) else none

/-- A text, unless it is empty. -/
def nonempty? (cs : List Char) : Option String := if cs = [] then none else some (.ofList cs)

end Grammar

/-- The operator of a definition with what stands around it; none if there is no operator. -/
def Arrow.parse? (definition : String) : Option Arrow :=
  (Grammar.findOperator? definition.toList).map fun (o, before, after) =>
    let (target, threshold) := Grammar.takeThreshold (Text.trim after)
    { operator := o
      target := .ofList target
      unionTypes := Grammar.candidates? target
      threshold := threshold
      prompt := Grammar.nonempty? (Text.trim before) }

end EntitySchema
