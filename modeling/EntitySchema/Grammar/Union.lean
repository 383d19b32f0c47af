import EntitySchema.Grammar.Target
import EntitySchema.Grammar.Threshold
import EntitySchema.Table

/-!
# Grammar/Union — candidate types with thresholds of their own

A union such as `A(0.8)|B|C` lists candidates, each with or without a threshold.  `unionTypes` reads
the names and `unionThresholds` the thresholds of those candidates that are identifiers.
-/

namespace EntitySchema.Grammar

/-- Takes a threshold off the end of a candidate, blanks inside the parentheses included. -/
def dropThreshold (cs : List Char) : List Char :=
  match cs.reverse with
  | ')' :: rest =>
      match (Text.trimStart rest).span isThresholdChar with
      | ([], _) => cs
      | (_, rest) =>
          match Text.trimStart rest with
          | '(' :: before => before.reverse
          | _ => cs
  | _ => cs

/-- The candidate types of a union, in order. -/
def unionTypes (spec : String) : List String :=
  (((Text.splitAll '|' spec.toList).map fun part =>
    Text.trim (dropThreshold (Text.trim part))).filter (· ≠ [])).map .ofList

/-- The name and threshold of a candidate `Name (threshold)`. -/
def annotated? (part : List Char) : Option (String × Binary64) :=
  match part.span isIdentifierChar with
  | (c :: name, rest) =>
      match Text.trimStart rest with
      | '(' :: rest =>
          match rest.span isThresholdChar with
          | (inner, [')']) =>
              if isLetter c then (threshold? inner).map fun t => (.ofList (c :: name), t) else none
          | _ => none
      | _ => none
  | _ => none

/-- The thresholds of the candidates of a union; of two for one name the last counts. -/
def unionThresholds (spec : String) : Table String Binary64 :=
  .ofList ((Text.splitAll '|' spec.toList).filterMap fun part => annotated? (Text.trim part))

end EntitySchema.Grammar
