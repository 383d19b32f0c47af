import EntitySchema.Number.Binary64
import EntitySchema.Text.Digit

/-!
# Grammar/Threshold — thresholds behind a type

A threshold stands in parentheses behind a type, as in `Topic(0.8)`.  Only its longest numeric
start counts (`0.9.1` is 0.9), and it must lie between 0 and 1.
-/

namespace EntitySchema.Grammar

/-- Whether `c` may stand inside the parentheses of a threshold. -/
def isThresholdChar (c : Char) : Bool := ('0' ≤ c && c ≤ '9') || c = '.'

/-- The number at the start of a text: digits with or without a point, or a point and digits. -/
def leadingNumber? (cs : List Char) : Option Magnitude :=
  match Text.readDigits cs with
  | ([], '.' :: rest) =>
      match Text.readDigits rest with
      | ([], _) => none
      | (ds, _) => some (.ofDecimal (Text.numeral ds) (-ds.length))
  | ([], _) => none
  | (whole, '.' :: rest) =>
      let (ds, _) := Text.readDigits rest
      some (.ofDecimal (Text.numeral (whole ++ ds)) (-ds.length))
  | (whole, _) => some (.ofDecimal (Text.numeral whole) 0)

/-- The threshold a text spells: its leading number, if that lies between 0 and 1. -/
def threshold? (cs : List Char) : Option Binary64 :=
  match leadingNumber? cs with
  | some m => if m.le .one then some (.ofMagnitude m) else none
  | none => none

/-- The parts of `before(digits and points)after`: something stands before the first parenthesis,
and no line ends behind it. -/
def splitThreshold? (cs : List Char) : Option (List Char × List Char × List Char) :=
  match cs.span (· ≠ '(') with
  | ([], _) => none
  | (before, '(' :: rest) =>
      match rest.span isThresholdChar with
      | ([], _) => none
      | (inner, ')' :: after) => if after.contains '\n' then none else some (before, inner, after)
      | _ => none
  | _ => none

end EntitySchema.Grammar
