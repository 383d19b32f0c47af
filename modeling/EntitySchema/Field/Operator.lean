import EntitySchema.Text.Quoted

/-!
# Field/Operator — the four relation operators

An operator says on which side a relation is declared and how its target is found.  Its symbol
shows both: `<` marks a backward operator and `~` a fuzzy one.
-/

namespace EntitySchema

/-- The side on which a relation is resolved. -/
inductive Direction where
  /-- From the declaring entity to its target. -/
  | forward
  /-- From the target to the declaring entity. -/
  | backward
deriving DecidableEq

/-- How the target of a relation is matched. -/
inductive MatchMode where
  /-- By identity. -/
  | exact
  /-- By similarity. -/
  | fuzzy
deriving DecidableEq

/-- A relation operator. -/
inductive Operator where
  /-- `->` -/
  | forwardExact
  /-- `~>` -/
  | forwardFuzzy
  /-- `<-` -/
  | backwardExact
  /-- `<~` -/
  | backwardFuzzy
deriving DecidableEq

/-- The word for a direction. -/
def Direction.word : Direction → String
  | .forward => "forward"
  | .backward => "backward"

/-- The word for a match mode. -/
def MatchMode.word : MatchMode → String
  | .exact => "exact"
  | .fuzzy => "fuzzy"

namespace Operator

/-- All operators. -/
def all : List Operator := [.forwardExact, .forwardFuzzy, .backwardExact, .backwardFuzzy]

/-- The symbol of an operator. -/
def symbol : Operator → String
  | .forwardExact => "->"
  | .forwardFuzzy => "~>"
  | .backwardExact => "<-"
  | .backwardFuzzy => "<~"

/-- The side on which an operator resolves its relation. -/
def direction : Operator → Direction
  | .forwardExact | .forwardFuzzy => .forward
  | .backwardExact | .backwardFuzzy => .backward

/-- How an operator matches its target. -/
def matchMode : Operator → MatchMode
  | .forwardExact | .backwardExact => .exact
  | .forwardFuzzy | .backwardFuzzy => .fuzzy

/-- What an operator asks for. -/
def description : Operator → String
  | .forwardExact => "Create or link the target entity"
  | .forwardFuzzy => "Find a similar entity, generate one if none matches"
  | .backwardExact => "Link from an existing entity that points here"
  | .backwardFuzzy => "Find a similar existing entity, never generate"

/-- The operator of a symbol. -/
def ofSymbol? (s : String) : Option Operator := all.find? fun o => o.symbol = s

/-- The message for a text that is no symbol. -/
def unknownMessage (s : String) : String :=
  .ofList (Text.quoted s.toList) ++ " is not a valid RelationOperator"

end Operator

end EntitySchema
