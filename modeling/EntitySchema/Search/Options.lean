import EntitySchema.Search.Match

/-!
# Search/Options — how the candidates of a union are searched

Candidates are searched one after another until one has a match, or all of them for the best match.
A threshold of its own comes before the common one; without either every match qualifies.
-/

namespace EntitySchema.Search

/-- In which way candidates are searched. -/
inductive Mode where
  /-- One after another, up to the first with a match. -/
  | ordered
  /-- All of them, for the best match. -/
  | parallel
deriving DecidableEq

/-- What happens when the search of a candidate fails. -/
inductive OnError where
  /-- The whole search fails. -/
  | throw
  /-- The failure is noted and the search goes on. -/
  | resume
deriving DecidableEq

/-- How the candidates of a union are searched. -/
structure Options where
  /-- In which way candidates are searched. -/
  mode : Mode := .ordered
  /-- The least score of a match. -/
  threshold : Option Number := none
  /-- The least scores of the matches of single candidates. -/
  thresholds : Table String Number := .empty
  /-- Whether all matches are wanted and not just the best. -/
  returnAll : Bool := false
  /-- Whether matches below their threshold are wanted too. -/
  includeBelow : Bool := false
  /-- What happens on failures; each mode has a default. -/
  onError : Option OnError := none
  /-- How many matches are wanted of each candidate. -/
  limit : Option Int := none
deriving DecidableEq

/-- The threshold of a candidate. -/
def Options.thresholdFor (o : Options) (type : String) : Number :=
  (o.thresholds.get? type).getD (o.threshold.getD (.float .zero))

/-- A search for one candidate. -/
structure Request where
  /-- The candidate. -/
  type : String
  /-- What is searched for. -/
  query : String
  /-- The least score of a match. -/
  threshold : Number
  /-- How many matches are wanted. -/
  limit : Option Int
deriving DecidableEq

/-- The search for the candidate `type`. -/
def Options.request (o : Options) (query type : String) : Request :=
  { type, query, threshold := o.thresholdFor type, limit := o.limit }

/-- What answers searches, within sessions with calls of type `κ`. -/
abbrev Searcher (κ : Type) : Type := Request → Session κ (List Match)

/-- The failed search of a candidate. -/
structure SearchError where
  /-- The candidate. -/
  type : String
  /-- Why the search failed. -/
  cause : Failure
deriving DecidableEq

/-- What a search of candidates found. -/
structure Result where
  /-- The matches that qualify. -/
  found : List Match := []
  /-- The candidates that were searched, in order. -/
  searched : List String := []
  /-- Whether the first candidate was not enough. -/
  fallback : Bool := false
  /-- Whether no candidate had a match. -/
  exhausted : Bool := false
  /-- The type of the best match. -/
  matchedType : Value := .null
  /-- The score of the best match. -/
  confidence : Value := .null
  /-- The matches below their threshold. -/
  below : Option (List Match) := none
  /-- The searches that failed. -/
  errors : List SearchError := []
deriving DecidableEq

end EntitySchema.Search
