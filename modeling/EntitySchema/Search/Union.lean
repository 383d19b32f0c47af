import EntitySchema.Search.Options

/-!
# Search/Union — searching the candidates of a union

`ordered` stops at the first candidate with a match, `parallel` asks all of them and ranks what they
found, and `search` does what the options say.
-/

namespace EntitySchema.Search

variable {κ : Type}

/-! ## One after another -/

/-- Searches the candidates one after another, going on from `r`. -/
def orderedFrom (ask : Searcher κ) (o : Options) (query : String) :
    Result → List String → Session κ Result
  | r, [] => pure { r with exhausted := true }
  | r, type :: types => do
      let r := { r with fallback := r.searched ≠ [], searched := r.searched ++ [type] }
      match ← (ask (o.request query type)).attempt with
      | .error e =>
          if o.onError.getD .throw = .throw then Session.fail e
          else orderedFrom ask o query { r with errors := r.errors ++ [⟨type, e⟩] } types
      | .ok ms => do
          let (above, below) ← Match.partition (o.thresholdFor type) (ms.map (Match.tag type))
          let r := { r with below := if o.includeBelow then r.below.map (· ++ below) else r.below }
          match above with
          | [] => orderedFrom ask o query r types
          | m :: ms => do
              let scores ← Match.scores (m :: ms)
              pure
                { r with
                  found := m :: ms
                  matchedType := .text type
                  confidence := Match.greatest (scores.headD .null) scores.tail }

/-- Searches the candidates one after another, up to the first with a match. -/
def ordered (ask : Searcher κ) (o : Options) (query : String) (types : List String) :
    Session κ Result :=
  orderedFrom ask o query {} types

/-! ## All of them -/

/-- What the search of one candidate came to. -/
abbrev Outcome := String × Except Failure (List Match)

/-- Searches all candidates, whatever fails. -/
def askAll (ask : Searcher κ) (o : Options) (query : String) :
    List String → Session κ (List Outcome)
  | [] => pure []
  | type :: types => do
      let r ← (ask (o.request query type)).attempt
      let rest ← askAll ask o query types
      pure ((type, r.map (·.map (Match.tag type))) :: rest)

/-- The matches of all candidates that qualify, those that do not, and the failed searches. -/
def collect (o : Options) :
    List Outcome → Except Failure (List Match × List Match × List SearchError)
  | [] => .ok ([], [], [])
  | (type, .error e) :: outcomes => do
      if o.onError = some .throw then .error e
      else
        let (above, below, errors) ← collect o outcomes
        pure (above, below, ⟨type, e⟩ :: errors)
  | (type, .ok ms) :: outcomes => do
      let (above, below) ← Match.partition (o.thresholdFor type) ms
      let (above', below', errors) ← collect o outcomes
      pure (above ++ above', below ++ below', errors)

/-- Whether a value is not the text `s`. -/
def differsFrom (v : Value) (s : Option String) : Bool := some v ≠ s.map .text

/-- The result that ranked matches make. -/
def Result.ofRanked (o : Options) (types : List String) (r : Result) : List Match → Result
  | [] => { r with exhausted := true }
  | m :: ms =>
      let matchedType := (m.get? Match.typeKey).getD .null
      { r with
        found := if o.returnAll then m :: ms else [m]
        matchedType
        confidence := m.score
        fallback := differsFrom matchedType types.head? }

/-- Searches all candidates for the best match, which is noted in `r`. -/
def parallelFrom (ask : Searcher κ) (o : Options) (query : String) (r : Result)
    (types : List String) : Session κ Result := do
  let outcomes ← askAll ask o query types
  let (above, below, errors) ← collect o outcomes
  let ranked ← Match.ranked above
  pure <| Result.ofRanked o types
    { r with
      searched := types
      below := some (if o.includeBelow then below else [])
      errors := r.errors ++ errors } ranked

/-- Searches all candidates for the best match. -/
def parallel (ask : Searcher κ) (o : Options) (query : String) (types : List String) :
    Session κ Result :=
  parallelFrom ask o query {} types

/-! ## Either way -/

/-- Searches the candidates in the way that the options say. -/
def search (ask : Searcher κ) (o : Options) (query : String) (types : List String) :
    Session κ Result :=
  let start : Result := { below := if o.includeBelow then some [] else none }
  if types = [] then pure { start with exhausted := true }
  else
    match o.mode with
    | .ordered => orderedFrom ask o query start types
    | .parallel => parallelFrom ask o query start types

/-- How many matches are wanted of a provider by default. -/
def defaultLimit : Int := 10

/-- The searcher that asks a provider for a number of matches, and notes the type of each. -/
def ofProvider (find : String → String → Number → Int → Session κ (List Match)) : Searcher κ :=
  fun r => do
    let ms ← find r.type r.query r.threshold (r.limit.getD defaultLimit)
    pure (ms.map fun m => m.insert Match.typeKey (.text r.type))

end EntitySchema.Search
