import EntitySchema.Yaml.Resolution
import EntitySchema.Yaml.Token

/-!
# Yaml/Document — documents from tokens

Block collections end where their indentation does, flow collections at their bracket.  What is left
out, a key, a value or an item, is null.  A text holds at most one document.
-/

namespace EntitySchema.Yaml

namespace Node

/-- Whether one of the tokens comes next, or none at all. -/
def stopsAt (stops : List Token) : List Token → Bool
  | [] => true
  | t :: _ => stops.contains t

/-- The node of a scalar token. -/
def ofScalar? (plain : Bool) (text : String) : Option Node :=
  if plain then (Scalar.ofPlain? text.toList).map .scalar else some (.scalar (.text text))

/-- Where a node of a block mapping is left out. -/
def memberStops : List Token := [.key, .value, .blockEnd]

/-- Drops the comma in front of an item; the first one has none. -/
def dropComma (first : Bool) (ts : List Token) : Option (List Token) :=
  if first then some ts
  else
    match ts with
    | .comma :: ts => some ts
    | _ => none

mutual

/-- A node: any one if `block`, and also a sequence that is not indented if `bare`. -/
def read (block bare : Bool) : Nat → List Token → Option (Node × List Token)
  | 0, _ => none
  | fuel + 1, ts =>
      match ts with
      | .scalar plain text :: ts => (ofScalar? plain text).map (·, ts)
      | .openSequence :: ts => (readFlowItems true fuel ts).map fun (ns, ts) => (.sequence ns, ts)
      | .openMapping :: ts => do
          let (ps, ts) ← readFlowMembers true fuel ts
          let n ← mapping? ps
          pure (n, ts)
      | .sequenceStart :: ts =>
          if block then (readItems fuel ts).map fun (ns, ts) => (.sequence ns, ts) else none
      | .mappingStart :: ts =>
          if block then do
            let (ps, ts) ← readMembers fuel ts
            let n ← mapping? ps
            pure (n, ts)
          else none
      | .entry :: _ =>
          if bare then (readBareItems fuel ts).map fun (ns, ts) => (.sequence ns, ts) else none
      | _ => none

/-- A node, or null where one of the tokens stops. -/
def readOr (block bare : Bool) (stops : List Token) : Nat → List Token → Option (Node × List Token)
  | 0, _ => none
  | fuel + 1, ts => if stopsAt stops ts then some (null, ts) else read block bare fuel ts

/-- The items of a block sequence. -/
def readItems : Nat → List Token → Option (List Node × List Token)
  | 0, _ => none
  | fuel + 1, ts =>
      match ts with
      | .entry :: ts => do
          let (n, ts) ← readOr true false [.entry, .blockEnd] fuel ts
          let (ns, ts) ← readItems fuel ts
          pure (n :: ns, ts)
      | .blockEnd :: ts => some ([], ts)
      | _ => none

/-- The items of a sequence that is not indented. -/
def readBareItems : Nat → List Token → Option (List Node × List Token)
  | 0, _ => none
  | fuel + 1, ts =>
      match ts with
      | .entry :: ts => do
          let (n, ts) ← readOr true false (.entry :: memberStops) fuel ts
          let (ns, ts) ← readBareItems fuel ts
          pure (n :: ns, ts)
      | ts => some ([], ts)

/-- The members of a block mapping. -/
def readMembers : Nat → List Token → Option (List (Node × Node) × List Token)
  | 0, _ => none
  | fuel + 1, ts =>
      match ts with
      | .key :: ts => do
          let (k, ts) ← readOr true true memberStops fuel ts
          let (n, ts) ← readMemberValue true memberStops fuel ts
          let (ps, ts) ← readMembers fuel ts
          pure ((k, n) :: ps, ts)
      | .blockEnd :: ts => some ([], ts)
      | _ => none

/-- The value of a member, null if it has none. -/
def readMemberValue (block : Bool) (stops : List Token) :
    Nat → List Token → Option (Node × List Token)
  | 0, _ => none
  | fuel + 1, ts =>
      match ts with
      | .value :: ts => readOr block block stops fuel ts
      | ts => some (null, ts)

/-- The items of a flow sequence; a comma stands in front of each but the first. -/
def readFlowItems (first : Bool) : Nat → List Token → Option (List Node × List Token)
  | 0, _ => none
  | fuel + 1, ts =>
      match ts with
      | .closeSequence :: ts => some ([], ts)
      | ts => do
          let ts ← dropComma first ts
          match ts with
          | .closeSequence :: ts => pure ([], ts)
          | .key :: ts =>
              let stops := [.comma, .closeSequence]
              let (k, ts) ← readOr false false (.value :: stops) fuel ts
              let (n, ts) ← readMemberValue false stops fuel ts
              let n ← mapping? [(k, n)]
              let (ns, ts) ← readFlowItems false fuel ts
              pure (n :: ns, ts)
          | ts =>
              let (n, ts) ← read false false fuel ts
              let (ns, ts) ← readFlowItems false fuel ts
              pure (n :: ns, ts)

/-- The members of a flow mapping; a comma stands in front of each but the first. -/
def readFlowMembers (first : Bool) : Nat → List Token → Option (List (Node × Node) × List Token)
  | 0, _ => none
  | fuel + 1, ts =>
      match ts with
      | .closeMapping :: ts => some ([], ts)
      | ts => do
          let ts ← dropComma first ts
          match ts with
          | .closeMapping :: ts => pure ([], ts)
          | .key :: ts =>
              let stops := [.comma, .closeMapping]
              let (k, ts) ← readOr false false (.value :: stops) fuel ts
              let (n, ts) ← readMemberValue false stops fuel ts
              let (ps, ts) ← readFlowMembers false fuel ts
              pure ((k, n) :: ps, ts)
          | ts =>
              let (k, ts) ← read false false fuel ts
              let (ps, ts) ← readFlowMembers false fuel ts
              pure ((k, null) :: ps, ts)

end

/-- Drops the marks for the end of a document. -/
def dropEnds : List Token → List Token
  | .documentEnd :: ts => dropEnds ts
  | ts => ts

/-- The node of a document behind its start, null if it is empty. -/
def readExplicit (fuel : Nat) (ts : List Token) : Option (Node × List Token) :=
  readOr true false [.documentStart, .documentEnd] fuel ts

/-- The only document among the tokens; null if there is none. -/
def ofTokens? (ts : List Token) : Option Node := do
  let fuel := 3 * ts.length + 3
  let (n, rest) ← match ts with
    | [] => some (null, [])
    | .documentStart :: ts => readExplicit fuel ts
    | ts => read true false fuel ts
  if dropEnds rest = [] then pure n else none

end Node

/-- The document of a text. -/
def read? (text : String) : Option Node := (Token.scan? text).bind Node.ofTokens?

end EntitySchema.Yaml
