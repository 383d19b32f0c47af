import EntitySchema.Yaml.Plain
import EntitySchema.Yaml.Quoted

/-!
# Yaml/Token — the tokens of a document

Tokens carry the structure that indentation shows: where a block collection starts and ends, and in
front of which token a key stands.  A key is known only at the colon behind it, so the place of
every token that may turn out to be one is kept until the line ends.  Anchors, tags, directives and
block scalars are not part of the language.
-/

namespace EntitySchema.Yaml

/-- A token. -/
inductive Token where
  /-- `---` -/
  | documentStart
  /-- `...` -/
  | documentEnd
  /-- A block sequence starts. -/
  | sequenceStart
  /-- A block mapping starts. -/
  | mappingStart
  /-- A block collection ends. -/
  | blockEnd
  /-- `-` -/
  | entry
  /-- A key follows. -/
  | key
  /-- `:` -/
  | value
  /-- An opening bracket. -/
  | openSequence
  /-- A closing bracket. -/
  | closeSequence
  /-- An opening brace. -/
  | openMapping
  /-- A closing brace. -/
  | closeMapping
  /-- `,` -/
  | comma
  /-- A scalar, plain or in quotes. -/
  | scalar (plain : Bool) (text : String)
deriving DecidableEq

/-- A token that may turn out to be a key. -/
structure KeyCandidate where
  /-- How many tokens stand in front of it. -/
  position : Nat
  /-- Whether nothing but a key can stand here. -/
  required : Bool
  /-- How many characters stand in front of it. -/
  offset : Nat
  /-- Its line. -/
  line : Nat
  /-- Its column. -/
  column : Nat
deriving DecidableEq

/-- How far a text is read. -/
structure Scan where
  /-- Where to go on. -/
  cursor : Cursor
  /-- The tokens read, the latest first. -/
  tokens : List Token := []
  /-- The columns of the open block collections, the innermost first. -/
  indents : List Nat := []
  /-- Whether a key may start here. -/
  keyAllowed : Bool := true
  /-- The candidates for keys, outside and inside each open bracket, the innermost first. -/
  candidates : List (Option KeyCandidate) := [none]
deriving DecidableEq

namespace Scan

/-- Whether a bracket is open. -/
def inFlow (s : Scan) : Bool := s.candidates.length != 1

/-- The column up to which collections are indented, counted from one. -/
def depth (s : Scan) : Nat :=
  match s.indents with
  | [] => 0
  | i :: _ => i + 1

/-- Skips spaces, comments and line breaks; a line break outside brackets allows a key. -/
def skipBlanks : Nat → Scan → Scan
  | 0, s => s
  | fuel + 1, s =>
      let c := s.cursor.skipWhile (· = ' ')
      let c := if c.ahead.head? = some '#' then c.skipWhile (!isBreak ·) else c
      match c.lineBreak? with
      | some (_, c) => skipBlanks fuel { s with cursor := c, keyAllowed := s.keyAllowed || !s.inFlow }
      | none => { s with cursor := c }

/-- Gives up a candidate on another line or too far back; one that is required is an error. -/
def refresh? (c : Cursor) : List (Option KeyCandidate) → Option (List (Option KeyCandidate))
  | [] => some []
  | none :: ks => (refresh? c ks).map (none :: ·)
  | some k :: ks => do
      let ks ← refresh? c ks
      if k.line = c.line ∧ c.offset - k.offset ≤ 1024 then pure (some k :: ks)
      else if k.required then none
      else pure (none :: ks)

/-- Gives up stale candidates. -/
def dropStale? (s : Scan) : Option Scan :=
  (refresh? s.cursor s.candidates).map fun ks => { s with candidates := ks }

/-- Gives up the innermost candidate; one that is required is an error. -/
def dropCandidate? (s : Scan) : Option Scan :=
  match s.candidates with
  | some k :: ks => if k.required then none else some { s with candidates := none :: ks }
  | _ => some s

/-- Notes that the next token may be a key. -/
def noteCandidate? (s : Scan) : Option Scan :=
  if s.keyAllowed then do
    let s ← s.dropCandidate?
    let c := s.cursor
    let k : KeyCandidate :=
      { position := s.tokens.length
        required := !s.inFlow && s.depth = c.column + 1
        offset := c.offset, line := c.line, column := c.column }
    pure { s with candidates := some k :: s.candidates.drop 1 }
  else some s

/-- Ends the collections that are indented further than `limit`, counted from one. -/
def closeTo (limit : Nat) : List Nat → List Token → List Nat × List Token
  | [], ts => ([], ts)
  | i :: is, ts => if limit ≤ i then closeTo limit is (.blockEnd :: ts) else (i :: is, ts)

/-- Ends the block collections that the place at `limit` is no longer part of. -/
def closeBlocks (s : Scan) (limit : Nat) : Scan :=
  if s.inFlow then s
  else
    let (indents, tokens) := closeTo limit s.indents s.tokens
    { s with indents, tokens }

/-- Adds a token of `width` characters. -/
def push (s : Scan) (t : Token) (width : Nat) : Scan :=
  { s with tokens := t :: s.tokens, cursor := s.cursor.skip width }

/-- Starts a block collection at `column`, unless one is open there. -/
def openBlock (s : Scan) (t : Token) (column : Nat) : Scan :=
  if s.depth ≤ column then { s with indents := column :: s.indents, tokens := t :: s.tokens } else s

/-- A separator of documents. -/
def separator? (s : Scan) (t : Token) : Option Scan := do
  if s.inFlow then none
  else
    let s ← (s.closeBlocks 0).dropCandidate?
    pure ({ s with keyAllowed := false }.push t 3)

/-- An opening bracket or brace. -/
def openFlow? (s : Scan) (t : Token) : Option Scan := do
  let s ← s.noteCandidate?
  pure ({ s with candidates := none :: s.candidates, keyAllowed := true }.push t 1)

/-- A closing bracket or brace. -/
def closeFlow? (s : Scan) (t : Token) : Option Scan :=
  if s.inFlow then
    some ({ s with candidates := s.candidates.drop 1, keyAllowed := false }.push t 1)
  else none

/-- A comma. -/
def comma? (s : Scan) : Option Scan :=
  if s.inFlow then do
    let s ← s.dropCandidate?
    pure ({ s with keyAllowed := true }.push .comma 1)
  else none

/-- A hyphen in front of an item. -/
def entry? (s : Scan) : Option Scan :=
  if s.inFlow || !s.keyAllowed then none
  else do
    let s ← (s.openBlock .sequenceStart s.cursor.column).dropCandidate?
    pure ({ s with keyAllowed := true }.push .entry 1)

/-- A question mark in front of a key. -/
def key? (s : Scan) : Option Scan :=
  if s.inFlow then do
    let s ← s.dropCandidate?
    pure ({ s with keyAllowed := false }.push .key 1)
  else if s.keyAllowed then do
    let s ← (s.openBlock .mappingStart s.cursor.column).dropCandidate?
    pure ({ s with keyAllowed := true }.push .key 1)
  else none

/-- Puts the token for a key, and outside brackets the start of its mapping, in front of `k`. -/
def markKey (s : Scan) (k : KeyCandidate) : Scan :=
  let behind := s.tokens.length - k.position
  let starts := !s.inFlow && s.depth ≤ k.column
  { s with
    tokens := s.tokens.take behind ++ .key ::
      ((if starts then [.mappingStart] else []) ++ s.tokens.drop behind)
    indents := if starts then k.column :: s.indents else s.indents
    candidates := none :: s.candidates.drop 1
    keyAllowed := false }

/-- A colon behind a key. -/
def value? (s : Scan) : Option Scan :=
  match s.candidates with
  | some k :: _ => some ((s.markKey k).push .value 1)
  | _ =>
      if s.inFlow then some ({ s with keyAllowed := false }.push .value 1)
      else if s.keyAllowed then
        some ((s.openBlock .mappingStart s.cursor.column).push .value 1)
      else none

/-- A scalar in quotes. -/
def quoted? (s : Scan) (double : Bool) : Option Scan := do
  let s ← s.noteCandidate?
  let (text, c) ← s.cursor.next.quoted? double (s.cursor.ahead.length + 1)
  pure
    { s with
      tokens := .scalar false (.ofList text) :: s.tokens
      cursor := c
      keyAllowed := false }

/-- A plain scalar. -/
def plain? (s : Scan) : Option Scan := do
  let s ← s.noteCandidate?
  let (text, c, ended) := s.cursor.plain s.inFlow s.depth (s.cursor.ahead.length + 1)
  pure
    { s with
      tokens := .scalar true (.ofList text) :: s.tokens
      cursor := c
      keyAllowed := ended }

/-- The token that starts with `ch`, with `cs` behind it. -/
def token? (s : Scan) (ch : Char) (cs : List Char) : Option Scan :=
  let lineStart := s.cursor.column = 0
  if lineStart ∧ ch = '%' then none
  else if lineStart ∧ isSeparator (ch :: cs) then
    s.separator? (if ch = '-' then .documentStart else .documentEnd)
  else if ch = '[' then s.openFlow? .openSequence
  else if ch = '\x7b' then s.openFlow? .openMapping
  else if ch = ']' then s.closeFlow? .closeSequence
  else if ch = '\x7d' then s.closeFlow? .closeMapping
  else if ch = ',' then s.comma?
  else if ch = '-' ∧ isBlankNext cs then s.entry?
  else if ch = '?' ∧ (s.inFlow ∨ isBlankNext cs) then s.key?
  else if ch = ':' ∧ (s.inFlow ∨ isBlankNext cs) then s.value?
  else if ch = '\'' then s.quoted? false
  else if ch = '"' then s.quoted? true
  else if startsPlain s.inFlow (ch :: cs) then s.plain?
  else none

/-- All tokens up to the end of the text. -/
def run? : Nat → Scan → Option (List Token)
  | 0, _ => none
  | fuel + 1, s => do
      let s ← (s.skipBlanks (s.cursor.ahead.length + 1)).dropStale?
      let s := s.closeBlocks (s.cursor.column + 1)
      match s.cursor.ahead with
      | [] =>
          if s.inFlow then none
          else
            let s ← (s.closeBlocks 0).dropCandidate?
            pure s.tokens.reverse
      | ch :: cs => do
          let s ← s.token? ch cs
          run? fuel s

end Scan

/-- The tokens of a text, if it is made of tokens.  A mark of the byte order may stand in front. -/
def Token.scan? (text : String) : Option (List Token) :=
  let cs := text.toList
  if cs.all isAllowed then
    let start : Cursor := { ahead := cs }
    let start := if cs.head? = some byteOrderMark then start.next else start
    Scan.run? (cs.length + 1) { cursor := start }
  else none

end EntitySchema.Yaml
