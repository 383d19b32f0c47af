import EntitySchema.Yaml.Cursor

/-!
# Yaml/Plain — scalars without quotes

A plain scalar ends at a colon in front of a blank, at a comment, at a tab, and inside brackets also
at their punctuation.  It goes on over line breaks as long as the lines are indented enough.
-/

namespace EntitySchema.Yaml

/-- The punctuation inside brackets that ends a plain scalar. -/
def isFlowMark (c : Char) : Bool := [',', '?', '[', ']', '\x7b', '\x7d'].contains c

/-- Whether a colon with `cs` behind it ends a plain scalar. -/
def endsAtColon (flow : Bool) (cs : List Char) : Bool :=
  isBlankNext cs || (flow && match cs with
    | c :: _ => [',', '[', ']', '\x7b', '\x7d'].contains c
    | [] => false)

/-- The characters of a plain scalar up to a blank or its end. -/
def plainChunk (flow : Bool) : List Char → List Char
  | [] => []
  | c :: cs =>
      if isSpace c || isBreak c || (c = ':' && endsAtColon flow cs) || (flow && isFlowMark c) then []
      else c :: plainChunk flow cs

/-- Whether a plain scalar may start here. -/
def startsPlain (flow : Bool) : List Char → Bool
  | [] => false
  | c :: cs =>
      !(isSpace c || isBreak c || ['-', '?', ':', ',', '[', ']', '\x7b', '\x7d', '#', '&', '*', '!',
        '|', '>', '\'', '"', '%', '@', '\x60'].contains c)
        || (!isBlankNext cs && (c = '-' || (!flow && (c = '?' || c = ':'))))

namespace Cursor

/-- Skips spaces and empty lines; nothing if documents end here. -/
def plainLines? : Nat → Cursor → Option (List Char) × Cursor
  | 0, c => (some [], c)
  | fuel + 1, c =>
      let c := c.skipWhile (· = ' ')
      match c.lineBreak? with
      | none => (some [], c)
      | some (b, c) =>
          if isSeparator c.ahead then (none, c)
          else
            match plainLines? fuel c with
            | (bs, c) => (bs.map (b :: ·), c)

/-- What the blanks behind a part of a plain scalar stand for if it goes on, the place behind them,
and whether a line ended.  Nothing if it cannot go on. -/
def plainSpaces (c : Cursor) : List Char × Cursor × Bool :=
  let blanks := c.ahead.takeWhile (· = ' ')
  let c := c.skip blanks.length
  match c.lineBreak? with
  | none => (blanks, c, false)
  | some (b, c) =>
      if isSeparator c.ahead then ([], c, true)
      else
        match plainLines? (c.ahead.length + 1) c with
        | (some bs, c) => (folded b bs, c, true)
        | (none, c) => ([], c, true)

/-- The text of a plain scalar whose lines are indented by at least `indent`, the place behind it
and the blanks that follow, and whether a line ended there. -/
def plain (flow : Bool) (indent : Nat) : Nat → Cursor → List Char × Cursor × Bool
  | 0, c => ([], c, false)
  | fuel + 1, c =>
      let chunk := plainChunk flow c.ahead
      let (blanks, c, ended) := (c.skip chunk.length).plainSpaces
      if blanks = [] || c.ahead.head? = some '#' || (!flow && c.column < indent)
          || plainChunk flow c.ahead = [] then (chunk, c, ended)
      else
        let (rest, c, ended) := plain flow indent fuel c
        (chunk ++ blanks ++ rest, c, ended)

end Cursor

end EntitySchema.Yaml
