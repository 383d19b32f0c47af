import EntitySchema.Text.Quoted
import EntitySchema.Yaml.Cursor

/-!
# Yaml/Quoted — scalars in quotes

In single quotes a quote is written twice and all else stands for itself; in double quotes a
backslash starts an escape.  Blanks around a line break are dropped and lines are folded.  Two
escaped halves of a surrogate pair are one character.
-/

namespace EntitySchema.Yaml

/-- The characters behind a backslash that stand for another one. -/
def escapes : List (Char × Char) :=
  [('0', '\x00'), ('a', '\x07'), ('b', '\x08'), ('t', '\t'), ('\t', '\t'), ('n', '\n'),
   ('v', '\x0b'), ('f', '\x0c'), ('r', '\r'), ('e', '\x1b'), (' ', ' '), ('"', '"'),
   ('\\', '\\'), ('/', '/'), ('N', '\x85'), ('_', '\xa0'), ('L', '\u2028'), ('P', '\u2029')]

/-- How many hexadecimal digits follow a character behind a backslash. -/
def escapeWidth? (c : Char) : Option Nat :=
  if c = 'x' then some 2 else if c = 'u' then some 4 else if c = 'U' then some 8 else none

/-- The number that `width` hexadecimal digits spell at the start of a text. -/
def leadingHex? (width : Nat) (cs : List Char) : Option Nat :=
  if (cs.take width).length = width then Text.hexNumeral? (cs.take width) else none

/-- The second half of a surrogate pair, if a text starts with its escape. -/
def leadingLowHalf? : List Char → Option Nat
  | '\\' :: 'u' :: cs => (leadingHex? 4 cs).filter Text.isLowHalf
  | _ => none

namespace Cursor

/-- Skips empty lines and the blanks at the start of the next one; documents may not end here. -/
def emptyLines? : Nat → Cursor → Option (List Char × Cursor)
  | 0, _ => none
  | fuel + 1, c =>
      if isSeparator c.ahead then none
      else
        let c := c.skipWhile isSpace
        match c.lineBreak? with
        | some (b, c) => (emptyLines? fuel c).map fun (bs, c) => (b :: bs, c)
        | none => some ([], c)

/-- Blanks inside quotes: as they are, or folded if a line ends. -/
def quotedSpaces? (c : Cursor) : Option (List Char × Cursor) :=
  let blanks := c.ahead.takeWhile isSpace
  let c := c.skip blanks.length
  match c.lineBreak? with
  | some (b, c) => (emptyLines? (c.ahead.length + 1) c).map fun (bs, c) => (folded b bs, c)
  | none => some (blanks, c)

/-- What an escape stands for; the cursor stands behind the backslash. -/
def escape? (c : Cursor) : Option (List Char × Cursor) :=
  match c.ahead with
  | [] => none
  | ch :: cs =>
      match escapes.find? (·.1 = ch), escapeWidth? ch with
      | some (_, r), _ => some ([r], c.next)
      | none, some width => do
          let n ← leadingHex? width cs
          match leadingLowHalf? (cs.drop width) with
          | some m =>
              if Text.isHighHalf n then pure ([Text.ofPair n m], c.skip (width + 7))
              else pure ([Text.ofUnit n], c.skip (width + 1))
          | none => pure ([Text.ofUnit n], c.skip (width + 1))
      | none, none => do
          let (_, c) ← c.lineBreak?
          emptyLines? (c.ahead.length + 1) c

/-- The text up to the closing quote, and the place behind it. -/
def quoted? (double : Bool) : Nat → Cursor → Option (List Char × Cursor)
  | 0, _ => none
  | fuel + 1, c =>
      match c.ahead with
      | [] => none
      | ch :: cs =>
          let goOn (chunk : List Char) (c : Cursor) : Option (List Char × Cursor) :=
            (quoted? double fuel c).map fun (rest, c) => (chunk ++ rest, c)
          if isSpace ch || isBreak ch then do
            let (chunk, c) ← c.quotedSpaces?
            goOn chunk c
          else if double then
            if ch = '"' then some ([], c.next)
            else if ch = '\\' then do
              let (chunk, c) ← c.next.escape?
              goOn chunk c
            else goOn [ch] c.next
          else if ch = '\'' then
            if cs.head? = some '\'' then goOn [ch] (c.skip 2) else some ([], c.next)
          else goOn [ch] c.next

end Cursor

end EntitySchema.Yaml
