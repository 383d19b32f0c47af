/-!
# Yaml/Cursor — places in a text

A cursor knows what lies ahead and where it stands, since indentation and the length of keys count.
Lines end with a line feed, a carriage return or both, a next-line character, or a Unicode separator
of lines or paragraphs.
-/

namespace EntitySchema.Yaml

/-- Whether `c` ends a line. -/
def isBreak (c : Char) : Bool :=
  c = '\n' || c = '\r' || c = '\x85' || c = '\u2028' || c = '\u2029'

/-- Whether `c` is a space or a tab. -/
def isSpace (c : Char) : Bool := c = ' ' || c = '\t'

/-- Whether nothing, a space, a tab or the end of a line comes next. -/
def isBlankNext : List Char → Bool
  | [] => true
  | c :: _ => isSpace c || isBreak c

/-- Whether a line of three hyphens or three points comes next, which separates documents. -/
def isSeparator : List Char → Bool
  | '-' :: '-' :: '-' :: cs | '.' :: '.' :: '.' :: cs => isBlankNext cs
  | _ => false

/-- The mark that may stand at the start of a text. -/
def byteOrderMark : Char := '\uFEFF'

/-- Whether a text may hold `c`. -/
def isAllowed (c : Char) : Bool :=
  let n := c.toNat
  n = 0x09 || n = 0x0A || n = 0x0D || (0x20 ≤ n && n ≤ 0x7E) || n = 0x85
    || (0xA0 ≤ n && n ≤ 0xFFFD) || 0x10000 ≤ n

/-- A place in a text. -/
structure Cursor where
  /-- The characters ahead. -/
  ahead : List Char
  /-- How many characters lie behind. -/
  offset : Nat := 0
  /-- How many lines lie behind. -/
  line : Nat := 0
  /-- How many characters of the line lie behind. -/
  column : Nat := 0
deriving DecidableEq

namespace Cursor

/-- Steps over a character; a return and a line feed end one line. -/
def next (c : Cursor) : Cursor :=
  match c.ahead with
  | [] => c
  | ch :: cs =>
      if isBreak ch && !(ch = '\r' && cs.head? = some '\n') then ⟨cs, c.offset + 1, c.line + 1, 0⟩
      else ⟨cs, c.offset + 1, c.line, if ch = byteOrderMark then c.column else c.column + 1⟩

/-- Steps over `n` characters. -/
def skip (c : Cursor) : Nat → Cursor
  | 0 => c
  | n + 1 => c.next.skip n

/-- Steps over the characters that pass `p`. -/
def skipWhile (p : Char → Bool) (c : Cursor) : Cursor := c.skip (c.ahead.takeWhile p).length

/-- The end of a line as it is read, and the place behind it. -/
def lineBreak? (c : Cursor) : Option (Char × Cursor) :=
  match c.ahead with
  | '\r' :: '\n' :: _ => some ('\n', c.skip 2)
  | ch :: _ =>
      if ch = '\u2028' ∨ ch = '\u2029' then some (ch, c.next)
      else if isBreak ch then some ('\n', c.next)
      else none
  | [] => none

/-- What a line break and the empty lines behind it stand for inside a scalar: a space, or one
character less than the breaks. -/
def folded (first : Char) (others : List Char) : List Char :=
  if first ≠ '\n' then first :: others else if others = [] then [' '] else others

end Cursor

end EntitySchema.Yaml
