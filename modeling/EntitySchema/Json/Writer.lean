import EntitySchema.Text.Quoted
import EntitySchema.Value.Display

/-!
# Json/Writer — values as compact JSON

No blanks between tokens and nothing but printable ASCII inside them: a character beyond is escaped
by its UTF-16 units.  Whole numbers and doubles stay apart, since a double is never written
without a point or an exponent.  Only values without very long whole numbers are meant to be written
(`Value.isShort`).
-/

namespace EntitySchema

namespace Json

/-- A character inside a JSON string. -/
def escape (c : Char) : List Char :=
  if c = '"' then ['\\', '"']
  else if c = '\\' then ['\\', '\\']
  else if c = '\n' then ['\\', 'n']
  else if c = '\r' then ['\\', 'r']
  else if c = '\t' then ['\\', 't']
  else if c = '\x08' then ['\\', 'b']
  else if c = '\x0c' then ['\\', 'f']
  else if 0x20 ≤ c.toNat ∧ c.toNat ≤ 0x7E then [c]
  else if c.toNat < 0x10000 then '\\' :: 'u' :: Text.hex 4 c.toNat
  else
    let n := c.toNat - 0x10000
    '\\' :: 'u' :: Text.hex 4 (0xD800 + n / 0x400) ++
      '\\' :: 'u' :: Text.hex 4 (0xDC00 + n % 0x400)

/-- A text as a JSON string. -/
def writeText (s : String) : List Char := '"' :: s.toList.flatMap escape ++ ['"']

/-- A number as a JSON number; not-a-number and infinity have words of their own. -/
def writeNumber : Number → List Char
  | .int z => Text.ofInt z
  | .float x => x.textWith ['N', 'a', 'N'] ['I', 'n', 'f', 'i', 'n', 'i', 't', 'y']

mutual

/-- A value as compact JSON. -/
def write : Value → List Char
  | .null => ['n', 'u', 'l', 'l']
  | .bool true => ['t', 'r', 'u', 'e']
  | .bool false => ['f', 'a', 'l', 's', 'e']
  | .number n => writeNumber n
  | .text s => writeText s
  | .list xs => '[' :: writeItems xs ++ [']']
  | .map ms => '\x7b' :: writeMembers ms ++ ['\x7d']

/-- The items of a list, separated by commas. -/
def writeItems : List Value → List Char
  | [] => []
  | [x] => write x
  | x :: xs => write x ++ ',' :: writeItems xs

/-- The members of a mapping, separated by commas. -/
def writeMembers : List (String × Value) → List Char
  | [] => []
  | [(k, x)] => writeText k ++ ':' :: write x
  | (k, x) :: ms => writeText k ++ ':' :: (write x ++ ',' :: writeMembers ms)

end

/-- A value as compact JSON text. -/
def render (v : Value) : String := .ofList (write v)

end Json

/-- Whether a number may be written: a whole number has a limit on its digits. -/
def Number.isShort : Number → Bool
  | .int z => (Text.ofNat z.natAbs).length ≤ Text.digitLimit
  | .float _ => true

/-- Whether every number in a value may be written. -/
def Value.isShort (v : Value) : Bool := v.allNumbers Number.isShort

end EntitySchema
