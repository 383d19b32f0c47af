import EntitySchema.Text.Printable

/-!
# Text/Quoted — texts in quotes and the escapes inside

An escape names a character by hexadecimal digits, of one or two code units: a character beyond
U+FFFF is two, the halves of a surrogate pair.  Half a pair is no character and is read as U+FFFD.

A text is shown in single quotes, or in double quotes if it holds a single quote and no double one.
Inside, the backslash and the chosen quote are escaped by a backslash, and so is every character
that is not printable.
-/

namespace EntitySchema.Text

/-! ## Hexadecimal digits -/

/-- The lower-case hexadecimal digit of `n < 16`. -/
def hexDigit (n : Nat) : Char := Char.ofNat (if n < 10 then 48 + n else 87 + n)

/-- The last `width` hexadecimal digits of `n`. -/
def hex : Nat → Nat → List Char
  | 0, _ => []
  | width + 1, n => hex width (n / 16) ++ [hexDigit (n % 16)]

/-- The value of a hexadecimal digit of either case. -/
def hexValue? (c : Char) : Option Nat :=
  if '0' ≤ c ∧ c ≤ '9' then some (c.toNat - 48)
  else if 'a' ≤ c ∧ c ≤ 'f' then some (c.toNat - 87)
  else if 'A' ≤ c ∧ c ≤ 'F' then some (c.toNat - 55)
  else none

/-- The number that hexadecimal digits spell. -/
def hexNumeral? (cs : List Char) : Option Nat :=
  (cs.mapM hexValue?).map fun ds => ds.foldl (fun n d => 16 * n + d) 0

/-! ## Code units -/

/-- Whether a code unit is the first half of a pair. -/
def isHighHalf (u : Nat) : Bool := 0xD800 ≤ u && u < 0xDC00

/-- Whether a code unit is the second half of a pair. -/
def isLowHalf (u : Nat) : Bool := 0xDC00 ≤ u && u < 0xE000

/-- The character of a code unit that is not part of a pair. -/
def ofUnit (u : Nat) : Char := if isHighHalf u || isLowHalf u then '\uFFFD' else Char.ofNat u

/-- The character of the two halves of a pair. -/
def ofPair (u w : Nat) : Char := Char.ofNat (0x10000 + (u - 0xD800) * 0x400 + (w - 0xDC00))

/-- The characters of code units. -/
def ofUnits : List Nat → List Char
  | [] => []
  | [u] => [ofUnit u]
  | u :: w :: us =>
      if isHighHalf u && isLowHalf w then ofPair u w :: ofUnits us else ofUnit u :: ofUnits (w :: us)

/-! ## Quotes -/

/-- A character inside a text quoted by `q`. -/
def quotedChar (q c : Char) : List Char :=
  if c = '\\' ∨ c = q then ['\\', c]
  else if c = '\n' then ['\\', 'n']
  else if c = '\r' then ['\\', 'r']
  else if c = '\t' then ['\\', 't']
  else if isPrintable c then [c]
  else if c.toNat < 0x100 then '\\' :: 'x' :: hex 2 c.toNat
  else if c.toNat < 0x10000 then '\\' :: 'u' :: hex 4 c.toNat
  else '\\' :: 'U' :: hex 8 c.toNat

/-- A text in quotes. -/
def quoted (cs : List Char) : List Char :=
  let q := if cs.contains '\'' && !cs.contains '"' then '"' else '\''
  q :: cs.flatMap (quotedChar q) ++ [q]

end EntitySchema.Text
