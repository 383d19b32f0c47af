/-!
# Text/Digit — decimal digits of every script

A decimal digit is a character of the Unicode (14.0) general category Nd.  The digits of a script
stand next to each other in ascending order, so the table holds the zeros only.  JSON holds whole
numbers up to a limit on their digits.
-/

namespace EntitySchema.Text

/-- The digits zero, one for each run of ten decimal digits. -/
def digitZeros : List Nat :=
  [0x30, 0x660, 0x6F0, 0x7C0, 0x966, 0x9E6, 0xA66, 0xAE6, 0xB66, 0xBE6, 0xC66, 0xCE6, 0xD66,
   0xDE6, 0xE50, 0xED0, 0xF20, 0x1040, 0x1090, 0x17E0, 0x1810, 0x1946, 0x19D0, 0x1A80, 0x1A90,
   0x1B50, 0x1BB0, 0x1C40, 0x1C50, 0xA620, 0xA8D0, 0xA900, 0xA9D0, 0xA9F0, 0xAA50, 0xABF0, 0xFF10,
   0x104A0, 0x10D30, 0x11066, 0x110F0, 0x11136, 0x111D0, 0x112F0, 0x11450, 0x114D0, 0x11650,
   0x116C0, 0x11730, 0x118E0, 0x11950, 0x11C50, 0x11D50, 0x11DA0, 0x16A60, 0x16AC0, 0x16B50,
   0x1D7CE, 0x1D7D8, 0x1D7E2, 0x1D7EC, 0x1D7F6, 0x1E140, 0x1E2F0, 0x1E950, 0x1FBF0]

/-- The value of a decimal digit. -/
def digit? (c : Char) : Option Nat :=
  (digitZeros.find? fun z => z ≤ c.toNat && c.toNat < z + 10).map (c.toNat - ·)

/-- The value of an ASCII digit. -/
def asciiDigit? (c : Char) : Option Nat :=
  if '0' ≤ c ∧ c ≤ '9' then some (c.toNat - 48) else none

/-- The ASCII digits at the start of a text, and the text behind them. -/
def readDigits : List Char → List Nat × List Char
  | [] => ([], [])
  | c :: cs =>
      match asciiDigit? c with
      | some d => let (ds, rest) := readDigits cs; (d :: ds, rest)
      | none => ([], c :: cs)

/-- The number that digit values spell, most significant first. -/
def numeral (ds : List Nat) : Nat := ds.foldl (fun n d => 10 * n + d) 0

/-- The number of a text of decimal digits, of any script; the empty text has none. -/
def numeral? (cs : List Char) : Option Nat :=
  if cs = [] then none else (cs.mapM digit?).map numeral

/-- The ASCII digits of `n`, most significant first; `fuel` bounds their number. -/
def digitsFrom : Nat → Nat → List Char → List Char
  | 0, _, acc => acc
  | fuel + 1, n, acc =>
      let acc := Char.ofNat (48 + n % 10) :: acc
      if n < 10 then acc else digitsFrom fuel (n / 10) acc

/-- The decimal text of `n`. -/
def ofNat (n : Nat) : List Char := digitsFrom (n.log2 + 1) n []

/-- The decimal text of `z`, with a sign only below zero. -/
def ofInt : Int → List Char
  | .ofNat n => ofNat n
  | .negSucc n => '-' :: ofNat (n + 1)

/-- How many digits a whole number may have in JSON. -/
def digitLimit : Nat := 4300

end EntitySchema.Text

namespace EntitySchema

/-- A whole number as a text. -/
def countText (n : Nat) : String := .ofList (Text.ofNat n)

end EntitySchema
