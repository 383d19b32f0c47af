import EntitySchema.Text.Digit
import EntitySchema.Text.Quoted
import EntitySchema.Value.Basic

/-!
# Json/Reader — JSON text as values

A number with neither fraction nor exponent is a whole number, and is refused if it has too many
digits.  Of members with equal names the last value stands at the first place.  The words `NaN`,
`Infinity` and `-Infinity` are read as numbers.
-/

namespace EntitySchema.Json

/-- Why a text is not read. -/
inductive Fault where
  /-- The text is not JSON. -/
  | malformed
  /-- A whole number has more digits than are read. -/
  | tooLong (digits : Nat)
deriving DecidableEq

/-- What is there, in a text that is not JSON where nothing is. -/
def required {α : Type} : Option α → Except Fault α
  | some a => .ok a
  | none => .error .malformed

/-- Whether `c` may stand between tokens. -/
def isSpace (c : Char) : Bool := c = ' ' || c = '\t' || c = '\n' || c = '\r'

/-- Drops what may stand between tokens. -/
def skipSpace (cs : List Char) : List Char := cs.dropWhile isSpace

/-! ## Strings -/

/-- The character that a letter after a backslash stands for. -/
def unescape? : Char → Option Char
  | '"' => some '"'
  | '\\' => some '\\'
  | '/' => some '/'
  | 'b' => some '\x08'
  | 'f' => some '\x0c'
  | 'n' => some '\n'
  | 'r' => some '\r'
  | 't' => some '\t'
  | _ => none

/-- The code units up to the closing quote, and the text behind it. -/
def readUnits : List Char → Option (List Nat × List Char)
  | [] => none
  | '"' :: cs => some ([], cs)
  | '\\' :: 'u' :: a :: b :: c :: d :: cs => do
      let n ← Text.hexNumeral? [a, b, c, d]
      let (us, rest) ← readUnits cs
      pure (n :: us, rest)
  | '\\' :: e :: cs => do
      let x ← unescape? e
      let (us, rest) ← readUnits cs
      pure (x.toNat :: us, rest)
  | c :: cs =>
      if c = '\\' ∨ c.toNat < 0x20 then none
      else (readUnits cs).map fun (us, rest) => (c.toNat :: us, rest)

/-- The text of a string whose opening quote is already read. -/
def readText (cs : List Char) : Option (String × List Char) :=
  (readUnits cs).map fun (us, rest) => (.ofList (Text.ofUnits us), rest)

/-! ## Numbers -/

/-- The digits after a point, if there are any. -/
def readFraction : List Char → List Nat × List Char
  | '.' :: cs =>
      match Text.readDigits cs with
      | ([], _) => ([], '.' :: cs)
      | (ds, rest) => (ds, rest)
  | cs => ([], cs)

/-- A sign and the text behind it. -/
def readSign : List Char → Bool × List Char
  | '-' :: cs => (true, cs)
  | '+' :: cs => (false, cs)
  | cs => (false, cs)

/-- The exponent of a number, if there is one. -/
def readExponent : List Char → Option Int × List Char
  | [] => (none, [])
  | c :: cs =>
      if c = 'e' ∨ c = 'E' then
        let (negative, cs') := readSign cs
        match Text.readDigits cs' with
        | ([], _) => (none, c :: cs)
        | (ds, rest) =>
            let n : Int := Text.numeral ds
            (some (if negative then -n else n), rest)
      else (none, c :: cs)

/-- The digits before the point: a zero, or digits that do not start with one. -/
def readWhole : List Char → Option (List Nat × List Char)
  | '0' :: cs => some ([0], cs)
  | cs =>
      match Text.readDigits cs with
      | ([], _) => none
      | (ds, rest) => some (ds, rest)

/-- A number without its sign. -/
def readUnsigned (negative : Bool) (cs : List Char) : Except Fault (Number × List Char) := do
  let (whole, cs) ← required (readWhole cs)
  let (fraction, cs) := readFraction cs
  let (exponent, cs) := readExponent cs
  if fraction = [] ∧ exponent = none then
    if Text.digitLimit < whole.length then .error (.tooLong whole.length)
    else
      let n : Int := Text.numeral whole
      pure (.int (if negative then -n else n), cs)
  else
    let digits := Text.numeral (whole ++ fraction)
    pure (.float (.ofDecimal negative digits (exponent.getD 0 - fraction.length)), cs)

/-- A number. -/
def readNumber : List Char → Except Fault (Number × List Char)
  | 'N' :: 'a' :: 'N' :: cs => .ok (.float .nan, cs)
  | 'I' :: 'n' :: 'f' :: 'i' :: 'n' :: 'i' :: 't' :: 'y' :: cs =>
      .ok (.float (.signed false .infinity), cs)
  | '-' :: 'I' :: 'n' :: 'f' :: 'i' :: 'n' :: 'i' :: 't' :: 'y' :: cs =>
      .ok (.float (.signed true .infinity), cs)
  | '-' :: cs => readUnsigned true cs
  | cs => readUnsigned false cs

/-! ## Values -/

mutual

/-- A value at the start of a text, and the text behind it. -/
def readValue : Nat → List Char → Except Fault (Value × List Char)
  | 0, _ => .error .malformed
  | fuel + 1, cs =>
      match skipSpace cs with
      | '"' :: cs => (required (readText cs)).map fun (s, rest) => (.text s, rest)
      | '[' :: cs =>
          match skipSpace cs with
          | ']' :: rest => .ok (.list [], rest)
          | cs => (readItems fuel cs).map fun (xs, rest) => (.list xs, rest)
      | '\x7b' :: cs =>
          match skipSpace cs with
          | '\x7d' :: rest => .ok (.map [], rest)
          | cs => (readMembers fuel cs).map fun (ms, rest) => (.map (Pairs.dedup ms), rest)
      | 'n' :: 'u' :: 'l' :: 'l' :: rest => .ok (.null, rest)
      | 't' :: 'r' :: 'u' :: 'e' :: rest => .ok (.bool true, rest)
      | 'f' :: 'a' :: 'l' :: 's' :: 'e' :: rest => .ok (.bool false, rest)
      | cs => (readNumber cs).map fun (n, rest) => (.number n, rest)

/-- The items of a list up to its closing bracket. -/
def readItems : Nat → List Char → Except Fault (List Value × List Char)
  | 0, _ => .error .malformed
  | fuel + 1, cs => do
      let (x, cs) ← readValue fuel cs
      match skipSpace cs with
      | ']' :: rest => pure ([x], rest)
      | ',' :: cs => let (xs, rest) ← readItems fuel cs; pure (x :: xs, rest)
      | _ => .error .malformed

/-- The members of a mapping up to its closing brace. -/
def readMembers : Nat → List Char → Except Fault (List (String × Value) × List Char)
  | 0, _ => .error .malformed
  | fuel + 1, cs =>
      match skipSpace cs with
      | '"' :: cs => do
          let (k, cs) ← required (readText cs)
          match skipSpace cs with
          | ':' :: cs =>
              let (x, cs) ← readValue fuel cs
              match skipSpace cs with
              | '\x7d' :: rest => pure ([(k, x)], rest)
              | ',' :: cs =>
                  let (ms, rest) ← readMembers fuel cs
                  pure ((k, x) :: ms, rest)
              | _ => .error .malformed
          | _ => .error .malformed
      | _ => .error .malformed

end

/-- The value of a JSON text. -/
def parse (s : String) : Except Fault Value := do
  let cs := s.toList
  let (v, rest) ← readValue (2 * cs.length + 2) cs
  if skipSpace rest = [] then pure v else .error .malformed

/-- The value of a JSON text, if it has one. -/
def parse? (s : String) : Option Value := (parse s).toOption

end EntitySchema.Json
