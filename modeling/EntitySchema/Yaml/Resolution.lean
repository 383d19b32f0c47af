import EntitySchema.Text.Digit
import EntitySchema.Text.Quoted
import EntitySchema.Text.Split
import EntitySchema.Yaml.Node

/-!
# Yaml/Resolution — what a plain scalar stands for

A plain scalar stands for null, a truth value, a whole number (decimal, octal behind a zero,
hexadecimal, binary, or counted in sixties), a double, or else for its text.  A double has a point,
and an exponent has a sign.  The merge key and the value key stand for nothing of their own.
-/

namespace EntitySchema.Yaml

/-- Whether `c` is an ASCII digit or an underscore, which may stand among digits. -/
def isLooseDigit (c : Char) : Bool := (Text.asciiDigit? c).isSome || c = '_'

/-- Drops the underscores. -/
def withoutUnderscores (cs : List Char) : List Char := cs.filter (· ≠ '_')

/-- The number that ASCII digits spell, underscores left aside. -/
def looseNumeral (cs : List Char) : Nat := Text.numeral (cs.filterMap Text.asciiDigit?)

/-- The number that ASCII digits spell in a base, underscores left aside. -/
def numeralIn (base : Nat) (cs : List Char) : Nat :=
  (cs.filterMap Text.asciiDigit?).foldl (fun n d => base * n + d) 0

/-- Whether a text is a digit and more digits or underscores. -/
def isLooseNumeral : List Char → Bool
  | c :: cs => (Text.asciiDigit? c).isSome && cs.all isLooseDigit
  | [] => false

/-- The number below sixty that one or two digits spell. -/
def sixtieth? : List Char → Option Nat
  | [c] => Text.asciiDigit? c
  | [c, d] => do
      let tens ← Text.asciiDigit? c
      let ones ← Text.asciiDigit? d
      if tens < 6 then pure (10 * tens + ones) else none
  | _ => none

/-- A sign and the text behind it. -/
def splitSign : List Char → Bool × List Char
  | '-' :: cs => (true, cs)
  | '+' :: cs => (false, cs)
  | cs => (false, cs)

/-- A number counted in sixties, or a plain decimal one. -/
def sixties? (cs : List Char) : Option Nat :=
  match Text.splitAll ':' cs with
  | first :: rest => do
      let ds ← rest.mapM sixtieth?
      if isLooseNumeral first then pure (ds.foldl (fun n d => 60 * n + d) (looseNumeral first))
      else none
  | [] => none

/-- A whole number without its sign. -/
def natural? : List Char → Option Nat
  | ['0'] => some 0
  | '0' :: 'b' :: ds =>
      if ds ≠ [] ∧ ds.all (fun c => c = '0' ∨ c = '1' ∨ c = '_') then some (numeralIn 2 ds) else none
  | '0' :: 'x' :: ds =>
      if ds = [] then none else Text.hexNumeral? (withoutUnderscores ds)
  | '0' :: ds =>
      if ds.all fun c => c = '_' ∨ ('0' ≤ c ∧ c ≤ '7') then some (numeralIn 8 ds) else none
  | cs => sixties? cs

/-- A whole number. -/
def int? (cs : List Char) : Option Int :=
  match splitSign cs with
  | (negative, cs) => (natural? cs).map fun n => if negative then -(n : Int) else n

/-- An exponent with its sign up to the end of the text; the empty text is the exponent zero. -/
def exponent? : List Char → Option Int
  | [] => some 0
  | c :: sign :: d :: ds =>
      if (c = 'e' ∨ c = 'E') ∧ (sign = '-' ∨ sign = '+') ∧
          (d :: ds).all (fun x => (Text.asciiDigit? x).isSome) then
        let n : Int := looseNumeral (d :: ds)
        some (if sign = '-' then -n else n)
      else none
  | _ => none

/-- The double with the given digits before and behind the point, and an exponent behind those. -/
def decimal? (negative : Bool) (whole cs : List Char) : Option Binary64 :=
  let fraction := withoutUnderscores (cs.takeWhile isLooseDigit)
  (exponent? (cs.dropWhile isLooseDigit)).map fun e =>
    .ofDecimal negative (looseNumeral (whole ++ fraction)) (e - fraction.length)

/-- The double that parts counted in sixties make, the last of them first. -/
def sumSixties : Magnitude → Nat → List Magnitude → Magnitude
  | sum, _, [] => sum
  | sum, base, d :: ds => sumSixties (sum.add (d.mul (.ofNat base))) (60 * base) ds

/-- A double counted in sixties, with the given digits behind the point. -/
def sixtiesDouble? (negative : Bool) (whole fraction : List Char) : Option Binary64 :=
  match Text.splitAll ':' whole with
  | first :: next :: rest => do
      let ds ← (next :: rest).mapM sixtieth?
      let fraction := withoutUnderscores fraction
      let parts := looseNumeral first :: ds
      let last := Magnitude.ofDecimal (looseNumeral (Text.ofNat (parts.getLastD 0) ++ fraction))
        (-(fraction.length : Int))
      if isLooseNumeral first then
        pure (.signed negative
          (sumSixties .zero 1 (last :: (parts.dropLast.map Magnitude.ofNat).reverse)))
      else none
  | _ => none

/-- A double without its sign. -/
def unsignedDouble? (negative : Bool) (cs : List Char) : Option Binary64 :=
  match cs.span (· ≠ '.') with
  | (whole, '.' :: behind) =>
      if isLooseNumeral whole then decimal? negative whole behind
      else if behind.all isLooseDigit then sixtiesDouble? negative whole behind
      else none
  | _ => none

/-- A double. -/
def double? (cs : List Char) : Option Binary64 :=
  let (negative, unsigned) := splitSign cs
  let word := String.ofList unsigned
  if [".nan", ".NaN", ".NAN"].contains (String.ofList cs) then some .nan
  else if [".inf", ".Inf", ".INF"].contains word then some (.signed negative .infinity)
  else
    match cs with
    | '.' :: d :: behind =>
        if (Text.asciiDigit? d).isSome then decimal? false [] (d :: behind) else none
    | _ => unsignedDouble? negative unsigned

/-- The words for truth. -/
def trueWords : List String :=
  ["yes", "Yes", "YES", "true", "True", "TRUE", "on", "On", "ON"]

/-- The words for falsehood. -/
def falseWords : List String :=
  ["no", "No", "NO", "false", "False", "FALSE", "off", "Off", "OFF"]

/-- The words for null. -/
def nullWords : List String := ["", "~", "null", "Null", "NULL"]

/-- What a plain scalar stands for. -/
def Scalar.ofPlain? (cs : List Char) : Option Scalar :=
  let word := String.ofList cs
  if nullWords.contains word then some .null
  else if trueWords.contains word then some (.bool true)
  else if falseWords.contains word then some (.bool false)
  else if word = "<<" ∨ word = "=" then none
  else
    match int? cs, double? cs with
    | some z, _ => some (.number (.int z))
    | none, some x => some (.number (.float x))
    | none, none => some (.text word)

end EntitySchema.Yaml
