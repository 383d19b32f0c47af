import EntitySchema.Schema.Basic
import EntitySchema.Text.Digit
import EntitySchema.Text.Split

/-!
# Snapshot/Lenient — typed readings of values

A typed member may be written in another kind: truth values as words or as the numbers 0 and 1,
numbers as texts or truth values.  A reading never guesses beyond that; a text is only read from a
text.  Members of a model that are not known are skipped, and members with a default may be missing.
Names need not agree with the keys they stand under.
-/

namespace EntitySchema.Lenient

/-! ## Texts of numbers -/

/-- Whether `c` is white space: a blank other than the information separators. -/
def isWhite (c : Char) : Bool := Text.isBlank c && !(0x1C ≤ c.toNat && c.toNat ≤ 0x1F)

/-- Drops white space at both ends. -/
def trimWhite (cs : List Char) : List Char :=
  ((cs.dropWhile isWhite).reverse.dropWhile isWhite).reverse

/-- The digits of a text that holds nothing else, and at least one of them. -/
def digits? (cs : List Char) : Option (List Nat) :=
  match Text.readDigits cs with
  | (d :: ds, []) => some (d :: ds)
  | _ => none

/-- A whole number without leading zeros, with or without a minus sign. -/
def strictInt? : List Char → Option Int
  | ['-', '0'] => some 0
  | '-' :: '0' :: _ => none
  | '-' :: cs => (digits? cs).map fun ds => -(Text.numeral ds : Int)
  | ['0'] => some 0
  | '0' :: _ => none
  | cs => (digits? cs).map fun ds => (Text.numeral ds : Int)

/-- Whether two underscores stand next to each other. -/
def hasDoubleUnderscore : List Char → Bool
  | '_' :: '_' :: _ => true
  | _ :: cs => hasDoubleUnderscore cs
  | [] => false

/-- Drops underscores that stand one by one between other characters; a text without such
underscores only has no other form. -/
def withoutUnderscores? (cs : List Char) : Option (List Char) :=
  if cs.contains '_' && cs.head? != some '_' && cs.getLast? != some '_' && !hasDoubleUnderscore cs
  then some (cs.filter (· ≠ '_'))
  else none

/-- What follows zeros and underscores that start a number whose last zero is `kept`. -/
def afterZeros? (last : Char) : List Char → Option (List Char)
  | [] => some [last]
  | c :: cs =>
      if c = '0' ∨ c = '_' then afterZeros? c cs
      else if '1' ≤ c ∧ c ≤ '9' then some (c :: cs)
      else if c = '.' then some (last :: c :: cs)
      else none

/-- Drops leading zeros but for the last one of a zero. -/
def dropLeadingZeros? : List Char → Option (List Char)
  | [] => none
  | c :: cs =>
      if c = '0' then afterZeros? '0' cs
      else if ('1' ≤ c ∧ c ≤ '9') ∨ c = '-' then some (c :: cs)
      else none

/-- Drops a point that only zeros follow. -/
def dropZeroFraction (cs : List Char) : List Char :=
  match cs.span (· ≠ '.') with
  | (whole, '.' :: rest) => if rest.all (· = '0') then whole else cs
  | _ => cs

/-- A plus sign, leading zeros, a zero fraction and underscores taken out of a number. -/
def cleanedInt? (cs : List Char) : Option (List Char) :=
  let unsigned := match cs with
    | '+' :: '-' :: _ => none
    | '+' :: rest => some rest
    | rest => some rest
  (unsigned.bind dropLeadingZeros?).map fun cs =>
    let cs := dropZeroFraction cs
    (withoutUnderscores? cs).getD cs

/-- A whole number from its text. -/
def intOfText? (cs : List Char) : Option Int :=
  let cs := trimWhite cs
  (strictInt? cs).or ((cleanedInt? cs).bind strictInt?)

/-- The text with its ASCII letters in lower case. -/
def lowered (cs : List Char) : List Char := cs.map Char.toLower

/-- The sign in front of a number, and the text behind it. -/
def splitSign : List Char → Bool × List Char
  | '-' :: cs => (true, cs)
  | '+' :: cs => (false, cs)
  | cs => (false, cs)

/-- An exponent up to the end of the text; the empty text is the exponent zero. -/
def exponent? : List Char → Option Int
  | [] => some 0
  | c :: cs =>
      if c = 'e' ∨ c = 'E' then
        let (negative, cs) := splitSign cs
        (digits? cs).map fun ds =>
          if negative then -(Text.numeral ds : Int) else (Text.numeral ds : Int)
      else none

/-- A double from its text without white space: digits with or without a point and an exponent, or
a word for infinity or not-a-number. -/
def strictFloat? (cs : List Char) : Option Binary64 :=
  let (negative, cs) := splitSign cs
  let word := String.ofList (lowered cs)
  if word = "inf" ∨ word = "infinity" then some (.signed negative .infinity)
  else if word = "nan" then some .nan
  else
    let (whole, rest) := Text.readDigits cs
    let (fraction, rest) := match rest with
      | '.' :: rest => Text.readDigits rest
      | rest => ([], rest)
    if whole = [] ∧ fraction = [] then none
    else (exponent? rest).map fun e =>
      .ofDecimal negative (Text.numeral (whole ++ fraction)) (e - fraction.length)

/-- A double from its text. -/
def floatOfText? (cs : List Char) : Option Binary64 :=
  (strictFloat? (trimWhite cs)).or ((withoutUnderscores? cs).bind strictFloat?)

/-! ## Readings -/

/-- The whole number a finite double without a fraction stands for, if it has at most 63 bits. -/
def intOfFloat? : Binary64 → Option Int
  | .nan => none
  | .signed negative m =>
      if m.isFinite && m.units % Nat.pow 2 Magnitude.fineness = 0 && m.floor < Nat.pow 2 63 then
        some (if negative then -(m.floor : Int) else m.floor)
      else none

/-- A text. -/
def text? : Value → Option String
  | .text s => some s
  | _ => none

/-- A truth value, the number 0 or 1, or a word for one. -/
def bool? : Value → Option Bool
  | .bool b => some b
  | .number n => if n.same (.int 0) then some false else if n.same (.int 1) then some true else none
  | .text s =>
      let word := String.ofList (lowered s.toList)
      if ["0", "f", "n", "no", "off", "false"].contains word then some false
      else if ["1", "t", "y", "on", "yes", "true"].contains word then some true
      else none
  | _ => none

/-- A whole number, a double without a fraction, a truth value or the text of a whole number. -/
def int? : Value → Option Int
  | .number (.int z) => some z
  | .number (.float x) => intOfFloat? x
  | .bool b => some (if b then 1 else 0)
  | .text s => intOfText? s.toList
  | _ => none

/-- A double, a whole number, a truth value or the text of a double. -/
def float? : Value → Option Binary64
  | .number (.float x) => some x
  | .number (.int z) => if (Binary64.ofInt z).isFinite then some (.ofInt z) else none
  | .bool b => some (.ofInt (if b then 1 else 0))
  | .text s => floatOfText? s.toList
  | _ => none

/-- A list of texts. -/
def texts? : Value → Option (List String)
  | .list xs => xs.mapM text?
  | _ => none

/-- Null, or what `read` reads. -/
def nullable {α : Type} (read : Value → Option α) : Value → Option (Option α)
  | .null => some none
  | v => (read v).map some

/-! ## Models -/

/-- What `read` reads from the member `key`; `absent` if there is no such member. -/
def member? {α : Type} (v : Value) (key : String) (read : Value → Option α)
    (absent : Option α) : Option α :=
  match v.member? key with
  | some x => read x
  | none => absent

/-- A mapping whose values `read` reads. -/
def table? {α : Type} (read : Value → Option α) : Value → Option (Table String α)
  | .map ms =>
      (ms.mapM fun (p : String × Value) => (read p.2).map fun a => (p.1, a)).map Table.ofList
  | _ => none

/-- A mapping of any values. -/
def record? : Value → Option Record
  | .map ms => some (.ofList ms)
  | _ => none

/-- An operator by its symbol. -/
def operator? : Value → Option Operator
  | .text s => Operator.ofSymbol? s
  | _ => none

/-- The sizes of a parametric type. -/
def parametric? (v : Value) : Option Parametric := do
  let precision ← member? v "precision" (nullable int?) (some none)
  let scale ← member? v "scale" (nullable int?) (some none)
  let length ← member? v "length" (nullable int?) (some none)
  pure { precision, scale, length }

/-- The arguments of a generic type. -/
def generic? (v : Value) : Option Generic := do
  let keyType ← member? v "key_type" (nullable text?) (some none)
  let valueType ← member? v "value_type" (nullable text?) (some none)
  let elementType ← member? v "element_type" (nullable text?) (some none)
  let structName ← member? v "struct_name" (nullable text?) (some none)
  let enumName ← member? v "enum_name" (nullable text?) (some none)
  let refTarget ← member? v "ref_target" (nullable text?) (some none)
  pure { keyType, valueType, elementType, structName, enumName, refTarget }

/-- The target of a relation. -/
def relation? (v : Value) : Option Relation := do
  let relatedType ← member? v "related_type" text? none
  let backref ← member? v "backref" (nullable text?) (some none)
  let operator ← member? v "operator" (nullable operator?) (some none)
  let threshold ← member? v "threshold" (nullable float?) (some none)
  let unionTypes ← member? v "union_types" (nullable texts?) (some none)
  let prompt ← member? v "prompt" (nullable text?) (some none)
  pure { relatedType, backref, operator, threshold, unionTypes, prompt }

/-- A shape: its kind says how the other members are read. -/
def shape? (v : Value) : Option Shape := do
  let kind ← member? v "kind" text? none
  if kind = "scalar" then pure .scalar
  else if kind = "parametric" then (parametric? v).map .parametric
  else if kind = "generic" then (generic? v).map .generic
  else if kind = "relation" then (relation? v).map .relation
  else none

/-- A field. -/
def field? (v : Value) : Option Field := do
  let name ← member? v "name" text? none
  let type ← member? v "type" text? none
  let array ← member? v "is_array" bool? (some false)
  let optional ← member? v "is_optional" bool? (some false)
  let required ← member? v "is_required" bool? (some false)
  let unique ← member? v "is_unique" bool? (some false)
  let indexed ← member? v "is_indexed" bool? (some false)
  let shape ← member? v "shape" shape? (some .scalar)
  pure { name, type, modifiers := { array, optional, required, unique, indexed }, shape }

/-- An entity. -/
def entity? (v : Value) : Option Entity := do
  let name ← member? v "name" text? none
  let fields ← member? v "fields" (table? field?) (some .empty)
  let definition ← member? v "definition" record? (some .empty)
  let typeUri ← member? v "type_uri" (nullable text?) (some none)
  let directives ← member? v "directives" record? (some .empty)
  pure { name, fields, definition, typeUri, directives }

/-- A schema. -/
def schema? (v : Value) : Option Schema :=
  match v with
  | .map _ => do
      let entities ← member? v "entities" (table? entity?) (some .empty)
      let typeUris ← member? v "type_uris" (table? text?) (some .empty)
      pure { entities, typeUris }
  | _ => none

end EntitySchema.Lenient
