import EntitySchema.Field.Basic
import EntitySchema.Grammar.Modifier
import EntitySchema.Grammar.Target
import EntitySchema.Text.Digit
import EntitySchema.Text.Uppercase

/-!
# Grammar/Plain — definitions without an operator

A definition without an operator is a parametric type such as `decimal(10, 2)`, a generic type such
as `map<string, int>`, free text if it holds a space, an implicit relation if it names a backref or
starts with a capital, and otherwise a primitive.
-/

namespace EntitySchema.Grammar

/-! ## Parametric types -/

/-- The number at the start of a text, digits of any script, and the text behind it. -/
def readSize? (cs : List Char) : Option (Nat × List Char) :=
  match cs.span fun c => (Text.digit? c).isSome with
  | (ds, rest) => (Text.numeral? ds).map (·, rest)

/-- One or two sizes up to a closing parenthesis at the end of the text. -/
def readSizes? (cs : List Char) : Option (Nat × Option Nat) := do
  let (first, rest) ← readSize? (Text.trimStart cs)
  match Text.trimStart rest with
  | [')'] => pure (first, none)
  | ',' :: rest =>
      let (second, rest) ← readSize? (Text.trimStart rest)
      match Text.trimStart rest with
      | [')'] => pure (first, some second)
      | _ => none
  | _ => none

/-- The names of parametric types. -/
def parametricNames : List String := ["decimal", "varchar", "char", "fixed"]

/-- The sizes of a parametric type: a decimal has a precision and a scale, others a length. -/
def sizesOf (name : String) (first : Nat) (second : Option Nat) : Parametric :=
  if name = "decimal" then { precision := some first, scale := second.map Int.ofNat }
  else { length := some first }

/-- The name and sizes of a parametric type. -/
def parametric? (cs : List Char) : Option (String × Parametric) :=
  parametricNames.findSome? fun name => do
    let rest ← Text.dropLead? (name.toList ++ ['(']) cs
    let (first, second) ← readSizes? rest
    pure (name, sizesOf name first second)

/-! ## Generic types -/

/-- What stands before and behind the first comma outside all brackets, `depth` of which are
open. -/
def splitTopComma? : Int → List Char → Option (List Char × List Char)
  | _, [] => none
  | depth, c :: cs =>
      if c = ',' ∧ depth = 0 then some ([], cs)
      else
        let depth :=
          if c = '<' ∨ c = '(' then depth + 1
          else if c = '>' ∨ c = ')' then depth - 1
          else depth
        (splitTopComma? depth cs).map fun (before, after) => (c :: before, after)

/-- The key and value types of a map, neither of them empty. -/
def mapTypes? (inner : List Char) : Option (List Char × List Char) := do
  let (before, after) ← splitTopComma? 0 inner
  let key := Text.trim before
  let value := Text.trim after
  if key = [] ∨ value = [] then none else pure (key, value)

/-- The names of generic types. -/
def genericNames : List String := ["map", "struct", "enum", "ref", "list"]

/-- The arguments of a generic type. -/
def argumentsOf? (name : String) (inner : List Char) : Option Generic :=
  if name = "map" then
    (mapTypes? inner).map fun (key, value) =>
      { keyType := some (.ofList key), valueType := some (.ofList value) }
  else
    let inner := String.ofList inner
    some <|
      if name = "list" then { elementType := some inner }
      else if name = "struct" then { structName := some inner }
      else if name = "enum" then { enumName := some inner }
      else { refTarget := some inner }

/-- What stands between `name<` and a final `>`: one line, not empty. -/
def bracketed? (name : String) (cs : List Char) : Option (List Char) := do
  let rest ← Text.dropLead? (name.toList ++ ['<']) cs
  let inner ← Text.dropTail? ['>'] rest
  if inner = [] ∨ inner.contains '\n' then none else pure inner

/-- The name and arguments of a generic type. -/
def generic? (cs : List Char) : Option (String × Generic) :=
  genericNames.findSome? fun name => do
    let inner ← bracketed? name cs
    let arguments ← argumentsOf? name (Text.trim inner)
    pure (name, arguments)

/-! ## Plain definitions -/

/-- Whether a text starts with an uppercase character. -/
def startsUppercase : List Char → Bool
  | [] => false
  | c :: _ => Text.isUppercase c

/-- A type name without brackets: a relation if it names a backref or starts with a capital. -/
def namedShape (base : List Char) : List Char × Shape :=
  match splitBackref base with
  | (type, some backref) =>
      (type, .relation { relatedType := .ofList type, backref := some (.ofList backref) })
  | (_, none) =>
      (base, if startsUppercase base then .relation { relatedType := .ofList base } else .scalar)

/-- The field that a trimmed definition without an operator declares. -/
def plainField (name : String) (text : List Char) : Field :=
  let (base, modifiers) := stripModifiers text
  match parametric? base with
  | some (type, sizes) => { name, type, modifiers, shape := .parametric sizes }
  | none =>
    match generic? base with
    | some (type, arguments) => { name, type, modifiers, shape := .generic arguments }
    | none =>
      if text.contains ' ' then { name, type := .ofList text }
      else
        let (type, shape) := namedShape (unaliased base)
        { name, type := .ofList type, modifiers, shape }

end EntitySchema.Grammar
