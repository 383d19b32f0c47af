import EntitySchema.Text.Quoted
import EntitySchema.Value.Basic

/-!
# Value/Display — values shown in messages and hints

A text stands for itself; every other value is shown with its parts inspected: texts in quotes,
lists in brackets, mappings in braces, and the words `None`, `True` and `False`.
-/

namespace EntitySchema

/-- The decimal text of a number, doubles with a point or an exponent. -/
def Number.text : Number → List Char
  | .int z => Text.ofInt z
  | .float x => x.text

namespace Value

mutual

/-- A value as it is shown inside another one. -/
def inspect : Value → List Char
  | .null => ['N', 'o', 'n', 'e']
  | .bool true => ['T', 'r', 'u', 'e']
  | .bool false => ['F', 'a', 'l', 's', 'e']
  | .number n => n.text
  | .text s => Text.quoted s.toList
  | .list xs => '[' :: inspectList xs ++ [']']
  | .map ms => '\x7b' :: inspectMembers ms ++ ['\x7d']

/-- Values one after another, separated by commas. -/
def inspectList : List Value → List Char
  | [] => []
  | [x] => inspect x
  | x :: xs => inspect x ++ ',' :: ' ' :: inspectList xs

/-- Members one after another, separated by commas. -/
def inspectMembers : List (String × Value) → List Char
  | [] => []
  | [(k, x)] => Text.quoted k.toList ++ ':' :: ' ' :: inspect x
  | (k, x) :: ms => Text.quoted k.toList ++ ':' :: ' ' :: inspect x ++ ',' :: ' ' :: inspectMembers ms

end

/-- A value as a text: a text is itself, another value is inspected. -/
def display : Value → String
  | .text s => s
  | v => .ofList v.inspect

end Value

end EntitySchema
