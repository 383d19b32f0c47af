import EntitySchema.Text.Split

/-!
# Workspace/Path — where files are

A path is a list of names, from the root directory or from wherever it is used.  Empty names and `.`
say nothing and are dropped; `..` stays until the path is resolved to a location, the names on the
way from the root.
-/

namespace EntitySchema

/-- The names on the way from the root directory to a file or a directory. -/
abbrev Location := List String

/-- A path to a file or a directory. -/
structure Path where
  /-- Whether the path starts at the root directory. -/
  absolute : Bool
  /-- The names on the way. -/
  parts : List String
deriving DecidableEq

namespace Path

/-- Whether a name leads anywhere. -/
def isPart (name : String) : Bool := name != "" && name != "."

/-- The path that a text spells. -/
def ofText (text : String) : Path :=
  { absolute := text.toList.head? = some '/'
    parts := ((Text.splitAll '/' text.toList).map String.ofList).filter isPart }

/-- A path as a text. -/
def text (p : Path) : String :=
  let names := "/".intercalate p.parts
  if p.absolute then "/" ++ names else if p.parts = [] then "." else names

/-- The path to a location. -/
def ofLocation (l : Location) : Path := ⟨true, l⟩

/-- The path that `q` is from `p` on. -/
def join (p q : Path) : Path := if q.absolute then q else ⟨p.absolute, p.parts ++ q.parts⟩

/-- The path with a name added. -/
def child (p : Path) (name : String) : Path := p.join (.ofText name)

/-- The last name, empty if there is none. -/
def name (p : Path) : String := p.parts.getLast?.getD ""

/-- The path without its last name. -/
def parent (p : Path) : Path := ⟨p.absolute, p.parts.dropLast⟩

/-- Where a name leads from a location. -/
def follow (l : Location) (name : String) : Location :=
  if name = ".." then l.dropLast else l ++ [name]

/-- The location of a path that is used at `home`. -/
def resolve (home : Location) (p : Path) : Location :=
  p.parts.foldl follow (if p.absolute then [] else home)

end Path

/-- The names that lead from `root` to `l`, if `l` is in or below `root`. -/
def Location.below? (root l : Location) : Option (List String) :=
  if root.isPrefixOf l then some (l.drop root.length) else none

/-- A file name without its last dot and what follows, unless the dot comes first or last. -/
def stem (name : String) : String :=
  let tail := name.toList.reverse.takeWhile (· != '.')
  match name.toList.reverse.dropWhile (· != '.') with
  | _ :: before => if tail = [] ∨ before = [] then name else .ofList before.reverse
  | [] => name

end EntitySchema
