import EntitySchema.Diff.Schema
import EntitySchema.Text.Digit

/-!
# Diff/Report — changes in words

A diff is told in one line (`SchemaDiff.summary`) or line by line (`SchemaDiff.report`).
-/

namespace EntitySchema

/-- A field with its type, `?` if it is optional and `[]` if it is an array. -/
def Field.label (f : Field) : String :=
  f.name ++ ": " ++ f.type ++ (if f.modifiers.optional then "?" else "")
    ++ (if f.modifiers.array then "[]" else "")

/-- A rename in words. -/
def Rename.line (r : Rename) : String :=
  "    " ++ r.old ++ " -> " ++ r.new ++ " (" ++ countText r.percent ++ "% confidence: " ++ r.reason
    ++ ")"

/-- The lines about an entity. -/
def EntityDiff.lines (d : EntityDiff) : List String :=
  ["Modified: " ++ d.entity]
    ++ d.added.map (fun f => "  + " ++ f.label)
    ++ d.removed.map (fun f => "  - " ++ f.label)
    ++ d.changed.map (fun c => "  ~ " ++ c.name ++ ": " ++ c.description)
    ++ (if d.renames = [] then [] else "  Possible renames:" :: d.renames.map (·.line))
    ++ [""]

namespace SchemaDiff

/-- A heading with a marked line for each name, unless there are none. -/
def nameLines (heading mark : String) (names : List String) : List String :=
  if names = [] then [] else heading :: names.map (mark ++ ·) ++ [""]

/-- The lines about a schema. -/
def lines (d : SchemaDiff) : List String :=
  ["Schema Changes:", ""]
    ++ nameLines "Added Entities:" "  + " d.added
    ++ nameLines "Removed Entities:" "  - " d.removed
    ++ d.modified.flatMap (·.lines)

/-- A diff line by line. -/
def report (d : SchemaDiff) : String :=
  if d.hasChanges then "\n".intercalate d.lines else "No schema changes detected."

/-- How many entities share a fate, unless there are none. -/
def countPhrase (fate : String) (count : Nat) : List String :=
  if count = 0 then []
  else [countText count ++ " " ++ fate ++ (if count = 1 then " entity" else " entities")]

/-- A diff in one line. -/
def summary (d : SchemaDiff) : String :=
  if d.hasChanges then
    ", ".intercalate
      (countPhrase "added" d.added.length ++ countPhrase "removed" d.removed.length
        ++ countPhrase "modified" d.modified.length)
  else "No changes detected"

end SchemaDiff

end EntitySchema
