import EntitySchema.Dependency.Batch
import EntitySchema.Text.Digit

/-!
# Dependency/Report — the graph in words

One block of lines for every type; for a root, the order in which the types that it needs can be
made, and a line for every batch of them.
-/

namespace EntitySchema.Dependency

/-- The message of a circular dependency. -/
def CircularDependency.message (c : CircularDependency) : String :=
  "Circular dependency detected: " ++ " -> ".intercalate c.path

/-- A line about the names, unless there are none. -/
def namesLine (mark : String) (names : List String) (role : String) : List String :=
  if names = [] then [] else ["  " ++ mark ++ " " ++ ", ".intercalate names ++ " (" ++ role ++ ")"]

/-- The lines about a type. -/
def Node.lines (n : Node) : List String :=
  let links := namesLine "->" n.hard "hard deps" ++ namesLine "~>" n.soft "soft deps"
    ++ namesLine "<-" n.dependents "depended on by"
  (n.name ++ ":") :: (if links = [] then ["  (no dependencies)"] else links) ++ [""]

namespace Graph

/-- The graph in words. -/
def report (g : Graph) : String :=
  "\n".intercalate (["Dependency Graph:", ""] ++ g.nodes.values.flatMap (·.lines))

/-- The line about a batch; batches are counted from one. -/
def batchLine (batch : List String) (i : Nat) : String :=
  "  Batch " ++ countText (i + 1) ++ ": " ++ ", ".intercalate batch

/-- The lines about the order in which the types that `root` needs can be made. -/
def orderLines (g : Graph) (root : String) : Except CircularDependency (List String) := do
  let names ← g.order root
  pure
    (("Generation order: " ++ ", ".intercalate names)
      :: (g.batches root).zipIdx.map fun (batch, i) => batchLine batch i)

end Graph

end EntitySchema.Dependency
