import EntitySchema.Dependency.Graph

/-!
# Dependency/Order — dependencies first

A depth-first walk lists the types that a root needs, each behind its dependencies (`order`).  A
walk that comes back to a type on its own path reports that part of the path as a cycle.  The same
walk, started from every type in turn, collects cycles instead of stopping at the first (`cycles`).

A path never repeats a type and every type with dependencies is a node, so walks are no deeper than
the nodes are many; the counter that bounds them never runs out.  What a root depends on is gathered
without a path, from a stack of types to look at (`allDependencies`); a type is put on it once.
-/

namespace EntitySchema.Dependency

/-- The part of a path from `name` on, closed by `name`. -/
def closeCycle (path : List String) (name : String) : List String :=
  path.dropWhile (· != name) ++ [name]

/-- A cycle of dependencies: the types on it, the first one repeated at the end. -/
structure CircularDependency where
  /-- The types on the cycle. -/
  path : List String
deriving DecidableEq

/-- Visits `name` at the end of `path`; `order` lists the types that are finished. -/
def visit (next : String → List String) :
    Nat → List String → List String → String → Except CircularDependency (List String)
  | 0, _, order, _ => .ok order
  | fuel + 1, path, order, name =>
      if order.contains name then .ok order
      else if path.contains name then .error ⟨closeCycle path name⟩
      else do
        let order ← (next name).foldlM (visit next fuel (path ++ [name])) order
        pure (order ++ [name])

/-- The cycles met so far and the types visited so far. -/
structure Survey where
  /-- The types visited, the latest first. -/
  visited : List String := []
  /-- The cycles met, in order. -/
  cycles : List (List String) := []
deriving DecidableEq

/-- Visits `name` at the end of `path` and notes the cycle that it closes. -/
def survey (next : String → List String) : Nat → List String → Survey → String → Survey
  | 0, _, s, _ => s
  | fuel + 1, path, s, name =>
      if path.contains name then { s with cycles := s.cycles ++ [closeCycle path name] }
      else if s.visited.contains name then s
      else
        (next name).foldl (survey next fuel (path ++ [name]))
          { s with visited := name :: s.visited }

/-- The types met from `name` on, in order of arrival, behind those that were met before. -/
def explore (next : String → List String) : Nat → List String → String → List String
  | 0, met, _ => met
  | fuel + 1, met, name =>
      if met.contains name then met
      else (next name).foldl (explore next fuel) (met ++ [name])

/-- The types met so far, and those to look at, the latest first. -/
structure Gathering where
  /-- The types met, in order of arrival. -/
  met : List String := []
  /-- The types whose dependencies are still to look at, the latest first. -/
  pending : List String := []
deriving DecidableEq

/-- Meets a type, which is to look at if it is new. -/
def Gathering.meet (w : Gathering) (name : String) : Gathering :=
  if w.met.contains name then w else { met := w.met ++ [name], pending := name :: w.pending }

/-- Looks at one pending type after another and meets its dependencies. -/
def gather (next : String → List String) : Nat → Gathering → Gathering
  | 0, w => w
  | fuel + 1, w =>
      match w.pending with
      | [] => w
      | name :: pending => gather next fuel ((next name).foldl Gathering.meet { w with pending })

namespace Graph

/-- How deep walks can be: the nodes and one unknown type, and the step that closes a cycle. -/
def walkBound (g : Graph) : Nat := g.nodes.size + 2

/-- The types that `root` needs, each behind its dependencies and `root` last. -/
def order (g : Graph) (root : String) (skipOptional : Bool := false) :
    Except CircularDependency (List String) :=
  visit (g.dependencies skipOptional) g.walkBound [] [] root

/-- The cycles among the dependencies, each closed by its first type. -/
def cycles (g : Graph) (skipOptional : Bool := false) : List (List String) :=
  (g.nodes.keys.foldl (survey (g.dependencies skipOptional) g.walkBound []) {}).cycles

/-- Whether there is a cycle. -/
def hasCycles (g : Graph) : Bool := g.cycles ≠ []

/-- The types that `root` needs, in order of arrival, `root` first. -/
def reachable (g : Graph) (root : String) : List String := explore g.hard g.walkBound [] root

/-- How many types can be looked at: one for each dependency, and the first. -/
def gatherBound (g : Graph) : Nat := (g.nodes.values.flatMap (·.hard)).length + 1

/-- The types that `root` depends on, directly or through others. -/
def allDependencies (g : Graph) (root : String) : List String :=
  (gather g.hard g.gatherBound { pending := [root] }).met

end Graph

end EntitySchema.Dependency
