import EntitySchema.Dependency.Order

/-!
# Dependency/Batch — what can be made at the same time

    needed types ──waiting──▸ counts ──ready──▸ a batch ──finish──▸ counts of the rest

Each type that a root needs counts the dependencies that it waits for.  A batch holds the types
that wait for none.  When its types are finished, those that depend on them wait for one less, and
the next batch is taken.  Types that wait for a cycle never come.
-/

namespace EntitySchema.Dependency

/-- How many dependencies each of the remaining types still waits for. -/
abbrev Waiting := Table String Int

/-- The remaining types that wait for nothing. -/
def Waiting.ready (w : Waiting) : List String := (w.filter fun _ count => count = 0).keys

namespace Graph

/-- At the start a type waits for each of its dependencies that is needed too. -/
def waiting (g : Graph) (needed : List String) : Waiting :=
  .ofList (needed.map fun name => (name, Int.ofNat ((g.hard name).countP needed.contains)))

/-- Finishes a type: it remains no longer, and its dependents wait for one type less. -/
def finish (g : Graph) (w : Waiting) (name : String) : Waiting :=
  (g.dependents name).foldl (fun w d => w.modify d (· - 1)) (w.erase name)

/-- The batches of the remaining types, at most `fuel` of them. -/
def batchesFrom (g : Graph) : Nat → Waiting → List (List String)
  | 0, _ => []
  | fuel + 1, w =>
      if w.ready = [] then []
      else w.ready :: g.batchesFrom fuel (w.ready.foldl g.finish w)

/-- The types that `root` needs, batch by batch; every batch takes at least one of them. -/
def batches (g : Graph) (root : String) : List (List String) :=
  let needed := g.reachable root
  g.batchesFrom needed.length (g.waiting needed)

end Graph

end EntitySchema.Dependency
