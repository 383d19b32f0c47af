import EntitySchema.Dependency.Order
import EntitySchema.Proofs.Dependency.Graph
import Mathlib.Data.List.Perm.Subperm

/-!
# Proofs/Dependency/Walk — how deep a walk can go

A walk stands at the end of a path: the types that it has entered and not left yet.  The path never
repeats a type, and a walk goes on only from types that have dependencies.  So as long as the
counter exceeds the number of such types that are not on the path (`Room`), it does not run out.
-/

namespace EntitySchema.Dependency

/-- Whether the type `u` needs the type `v`. -/
abbrev Needs (next : String → List String) (u v : String) : Prop := v ∈ next u

theorem nodup_concat {path : List String} {name : String} (hnodup : path.Nodup)
    (h : name ∉ path) : (path ++ [name]).Nodup := by
  rw [← List.concat_eq_append]
  exact hnodup.concat h

/-- At the end of a path without repetitions, the counter allows for all types that are left. -/
structure Room (types path : List String) (fuel : ℕ) : Prop where
  nodup : path.Nodup
  subset : path ⊆ types
  lt : types.length < path.length + fuel

namespace Room

variable {types path : List String} {fuel : ℕ}

theorem fuel_ne_zero (h : Room types path fuel) : fuel ≠ 0 := by
  have hle := (h.nodup.subperm h.subset).length_le
  have hlt := h.lt
  omega

/-- Entering a type takes one from the counter and one from the types that are left. -/
theorem enter (h : Room types path (fuel + 1)) {name : String} (hname : name ∉ path)
    (hmem : name ∈ types) : Room types (path ++ [name]) fuel where
  nodup := nodup_concat h.nodup hname
  subset := List.append_subset.mpr ⟨h.subset, by simpa using hmem⟩
  lt := by
    have hlt := h.lt
    rw [List.length_append, List.length_singleton]
    omega

/-- A walk over a graph starts with enough room. -/
theorem start (g : Graph) : Room g.nodes.keys [] g.walkBound where
  nodup := .nil
  subset := List.nil_subset _
  lt := by
    rw [Graph.walkBound, Table.keys, Table.size, List.length_map, List.length_nil]
    omega

end Room

end EntitySchema.Dependency
