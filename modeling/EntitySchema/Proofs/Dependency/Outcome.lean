import EntitySchema.Proofs.Dependency.Order

/-!
# Proofs/Dependency/Outcome — an order, or the cycle in its way

    root ──order──▸ ok     all that the root needs, each behind what it needs, the root last
                  ▸ error  a cycle that the root leads to

A root has the one or the other, and which one depends on what it needs alone: it has no order
exactly if it leads to a cycle (`order_fails_iff`).  Every type on a cycle leads to it, so the
survey of the cycles finds none exactly if all nodes have an order (`cycles_eq_nil_iff`).
-/

namespace EntitySchema

namespace Dependency.Graph

variable {g : Graph} {root : String} {skipOptional : Bool}

theorem order_eq_error_iff : (∃ c, g.order root skipOptional = .error c) ↔
    LeadsToCycle (g.dependencies skipOptional) root := by
  refine ⟨fun ⟨c, hc⟩ => leadsToCycle_of_order_eq_error hc, fun hcycle => ?_⟩
  cases h : g.order root skipOptional with
  | ok order => exact absurd hcycle (exists_order_iff.mp ⟨order, h⟩)
  | error c => exact ⟨c, rfl⟩

/-- **No cycle is met exactly if every node has an order.** -/
theorem cycles_eq_nil_iff : g.cycles skipOptional = [] ↔
    ∀ root ∈ g.nodes.keys, ∃ order, g.order root skipOptional = .ok order := by
  constructor
  · rintro hnil root -
    exact exists_order_iff.mpr fun ⟨u, _, huu⟩ => cycles_ne_nil_iff.mpr ⟨u, huu⟩ hnil
  · intro horders
    by_contra hne
    obtain ⟨u, huu⟩ := cycles_ne_nil_iff.mp hne
    obtain ⟨w, huw, -⟩ := Relation.TransGen.head'_iff.mp huu
    have hu := horders u (mem_keys_of_dependencies (List.ne_nil_of_mem huw))
    exact exists_order_iff.mp hu ⟨u, .refl, huu⟩

end Dependency.Graph

namespace Schema

open Dependency

/-- **An order lists all that its root needs**, each type once and behind those that it needs, and
the root last. -/
theorem order_lists_needed (s : Schema) {root : String} {skipOptional : Bool} {order : List String}
    (h : s.dependencyGraph.order root skipOptional = .ok order) :
    order.Nodup ∧
    (∀ n, n ∈ order ↔
      Relation.ReflTransGen (Needs (s.dependencyGraph.dependencies skipOptional)) root n) ∧
    (∀ n ∈ order, ∀ d ∈ s.dependencyGraph.dependencies skipOptional n,
      order.idxOf d < order.idxOf n) ∧
    order.getLast? = some root := by
  obtain ⟨hfeasible, hmem⟩ := Graph.feasible_of_order_eq_ok h
  exact ⟨hfeasible.nodup, hmem, fun n hn d hd => hfeasible.lt_idxOf hn hd,
    Graph.getLast?_of_order_eq_ok h⟩

theorem order_lists_needed_workshop : ∃ s, assemble workshop = .ok s ∧
    s.dependencyGraph.order "Desk" true = .ok ["Wood", "Top", "Leg", "Desk"] ∧
    Relation.ReflTransGen (Needs (s.dependencyGraph.dependencies true)) "Desk" "Wood" := by
  obtain ⟨s, hs, hfacts⟩ := exists_ok_of_any (x := assemble workshop)
    (p := fun s =>
      decide (s.dependencyGraph.order "Desk" true = .ok ["Wood", "Top", "Leg", "Desk"]))
    (by decide +kernel)
  have horder := of_decide_eq_true hfacts
  obtain ⟨-, hmem, -⟩ := order_lists_needed s horder
  exact ⟨s, hs, horder, (hmem "Wood").mp List.mem_cons_self⟩

/-- **A root has no order exactly if it leads to a cycle.**  What it gets then is a simple cycle of
dependencies, closed by the type it starts with, and the root needs every type on it.  No cycle is
met in a graph exactly if all of its nodes have an order. -/
theorem order_fails_iff (s : Schema) (skipOptional : Bool) :
    (∀ root, (∃ c, s.dependencyGraph.order root skipOptional = .error c) ↔
      LeadsToCycle (s.dependencyGraph.dependencies skipOptional) root) ∧
    (∀ root c, s.dependencyGraph.order root skipOptional = .error c →
      IsCycle (s.dependencyGraph.dependencies skipOptional) c.path ∧
      ∀ u ∈ c.path,
        Relation.ReflTransGen (Needs (s.dependencyGraph.dependencies skipOptional)) root u) ∧
    (s.dependencyGraph.cycles skipOptional = [] ↔
      ∀ root ∈ s.dependencyGraph.nodes.keys,
        ∃ order, s.dependencyGraph.order root skipOptional = .ok order) :=
  ⟨fun _ => Graph.order_eq_error_iff, fun _ _ h => Graph.isCycle_of_order_eq_error h,
    Graph.cycles_eq_nil_iff⟩

theorem order_fails_iff_workshop : ∃ s, assemble workshop = .ok s ∧
    s.dependencyGraph.order "Mat" = .error ⟨["Loom", "Yarn", "Loom"]⟩ ∧
    IsCycle (s.dependencyGraph.dependencies false) ["Loom", "Yarn", "Loom"] ∧
    Relation.ReflTransGen (Needs (s.dependencyGraph.dependencies false)) "Mat" "Yarn" := by
  obtain ⟨s, hs, hfacts⟩ := exists_ok_of_any (x := assemble workshop)
    (p := fun s => decide (s.dependencyGraph.order "Mat" = .error ⟨["Loom", "Yarn", "Loom"]⟩))
    (by decide +kernel)
  have herror := of_decide_eq_true hfacts
  obtain ⟨hcycle, hneeded⟩ := (order_fails_iff s false).2.1 "Mat" _ herror
  exact ⟨s, hs, herror, hcycle, hneeded "Yarn" (by simp)⟩

end Schema

end EntitySchema
