import EntitySchema.Proofs.Dependency.Component
import EntitySchema.Proofs.Dependency.Graph
import EntitySchema.Proofs.Schema.Assembly

/-!
# Proofs/Dependency/Cycles — the cycles of a graph

    component with two types ──exists_long_cycle──▸ a cycle through two of them
    type that needs itself   ──pair_mem_cycles_iff──▸ the cycle of that type alone

The survey over all nodes meets simple cycles (`isCycle_of_mem_cycles`), one at least in every
component that has any (`exists_cycle`), and those of a single type once each (`count_cycles`).  So
a cycle through two types is met exactly if two types need each other (`exists_mem_cycles_iff`), and
whether there are cycles depends on the dependencies alone (`hasCycles_congr`).
-/

namespace EntitySchema

namespace Dependency

namespace Graph

/-! ## The survey of a graph -/

/-- The nodes are as many as the counter allows for, so the survey is complete. -/
theorem surveys_cycles (g : Graph) (skipOptional : Bool) :
    ∃ s, Surveys (g.dependencies skipOptional) [] {} g.nodes.keys s ∧
      g.cycles skipOptional = s.cycles := by
  exact ⟨_, surveys_foldl (fun _ hu => mem_keys_of_dependencies hu) g.walkBound {} g.nodes.keys
    (.start g), rfl⟩

/-- **Every cycle that is met is one.** -/
theorem isCycle_of_mem_cycles {g : Graph} {skipOptional : Bool} {c : List String}
    (hc : c ∈ g.cycles skipOptional) : IsCycle (g.dependencies skipOptional) c := by
  obtain ⟨s, hs, heq⟩ := g.surveys_cycles skipOptional
  rw [heq] at hc
  exact (cycles_sound hs .nil (fun _ _ => .singleton _) c hc).resolve_left (by simp)

theorem count_cycles {g : Graph} {skipOptional : Bool} (n : String) :
    (g.cycles skipOptional).count [n, n] = (g.dependencies skipOptional n).count n := by
  obtain ⟨s, hs, heq⟩ := g.surveys_cycles skipOptional
  have hcount := count_loops hs .nil n
  rw [heq]
  by_cases hn : n ∈ g.dependencies skipOptional n
  · have hkey := mem_keys_of_dependencies (List.ne_nil_of_mem hn)
    have hvisited := (hs.names_visited n hkey).resolve_left (by simp)
    simpa [hvisited] using hcount
  · have hzero := List.count_eq_zero_of_not_mem hn
    simpa [hzero] using hcount

/-- **In every component of two types a cycle through two of them is met.** -/
theorem exists_long_cycle {g : Graph} {skipOptional : Bool} {u v : String}
    (huv : Relation.TransGen (Needs (g.dependencies skipOptional)) u v)
    (hvu : Relation.TransGen (Needs (g.dependencies skipOptional)) v u) (hne : u ≠ v) :
    ∃ c ∈ g.cycles skipOptional, (∀ n ∈ c, SameComponent (g.dependencies skipOptional) u n) ∧
      ∀ n, c ≠ [n, n] := by
  obtain ⟨s, hs, heq⟩ := g.surveys_cycles skipOptional
  obtain ⟨w, huw, -⟩ := Relation.TransGen.head'_iff.mp huv
  rw [heq]
  exact hs.exists_long_cycle (mem_keys_of_dependencies (List.ne_nil_of_mem huw)) huv hvu hne

/-- A type that needs itself directly is met on its own. -/
theorem pair_mem_cycles_iff {g : Graph} {skipOptional : Bool} {n : String} :
    [n, n] ∈ g.cycles skipOptional ↔ n ∈ g.dependencies skipOptional n := by
  rw [← List.count_pos_iff, count_cycles, List.count_pos_iff]

/-- **A cycle through two types is met exactly if two types need each other.** -/
theorem exists_mem_cycles_iff {g : Graph} {skipOptional : Bool} :
    (∃ c ∈ g.cycles skipOptional, ∀ n, c ≠ [n, n]) ↔
      ∃ u v, u ≠ v ∧ Relation.TransGen (Needs (g.dependencies skipOptional)) u v ∧
        Relation.TransGen (Needs (g.dependencies skipOptional)) v u := by
  constructor
  · rintro ⟨c, hc, hlong⟩
    have hcycle := isCycle_of_mem_cycles hc
    obtain ⟨a, ha, b, hb, hne⟩ := hcycle.exists_ne hlong
    exact ⟨a, b, hne, hcycle.transGen ha hb, hcycle.transGen hb ha⟩
  · rintro ⟨u, v, hne, huv, hvu⟩
    obtain ⟨c, hc, -, hlong⟩ := exists_long_cycle huv hvu hne
    exact ⟨c, hc, hlong⟩

/-- **A cycle is met in every component that has one**, through two types if it has two. -/
theorem exists_cycle {g : Graph} {skipOptional : Bool} {u : String}
    (huu : Relation.TransGen (Needs (g.dependencies skipOptional)) u u) :
    ∃ c ∈ g.cycles skipOptional, (∀ n ∈ c, SameComponent (g.dependencies skipOptional) u n) ∧
      ((∃ v, v ≠ u ∧ SameComponent (g.dependencies skipOptional) u v) →
        ∃ a ∈ c, ∃ b ∈ c, a ≠ b) := by
  by_cases hother : ∃ v, v ≠ u ∧ SameComponent (g.dependencies skipOptional) u v
  · obtain ⟨v, hne, huv, hvu⟩ := hother
    obtain ⟨c, hc, hwithin, hlong⟩ :=
      exists_long_cycle (transGen_of_ne huv hne) (transGen_of_ne hvu hne.symm) hne.symm
    exact ⟨c, hc, hwithin, fun _ => (isCycle_of_mem_cycles hc).exists_ne hlong⟩
  · -- the type that comes first on the way from `u` back to `u` can only be `u`
    obtain ⟨v, huv, hvu⟩ := Relation.TransGen.head'_iff.mp huu
    obtain rfl : v = u := by_contra fun hne => hother ⟨v, hne, .single huv, hvu⟩
    exact ⟨[v, v], pair_mem_cycles_iff.mpr huv, by simp [SameComponent, Relation.ReflTransGen.refl],
      fun h => absurd h hother⟩

/-- **Some cycle is met exactly if a type needs itself**, through others or not. -/
theorem cycles_ne_nil_iff {g : Graph} {skipOptional : Bool} :
    g.cycles skipOptional ≠ [] ↔
      ∃ u, Relation.TransGen (Needs (g.dependencies skipOptional)) u u := by
  constructor
  · intro hne
    obtain ⟨c, hc⟩ := List.exists_mem_of_ne_nil _ hne
    obtain ⟨u, hu⟩ := List.exists_mem_of_ne_nil c (isCycle_of_mem_cycles hc).ne_nil
    exact ⟨u, (isCycle_of_mem_cycles hc).transGen hu hu⟩
  · rintro ⟨u, hu⟩
    obtain ⟨c, hc, -⟩ := exists_cycle hu
    exact List.ne_nil_of_mem hc

/-- Graphs with the same dependencies both have cycles or both have none. -/
theorem hasCycles_congr {g g' : Graph} (h : ∀ k d, d ∈ g.hard k ↔ d ∈ g'.hard k) :
    g.hasCycles = g'.hasCycles := by
  have hneeds : Needs (g.dependencies false) = Needs (g'.dependencies false) := by
    ext k d
    exact h k d
  rw [hasCycles, hasCycles, decide_eq_decide, cycles_ne_nil_iff, cycles_ne_nil_iff, hneeds]

end Graph

end Dependency

namespace Schema

open Dependency

/-- **Cycles are met component by component.**  What is met is a simple cycle of dependencies,
closed by the type it starts with.  For each type on a cycle one is met that stays in the component
of the type, and it goes through two types if the component has two. -/
theorem cycles_meet_components (s : Schema) (skipOptional : Bool) :
    (∀ c ∈ s.dependencyGraph.cycles skipOptional,
      IsCycle (s.dependencyGraph.dependencies skipOptional) c) ∧
    ∀ u, Relation.TransGen (Needs (s.dependencyGraph.dependencies skipOptional)) u u →
      ∃ c ∈ s.dependencyGraph.cycles skipOptional,
        (∀ n ∈ c, SameComponent (s.dependencyGraph.dependencies skipOptional) u n) ∧
        ((∃ v, v ≠ u ∧ SameComponent (s.dependencyGraph.dependencies skipOptional) u v) →
          ∃ a ∈ c, ∃ b ∈ c, a ≠ b) :=
  ⟨fun _ hc => Graph.isCycle_of_mem_cycles hc, fun _ hu => Graph.exists_cycle hu⟩

/-- A desk of parts that share their wood, a mat from a loom that needs what it makes, and a tool
that needs its like. -/
def workshop : Record :=
  ⟨[("Desk", .map [("wood", .text "->Wood"), ("top", .text "->Top"), ("leg", .text "->Leg")]),
    ("Top", .map [("wood", .text "->Wood")]), ("Leg", .map [("wood", .text "->Wood")]),
    ("Wood", .map []), ("Mat", .map [("wood", .text "->Wood"), ("loom", .text "->Loom")]),
    ("Loom", .map [("yarn", .text "->Yarn"), ("loom", .text "->Loom")]),
    ("Yarn", .map [("loom", .text "->Loom")]), ("Tool", .map [("tool", .text "->Tool")])],
    by decide⟩

theorem cycles_meet_components_workshop : ∃ s, assemble workshop = .ok s ∧
    ∃ c ∈ s.dependencyGraph.cycles,
      (∀ n ∈ c, SameComponent (s.dependencyGraph.dependencies false) "Loom" n) ∧
      ∃ a ∈ c, ∃ b ∈ c, a ≠ b := by
  obtain ⟨s, hs, hfacts⟩ := exists_ok_of_any (x := assemble workshop)
    (p := fun s => decide ("Yarn" ∈ s.dependencyGraph.dependencies false "Loom" ∧
      "Loom" ∈ s.dependencyGraph.dependencies false "Yarn")) (by decide +kernel)
  obtain ⟨hyarn, hloom⟩ := of_decide_eq_true hfacts
  obtain ⟨c, hc, hwithin, hlong⟩ :=
    (cycles_meet_components s false).2 "Loom" (.head hyarn (.single hloom))
  exact ⟨s, hs, c, hc, hwithin, hlong ⟨"Yarn", by decide, .single hyarn, .single hloom⟩⟩

end Schema

end EntitySchema
