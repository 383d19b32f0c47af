import EntitySchema.Proofs.Dependency.Inverse

/-!
# Proofs/Dependency/Optional — dependencies without optional fields

    a field ──optional──▸ soft dependency
        └───label "…?"──▸ optional edge      with `skipOptional` no dependency, if all edges are

An optional field never carries a hard dependency, so there is nothing to skip, unless the name of
a required field itself ends in `?`.  Where all dependencies are shown, none is skipped
(`dependencies_true_eq_iff`), and walks that meet the same dependencies are the same
(`visit_congr`): orders and cycles do not change.
-/

namespace EntitySchema

namespace Dependency

variable {next next' : String → List String} {root : String}

/-- Walks from a root are the same if the types that it needs have the same dependencies. -/
theorem visit_congr (h : ∀ k, Relation.ReflTransGen (Needs next) root k → next' k = next k) :
    ∀ (fuel : ℕ) (path order : List String) {name : String},
      Relation.ReflTransGen (Needs next) root name →
      visit next' fuel path order name = visit next fuel path order name
  | 0, _, _, _, _ => rfl
  | fuel + 1, path, order, name, hname => by
      have hfold : ∀ (ds : List String) (order : List String), ds ⊆ next name →
          ds.foldlM (visit next' fuel (path ++ [name])) order
            = ds.foldlM (visit next fuel (path ++ [name])) order := by
        intro ds
        induction ds with
        | nil => exact fun _ _ => rfl
        | cons d ds ih =>
          intro order hds
          obtain ⟨hd, hds⟩ := List.cons_subset.mp hds
          rw [List.foldlM_cons, List.foldlM_cons, visit_congr h fuel _ _ (hname.tail hd)]
          exact bind_congr fun order => ih order hds
      rw [visit, visit, h name hname, hfold _ order (List.Subset.refl _)]

end Dependency

namespace Schema

open Dependency

variable {s : Schema} {k d : String}

theorem dependencies_true_eq_iff :
    s.dependencyGraph.dependencies true k = s.dependencyGraph.hard k ↔
      ∀ d ∈ s.dependencyGraph.hard k, s.Shows k d := by
  constructor
  · intro heq d hd
    exact (mem_dependencies_true_iff.mp (heq ▸ hd)).2
  · intro hshows
    rw [Graph.dependencies, if_pos rfl, List.filter_eq_self]
    intro d hd
    have hkept := mem_dependencies_true_iff.mpr ⟨hd, hshows d hd⟩
    rw [Graph.dependencies, if_pos rfl] at hkept
    exact (List.mem_filter.mp hkept).2

/-- In a schema with plain names every dependency is shown. -/
theorem shows_of_plainNames (hplain : s.PlainNames) (h : d ∈ s.dependencyGraph.hard k) :
    s.Shows k d := by
  obtain ⟨e, he, f, hf, hrelated, hopt⟩ := exists_required_of_mem_hard h
  obtain ⟨p, hp, rfl⟩ := List.mem_map.mp hf
  exact ⟨e, he, p, hp, hrelated, hopt, hplain k e he p.1 (List.mem_map_of_mem hp)⟩

/-- **Skipping optional fields changes nothing where all dependencies are shown.**  Optional fields
carry no hard dependency.  What is skipped are the dependencies that a type does not show, those
whose required fields all have names that end in `?`.  If all types that a root needs show their
dependencies, the root has the same order, or the same cycle in its way, with and without optional
fields; if all types do, the cycles are the same; and they do if no name of a field ends in `?`. -/
theorem skipOptional_agrees (s : Schema) :
    (∀ k, ∀ d ∈ s.dependencyGraph.hard k, ∃ e, s.entity? k = some e ∧
      ∃ f ∈ e.fields.values, f.relatedType? = some d ∧ f.modifiers.optional = false) ∧
    (∀ k d, d ∈ s.dependencyGraph.dependencies true k ↔
      d ∈ s.dependencyGraph.hard k ∧ s.Shows k d) ∧
    (∀ root, (∀ k, Relation.ReflTransGen (Needs s.dependencyGraph.hard) root k →
        ∀ d ∈ s.dependencyGraph.hard k, s.Shows k d) →
      s.dependencyGraph.order root true = s.dependencyGraph.order root) ∧
    ((∀ k, ∀ d ∈ s.dependencyGraph.hard k, s.Shows k d) →
      s.dependencyGraph.cycles true = s.dependencyGraph.cycles) ∧
    (s.PlainNames → ∀ k, ∀ d ∈ s.dependencyGraph.hard k, s.Shows k d) := by
  refine ⟨fun k d hd => exists_required_of_mem_hard hd, fun k d => mem_dependencies_true_iff,
    fun root hshows => ?_, fun hshows => ?_, fun hplain k d hd => shows_of_plainNames hplain hd⟩
  · exact visit_congr (fun k hk => dependencies_true_eq_iff.mpr (hshows k hk)) _ _ _ .refl
  · have hnext : s.dependencyGraph.dependencies true = s.dependencyGraph.dependencies false :=
      funext fun k => dependencies_true_eq_iff.mpr (hshows k)
    rw [Graph.cycles, Graph.cycles, hnext]

theorem skipOptional_agrees_blog : ∃ s, assemble blog = .ok s ∧
    (∀ root, s.dependencyGraph.order root true = s.dependencyGraph.order root) ∧
    s.dependencyGraph.cycles true = s.dependencyGraph.cycles := by
  obtain ⟨s, hs, hfacts⟩ := exists_ok_of_any (x := assemble blog)
    (p := fun s => decide s.PlainNames) (by decide +kernel)
  have hplain : s.PlainNames := of_decide_eq_true hfacts
  obtain ⟨-, -, horder, hcycles, hshows⟩ := skipOptional_agrees s
  exact ⟨s, hs, fun root => horder root fun k _ => hshows hplain k, hcycles (hshows hplain)⟩

-- A required field with the name of an optional one: its cycle is there, and is skipped.
example :
    (assemble ⟨[("A", .map [("x?", .text "->B")]), ("B", .map [("y", .text "->A")])], by decide⟩
      ).toOption.any (fun s =>
        s.dependencyGraph.cycles = [["A", "B", "A"]] ∧ s.dependencyGraph.cycles true = [] ∧
        s.dependencyGraph.order "A" true = .ok ["A"]) = true := by
  decide +kernel

end Schema

end EntitySchema
