import EntitySchema.Proofs.Dependency.Graph
import EntitySchema.Proofs.Table
import Mathlib.Data.List.Basic

/-!
# Proofs/Dependency/Links — the graph of a schema, read off its fields

    links ──edgeOf, linkEdge──▸ edges and hard dependencies

A type depends on what its fields demand (`mem_hard_dependencyGraph_iff`).  Whether a field is
optional is noted twice, by a soft dependency and in the label of its edge; without optional fields
a type keeps the dependencies that it shows in both ways (`mem_dependencies_true_iff`).
-/

namespace EntitySchema

open Dependency

namespace Schema

/-- Whether the field `f` of `owner` demands that an entity of type `d` exists first. -/
def Demands (s : Schema) (owner : String) (f : Field) (d : String) : Prop :=
  ∃ r, f.relation? = some r ∧ r.relatedType = d ∧ d ≠ "" ∧ isPrimitive d = false ∧
    s.effectiveOperator owner f = .forwardExact ∧ f.modifiers.optional = false

theorem Demands.relatedType? {s : Schema} {owner d : String} {f : Field} (h : s.Demands owner f d) :
    f.relatedType? = some d := by
  obtain ⟨r, hr, rfl, -⟩ := h
  rw [Field.relatedType?, hr, Option.map_some]

theorem Demands.optional_eq_false {s : Schema} {owner d : String} {f : Field}
    (h : s.Demands owner f d) : f.modifiers.optional = false := by
  obtain ⟨-, -, -, -, -, -, hopt⟩ := h
  exact hopt

theorem demands_iff {s : Schema} {owner : String} (key : String) {f : Field} {d : String} :
    s.Demands owner f d ↔
      ∃ e, s.edge? owner key f = some e ∧ IsHard f.modifiers.optional e ∧ e.target = d := by
  constructor
  · rintro ⟨r, hr, rfl, hne, hprim, hop, hopt⟩
    exact ⟨_, edge?_eq_some_iff.mpr ⟨r, hr, hne, hprim, rfl⟩, ⟨hop, hopt⟩, rfl⟩
  · rintro ⟨e, he, ⟨hop, hopt⟩, rfl⟩
    obtain ⟨r, hr, hne, hprim, rfl⟩ := edge?_eq_some_iff.mp he
    exact ⟨r, hr, rfl, hne, hprim, hop, hopt⟩

/-- **A type depends on what its fields demand.** -/
theorem mem_hard_dependencyGraph_iff {s : Schema} {k d : String} :
    d ∈ s.dependencyGraph.hard k ↔
      ∃ e, s.entity? k = some e ∧ ∃ f ∈ e.fields.values, s.Demands k f d := by
  rw [(s.hard_dependencyGraph k).2]
  constructor
  · rintro ⟨l, hl, ⟨hhard, rfl⟩, rfl⟩
    obtain ⟨e, he, hf, ht⟩ := mem_links_iff.mp hl
    refine ⟨e, he, l.field, List.mem_map_of_mem hf, (demands_iff l.key).mpr ?_⟩
    exact ⟨s.edgeOf l, by rw [edge?_eq, ht, Option.map_some], hhard, rfl⟩
  · rintro ⟨e, he, f, hf, hdemands⟩
    obtain ⟨⟨key, f⟩, hq, rfl⟩ := List.mem_map.mp hf
    obtain ⟨edge, hedge, hhard, rfl⟩ := (demands_iff key).mp hdemands
    rw [edge?_eq] at hedge
    obtain ⟨t, ht, rfl⟩ := Option.map_eq_some_iff.mp hedge
    exact ⟨⟨k, key, f, t⟩, mem_links_iff.mpr ⟨e, he, hq, ht⟩, ⟨hhard, rfl⟩, rfl⟩

/-! ## Optional fields -/

section

variable {s : Schema} {k d : String}

/-- Whether the type `k` shows that it needs `d`: a required field of `k` relates to `d`, and its
name does not end like that of an optional one. -/
def Shows (s : Schema) (k d : String) : Prop :=
  ∃ e, s.entity? k = some e ∧ ∃ p ∈ e.fields.entries, p.2.relatedType? = some d ∧
    p.2.modifiers.optional = false ∧ p.1.toList.getLast? ≠ some '?'

/-- **Optional fields carry no hard dependency.** -/
theorem exists_required_of_mem_hard (h : d ∈ s.dependencyGraph.hard k) :
    ∃ e, s.entity? k = some e ∧
      ∃ f ∈ e.fields.values, f.relatedType? = some d ∧ f.modifiers.optional = false := by
  obtain ⟨e, he, f, hf, hdemands⟩ := mem_hard_dependencyGraph_iff.mp h
  exact ⟨e, he, f, hf, hdemands.relatedType?, hdemands.optional_eq_false⟩

/-- An edge looks optional if its field is, or if the name of its field looks so. -/
theorem isOptional_eq_false_iff {owner key : String} {f : Field} {edge : Edge}
    (h : s.edge? owner key f = some edge) : edge.isOptional = false ↔
      f.modifiers.optional = false ∧ key.toList.getLast? ≠ some '?' := by
  obtain ⟨r, -, -, -, rfl⟩ := edge?_eq_some_iff.mp h
  cases hopt : f.modifiers.optional with
  | true => simp [Edge.isOptional]
  | false => simp [Edge.isOptional]

theorem mem_edgesBetween_iff {edge : Edge} : edge ∈ s.dependencyGraph.edgesBetween k d ↔
    ∃ e, s.entity? k = some e ∧
      ∃ p ∈ e.fields.entries, s.edge? k p.1 p.2 = some edge ∧ edge.target = d := by
  rw [Graph.edgesBetween, List.mem_filter, edges_dependencyGraph, List.mem_map, decide_eq_true_iff]
  constructor
  · rintro ⟨⟨l, hl, rfl⟩, rfl, rfl⟩
    obtain ⟨e, he, hf, ht⟩ := mem_links_iff.mp hl
    exact ⟨e, he, (l.key, l.field), hf, by rw [edge?_eq, ht, Option.map_some]; rfl, rfl⟩
  · rintro ⟨e, he, ⟨key, f⟩, hf, hedge, rfl⟩
    rw [edge?_eq] at hedge
    obtain ⟨t, ht, rfl⟩ := Option.map_eq_some_iff.mp hedge
    exact ⟨⟨⟨k, key, f, t⟩, mem_links_iff.mpr ⟨e, he, hf, ht⟩, rfl⟩, rfl, rfl⟩

/-- **Without optional fields a type keeps what it shows.** -/
theorem mem_dependencies_true_iff : d ∈ s.dependencyGraph.dependencies true k ↔
    d ∈ s.dependencyGraph.hard k ∧ s.Shows k d := by
  rw [Graph.dependencies, if_pos rfl, List.mem_filter, Bool.not_eq_true', List.all_eq_false]
  refine and_congr_right fun hd => ⟨?_, ?_⟩
  · rintro ⟨edge, hbetween, hrequired⟩
    obtain ⟨e, he, p, hp, hedge, rfl⟩ := mem_edgesBetween_iff.mp hbetween
    have hlabel := (isOptional_eq_false_iff hedge).mp (eq_false_of_ne_true hrequired)
    obtain ⟨r, hr, -, -, rfl⟩ := edge?_eq_some_iff.mp hedge
    exact ⟨e, he, p, hp, by rw [Field.relatedType?, hr, Option.map_some], hlabel⟩
  · rintro ⟨e, he, p, hp, hrelated, hlabel⟩
    obtain ⟨-, -, -, -, -, -, -, hne, hprim, -, -⟩ := mem_hard_dependencyGraph_iff.mp hd
    obtain ⟨r, hr, rfl⟩ := Option.map_eq_some_iff.mp hrelated
    obtain ⟨edge, hedge, htarget⟩ : ∃ edge, s.edge? k p.1 p.2 = some edge ∧
        edge.target = r.relatedType := ⟨_, edge?_eq_some_iff.mpr ⟨r, hr, hne, hprim, rfl⟩, rfl⟩
    exact ⟨edge, mem_edgesBetween_iff.mpr ⟨e, he, p, hp, hedge, htarget⟩,
      ne_true_of_eq_false ((isOptional_eq_false_iff hedge).mpr hlabel)⟩

end

/-- A field whose name does not look like an optional one keeps the dependency it demands. -/
theorem mem_dependencies_iff {s : Schema} {k d : String}
    (hnames : ∀ e, s.entity? k = some e → ∀ p ∈ e.fields.entries, s.Demands k p.2 d →
      p.1.toList.getLast? ≠ some '?') :
    d ∈ s.dependencyGraph.dependencies true k ↔ d ∈ s.dependencyGraph.hard k := by
  rw [mem_dependencies_true_iff, and_iff_left_iff_imp]
  intro hd
  obtain ⟨e, he, f, hf, hdemands⟩ := mem_hard_dependencyGraph_iff.mp hd
  obtain ⟨p, hp, rfl⟩ := List.mem_map.mp hf
  exact ⟨e, he, p, hp, hdemands.relatedType?, hdemands.optional_eq_false,
    hnames e he p hp hdemands⟩

end Schema

end EntitySchema
