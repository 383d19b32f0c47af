import EntitySchema.Grammar.Definition
import EntitySchema.Proofs.Dependency.Graph
import Mathlib.Data.List.Basic

/-!
# Proofs/Dependency/Faithful — the graph shows the schema

    a required link from u to v        v ∈ g.hard u   and   u ∈ g.dependents v
    a fuzzy or optional one            v ∈ g.soft u

The nodes of the graph of a schema are the entities and what their links lead to beyond them, its
edges are the links, and what a node lists is read off the links again: each hard dependency once at
both of its ends, each soft one once at its source (`shownBy_dependencyGraph`).  An implicit
relation is a hard dependency unless it only answers another field (`InverseSide`).
-/

namespace EntitySchema

open Dependency

/-! ## Pairs of fields -/

namespace Schema

variable {s : Schema} {owner : String} {f : Field}

/-- The field `f` of `owner` is the inverse side of a pair: a list whose backref names a field of
the related entity that points back to it by name, and that has an operator or holds a single
value. -/
def InverseSide (s : Schema) (owner : String) (f : Field) : Prop :=
  f.modifiers.array = true ∧ ∃ target backref e partner,
    f.relatedType? = some target ∧ target ≠ "" ∧ f.backref? = some backref ∧ backref ≠ "" ∧
    s.entity? target = some e ∧ e.fields.get? backref = some partner ∧
    partner.backref? = some f.name ∧ partner.relatedType? = some owner ∧
    (partner.operator?.isSome = true ∨ partner.modifiers.array = false)

theorem isInverseSide_iff : s.isInverseSide owner f = true ↔ s.InverseSide owner f := by
  rw [isInverseSide, InverseSide, Field.relatedType?, Field.backref?]
  cases f.relation? with
  | none => simp
  | some r =>
    dsimp only
    constructor
    · intro h
      split_ifs at h with hgiven
      cases hpartner : (s.entity? r.relatedType).bind (·.fields.get? (r.backref.getD "")) with
      | none =>
        rw [hpartner] at h
        cases h
      | some partner =>
        rw [hpartner] at h
        dsimp only at h
        obtain ⟨e, he, hpartner⟩ := Option.bind_eq_some_iff.mp hpartner
        simp only [Bool.or_eq_true, Bool.not_eq_true', decide_eq_true_eq, not_or,
          Bool.not_eq_false] at hgiven
        obtain ⟨⟨harray, hbackref⟩, htarget⟩ := hgiven
        obtain ⟨backref, hsome⟩ : ∃ backref, r.backref = some backref :=
          Option.ne_none_iff_exists'.mp fun hnone => hbackref (by rw [hnone]; rfl)
        rw [hsome, Option.getD_some] at hbackref hpartner
        simp only [Bool.and_eq_true, decide_eq_true_eq, Bool.or_eq_true, Bool.not_eq_true'] at h
        exact ⟨harray, r.relatedType, backref, e, partner, rfl, htarget, hsome, hbackref, he,
          hpartner, h.1.1, h.1.2, h.2⟩
    · rintro ⟨harray, target, backref, e, partner, htype, htarget, hsome, hbackref, he, hpartner,
        hback, howner, hleads⟩
      obtain rfl := Option.some.inj htype
      rw [Option.bind_some] at hsome
      rw [hsome, Option.getD_some, if_neg (by simp [harray, hbackref, htarget]), he,
        Option.bind_some, hpartner]
      simp [hback, howner, hleads]

/-- An implicit relation counts as a forward one, unless it is an inverse side. -/
theorem effectiveOperator_eq_forwardExact_iff : s.effectiveOperator owner f = .forwardExact ↔
    f.operator? = some .forwardExact ∨ f.operator? = none ∧ ¬ s.InverseSide owner f := by
  rw [effectiveOperator, ← isInverseSide_iff]
  cases f.operator? with
  | none => cases s.isInverseSide owner f <;> simp
  | some o => simp

/-- Implicit relations are exact. -/
@[simp] theorem matchMode_effectiveOperator (s : Schema) (owner : String) (f : Field) :
    (s.effectiveOperator owner f).matchMode = f.matchMode := by
  rw [effectiveOperator, Field.matchMode]
  cases f.operator? with
  | none => cases s.isInverseSide owner f <;> rfl
  | some o => rfl

end Schema

/-! ## Nodes -/

namespace Dependency

/-- Names that are added one after another come behind the others in order of first mention. -/
theorem foldl_addName (names added : List String) :
    added.foldl addName names = names ++ (added.filter (· ∉ names)).eraseDups := by
  induction added generalizing names with
  | nil => simp
  | cons name added ih =>
    rw [List.foldl_cons, ih, addName]
    by_cases hname : name ∈ names
    · rw [if_pos (List.contains_iff_mem.mpr hname), List.filter_cons_of_neg (by simpa using hname)]
    · rw [if_neg (mt List.contains_iff_mem.mp hname),
        List.filter_cons_of_pos (by simpa using hname), List.eraseDups_cons, List.append_assoc,
        List.singleton_append, List.filter_filter]
      refine congrArg (fun rest => names ++ name :: rest.eraseDups)
        (List.filter_congr fun n _ => ?_)
      rw [beq_eq_decide, Bool.and_comm]
      simp

/-- Each dependency is noted once at both of its ends. -/
structure Graph.Mirrored (g : Graph) : Prop where
  nodup : ∀ v, (g.dependents v).Nodup
  mem_iff : ∀ u v, u ∈ g.dependents v ↔ v ∈ g.hard u

/-- Every node stands under its own name. -/
def Graph.Named (g : Graph) : Prop := ∀ k n, g.nodes.get? k = some n → n.name = k

theorem Graph.Named.ensure {g : Graph} (h : g.Named) (name : String) : (g.ensure name).Named := by
  intro k n hn
  rw [Graph.ensure] at hn
  split at hn
  · exact h k n hn
  · rw [Table.get?_insert] at hn
    split_ifs at hn with hk
    · obtain rfl := Option.some.inj hn
      exact hk
    · exact h k n hn

theorem named_modify {nodes : Table String Node} {name : String} {f : Node → Node}
    (hf : ∀ n, (f n).name = n.name) (h : ∀ k n, nodes.get? k = some n → n.name = k) :
    ∀ k n, (nodes.modify name f).get? k = some n → n.name = k := by
  intro k n hn
  rw [Table.get?_modify] at hn
  split_ifs at hn with hk
  · subst hk
    obtain ⟨n, hget, rfl⟩ := Option.map_eq_some_iff.mp hn
    exact (hf n).trans (h k n hget)
  · exact h k n hn

end Dependency

namespace Schema

theorem keys_dependencyGraph (s : Schema) : s.dependencyGraph.nodes.keys =
    s.entityNames ++ ((s.links.map Link.target).filter (· ∉ s.entityNames)).eraseDups := by
  have hfold : ∀ (ls : List Link) (g : Graph),
      (ls.foldl s.addLink g).nodes.keys = (ls.map Link.target).foldl addName g.nodes.keys := by
    intro ls
    induction ls with
    | nil => exact fun g => rfl
    | cons l ls ih =>
      intro g
      rw [List.foldl_cons, ih, addLink, keys_linkEdge, List.map_cons, List.foldl_cons]
      rfl
  rw [dependencyGraph_eq_foldl, hfold, keys_unlinked, foldl_addName]

theorem named_dependencyGraph (s : Schema) : s.dependencyGraph.Named := by
  refine dependencyGraph_induction ?_ fun g l _ _ hg => ?_
  · intro k n hn
    rw [unlinked, Table.get?_mapValues] at hn
    obtain ⟨e, -, rfl⟩ := Option.map_eq_some_iff.mp hn
    rfl
  · have hensured : (withEdge g (s.edgeOf l)).Named := Graph.Named.ensure (g := { g with
      edges := g.edges ++ [s.edgeOf l] }) hg (s.edgeOf l).target
    rw [addLink]
    obtain ⟨-, -, h⟩ | ⟨-, -, h⟩ | ⟨-, -, h⟩ :=
      linkEdge_cases g l.field.modifiers.optional (s.edgeOf l) <;> rw [h]
    · exact named_modify (fun _ => rfl) hensured
    · exact named_modify (fun _ => rfl) (named_modify (fun _ => rfl) hensured)
    · exact hensured

theorem target_mem_keys {s : Schema} {l : Link} (hl : l ∈ s.links) :
    l.target ∈ s.dependencyGraph.nodes.keys := by
  rw [keys_dependencyGraph, List.mem_append, List.mem_eraseDups, List.mem_filter]
  by_cases hname : l.target ∈ s.entityNames
  · exact .inl hname
  · exact .inr ⟨List.mem_map_of_mem hl, by simpa using hname⟩

theorem owner_mem_keys {s : Schema} {l : Link} (hl : l ∈ s.links) :
    l.owner ∈ s.dependencyGraph.nodes.keys := by
  rw [keys_dependencyGraph]
  exact List.mem_append_left _ (owner_mem_entityNames hl)

/-! ## What the nodes list -/

theorem mem_hard_iff (s : Schema) (k t : String) : t ∈ s.dependencyGraph.hard k ↔
    ∃ l ∈ s.links, l.owner = k ∧ l.target = t ∧ l.field.modifiers.optional = false ∧
      (l.field.operator? = some .forwardExact ∨
        l.field.operator? = none ∧ ¬ s.InverseSide k l.field) := by
  rw [(s.hard_dependencyGraph k).2]
  refine exists_congr fun l => and_congr_right' ?_
  constructor
  · rintro ⟨⟨⟨hoperator, hoptional⟩, rfl⟩, rfl⟩
    exact ⟨rfl, rfl, hoptional, effectiveOperator_eq_forwardExact_iff.mp hoperator⟩
  · rintro ⟨rfl, rfl, hoptional, hoperator⟩
    exact ⟨⟨⟨effectiveOperator_eq_forwardExact_iff.mpr hoperator, hoptional⟩, rfl⟩, rfl⟩

theorem mem_soft_iff (s : Schema) (k t : String) : t ∈ s.dependencyGraph.soft k ↔
    ∃ l ∈ s.links, l.owner = k ∧ l.target = t ∧
      (l.field.matchMode = .fuzzy ∨ l.field.modifiers.optional = true) := by
  rw [(s.soft_dependencyGraph k).2]
  refine exists_congr fun l => and_congr_right' ?_
  rw [IsSoft, edgeOf, matchMode_effectiveOperator]
  constructor
  · rintro ⟨⟨hsoft, rfl⟩, rfl⟩
    exact ⟨rfl, rfl, hsoft⟩
  · rintro ⟨rfl, rfl, hsoft⟩
    exact ⟨⟨hsoft, rfl⟩, rfl⟩

/-- **In the graph of a schema both ends agree.** -/
theorem mirrored_dependencyGraph (s : Schema) : s.dependencyGraph.Mirrored where
  nodup v := (s.dependents_dependencyGraph v).1
  mem_iff u v := by
    rw [(s.dependents_dependencyGraph v).2, (s.hard_dependencyGraph u).2]
    refine exists_congr fun l => and_congr_right' ?_
    rw [and_assoc, and_assoc, and_comm (a := v = l.target)]

/-- A type is noted as a dependent as often as it notes the dependency. -/
theorem count_dependents (s : Schema) (u v : String) :
    (s.dependencyGraph.dependents v).count u = (s.dependencyGraph.hard u).count v := by
  have hmirrored := mirrored_dependencyGraph s
  rw [(hmirrored.nodup v).count, (s.hard_dependencyGraph u).1.count]
  exact if_congr (hmirrored.mem_iff u v) rfl rfl

/-! ## The whole graph -/

/-- The graph shows the types of the schema and their links, and nothing else. -/
structure ShownBy (s : Schema) (g : Graph) : Prop where
  /-- The nodes are the entities in order, then what links lead to beyond them, in order. -/
  nodes : g.nodes.keys =
    s.entityNames ++ ((s.links.map Link.target).filter (· ∉ s.entityNames)).eraseDups
  /-- Every node stands under its own name. -/
  named : g.Named
  /-- There is one edge for each link, in order of declaration. -/
  edges : g.edges = s.links.map s.edgeOf
  /-- No node lists a dependency twice. -/
  nodup : ∀ k, (g.hard k).Nodup ∧ (g.soft k).Nodup
  /-- Each hard dependency is listed once at both of its ends. -/
  mirrored : g.Mirrored
  /-- Only nodes are listed. -/
  closed : ∀ k, g.hard k ⊆ g.nodes.keys ∧ g.soft k ⊆ g.nodes.keys ∧ g.dependents k ⊆ g.nodes.keys
  /-- The hard dependencies are the required links that are declared with `->`, or without an
  operator and not as the inverse side of a pair. -/
  hard : ∀ k t, t ∈ g.hard k ↔
    ∃ l ∈ s.links, l.owner = k ∧ l.target = t ∧ l.field.modifiers.optional = false ∧
      (l.field.operator? = some .forwardExact ∨
        l.field.operator? = none ∧ ¬ s.InverseSide k l.field)
  /-- The soft dependencies are the links that are fuzzy or optional. -/
  soft : ∀ k t, t ∈ g.soft k ↔
    ∃ l ∈ s.links, l.owner = k ∧ l.target = t ∧
      (l.field.matchMode = .fuzzy ∨ l.field.modifiers.optional = true)

/-- **The graph of a schema shows it faithfully.** -/
theorem shownBy_dependencyGraph (s : Schema) : s.ShownBy s.dependencyGraph where
  nodes := s.keys_dependencyGraph
  named := s.named_dependencyGraph
  edges := s.edges_dependencyGraph
  nodup k := ⟨(s.hard_dependencyGraph k).1, (s.soft_dependencyGraph k).1⟩
  mirrored := s.mirrored_dependencyGraph
  closed k := by
    refine ⟨fun t ht => ?_, fun t ht => ?_, fun t ht => ?_⟩
    · obtain ⟨l, hl, -, rfl⟩ := ((s.hard_dependencyGraph k).2 t).mp ht
      exact target_mem_keys hl
    · obtain ⟨l, hl, -, rfl⟩ := ((s.soft_dependencyGraph k).2 t).mp ht
      exact target_mem_keys hl
    · obtain ⟨l, hl, -, rfl⟩ := ((s.dependents_dependencyGraph k).2 t).mp ht
      exact owner_mem_keys hl
  hard := s.mem_hard_iff
  soft := s.mem_soft_iff

-- A tag answers the posts that carry it, so it depends on none of them; its icon is no entity.
example :
    let post : Entity :=
      { name := "Post"
        fields := .ofList
          [("tags", .parse "tags" "->Tag.posts[]"), ("title", .parse "title" "string")] }
    let tag : Entity :=
      { name := "Tag"
        fields := .ofList
          [("posts", .parse "posts" "Post.tags[]"), ("icon", .parse "icon" "~>Image?")] }
    let s : Schema := { entities := .ofList [("Post", post), ("Tag", tag)] }
    s.dependencyGraph.nodes.values =
      [{ name := "Post", hard := ["Tag"] },
        { name := "Tag", soft := ["Image"], dependents := ["Post"] }, { name := "Image" }] := by
  decide +kernel

end Schema

end EntitySchema
