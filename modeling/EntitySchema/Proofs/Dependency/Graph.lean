import EntitySchema.Dependency.Graph
import Mathlib.Data.List.Nodup

/-!
# Proofs/Dependency/Graph — the dependencies of a schema's graph

    entities ──links──▸ link₁ link₂ …        graph = (… (unlinked + link₁) + link₂ …)

The relation fields with a target are the links of a schema, and its graph is built link by link
(`dependencyGraph_eq_foldl`).  A link adds its edge, a node for its target, and to one list of each
of its ends the name of the other, unless it is there already.  So what the lists of the graph hold
is read off the links, and they are free of repetitions (`listed_dependencyGraph`).  Only nodes have
dependencies (`mem_keys_of_dependencies`).
-/

namespace EntitySchema

open Dependency

/-! ## Links -/

/-- The type that a relation field leads to, unless it is empty or built in. -/
def Field.target? (f : Field) : Option String :=
  f.relatedType?.filter fun t => t ≠ "" ∧ isPrimitive t = false

theorem Field.target?_eq_some_iff {f : Field} {t : String} : f.target? = some t ↔
    ∃ r, f.relation? = some r ∧ r.relatedType = t ∧ t ≠ "" ∧ isPrimitive t = false := by
  rw [target?, Option.filter_eq_some_iff, relatedType?, Option.map_eq_some_iff, decide_eq_true_iff]
  constructor
  · rintro ⟨⟨r, hr, ht⟩, hne, hprim⟩
    exact ⟨r, hr, ht, hne, hprim⟩
  · rintro ⟨r, hr, ht, hne, hprim⟩
    exact ⟨⟨r, hr, ht⟩, hne, hprim⟩

namespace Schema

/-- A relation field with a target, and where it is declared. -/
structure Link where
  /-- The entity that declares the field. -/
  owner : String
  /-- The key of the field. -/
  key : String
  /-- The field. -/
  field : Field
  /-- The type that the field leads to. -/
  target : String

/-- The relation fields with a target, in order of declaration. -/
def links (s : Schema) : List Link :=
  s.entities.entries.flatMap fun p =>
    p.2.fields.entries.filterMap fun q => q.2.target?.map fun t => ⟨p.1, q.1, q.2, t⟩

/-- The edge of a link. -/
def edgeOf (s : Schema) (l : Link) : Edge :=
  { source := l.owner, target := l.target, array := l.field.modifiers.array
    operator := s.effectiveOperator l.owner l.field
    label := if l.field.modifiers.optional then l.key ++ "?" else l.key }

/-- Adds the edge of a link and the dependency that comes with it. -/
def addLink (s : Schema) (g : Graph) (l : Link) : Graph :=
  linkEdge g l.field.modifiers.optional (s.edgeOf l)

/-- The graph without links. -/
def unlinked (s : Schema) : Graph := { nodes := s.entities.mapValues fun name _ => { name } }

@[simp] theorem keys_unlinked (s : Schema) : s.unlinked.nodes.keys = s.entityNames :=
  Table.keys_mapValues ..

variable {s : Schema}

theorem mem_links_iff {l : Link} : l ∈ s.links ↔ ∃ e, s.entity? l.owner = some e ∧
    (l.key, l.field) ∈ e.fields.entries ∧ l.field.target? = some l.target := by
  rw [links, List.mem_flatMap]
  constructor
  · rintro ⟨⟨owner, e⟩, he, hl⟩
    obtain ⟨⟨key, f⟩, hf, hl⟩ := List.mem_filterMap.mp hl
    obtain ⟨t, ht, rfl⟩ := Option.map_eq_some_iff.mp hl
    exact ⟨e, Table.get?_eq_some_iff.mpr he, hf, ht⟩
  · rintro ⟨e, he, hf, ht⟩
    exact ⟨(l.owner, e), Table.get?_eq_some_iff.mp he,
      List.mem_filterMap.mpr ⟨(l.key, l.field), hf, by rw [ht, Option.map_some]⟩⟩

theorem owner_mem_entityNames {l : Link} (hl : l ∈ s.links) : l.owner ∈ s.entityNames := by
  obtain ⟨e, he, -⟩ := mem_links_iff.mp hl
  exact List.mem_map_of_mem (Table.get?_eq_some_iff.mp he)

theorem edge?_eq_some_iff {owner key : String} {f : Field} {e : Edge} :
    s.edge? owner key f = some e ↔ ∃ r, f.relation? = some r ∧ r.relatedType ≠ "" ∧
      isPrimitive r.relatedType = false ∧
      e = { source := owner, target := r.relatedType, array := f.modifiers.array
            operator := s.effectiveOperator owner f
            label := if f.modifiers.optional then key ++ "?" else key } := by
  rw [edge?]
  constructor
  · intro h
    obtain ⟨r, hr, h⟩ := Option.bind_eq_some_iff.mp h
    obtain ⟨hnot, h⟩ := Option.ite_none_left_eq_some.mp h
    rw [not_or] at hnot
    exact ⟨r, hr, hnot.1, by simpa using hnot.2, (Option.some.inj h).symm⟩
  · rintro ⟨r, hr, hne, hprim, rfl⟩
    rw [hr]
    exact if_neg (by simp [hne, hprim])

theorem edge?_eq (owner key : String) (f : Field) :
    s.edge? owner key f = f.target?.map fun t => s.edgeOf ⟨owner, key, f, t⟩ := by
  refine Option.ext fun edge => ?_
  rw [edge?_eq_some_iff, Option.map_eq_some_iff]
  constructor
  · rintro ⟨r, hr, hne, hprim, rfl⟩
    exact ⟨r.relatedType, Field.target?_eq_some_iff.mpr ⟨r, hr, rfl, hne, hprim⟩, rfl⟩
  · rintro ⟨t, ht, rfl⟩
    obtain ⟨r, hr, rfl, hne, hprim⟩ := Field.target?_eq_some_iff.mp ht
    exact ⟨r, hr, hne, hprim, rfl⟩

/-- **The graph is built link by link.** -/
theorem dependencyGraph_eq_foldl (s : Schema) :
    s.dependencyGraph = s.links.foldl s.addLink s.unlinked := by
  rw [dependencyGraph, links, List.foldl_flatMap]
  refine List.foldl_ext _ _ _ fun g ⟨owner, e⟩ _ => ?_
  dsimp only
  rw [linkEntity, List.foldl_filterMap]
  refine List.foldl_ext _ _ _ fun g ⟨key, f⟩ _ => ?_
  dsimp only
  rw [edge?_eq]
  cases f.target? <;> rfl

end Schema

/-! ## What a node lists

The hard dependencies of a type, its soft ones and its dependents change alike: a new node lists
nothing, and a list stays as it is or grows by a name. -/

namespace Dependency

/-- What the node of a type lists; a type without a node lists nothing. -/
def listed (π : Node → List String) (nodes : Table String Node) (k : String) : List String :=
  ((nodes.get? k).map π).getD []

/-- The types that a type depends on softly. -/
def Graph.soft (g : Graph) (name : String) : List String := listed (·.soft) g.nodes name

section

variable (π : Node → List String) {nodes : Table String Node} {f : Node → Node} {name : String}

theorem listed_ensure (hπ : ∀ name, π { name } = []) (g : Graph) (name k : String) :
    listed π (g.ensure name).nodes k = listed π g.nodes k := by
  rw [Graph.ensure]
  split_ifs with hname
  · rfl
  · rw [listed, listed, Table.get?_insert]
    split_ifs with hk
    · subst hk
      rw [Table.contains, Option.not_isSome_iff_eq_none] at hname
      rw [hname]
      exact hπ name
    · rfl

theorem listed_modify_of_eq (hf : ∀ n, π (f n) = π n) (k : String) :
    listed π (nodes.modify name f) k = listed π nodes k := by
  rw [listed, listed, Table.get?_modify]
  split
  · rw [Option.map_map, show π ∘ f = π from funext hf]
  · rfl

/-- A list of a node grows where the node is changed, and nowhere else. -/
theorem listed_modify (hname : name ∈ nodes.keys) {added : String}
    (hf : ∀ n, π (f n) = addName (π n) added) (k : String) :
    listed π (nodes.modify name f) k =
      if k = name then addName (listed π nodes k) added else listed π nodes k := by
  rw [listed, listed, Table.get?_modify]
  split_ifs with hk
  · subst hk
    obtain ⟨n, hn⟩ := Option.ne_none_iff_exists'.mp fun hnone =>
      Table.get?_eq_none_iff.mp hnone hname
    rw [hn, Option.map_some, Option.map_some, Option.getD_some, hf]
    rfl
  · rfl

end

@[simp] theorem mem_addName_iff {names : List String} {name n : String} :
    n ∈ addName names name ↔ n ∈ names ∨ n = name := by
  rw [addName]
  split_ifs with hname
  · refine ⟨.inl, ?_⟩
    rintro (h | rfl)
    · exact h
    · simpa using hname
  · simp

theorem nodup_addName {names : List String} (h : names.Nodup) (name : String) :
    (addName names name).Nodup := by
  rw [addName]
  split_ifs with hname
  · exact h
  · rw [← List.concat_eq_append]
    exact h.concat (by simpa using hname)

@[simp] theorem Graph.keys_ensure (g : Graph) (name : String) :
    (g.ensure name).nodes.keys = addName g.nodes.keys name := by
  rw [ensure, addName]
  by_cases hname : name ∈ g.nodes.keys
  · rw [if_pos (Table.contains_iff.mpr hname), if_pos (List.contains_iff_mem.mpr hname)]
  · rw [if_neg (mt Table.contains_iff.mp hname), if_neg (mt List.contains_iff_mem.mp hname),
      Table.keys_insert, if_neg hname]

end Dependency

/-! ## One step of building -/

namespace Schema

/-- Whether an edge is a hard dependency. -/
def IsHard (optional : Bool) (e : Edge) : Prop := e.operator = .forwardExact ∧ optional = false

/-- Whether an edge is a soft dependency. -/
def IsSoft (optional : Bool) (e : Edge) : Prop := e.operator.matchMode = .fuzzy ∨ optional = true

instance (optional : Bool) (e : Edge) : Decidable (IsHard optional e) :=
  inferInstanceAs (Decidable (_ ∧ _))

instance (optional : Bool) (e : Edge) : Decidable (IsSoft optional e) :=
  inferInstanceAs (Decidable (_ ∨ _))

/-- The graph with an edge and a node for its target. -/
def withEdge (g : Graph) (e : Edge) : Graph := { g with edges := g.edges ++ [e] }.ensure e.target

section

variable {g : Graph} {e : Edge} {optional : Bool}

/-- An edge is a soft dependency, a hard one, or none. -/
theorem linkEdge_cases (g : Graph) (optional : Bool) (e : Edge) :
    IsSoft optional e ∧ ¬ IsHard optional e ∧
      linkEdge g optional e = (withEdge g e).addSoft e.source e.target ∨
    ¬ IsSoft optional e ∧ IsHard optional e ∧
      linkEdge g optional e = (withEdge g e).addHard e.source e.target ∨
    ¬ IsSoft optional e ∧ ¬ IsHard optional e ∧ linkEdge g optional e = withEdge g e := by
  by_cases hsoft : IsSoft optional e
  · refine .inl ⟨hsoft, ?_, if_pos hsoft⟩
    rintro ⟨hop, hopt⟩
    simp [IsSoft, hop, hopt, Operator.matchMode] at hsoft
  · have hlink : linkEdge g optional e = if e.operator = .forwardExact then
        (withEdge g e).addHard e.source e.target else withEdge g e := if_neg hsoft
    refine .inr ?_
    by_cases hop : e.operator = .forwardExact
    · have hopt : optional = false := by simpa using fun h => hsoft (.inr h)
      exact .inl ⟨hsoft, ⟨hop, hopt⟩, hlink.trans (if_pos hop)⟩
    · exact .inr ⟨hsoft, fun h => hop h.1, hlink.trans (if_neg hop)⟩

@[simp] theorem keys_linkEdge (g : Graph) (optional : Bool) (e : Edge) :
    (linkEdge g optional e).nodes.keys = addName g.nodes.keys e.target := by
  have hkeys : (withEdge g e).nodes.keys = addName g.nodes.keys e.target := Graph.keys_ensure _ _
  obtain ⟨-, -, h⟩ | ⟨-, -, h⟩ | ⟨-, -, h⟩ := linkEdge_cases g optional e
  · rw [h, ← hkeys]
    exact Table.keys_mapValues ..
  · rw [h, ← hkeys]
    exact (Table.keys_mapValues ..).trans (Table.keys_mapValues ..)
  · rw [h, hkeys]

@[simp] theorem edges_linkEdge (g : Graph) (optional : Bool) (e : Edge) :
    (linkEdge g optional e).edges = g.edges ++ [e] := by
  have hedges : (withEdge g e).edges = g.edges ++ [e] := by
    rw [withEdge, Graph.ensure]
    split <;> rfl
  obtain ⟨-, -, h⟩ | ⟨-, -, h⟩ | ⟨-, -, h⟩ := linkEdge_cases g optional e <;> rw [h] <;>
    exact hedges

theorem source_mem_withEdge (hsource : e.source ∈ g.nodes.keys) :
    e.source ∈ (withEdge g e).nodes.keys := by
  rw [withEdge, Graph.keys_ensure]
  exact mem_addName_iff.mpr (.inl hsource)

/-- The source of a hard dependency lists the target. -/
theorem hard_linkEdge (hsource : e.source ∈ g.nodes.keys) (k : String) :
    (linkEdge g optional e).hard k = if IsHard optional e ∧ k = e.source
      then addName (g.hard k) e.target else g.hard k := by
  have hsame : (withEdge g e).hard k = g.hard k := listed_ensure (·.hard) (fun _ => rfl) _ _ k
  obtain ⟨-, hnot, h⟩ | ⟨-, hhard, h⟩ | ⟨-, hnot, h⟩ := linkEdge_cases g optional e
  · rw [h, if_neg fun hk => hnot hk.1, ← hsame]
    exact listed_modify_of_eq (·.hard) (fun _ => by rfl) k
  · rw [h, ← hsame]
    refine (listed_modify_of_eq (·.hard) (fun _ => by rfl) k).trans ?_
    refine (listed_modify (·.hard) (source_mem_withEdge hsource) (fun _ => rfl) k).trans ?_
    simp only [hhard, true_and]
    rfl
  · rw [h, if_neg fun hk => hnot hk.1, hsame]

/-- The source of a soft dependency lists the target apart. -/
theorem soft_linkEdge (hsource : e.source ∈ g.nodes.keys) (k : String) :
    (linkEdge g optional e).soft k = if IsSoft optional e ∧ k = e.source
      then addName (g.soft k) e.target else g.soft k := by
  have hsame : (withEdge g e).soft k = g.soft k := listed_ensure (·.soft) (fun _ => rfl) _ _ k
  obtain ⟨hsoft, -, h⟩ | ⟨hnot, -, h⟩ | ⟨hnot, -, h⟩ := linkEdge_cases g optional e
  · rw [h, ← hsame]
    refine (listed_modify (·.soft) (source_mem_withEdge hsource) (fun _ => rfl) k).trans ?_
    simp only [hsoft, true_and]
    rfl
  · rw [h, if_neg fun hk => hnot hk.1, ← hsame]
    exact (listed_modify_of_eq (·.soft) (fun _ => by rfl) k).trans
      (listed_modify_of_eq (·.soft) (fun _ => by rfl) k)
  · rw [h, if_neg fun hk => hnot hk.1, hsame]

/-- The target of a hard dependency lists the source; it is a node by then. -/
theorem dependents_linkEdge (g : Graph) (optional : Bool) (e : Edge) (k : String) :
    (linkEdge g optional e).dependents k = if IsHard optional e ∧ k = e.target
      then addName (g.dependents k) e.source else g.dependents k := by
  have hsame : (withEdge g e).dependents k = g.dependents k :=
    listed_ensure (·.dependents) (fun _ => rfl) _ _ k
  obtain ⟨-, hnot, h⟩ | ⟨-, hhard, h⟩ | ⟨-, hnot, h⟩ := linkEdge_cases g optional e
  · rw [h, if_neg fun hk => hnot hk.1, ← hsame]
    exact listed_modify_of_eq (·.dependents) (fun _ => by rfl) k
  · have htarget : e.target ∈ ((withEdge g e).nodes.modify e.source fun n =>
        { n with hard := addName n.hard e.target }).keys := by
      rw [Table.modify, Table.keys_mapValues, withEdge, Graph.keys_ensure]
      exact mem_addName_iff.mpr (.inr rfl)
    rw [h, ← hsame]
    refine (listed_modify (·.dependents) htarget (fun _ => rfl) k).trans ?_
    rw [listed_modify_of_eq (·.dependents) (f := fun n =>
      { n with hard := addName n.hard e.target }) fun _ => rfl]
    simp only [hhard, true_and]
    rfl
  · rw [h, if_neg fun hk => hnot hk.1, hsame]

end

/-! ## The graph of a schema -/

/-- What holds without links and is kept by every link holds of the graph; the owner of a link is a
node from the start. -/
theorem dependencyGraph_induction {s : Schema} {I : Graph → Prop} (hstart : I s.unlinked)
    (hstep : ∀ g, ∀ l ∈ s.links, l.owner ∈ g.nodes.keys → I g → I (s.addLink g l)) :
    I s.dependencyGraph := by
  rw [dependencyGraph_eq_foldl]
  refine (List.foldlRecOn (motive := fun g : Graph => s.entityNames ⊆ g.nodes.keys ∧ I g) _ _
    ⟨keys_unlinked s ▸ List.Subset.refl _, hstart⟩ ?_).2
  rintro g ⟨hnames, hg⟩ l hl
  refine ⟨fun k hk => ?_, hstep g l hl (hnames (owner_mem_entityNames hl)) hg⟩
  rw [addLink, keys_linkEdge]
  exact mem_addName_iff.mpr (.inl (hnames hk))

/-- **A list of the graph holds what the links add to it, each name once.** -/
theorem listed_dependencyGraph {s : Schema} (list : Graph → String → List String)
    {adds : Link → String → Prop} [∀ l k, Decidable (adds l k)] {name : Link → String}
    (hstart : ∀ k, list s.unlinked k = [])
    (hstep : ∀ g l, l.owner ∈ g.nodes.keys → ∀ k, list (s.addLink g l) k =
      if adds l k then addName (list g k) (name l) else list g k) (k : String) :
    (list s.dependencyGraph k).Nodup ∧
      ∀ n, n ∈ list s.dependencyGraph k ↔ ∃ l ∈ s.links, adds l k ∧ n = name l := by
  suffices hfold : ∀ (ls : List Link) (g : Graph), (∀ l ∈ ls, l.owner ∈ g.nodes.keys) →
      (list g k).Nodup → (list (ls.foldl s.addLink g) k).Nodup ∧
        ∀ n, n ∈ list (ls.foldl s.addLink g) k ↔
          n ∈ list g k ∨ ∃ l ∈ ls, adds l k ∧ n = name l by
    rw [dependencyGraph_eq_foldl]
    simpa [hstart] using hfold s.links s.unlinked
      (fun l hl => keys_unlinked s ▸ owner_mem_entityNames hl) (hstart k ▸ .nil)
  intro ls
  induction ls with
  | nil => exact fun g _ hg => ⟨hg, fun n => by simp⟩
  | cons l ls ih =>
    intro g howners hg
    obtain ⟨howner, howners⟩ := List.forall_mem_cons.mp howners
    have hlist := hstep g l howner k
    obtain ⟨hnodup, hmem⟩ := ih (s.addLink g l)
      (fun l' hl' => by
        rw [addLink, keys_linkEdge]
        exact mem_addName_iff.mpr (.inl (howners l' hl')))
      (by
        rw [hlist]
        split
        · exact nodup_addName hg _
        · exact hg)
    refine ⟨hnodup, fun n => ?_⟩
    rw [List.foldl_cons, hmem, hlist, List.exists_mem_cons_iff, ← or_assoc]
    refine or_congr_left ?_
    split_ifs with hadds
    · simp [hadds]
    · simp [hadds]

theorem listed_unlinked {π : Node → List String} (hπ : ∀ name, π { name } = []) (s : Schema)
    (k : String) : listed π s.unlinked.nodes k = [] := by
  rw [listed, unlinked, Table.get?_mapValues]
  cases s.entities.get? k with
  | none => rfl
  | some e => exact hπ k

theorem hard_dependencyGraph (s : Schema) (k : String) : (s.dependencyGraph.hard k).Nodup ∧
    ∀ d, d ∈ s.dependencyGraph.hard k ↔
      ∃ l ∈ s.links, (IsHard l.field.modifiers.optional (s.edgeOf l) ∧ k = l.owner) ∧
        d = l.target :=
  listed_dependencyGraph Graph.hard (listed_unlinked (fun _ => rfl) s)
    (fun _ _ howner k => hard_linkEdge howner k) k

theorem soft_dependencyGraph (s : Schema) (k : String) : (s.dependencyGraph.soft k).Nodup ∧
    ∀ d, d ∈ s.dependencyGraph.soft k ↔
      ∃ l ∈ s.links, (IsSoft l.field.modifiers.optional (s.edgeOf l) ∧ k = l.owner) ∧
        d = l.target :=
  listed_dependencyGraph Graph.soft (listed_unlinked (fun _ => rfl) s)
    (fun _ _ howner k => soft_linkEdge howner k) k

theorem dependents_dependencyGraph (s : Schema) (k : String) :
    (s.dependencyGraph.dependents k).Nodup ∧
    ∀ d, d ∈ s.dependencyGraph.dependents k ↔
      ∃ l ∈ s.links, (IsHard l.field.modifiers.optional (s.edgeOf l) ∧ k = l.target) ∧
        d = l.owner :=
  listed_dependencyGraph Graph.dependents (listed_unlinked (fun _ => rfl) s)
    (fun g _ _ k => dependents_linkEdge g _ _ k) k

/-- **The edges are those of the links**, in order of declaration. -/
@[simp] theorem edges_dependencyGraph (s : Schema) :
    s.dependencyGraph.edges = s.links.map s.edgeOf := by
  have hfold : ∀ (ls : List Link) (g : Graph),
      (ls.foldl s.addLink g).edges = g.edges ++ ls.map s.edgeOf := by
    intro ls
    induction ls with
    | nil => exact fun g => (List.append_nil _).symm
    | cons l ls ih =>
      intro g
      rw [List.foldl_cons, ih, addLink, edges_linkEdge, List.map_cons, List.append_assoc,
        List.singleton_append]
  rw [dependencyGraph_eq_foldl]
  exact hfold s.links s.unlinked

end Schema

namespace Dependency.Graph

theorem nodup_dependencies (s : Schema) (skipOptional : Bool) (k : String) :
    (s.dependencyGraph.dependencies skipOptional k).Nodup := by
  rw [dependencies]
  split
  · exact (s.hard_dependencyGraph k).1.filter _
  · exact (s.hard_dependencyGraph k).1

/-- **Only nodes have dependencies.** -/
theorem mem_keys_of_dependencies {g : Graph} {skipOptional : Bool} {k : String}
    (h : g.dependencies skipOptional k ≠ []) : k ∈ g.nodes.keys := by
  by_contra hk
  have hhard : g.hard k = [] := by
    rw [hard, Table.get?_eq_none_iff.mpr hk]
    rfl
  refine h ?_
  rw [dependencies, hhard]
  split <;> rfl

end Dependency.Graph

end EntitySchema
