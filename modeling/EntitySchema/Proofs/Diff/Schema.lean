import EntitySchema.Grammar.Definition
import EntitySchema.Proofs.Diff.Field
import EntitySchema.Proofs.Diff.Table
import EntitySchema.Proofs.Schema.Declaration

/-!
# Proofs/Diff/Schema — what a diff lists is what differs

    old.fields ──removed──▸ · ──added──▸ · ──changed──▸ replayed   matches   new.fields

A diff compares two versions on five axes.  An entity diff names every field that came, went or
changed, each once, and replaying it on the old fields gives fields that agree with the new ones
(`EntityDiff.exact_between`).  A schema diff does the same with entities, and it lists the diffs of
those that are not alike (`SchemaDiff.exact_between_of_ownNames`).  Both are empty exactly if the
versions have the same names and agree on all axes.
-/

namespace EntitySchema

/-! ## Entities -/

/-- Two entities have the same field names, and their fields are alike. -/
def Entity.Alike (e e' : Entity) : Prop := e.fields.Matches Field.Alike e'.fields

/-- The names of the fields of both entities that are alike. -/
def Entity.unchanged (e e' : Entity) : List String :=
  Table.pairUp (fun name f g => if f.Alike g then some name else none) e.fields e'.fields

/-- Fields stand under their own names. -/
def Entity.OwnNames (e : Entity) : Prop := ∀ q ∈ e.fields.entries, q.2.name = q.1

theorem Entity.OwnNames.name_eq {e : Entity} (he : e.OwnNames) {name : String} {f : Field}
    (hf : e.fields.get? name = some f) : f.name = name := he _ (Table.get?_eq_some_iff.mp hf)

theorem Entity.lists_unchanged (e e' : Entity) :
    Lists (e.unchanged e') (e.fields.Relates Field.Alike e'.fields) := by
  have hlists : Lists ((e.unchanged e').map id) (e.fields.Relates Field.Alike e'.fields) := by
    refine Table.lists_pairUp (fun k f g name _ h => ?_) fun k f g _ _ => ?_
    · exact (Option.some.inj (Option.ite_none_right_eq_some.mp h).2).symm
    · exact Option.isSome_ite
  rwa [List.map_id] at hlists

namespace EntityDiff

variable {old new : Entity} {d : EntityDiff}

/-- The fields after the changes that the diff lists: what was removed is dropped, what was added is
appended, and what changed is replaced. -/
def replay (d : EntityDiff) (fields : Table String Field) : Table String Field :=
  let kept := d.removed.foldl (fun t f => t.erase f.name) fields
  let grown := d.added.foldl (fun t f => t.insert f.name f) kept
  d.changed.foldl (fun t c => t.insert c.name c.new) grown

/-- The diff tells exactly how the fields of two entities differ. -/
structure Exact (old new : Entity) (d : EntityDiff) : Prop where
  /-- It names what came, what went, and what is not alike. -/
  compares : Compares Field.Alike old.fields new.fields (d.added.map (·.name))
    (d.removed.map (·.name)) (d.changed.map (·.name))
  /-- Every field name is among these or among the unchanged ones, and nowhere twice. -/
  parts : Lists
    (d.added.map (·.name) ++ d.removed.map (·.name) ++ d.changed.map (·.name) ++ old.unchanged new)
    fun name => name ∈ old.fields.keys ∨ name ∈ new.fields.keys
  /-- What came is a field of the new entity. -/
  added : ∀ f ∈ d.added, new.fields.get? f.name = some f
  /-- What went is a field of the old entity. -/
  removed : ∀ f ∈ d.removed, old.fields.get? f.name = some f
  /-- What changed has both versions, and its kind tells along how many axes. -/
  changed : ∀ c ∈ d.changed,
    old.fields.get? c.name = some c.old ∧ new.fields.get? c.name = some c.new ∧ c.Exact
  /-- Replayed on the old fields it gives the new ones, as far as the axes can tell. -/
  replay_matches : (d.replay old.fields).Matches Field.Alike new.fields

/-- **Replaying what a diff lists leads from the old fields to the new ones.**  A name that is
listed stands for its new field, or for none; any other is kept by both. -/
theorem replay_matches_of_compares
    (h : Compares Field.Alike old.fields new.fields (d.added.map (·.name)) (d.removed.map (·.name))
      (d.changed.map (·.name)))
    (hadded : ∀ f ∈ d.added, new.fields.get? f.name = some f)
    (hchanged : ∀ c ∈ d.changed, new.fields.get? c.name = some c.new) :
    (d.replay old.fields).Matches Field.Alike new.fields := by
  intro name
  rw [replay]
  by_cases hname : name ∈ d.changed.map (·.name)
  · obtain ⟨c, hc, rfl⟩ := List.mem_map.mp hname
    rw [Table.get?_foldl_insert_of_nodup h.changed.1 c hc, hchanged c hc]
    exact .some (.refl c.new)
  · rw [Table.get?_foldl_insert_of_notMem hname]
    by_cases hcame : name ∈ d.added.map (·.name)
    · obtain ⟨f, hf, rfl⟩ := List.mem_map.mp hcame
      rw [Table.get?_foldl_insert_of_nodup h.came.1 f hf, hadded f hf]
      exact .some (.refl f)
    · rw [Table.get?_foldl_insert_of_notMem hcame, Table.get?_foldl_erase]
      split_ifs with hwent
      · rw [Table.get?_eq_none_iff.mpr ((h.went.2 name).mp hwent).2]
        exact .none
      · exact Table.rel_get?_iff.mpr ⟨fun hk => hcame ((h.came.2 name).mpr hk),
          fun hk => hwent ((h.went.2 name).mpr hk), fun hk => hname ((h.changed.2 name).mpr hk)⟩

section

variable {e e' : Entity}

/-- The fields that one entity has and the other has not stand under their own names. -/
theorem lists_name_without (he : e.OwnNames) :
    Lists (((e.fields.without e'.fields).map (·.2)).map (·.name))
      fun k => k ∈ e.fields.keys ∧ k ∉ e'.fields.keys := by
  have hnames : ((e.fields.without e'.fields).map (·.2)).map (·.name) =
      (e.fields.without e'.fields).map (·.1) := by
    rw [List.map_map]
    exact List.map_congr_left fun p hp => he.name_eq (Table.mem_without_iff.mp hp).1
  rw [hnames]
  exact Table.lists_without e.fields e'.fields

theorem get?_of_mem_without (he : e.OwnNames) {f : Field}
    (hf : f ∈ (e.fields.without e'.fields).map (·.2)) : e.fields.get? f.name = some f := by
  obtain ⟨p, hp, rfl⟩ := List.mem_map.mp hf
  obtain ⟨hget, -⟩ := Table.mem_without_iff.mp hp
  rwa [he.name_eq hget]

end

theorem compares_between (name : String) (hold : old.OwnNames) (hnew : new.OwnNames) :
    Compares Field.Alike old.fields new.fields ((between name old new).added.map (·.name))
      ((between name old new).removed.map (·.name))
      ((between name old new).changed.map (·.name)) := by
  refine ⟨lists_name_without hnew, lists_name_without hold, ?_⟩
  refine Table.lists_pairUp (fun k f g c hg hc => ?_) fun k f g _ hg => ?_
  · rw [((Field.change?_eq_some_iff (hnew.name_eq hg)).mp hc).2]
  · rw [Field.change?_eq (hnew.name_eq hg)]
    exact Option.isSome_ite'

/-- **What `between` lists is what differs.** -/
theorem exact_between (name : String) (hold : old.OwnNames) (hnew : new.OwnNames) :
    (between name old new).Exact old new := by
  have hcompares := compares_between name hold hnew
  have hadded : ∀ f ∈ (between name old new).added, new.fields.get? f.name = some f :=
    fun f hf => get?_of_mem_without hnew hf
  have hchanged : ∀ c ∈ (between name old new).changed, old.fields.get? c.name = some c.old ∧
      new.fields.get? c.name = some c.new ∧ c.Exact := by
    intro c hc
    obtain ⟨k, f, g, hf, hg, hc⟩ := Table.mem_pairUp_iff.mp hc
    obtain ⟨hne, rfl⟩ := (Field.change?_eq_some_iff (hnew.name_eq hg)).mp hc
    exact ⟨hf, hg, FieldChange.exact_of_axes rfl hne⟩
  exact ⟨hcompares, hcompares.parts (old.lists_unchanged new), hadded,
    fun f hf => get?_of_mem_without hold hf, hchanged,
    replay_matches_of_compares hcompares hadded fun c hc => (hchanged c hc).2.1⟩

/-- **An exact diff is empty exactly if the entities are alike.** -/
theorem Exact.hasChanges_eq_false_iff (h : d.Exact old new) :
    d.hasChanges = false ↔ old.Alike new := by
  rw [Entity.Alike, h.compares.matches_iff, List.map_eq_nil_iff, List.map_eq_nil_iff,
    List.map_eq_nil_iff, hasChanges]
  simp [and_assoc]

end EntityDiff

/-! ## Schemas -/

/-- Two schemas have the same entity names, and their entities are alike. -/
def Schema.Alike (s s' : Schema) : Prop := s.entities.Matches Entity.Alike s'.entities

/-- The names of the entities that both schemas have. -/
def Schema.common (s s' : Schema) : List String := s.entityNames.filter s'.hasEntity

namespace SchemaDiff

variable {old new : Schema}

/-- The diff tells exactly how two schemas differ. -/
structure Exact (old new : Schema) (d : SchemaDiff) : Prop where
  /-- It names what came, what went, and what is not alike. -/
  compares : Compares Entity.Alike old.entities new.entities d.added d.removed
    (d.modified.map (·.entity))
  /-- Every entity name is added, removed or common, and nowhere twice. -/
  parts : Lists (d.added ++ d.removed ++ old.common new)
    fun name => name ∈ old.entityNames ∨ name ∈ new.entityNames
  /-- Modified entities come in the old order. -/
  modified_sublist : (d.modified.map (·.entity)).Sublist old.entityNames
  /-- Each of them has an exact diff. -/
  modified : ∀ m ∈ d.modified, ∃ e e', old.entity? m.entity = some e ∧
    new.entity? m.entity = some e' ∧ m.Exact e e'
  /-- There are changes unless the schemas are alike. -/
  hasChanges_eq_false_iff : d.hasChanges = false ↔ old.Alike new

/-- The diff of two versions of the entity under `name`, if there are changes. -/
def change? (name : String) (e e' : Entity) : Option EntityDiff :=
  if (EntityDiff.between name e e').hasChanges then some (EntityDiff.between name e e') else none

theorem modified_eq (old new : Schema) :
    (between old new).modified = Table.pairUp change? old.entities new.entities := rfl

theorem eq_of_change? {name : String} {e e' : Entity} {m : EntityDiff}
    (h : change? name e e' = some m) : m = EntityDiff.between name e e' :=
  (Option.some.inj (Option.ite_none_right_eq_some.mp h).2).symm

/-- What stands under its own name has an exact diff. -/
theorem exact_entity (hold : old.OwnNames) (hnew : new.OwnNames) {name : String} {e e' : Entity}
    (he : old.entity? name = some e) (he' : new.entity? name = some e') :
    (EntityDiff.between name e e').Exact e e' :=
  EntityDiff.exact_between name (hold _ (Table.get?_eq_some_iff.mp he)).2
    (hnew _ (Table.get?_eq_some_iff.mp he')).2

theorem compares_entities (hold : old.OwnNames) (hnew : new.OwnNames) :
    Compares Entity.Alike old.entities new.entities (between old new).added
      (between old new).removed ((between old new).modified.map (·.entity)) := by
  refine ⟨Table.lists_without new.entities old.entities,
    Table.lists_without old.entities new.entities, ?_⟩
  rw [modified_eq]
  refine Table.lists_pairUp (fun name e e' m _ h => ?_) fun name e e' he he' => ?_
  · rw [eq_of_change? h]
    rfl
  · rw [← (exact_entity hold hnew he he').hasChanges_eq_false_iff, Bool.not_eq_false]
    exact Option.isSome_ite

theorem lists_common (old new : Schema) :
    Lists (old.common new) fun name => name ∈ old.entityNames ∧ name ∈ new.entityNames := by
  refine ⟨old.entities.nodup_keys.sublist List.filter_sublist, fun name => ?_⟩
  rw [Schema.common, List.mem_filter, Schema.hasEntity, Table.contains_iff, Schema.entityNames,
    Schema.entityNames]

/-- **The diff of two schemas lists exactly what differs.**  If everything stands under its own
name, every entity name is in one list, the modified entities are those common ones that are not
alike, in the old order, each with an exact diff, and there are no changes exactly if the schemas
have the same names and agree on all axes. -/
theorem exact_between_of_ownNames (hold : old.OwnNames) (hnew : new.OwnNames) :
    (between old new).Exact old new := by
  have hcompares := compares_entities hold hnew
  refine ⟨hcompares, ?_, ?_, ?_, ?_⟩
  · have hone := hcompares.came.append hcompares.went fun name hname hname' => hname.2 hname'.1
    refine (hone.append (lists_common old new) fun name hname hboth => ?_).congr fun name => ?_
    · exact hname.elim (fun hname => hname.2 hboth.1) fun hname => hname.2 hboth.2
    · rw [Schema.entityNames, Schema.entityNames]
      tauto
  · rw [modified_eq]
    refine Table.pairUp_sublist fun name e e' m _ h => ?_
    rw [eq_of_change? h]
    rfl
  · intro m hm
    rw [modified_eq] at hm
    obtain ⟨name, e, e', he, he', h⟩ := Table.mem_pairUp_iff.mp hm
    obtain rfl := eq_of_change? h
    exact ⟨e, e', he, he', exact_entity hold hnew he he'⟩
  · rw [Schema.Alike, hcompares.matches_iff, List.map_eq_nil_iff, hasChanges]
    simp [and_assoc]

/-- The posts of a blog. -/
def oldPost : Entity :=
  { name := "Post"
    fields := .ofList
      [("title", .parse "title" "string"), ("body", .parse "body" "string"),
        ("author", .parse "author" "->Author"), ("score", .parse "score" "int")] }

/-- Posts with tags: a field came, one went, and two changed. -/
def newPost : Entity :=
  { name := "Post"
    fields := .ofList
      [("tags", .parse "tags" "->Tag[]"), ("title", .parse "title" "string[]"),
        ("author", .parse "author" "~>Author?"), ("score", .parse "score" "int")] }

/-- A blog with drafts. -/
def before : Schema :=
  { entities := .ofList
      [("Post", oldPost), ("Author", { name := "Author" }), ("Draft", { name := "Draft" })] }

/-- The blog with tags. -/
def after : Schema :=
  { entities := .ofList
      [("Tag", { name := "Tag" }), ("Author", { name := "Author" }), ("Post", newPost)] }

theorem exact_between_of_ownNames_blog : (before.OwnNames ∧ after.OwnNames) ∧
    (between before after).Exact before after ∧ ¬ before.Alike after ∧
    (between before after).added = ["Tag"] ∧ (between before after).removed = ["Draft"] ∧
    ((between before after).modified.map fun m => (m.entity, m.added.map (·.name),
        m.removed.map (·.name), m.changed.map fun c => (c.name, c.kind))) =
      [("Post", ["tags"], ["body"], [("title", "array"), ("author", "multiple")])] := by
  have hbefore : before.OwnNames := by decide +kernel
  have hafter : after.OwnNames := by decide +kernel
  have hexact := exact_between_of_ownNames hbefore hafter
  refine ⟨⟨hbefore, hafter⟩, hexact, ?_, by decide +kernel, by decide +kernel, by decide +kernel⟩
  rw [← hexact.hasChanges_eq_false_iff]
  decide +kernel

end SchemaDiff

end EntitySchema
