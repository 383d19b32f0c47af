import EntitySchema.Proofs.Diff.Schema
import Mathlib.Data.List.Nodup
import Mathlib.Data.List.Perm.Basic

/-!
# Proofs/Diff/Mirror — a diff seen from the other side

    old ──between──▸ new      added     removed   changed  f ▸ g   renames  o ▸ n
    new ──between──▸ old      removed   added     changed  g ▸ f   renames  n ▸ o

Two fields agree along an axis whichever of them is the older one, so a change and a rename have a
mirror image of the same kind and the same confidence (`Field.change?_mirror`,
`Rename.between?_mirror`).  The two diffs go through their tables and pairs in different orders and
sort ties differently, but list the same (`SchemaDiff.mirrors_between`).
-/

namespace EntitySchema

/-! ## Lists in either order -/

/-- Lists of the same things are the same up to order. -/
theorem Lists.perm {α : Type} {P : α → Prop} {xs ys : List α} (hxs : Lists xs P)
    (hys : Lists ys P) : xs.Perm ys :=
  (List.perm_ext_iff_of_nodup hxs.1 hys.1).mpr fun a => (hxs.2 a).trans (hys.2 a).symm

/-- What is made of pairs does not depend on which of the two lists is gone through first. -/
theorem perm_flatMap_filterMap {α β γ : Type} (h : α → β → Option γ) (ys : List β) :
    ∀ xs : List α, (ys.flatMap fun y => xs.filterMap fun x => h x y).Perm
      (xs.flatMap fun x => ys.filterMap (h x))
  | [] => by simp
  | x :: xs => by
      have hcons : ∀ y, ((x :: xs).filterMap fun x => h x y) =
          (h x y).toList ++ xs.filterMap fun x => h x y := fun y => by
        rw [List.filterMap_cons]
        cases h x y <;> rfl
      simp only [hcons]
      rw [List.flatMap_cons, List.filterMap_eq_flatMap_toList]
      exact (List.flatMap_append_perm ys _ _).symm.trans
        ((perm_flatMap_filterMap h ys xs).append_left _)

namespace Table

variable {κ α β γ : Type} [DecidableEq κ] {t : Table κ α} {t' : Table κ β}
  {f : κ → α → β → Option γ} {f' : κ → β → α → Option γ} {g : γ → γ}

/-- **Two tables pair up the same from either side.** -/
theorem perm_pairUp (name : γ → κ)
    (hname : ∀ k a b c, t'.get? k = some b → f k a b = some c → name c = k)
    (hname' : ∀ k b a c, t.get? k = some a → f' k b a = some c → name c = k)
    (hg : ∀ c, name (g c) = name c)
    (hswap : ∀ k a b, t.get? k = some a → t'.get? k = some b → f' k b a = (f k a b).map g) :
    (pairUp f' t' t).Perm ((pairUp f t t').map g) := by
  have hnames : ((pairUp f t t').map g).map name = (pairUp f t t').map name := by
    rw [List.map_map]
    exact List.map_congr_left fun c _ => hg c
  have hnodup : ((pairUp f t t').map g).Nodup :=
    List.Nodup.of_map name (hnames ▸ t.nodup_keys.sublist (pairUp_sublist hname))
  have hnodup' : (pairUp f' t' t).Nodup :=
    List.Nodup.of_map name (t'.nodup_keys.sublist (pairUp_sublist hname'))
  refine (List.perm_ext_iff_of_nodup hnodup' hnodup).mpr fun c => ?_
  rw [List.mem_map, mem_pairUp_iff]
  constructor
  · rintro ⟨k, b, a, hb, ha, hc⟩
    rw [hswap k a b ha hb] at hc
    obtain ⟨d, hd, rfl⟩ := Option.map_eq_some_iff.mp hc
    exact ⟨d, mem_pairUp_iff.mpr ⟨k, a, b, ha, hb, hd⟩, rfl⟩
  · rintro ⟨d, hd, rfl⟩
    obtain ⟨k, a, b, ha, hb, hd⟩ := mem_pairUp_iff.mp hd
    exact ⟨k, b, a, hb, ha, by rw [hswap k a b ha hb, hd, Option.map_some]⟩

end Table

/-! ## Fields -/

theorem Axis.agrees_comm (f g : Field) (a : Axis) : a.agrees f g = a.agrees g f := by
  cases a <;> exact decide_eq_decide.mpr eq_comm

/-- The change from the other side: along the same axes, hence of the same kind, with the versions
exchanged. -/
def FieldChange.mirror (c : FieldChange) : FieldChange := { c with old := c.new, new := c.old }

namespace Field

variable {f g : Field} {key : String}

theorem Alike.symm (h : f.Alike g) : g.Alike f :=
  ⟨h.type.symm, h.optional.symm, h.array.symm, h.relation.symm, h.operator.symm⟩

theorem changedAxes_comm (f g : Field) : changedAxes f g = changedAxes g f :=
  List.filter_congr fun a _ => by rw [Axis.agrees_comm]

/-- **A field changes back as it changed.** -/
theorem change?_mirror (hf : f.name = key) (hg : g.name = key) :
    change? key g f = (change? key f g).map FieldChange.mirror := by
  rw [change?_eq hf, change?_eq hg]
  by_cases h : f.Alike g
  · rw [if_pos h, if_pos h.symm]
    rfl
  · rw [if_neg h, if_neg fun h' => h h'.symm, changedAxes_comm g f]
    rfl

end Field

namespace Rename

/-- The rename from the other side: agreement and confidence stay, the names are exchanged. -/
def mirror (r : Rename) : Rename := { r with old := r.new, new := r.old }

theorem agreedAxes_comm (f g : Field) : agreedAxes f g = agreedAxes g f :=
  List.filter_congr fun a _ => Axis.agrees_comm f g a

theorem between?_mirror (f g : Field) : between? g f = (between? f g).map mirror := by
  rw [between?, between?, agreedAxes_comm g f]
  by_cases h : f.name ≠ g.name ∧ leastConfidence.le (totalWeight (agreedAxes f g)) = true
  · rw [if_pos h, if_pos ⟨h.1.symm, h.2⟩]
    rfl
  · rw [if_neg h, if_neg fun h' => h ⟨h'.1.symm, h'.2⟩]
    rfl

/-- **The renames back are those there**, up to the order of ties. -/
theorem perm_proposals (removed added : List Field) :
    (proposals added removed).Perm ((proposals removed added).map mirror) := by
  have hpairs : (added.flatMap fun new => removed.filterMap fun old => between? new old).Perm
      ((removed.flatMap fun old => added.filterMap fun new => between? old new).map mirror) := by
    simp only [List.map_flatMap, List.map_filterMap, ← between?_mirror]
    exact perm_flatMap_filterMap (fun old new => between? new old) added removed
  exact (perm_sorted _ _).trans (hpairs.trans ((perm_sorted _ _).symm.map mirror))

end Rename

/-! ## Entities -/

theorem Entity.Alike.symm {e e' : Entity} (h : e.Alike e') : e'.Alike e := by
  intro name
  have hrel := h name
  revert hrel
  generalize e.fields.get? name = x, e'.fields.get? name = y
  rintro (hfg | _)
  · exact .some hfg.symm
  · exact .none

/-- The two diffs say the same of an entity, one from each side. -/
structure EntityDiff.Mirrors (d d' : EntityDiff) : Prop where
  /-- They are about one entity. -/
  entity : d'.entity = d.entity
  /-- What came has gone … -/
  added : d'.added = d.removed
  /-- … and what went has come. -/
  removed : d'.removed = d.added
  /-- The same fields changed, with the old and the new version exchanged. -/
  changed : d'.changed.Perm (d.changed.map FieldChange.mirror)
  /-- The same renames are possible, as often, with the old and the new name exchanged. -/
  renames : d'.renames.Perm (d.renames.map Rename.mirror)

theorem EntityDiff.mirrors_between_entities {old new : Entity} (name : String) (hold : old.OwnNames)
    (hnew : new.OwnNames) : (between name old new).Mirrors (between name new old) := by
  refine ⟨rfl, rfl, rfl, ?_, Rename.perm_proposals _ _⟩
  refine Table.perm_pairUp FieldChange.name (fun key f g c hg hc => ?_)
    (fun key g f c hf hc => ?_) (fun c => rfl) fun key f g hf hg => ?_
  · rw [((Field.change?_eq_some_iff (hnew.name_eq hg)).mp hc).2]
  · rw [((Field.change?_eq_some_iff (hold.name_eq hf)).mp hc).2]
  · exact Field.change?_mirror (hold.name_eq hf) (hnew.name_eq hg)

/-! ## Schemas -/

namespace SchemaDiff

variable {old new : Schema}

/-- The two diffs say the same of a schema, one from each side. -/
structure Mirrors (d d' : SchemaDiff) : Prop where
  /-- The entities that came have gone … -/
  added : d'.added = d.removed
  /-- … and those that went have come. -/
  removed : d'.removed = d.added
  /-- The same entities are modified, each listed once. -/
  modified : (d'.modified.map (·.entity)).Perm (d.modified.map (·.entity))
  /-- Of each of them the two diffs say the same. -/
  entities : ∀ m ∈ d.modified, ∀ m' ∈ d'.modified, m'.entity = m.entity → m.Mirrors m'

theorem mem_modified {m : EntityDiff} (hm : m ∈ (between old new).modified) :
    ∃ e e', old.entity? m.entity = some e ∧ new.entity? m.entity = some e' ∧
      m = EntityDiff.between m.entity e e' := by
  rw [modified_eq] at hm
  obtain ⟨name, e, e', he, he', h⟩ := Table.mem_pairUp_iff.mp hm
  obtain rfl := eq_of_change? h
  exact ⟨e, e', he, he', rfl⟩

/-- **The diff back is the mirror image of the diff there**, if everything stands under its own
name: what came has gone and the other way round, the same entities and fields changed in the same
way, and the same renames are possible in the other direction, with the same confidence. -/
theorem mirrors_between (hold : old.OwnNames) (hnew : new.OwnNames) :
    (between old new).Mirrors (between new old) := by
  refine ⟨rfl, rfl, ?_, fun m hm m' hm' hentity => ?_⟩
  · refine (compares_entities hnew hold).changed.perm
      ((compares_entities hold hnew).changed.congr fun name => ⟨fun h => ?_, fun h => ?_⟩)
    · obtain ⟨e, e', he, he', hne⟩ := h
      exact ⟨e', e, he', he, fun halike => hne halike.symm⟩
    · obtain ⟨e', e, he', he, hne⟩ := h
      exact ⟨e, e', he, he', fun halike => hne halike.symm⟩
  · obtain ⟨e, e', he, he', hdiff⟩ := mem_modified hm
    obtain ⟨e₂, e₁, he₂, he₁, hdiff'⟩ := mem_modified hm'
    rw [hentity] at he₁ he₂ hdiff'
    obtain rfl := Option.some.inj (he.symm.trans he₁)
    obtain rfl := Option.some.inj (he'.symm.trans he₂)
    rw [hdiff, hdiff']
    exact EntityDiff.mirrors_between_entities m.entity
      (hold _ (Table.get?_eq_some_iff.mp he)).2 (hnew _ (Table.get?_eq_some_iff.mp he')).2

/-- A shop whose items have a code and a price. -/
def oldShop : Schema :=
  { entities := .ofList
      [("Item",
        { name := "Item"
          fields := .ofList
            [("code", .parse "code" "string"), ("price", .parse "price" "int"),
              ("maker", .parse "maker" "->Maker")] }),
        ("Maker", { name := "Maker" })] }

/-- The shop with other names for both, and for its makers. -/
def newShop : Schema :=
  { entities := .ofList
      [("Brand", { name := "Brand" }),
        ("Item",
          { name := "Item"
            fields := .ofList
              [("maker", .parse "maker" "~>Brand"), ("label", .parse "label" "string"),
                ("cost", .parse "cost" "float")] })] }

/-- Ties between renames come in another order when the diff is read from the other side. -/
theorem mirrors_between_shops : (oldShop.OwnNames ∧ newShop.OwnNames) ∧
    (between oldShop newShop).Mirrors (between newShop oldShop) ∧
    ((between oldShop newShop).modified.map fun m =>
        (m.changed.map fun c => (c.name, c.kind), m.renames.map fun r => (r.old, r.new))) =
      [([("maker", "multiple")],
        [("code", "label"), ("code", "cost"), ("price", "label"), ("price", "cost")])] ∧
    ((between newShop oldShop).modified.map fun m =>
        (m.changed.map fun c => (c.name, c.kind), m.renames.map fun r => (r.old, r.new))) =
      [([("maker", "multiple")],
        [("label", "code"), ("label", "price"), ("cost", "code"), ("cost", "price")])] := by
  have hold : oldShop.OwnNames := by decide +kernel
  have hnew : newShop.OwnNames := by decide +kernel
  exact ⟨⟨hold, hnew⟩, mirrors_between hold hnew, by decide +kernel, by decide +kernel⟩

end SchemaDiff

end EntitySchema
