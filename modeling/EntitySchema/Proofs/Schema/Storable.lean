import EntitySchema.Proofs.Grammar.Coherence
import EntitySchema.Proofs.Schema.Declaration
import EntitySchema.Proofs.Value.Storable
import EntitySchema.Schema.Assembly
import EntitySchema.Schema.System
import Mathlib.Data.List.Basic

/-!
# Proofs/Schema/Storable — declared schemas can be stored

The free-form parts of an entity are taken from its declaration, and the thresholds of its fields
lie between zero and one, so a schema of storable values is storable (`Schema.storable_of_declare`).
Inverse fields (`Schema.Storable.complete`) and the built-in entities
(`Schema.Storable.withSystemEntities`) add nothing free-form.
-/

namespace EntitySchema

/-- The members of a mapping are storable, though two of them may have the same key. -/
def Value.MembersStorable (v : Value) : Prop := ∀ ms, v = .map ms → ∀ p ∈ ms, p.2.Storable

theorem Value.Storable.members {v : Value} (h : v.Storable) : v.MembersStorable := by
  rintro ms rfl p hp
  exact ⟨distinctMembers_iff.mp h.distinct.2 p hp, finiteMembers_iff.mp h.finite p hp⟩

/-! ## Declared fields -/

namespace Field

/-- A threshold between zero and one is finite. -/
theorem Coherent.storable {f : Field} (h : f.Coherent) : f.Storable := by
  have hfits := h.shape
  rw [Field.Storable]
  cases hshape : f.shape with
  | scalar | parametric | generic => trivial
  | relation r =>
    rw [hshape] at hfits
    intro t ht
    obtain ⟨hzero, hone⟩ := hfits.2.threshold t ht
    exact Binary64.isFinite_of_le (by decide) (by decide) hzero hone

theorem storable_parse (name definition : String) : (parse name definition).Storable := by
  refine Coherent.storable ?_
  rw [parse]
  cases harrow : Arrow.parse? definition with
  | some arrow => exact (coherent_relationField harrow name).1
  | none => exact (coherent_plainField name _).1

/-- **A declared field can be stored**, whatever declares it. -/
theorem storable_of_ofValue {name : String} {v : Value} {f : Field} (h : ofValue name v = .ok f) :
    f.Storable := by
  obtain ⟨s, rfl | rfl⟩ := exists_parse_of_ofValue h
  · exact storable_parse name s
  · exact storable_parse name s

theorem storable_inverse (f : Field) (source backref : String) :
    (f.inverse source backref).Storable := by
  rintro t ⟨⟩

end Field

/-! ## Declared entities -/

namespace Entity

theorem Storable.declareMember {e e' : Entity} (he : e.Storable) {key : String} {value : Value}
    (hvalue : value.Storable) (h : e.declareMember key value = .ok e') : e'.Storable := by
  unfold Entity.declareMember at h
  split at h
  · split at h <;> cases h
    · exact ⟨he.fields, he.definition, he.directives⟩
    · exact ⟨he.fields, he.definition, Table.forall_insert he.directives key hvalue⟩
  · split at h
    case h_3 =>
      cases h
      exact he
    -- Both a text and a list declare a field, or fail.
    all_goals
      cases hf : Field.ofValue key _ with
      | error cause =>
        rw [hf] at h
        cases h
      | ok f =>
        rw [hf] at h
        cases h
        exact ⟨Table.forall_insert he.fields key (Field.storable_of_ofValue hf), he.definition,
          he.directives⟩

theorem Storable.declareMembers {e' : Entity} : ∀ {ms : List (String × Value)} {e : Entity},
    e.Storable → (∀ p ∈ ms, p.2.Storable) → e.declareMembers ms = .ok e' → e'.Storable
  | [], e, he, _, h => by
      cases h
      exact he
  | (key, value) :: ms, e, he, hms, h => by
      rw [List.forall_mem_cons] at hms
      rw [Entity.declareMembers] at h
      cases hmember : e.declareMember key value with
      | error cause =>
        rw [hmember] at h
        cases h
      | ok e₁ =>
        rw [hmember] at h
        exact Storable.declareMembers (he.declareMember hms.1 hmember) hms.2 h

theorem storable_of_ofRecord {name : String} {r : Record} {e : Entity} (hr : r.Storable)
    (h : ofRecord name r = .ok e) : e.Storable :=
  Storable.declareMembers (e := { name, definition := r })
    ⟨Table.forall_empty, hr, Record.storable_empty⟩ hr h

/-- **An entity keeps the value that declares it**, and settings from it. -/
theorem storable_of_ofValue {name : String} {v : Value} {e : Entity} (hv : v.MembersStorable)
    (h : ofValue name v = .ok e) : e.Storable := by
  cases v with
  | text uri =>
    cases h
    exact storable_bare name uri
  | null => exact storable_of_ofRecord Record.storable_empty h
  | map ms => exact storable_of_ofRecord (Table.forall_ofList (hv ms rfl)) h
  | bool | number | list => cases h

theorem storable_ofDefinitions (name : String) (definitions : List (String × String)) :
    (ofDefinitions name definitions).Storable where
  fields := by
    refine Table.forall_ofList fun p hp => ?_
    obtain ⟨q, -, rfl⟩ := List.mem_map.mp hp
    exact Field.storable_parse q.1 q.2
  definition := by
    refine Table.forall_ofList fun p hp => ?_
    obtain ⟨q, -, rfl⟩ := List.mem_map.mp hp
    exact ⟨trivial, trivial⟩
  directives := Record.storable_empty

end Entity

/-! ## Declared schemas -/

namespace Schema

theorem Storable.declareMembers {s' : Schema} : ∀ {ms : List (String × Value)} {s : Schema},
    s.Storable → (∀ p ∈ ms, p.2.MembersStorable) → s.declareMembers ms = .ok s' → s'.Storable
  | [], s, hs, _, h => by
      cases h
      exact hs
  | (name, value) :: ms, s, hs, hms, h => by
      rw [List.forall_mem_cons] at hms
      rw [Schema.declareMembers] at h
      split_ifs at h with hsetting
      · exact Storable.declareMembers hs hms.2 h
      · cases he : Entity.ofValue name value with
        | error cause =>
          rw [he] at h
          cases h
        | ok e =>
          rw [he] at h
          exact Storable.declareMembers (s := s.addEntity name e)
            (Table.forall_insert hs name (Entity.storable_of_ofValue hms.1 he)) hms.2 h

theorem storable_of_declare {raw : Record} {s : Schema}
    (hraw : ∀ p ∈ raw.entries, p.2.MembersStorable)
    (h : declare raw = .ok s) : s.Storable :=
  Storable.declareMembers (s := {}) Table.forall_empty hraw h

theorem Storable.addField {s : Schema} (hs : s.Storable) (name : String) {f : Field}
    (hf : f.Storable) : (s.addField name f).Storable :=
  Table.forall_modify hs name fun _ he =>
    ⟨Table.forall_insert he.fields f.name hf, he.definition, he.directives⟩

theorem storable_completeFields (source : String) : ∀ (fs : List Field) {s : Schema},
    s.Storable → (completeFields source fs s).1.Storable
  | [], _, hs => hs
  | f :: fs, s, hs => by
      rw [completeFields]
      cases s.missingInverse? source f with
      | none => exact storable_completeFields source fs hs
      | some i =>
        exact storable_completeFields source fs (hs.addField _ (f.storable_inverse source i.field))

theorem storable_completeEntities : ∀ (names : List String) {s : Schema},
    s.Storable → (completeEntities names s).1.Storable
  | [], _, hs => hs
  | name :: names, _, hs =>
      storable_completeEntities names (storable_completeFields name _ hs)

theorem Storable.complete {s : Schema} (hs : s.Storable) : s.complete.1.Storable :=
  storable_completeEntities s.entityNames hs

/-- **A schema that is assembled from storable values is storable.** -/
theorem storable_of_assemble {raw : Record} {s : Schema} {check : Bool}
    (hraw : ∀ p ∈ raw.entries, p.2.MembersStorable)
    (h : assemble raw check = .ok s) : s.Storable := by
  rw [assemble, assembleSteps] at h
  cases hs₀ : declare raw with
  | error cause =>
    rw [hs₀] at h
    cases h
  | ok s₀ =>
    rw [hs₀] at h
    dsimp only at h
    split at h <;> cases h
    exact (storable_of_declare hraw hs₀).complete

theorem Storable.withSystemEntities {s : Schema} (hs : s.Storable) :
    s.withSystemEntities.Storable := by
  rw [Schema.withSystemEntities]
  refine List.foldlRecOn (motive := fun t : Table String Entity => ∀ p ∈ t.entries, p.2.Storable)
    systemDefinitions _ hs fun t ht p _ => ?_
  exact Table.forall_insert ht p.1 (Entity.storable_ofDefinitions p.1 p.2)

end Schema

end EntitySchema
