import EntitySchema.Proofs.Table
import EntitySchema.Schema.Declaration
import Mathlib.Data.List.Forall2

/-!
# Proofs/Schema/Declaration — what a record declares

    record ──members without settings──▸ Entity.ofValue each ──▸ Schema.declare

A declared schema holds one entity for each member that is no setting, in order, and each is what
its own value declares (`Schema.declares_of_declare`).  Inside an entity every field is what some
member of that name declares (`Entity.Declared`), so entities and fields stand under their own
names.
-/

namespace EntitySchema

/-! ## Fields -/

namespace Field

@[simp] theorem name_parse (name definition : String) : (parse name definition).name = name := by
  rw [parse]
  split
  · rfl
  · rw [Grammar.plainField.eq_def]
    dsimp only
    split
    · rfl
    · split
      · rfl
      · split <;> rfl

/-- A value declares a field by a text, as an array or not. -/
theorem exists_parse_of_ofValue {name : String} {v : Value} {f : Field}
    (h : ofValue name v = .ok f) :
    ∃ s, f = parse name s ∨ f = (parse name s).asArray := by
  match v, h with
  | .text s, h => exact ⟨s, .inl (Except.ok.inj h).symm⟩
  | .list [.text s], h => exact ⟨s, .inr (Except.ok.inj h).symm⟩

theorem name_of_ofValue {name : String} {v : Value} {f : Field} (h : ofValue name v = .ok f) :
    f.name = name := by
  obtain ⟨s, rfl | rfl⟩ := exists_parse_of_ofValue h
  · exact name_parse name s
  · exact name_parse name s

end Field

/-! ## Entities -/

namespace Entity

/-- Every field is what a value declares under its name. -/
def Declared (e : Entity) : Prop := ∀ p ∈ e.fields.entries, ∃ v, Field.ofValue p.1 v = .ok p.2

/-- A member adds at most the field it declares. -/
theorem declareMember_fields {e e' : Entity} {key : String} {value : Value}
    (h : e.declareMember key value = .ok e') : e'.name = e.name ∧
      (e'.fields = e.fields ∨
        ∃ f, Field.ofValue key value = .ok f ∧ e'.fields = e.fields.insert key f) := by
  unfold declareMember at h
  split at h
  · split at h
    · obtain rfl := Except.ok.inj h
      exact ⟨rfl, .inl rfl⟩
    · obtain rfl := Except.ok.inj h
      exact ⟨rfl, .inl rfl⟩
  · split at h
    case h_3 =>
      obtain rfl := Except.ok.inj h
      exact ⟨rfl, .inl rfl⟩
    -- Texts and lists declare a field in the same way.
    all_goals
      split at h
      next f hf =>
        obtain rfl := Except.ok.inj h
        exact ⟨rfl, .inr ⟨f, hf, rfl⟩⟩
      next => cases h

theorem declareMembers_declared {e' : Entity} : ∀ {ms : List (String × Value)} {e : Entity},
    e.Declared → e.declareMembers ms = .ok e' → e'.name = e.name ∧ e'.Declared
  | [], e, he, h => by
      obtain rfl := Except.ok.inj h
      exact ⟨rfl, he⟩
  | (key, value) :: ms, e, he, h => by
      rw [declareMembers] at h
      rcases h₁ : e.declareMember key value with err | e₁ <;> rw [h₁] at h
      · cases h
      · obtain ⟨hname, hfields⟩ := declareMember_fields h₁
        have he₁ : e₁.Declared := by
          intro p hp
          obtain hsame | ⟨f, hf, hins⟩ := hfields
          · exact he p (hsame ▸ hp)
          · rw [hins] at hp
            obtain rfl | hp := Table.mem_entries_insert hp
            · exact ⟨value, hf⟩
            · exact he p hp
        rw [← hname]
        exact declareMembers_declared he₁ h

/-- **What a value declares has its name, and its fields have theirs.** -/
theorem declared_of_ofValue {name : String} {v : Value} {e : Entity}
    (h : ofValue name v = .ok e) : e.name = name ∧ e.Declared := by
  have hempty : ∀ uri r, (({ name, typeUri := uri, definition := r } : Entity)).Declared :=
    fun _ _ _ hp => absurd hp List.not_mem_nil
  unfold ofValue at h
  split at h
  · obtain rfl := Except.ok.inj h
    exact ⟨rfl, hempty _ _⟩
  · exact declareMembers_declared (hempty _ _) h
  · exact declareMembers_declared (hempty _ _) h
  · exact absurd h (by simp)

end Entity

/-! ## Schemas -/

namespace Schema

/-- Entities and fields stand under their own names. -/
def OwnNames (s : Schema) : Prop :=
  ∀ p ∈ s.entities.entries, p.2.name = p.1 ∧ ∀ q ∈ p.2.fields.entries, q.2.name = q.1

instance (s : Schema) : Decidable s.OwnNames :=
  inferInstanceAs (Decidable (∀ p ∈ s.entities.entries, _ ∧ _))

/-- A field is found under its own name. -/
theorem OwnNames.get?_eq_some {s : Schema} (hs : s.OwnNames) {name : String} {e : Entity}
    {f : Field} (he : s.entity? name = some e) (hf : f ∈ e.fields.values) :
    e.name = name ∧ e.fields.get? f.name = some f := by
  obtain ⟨hname, hfields⟩ := hs _ (Table.get?_eq_some_iff.mp he)
  obtain ⟨p, hp, rfl⟩ := List.mem_map.mp hf
  exact ⟨hname, Table.get?_eq_some_iff.mpr (hfields p hp ▸ hp)⟩

/-- The pairs are what the members declare, in order. -/
def Declares (ms : List (String × Value)) (ps : List (String × Entity)) : Prop :=
  List.Forall₂ (fun m p => p.1 = m.1 ∧ Entity.ofValue m.1 m.2 = .ok p.2) ms ps

theorem Declares.map_fst {ms : List (String × Value)} {ps : List (String × Entity)}
    (h : Declares ms ps) : ps.map Prod.fst = ms.map Prod.fst := by
  induction h with
  | nil => rfl
  | cons hp _ ih => rw [List.map_cons, List.map_cons, ih, hp.1]

theorem Declares.exists_mem {ms : List (String × Value)} {ps : List (String × Entity)}
    (h : Declares ms ps) {name : String} {e : Entity} (hp : (name, e) ∈ ps) :
    ∃ v, (name, v) ∈ ms ∧ Entity.ofValue name v = .ok e := by
  induction h with
  | nil => exact absurd hp List.not_mem_nil
  | @cons m p ms ps hmp _ ih =>
    obtain rfl | hp := List.mem_cons.mp hp
    · obtain ⟨rfl, hv⟩ := hmp
      exact ⟨m.2, List.mem_cons_self, hv⟩
    · obtain ⟨v, hm, hv⟩ := ih hp
      exact ⟨v, List.mem_cons_of_mem _ hm, hv⟩

/-- Each member that is no setting adds the entity it declares at the end; the keys are new. -/
theorem declareMembers_entries {s' : Schema} : ∀ {ms : List (String × Value)} {s : Schema},
    (s.entityNames ++ ms.map Prod.fst).Nodup → s.declareMembers ms = .ok s' →
    ∃ es, s'.entities.entries = s.entities.entries ++ es ∧
      Declares (ms.filter fun m => !isSetting m.1) es
  | [], s, _, h => by
      obtain rfl := Except.ok.inj h
      exact ⟨[], (List.append_nil _).symm, .nil⟩
  | (name, value) :: ms, s, hnodup, h => by
      rw [declareMembers] at h
      split_ifs at h with hname
      · rw [List.filter_cons_of_neg (by simp [hname])]
        refine declareMembers_entries (hnodup.sublist ?_) h
        exact .append (.refl _) (.cons _ (.refl _))
      · rcases he : Entity.ofValue name value with err | e <;> rw [he] at h
        · cases h
        · have hnew : name ∉ s.entities.keys := fun hmem =>
            (List.nodup_append.mp hnodup).2.2 name hmem name List.mem_cons_self rfl
          have hentries : (s.addEntity name e).entities.entries = _ :=
            Table.entries_insert hnew e
          have hnames : (s.addEntity name e).entityNames = s.entityNames ++ [name] := by
            rw [entityNames, entityNames, Table.keys, hentries, List.map_append]
            rfl
          have hnodup' : ((s.addEntity name e).entityNames ++ ms.map Prod.fst).Nodup := by
            rwa [hnames, List.append_assoc]
          obtain ⟨es, hes, hall⟩ := declareMembers_entries hnodup' h
          refine ⟨(name, e) :: es, ?_, ?_⟩
          · rw [hes, hentries, List.append_assoc]
            rfl
          · rw [List.filter_cons_of_pos (by simp [hname])]
            exact .cons ⟨rfl, he⟩ hall

/-- **One entity for each member that is no setting, in order.** -/
theorem declares_of_declare {raw : Record} {s : Schema} (h : declare raw = .ok s) :
    Declares (raw.entries.filter fun m => !isSetting m.1) s.entities.entries := by
  obtain ⟨es, hes, hall⟩ := declareMembers_entries (s := {}) raw.nodup h
  have hempty : ({} : Schema).entities.entries = [] := rfl
  rw [hempty, List.nil_append] at hes
  exact hes ▸ hall

theorem entityNames_of_declare {raw : Record} {s : Schema} (h : declare raw = .ok s) :
    s.entityNames = raw.keys.filter fun name => !isSetting name := by
  rw [entityNames, Table.keys, (declares_of_declare h).map_fst, Table.keys, List.filter_map]
  rfl

/-- An entity is what the member of its name declares. -/
theorem ofValue_of_declare {raw : Record} {s : Schema} (h : declare raw = .ok s) {name : String}
    {e : Entity} (he : (name, e) ∈ s.entities.entries) :
    ∃ v, raw.get? name = some v ∧ Entity.ofValue name v = .ok e := by
  obtain ⟨v, hm, hv⟩ := (declares_of_declare h).exists_mem he
  exact ⟨v, Table.get?_eq_some_iff.mpr (List.mem_filter.mp hm).1, hv⟩

theorem declared_of_declare {raw : Record} {s : Schema} (h : declare raw = .ok s) :
    ∀ p ∈ s.entities.entries, p.2.name = p.1 ∧ p.2.Declared := by
  rintro ⟨name, e⟩ hp
  obtain ⟨v, -, hv⟩ := ofValue_of_declare h hp
  exact Entity.declared_of_ofValue hv

/-- **A declared schema keeps everything under its own name.** -/
theorem ownNames_of_declare {raw : Record} {s : Schema} (h : declare raw = .ok s) :
    s.OwnNames := by
  intro p hp
  obtain ⟨hname, hfields⟩ := declared_of_declare h p hp
  refine ⟨hname, fun q hq => ?_⟩
  obtain ⟨v, hv⟩ := hfields q hq
  exact Field.name_of_ofValue hv

end Schema

end EntitySchema
