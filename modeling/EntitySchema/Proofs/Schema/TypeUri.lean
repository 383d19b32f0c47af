import EntitySchema.Proofs.Schema.Assembly
import EntitySchema.Schema.System

/-!
# Proofs/Schema/TypeUri — addresses of types beside their entities

    entities                     typeUris
    Post ▸ urn:post              Post ▸ urn:post
    Noun ▸ urn:noun              Noun ▸ urn:noun
    ──withSystemEntities──▸
    Post ▸ urn:post              Post ▸ urn:post
    Noun                         Noun ▸ urn:noun

The address of a type stands in its entity and once more in a table of the schema.  Declaring an
entity writes both and an inverse field touches neither, so the two are in step in every assembled
schema.  A built-in entity has no address, but the table keeps that of an entity it replaces: the
two stay in step exactly if no such entity has one (`Schema.urisInStep_assemble`).
-/

namespace EntitySchema.Schema

variable {s : Schema}

/-- The address of the type of the entity under `name`. -/
def typeUri? (s : Schema) (name : String) : Option String := (s.entity? name).bind (·.typeUri)

/-- The table has the addresses of the entities that have one, and no others. -/
def UrisInStep (s : Schema) : Prop := ∀ name, s.typeUris.get? name = s.typeUri? name

/-! ## Declarations -/

theorem UrisInStep.addEntity (h : s.UrisInStep) {name : String} (hnew : name ∉ s.entityNames)
    (e : Entity) : (s.addEntity name e).UrisInStep := by
  intro key
  have hentity : (s.addEntity name e).typeUri? key =
      if name = key then e.typeUri else s.typeUri? key := by
    rw [typeUri?, entity?, Schema.addEntity, Table.get?_insert]
    split <;> rfl
  rw [hentity]
  cases huri : e.typeUri with
  | some uri =>
    have huris : (s.addEntity name e).typeUris = s.typeUris.insert name uri := by
      rw [Schema.addEntity, huri]
    rw [huris, Table.get?_insert, h key]
  | none =>
    have huris : (s.addEntity name e).typeUris = s.typeUris := by rw [Schema.addEntity, huri]
    rw [huris, h key]
    split_ifs with hkey
    · rw [typeUri?, entity?, Table.get?_eq_none_iff.mpr (hkey ▸ hnew), Option.bind_none]
    · rfl

/-- Each member declares an entity under a name of its own, with its address. -/
theorem UrisInStep.declareMembers {s' : Schema} : ∀ {ms : List (String × Value)} {s : Schema},
    s.UrisInStep → (s.entityNames ++ ms.map Prod.fst).Nodup → s.declareMembers ms = .ok s' →
      s'.UrisInStep
  | [], s, hs, _, h => by
      obtain rfl := Except.ok.inj h
      exact hs
  | (name, value) :: ms, s, hs, hnodup, h => by
      rw [Schema.declareMembers] at h
      split_ifs at h with hname
      · refine hs.declareMembers (hnodup.sublist ?_) h
        exact .append (.refl _) (.cons _ (.refl _))
      · rcases hvalue : Entity.ofValue name value with err | e <;> rw [hvalue] at h
        · cases h
        · have hnew : name ∉ s.entityNames := fun hmem =>
            (List.nodup_append.mp hnodup).2.2 name hmem name List.mem_cons_self rfl
          have hnames : (s.addEntity name e).entityNames = s.entityNames ++ [name] :=
            (Table.keys_insert s.entities name e).trans (if_neg hnew)
          refine (hs.addEntity hnew e).declareMembers ?_ h
          rwa [hnames, List.append_assoc]

theorem urisInStep_of_declare {raw : Record} (h : declare raw = .ok s) : s.UrisInStep :=
  have hempty : ({} : Schema).UrisInStep := fun _ => rfl
  hempty.declareMembers raw.nodup h

/-! ## Inverse fields -/

@[simp] theorem typeUri?_answer (s : Schema) (q : BackrefRequest) (name : String) :
    (s.answer q).typeUri? name = s.typeUri? name := by
  rw [typeUri?, entity?_answer, typeUri?]
  split
  · rw [Option.bind_map]
    rfl
  · rfl

theorem UrisInStep.withInverses (h : s.UrisInStep) (hs : s.OwnNames) (hnamed : s.BackrefsNamed) :
    s.withInverses.UrisInStep := by
  rw [withInverses_eq_foldl hs hnamed]
  exact List.foldlRecOn (motive := UrisInStep) _ _ h fun t ht q _ name =>
    (ht name).trans (typeUri?_answer t q name).symm

/-! ## Built-in entities -/

/-- A built-in entity has no address, and other entities keep theirs. -/
theorem typeUri?_withSystemEntities (s : Schema) (name : String) :
    s.withSystemEntities.typeUri? name =
      if isSystemEntity name then none else s.typeUri? name := by
  have hentities : s.withSystemEntities.entities = systemDefinitions.foldl
      (fun t p => t.insert p.1 (Entity.ofDefinitions p.1 p.2)) s.entities := rfl
  have hsystem : isSystemEntity name ↔ name ∈ systemDefinitions.map Prod.fst := by
    simp [isSystemEntity]
  rw [typeUri?, entity?, hentities]
  split_ifs with hname
  · obtain ⟨p, hp, rfl⟩ := List.mem_map.mp (hsystem.mp hname)
    rw [Table.get?_foldl_insert_of_nodup (by decide) p hp]
    rfl
  · rw [Table.get?_foldl_insert_of_notMem fun hmem => hname (hsystem.mpr hmem)]
    rfl

/-- **The addresses of an assembled schema are in step with its entities**, and they stay so with
the built-in entities exactly if none of these replaces an entity that has an address: the table
stays as it is, while the replaced entity loses its address. -/
theorem urisInStep_assemble {raw : Record} {check : Bool} (h : assemble raw check = .ok s) :
    s.UrisInStep ∧ s.withSystemEntities.typeUris = s.typeUris ∧
      (∀ name, s.withSystemEntities.typeUri? name =
        if isSystemEntity name then none else s.typeUri? name) ∧
      (s.withSystemEntities.UrisInStep ↔ ∀ name, isSystemEntity name → s.typeUri? name = none) := by
  obtain ⟨written, hwritten, -, rfl⟩ := assemble_eq_ok_iff.mp h
  have hstep := (urisInStep_of_declare hwritten).withInverses (ownNames_of_declare hwritten)
    (backrefsNamed_of_declare hwritten)
  refine ⟨hstep, rfl, typeUri?_withSystemEntities _, forall_congr' fun name => ?_⟩
  have htable : written.withInverses.withSystemEntities.typeUris.get? name = _ := hstep name
  rw [htable, typeUri?_withSystemEntities]
  by_cases hname : isSystemEntity name
  · rw [if_pos hname, imp_iff_right hname]
  · rw [if_neg hname]
    exact ⟨fun _ h => absurd h hname, fun _ => rfl⟩

/-- A list of nouns with an address of its own, beside posts with one and tags without. -/
def glossary : Record :=
  ⟨[("Noun", .text "urn:noun"),
    ("Post", .map [("tags", .text "->Tag.posts[]"), ("$type", .text "urn:post")]),
    ("Tag", .map [("$type", .number (.int 1))])], by decide⟩

theorem urisInStep_assemble_glossary : ∃ s, assemble glossary = .ok s ∧ s.UrisInStep ∧
    s.typeUris.entries = [("Noun", "urn:noun"), ("Post", "urn:post")] ∧
    ¬ s.withSystemEntities.UrisInStep := by
  obtain ⟨s, hs, huris⟩ := exists_ok_of_any (x := assemble glossary)
    (p := fun s => decide (s.typeUris.entries = [("Noun", "urn:noun"), ("Post", "urn:post")]))
    (by decide +kernel)
  have huris := of_decide_eq_true huris
  obtain ⟨hstep, -, -, hsystem⟩ := urisInStep_assemble hs
  refine ⟨s, hs, hstep, huris, fun h => ?_⟩
  have hnoun : s.typeUris.get? "Noun" = some "urn:noun" := by
    rw [Table.get?, huris]
    rfl
  exact absurd (hnoun.symm.trans ((hstep "Noun").trans (hsystem.mp h "Noun" rfl))) (by simp)

end EntitySchema.Schema
