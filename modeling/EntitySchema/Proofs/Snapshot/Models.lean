import EntitySchema.Proofs.Value.Storable
import EntitySchema.Standard
import Mathlib.Data.List.Basic

/-!
# Proofs/Snapshot/Models — what is known of a library for the models

    a model ──dump──▸ its members under their names ──read?──▸ the model

A library *follows* the members of a model if it dumps them under their names, in order, and reads
the model from every mapping that has content for each of them (`Codec.Follows`).  No more is known
of it, and only of models without doubles that are not finite (`Models.Documented`).  Whatever
survives member by member then survives as a whole (`Codec.Follows.keeps`), from shapes up to
schemas (`Models.Documented.keeps_schema`).  The library of the program is of this kind
(`Models.standard_documented`).
-/

namespace EntitySchema

namespace Codec

variable {α : Type}

/-- What is known of dumping and reading the model `a`. -/
structure Follows (c : Codec α) (members : α → List Member) (a : α) : Prop where
  /-- The model is dumped as its members, in order. -/
  dump : c.dump a = .map ((members a).map (·.entry))
  /-- The model is read from every mapping with content for its members, whatever else is there. -/
  read : ∀ ms, (∀ m ∈ members a, ∃ v, Pairs.find? m.name ms = some v ∧ m.Reads v) →
    c.read? (.map ms) = some a

/-- The model `a` is read from what it is dumped as, which a text can hold. -/
structure Keeps (c : Codec α) (a : α) : Prop where
  /-- The model is read back. -/
  read : c.read? (c.dump a) = some a
  /-- The mappings have distinct keys. -/
  distinct : (c.dump a).Distinct

end Codec

/-- What is documented of a library for the models: on models that a snapshot keeps, it follows
their members. -/
structure Models.Documented (M : Models) : Prop where
  /-- Shapes. -/
  shape : ∀ s : Shape, s.Storable → M.shape.Follows Shape.members s
  /-- Fields. -/
  field : ∀ f : Field, f.Storable → M.field.Follows (Field.members M.shape) f
  /-- Entities. -/
  entity : ∀ e : Entity, e.Storable → M.entity.Follows (Entity.members M.field) e
  /-- Schemas. -/
  schema : ∀ s : Schema, s.Storable → M.schema.Follows (Schema.members M.entity) s

/-! ## Data -/

namespace Value

@[simp] theorem distinct_text (s : String) : (text s).Distinct := trivial

@[simp] theorem distinct_bool (b : Bool) : (bool b).Distinct := trivial

@[simp] theorem distinct_ofText? (o : Option String) : (ofText? o).Distinct := by
  cases o <;> trivial

@[simp] theorem distinct_ofInt? (o : Option Int) : (ofInt? o).Distinct := by
  cases o <;> trivial

theorem distinctList_texts (ts : List String) : DistinctList (ts.map text) := by
  induction ts with
  | nil => trivial
  | cons t ts ih => exact ⟨trivial, ih⟩

/-- The values of a table keep its keys. -/
theorem distinct_table {α : Type} {write : α → Value} (t : Table String α)
    (h : ∀ p ∈ t.entries, (write p.2).Distinct) :
    (map (t.entries.map fun p => (p.1, write p.2))).Distinct := by
  refine ⟨by simpa [Function.comp_def] using t.nodup, distinctMembers_iff.mpr fun q hq => ?_⟩
  obtain ⟨p, hp, rfl⟩ := List.mem_map.mp hq
  exact h p hp

theorem distinct_stored {r : Record} (h : r.Storable) : (ofRecord r).stored.Distinct := by
  rw [stored_of_finite h.value.finite]
  exact h.value.distinct

@[simp] theorem isShort_map (ms : List (String × Value)) :
    (map ms).isShort = ms.all fun p => p.2.isShort := by
  change allNumbersMembers Number.isShort ms = _
  induction ms with
  | nil => rfl
  | cons p ms ih => rw [allNumbersMembers, List.all_cons, ih]; rfl

@[simp] theorem isShort_list (xs : List Value) : (list xs).isShort = xs.all (·.isShort) := by
  change allNumbersList Number.isShort xs = _
  induction xs with
  | nil => rfl
  | cons x xs ih => rw [allNumbersList, List.all_cons, ih]; rfl

@[simp] theorem isShort_number (n : Number) : (number n).isShort = n.isShort := rfl

@[simp] theorem isShort_text (s : String) : (text s).isShort = true := rfl

@[simp] theorem isShort_bool (b : Bool) : (bool b).isShort = true := rfl

@[simp] theorem isShort_ofText? (o : Option String) : (ofText? o).isShort = true := by
  cases o <;> rfl

@[simp] theorem isShort_ofInt? (o : Option Int) :
    (ofInt? o).isShort = o.all fun z => (Number.int z).isShort := by
  cases o <;> rfl

@[simp] theorem isShort_ofTexts (t : Table String String) : (ofTexts t).isShort = true := by
  simp [ofTexts]

end Value

/-! ## Members -/

namespace Member

/-- A member is read from what it is dumped as, which a text can hold. -/
structure Survives (m : Member) : Prop where
  /-- The content is read back. -/
  reads : m.Reads m.data
  /-- The mappings in it have distinct keys. -/
  distinct : m.data.Distinct

/-- There is content for a plain member if its data stands under its name. -/
@[simp] theorem exists_reads_plain {name : String} {data : Value} {ms : List (String × Value)} :
    (∃ v, Pairs.find? name ms = some v ∧ (plain name data).Reads v) ↔
      Pairs.find? name ms = some data :=
  ⟨fun ⟨_, hfind, hread⟩ => hread ▸ hfind, fun hfind => ⟨data, hfind, rfl⟩⟩

@[simp] theorem survives_plain {name : String} {data : Value} :
    (plain name data).Survives ↔ data.Distinct := ⟨(·.distinct), fun h => ⟨rfl, h⟩⟩

variable {α : Type} {c : Codec α}

theorem survives_model (name : String) {a : α} (h : c.Keeps a) : (model name c a).Survives :=
  ⟨h.read, h.distinct⟩

/-- The models in a table are short if what they stand for is. -/
theorem isShort_models (name : String) {t : Table String α} {short : α → Bool}
    (h : ∀ p ∈ t.entries, (c.dump p.2).isShort = short p.2) :
    (models name c t).data.isShort = t.values.all short := by
  rw [data_models, Value.isShort_map, Table.values, List.all_map, List.all_map, Bool.eq_iff_iff,
    List.all_eq_true, List.all_eq_true]
  exact forall₂_congr fun p hp => by rw [Function.comp_apply, Function.comp_apply, h p hp]

theorem survives_models (name : String) {t : Table String α}
    (h : ∀ p ∈ t.entries, c.Keeps p.2) : (models name c t).Survives where
  reads := by
    refine ⟨_, rfl, ?_⟩
    rw [List.map_map]
    exact List.map_congr_left fun p hp => congrArg (p.1, ·) (h p hp).read
  distinct := Value.distinct_table t fun p hp => (h p hp).distinct

end Member

namespace Codec

variable {α : Type} {c : Codec α} {members : α → List Member} {a : α}

/-- **A model survives if its members do**, under distinct names. -/
theorem Follows.keeps (h : c.Follows members a) (hnames : ((members a).map (·.name)).Nodup)
    (hmembers : ∀ m ∈ members a, m.Survives) : c.Keeps a where
  read := by
    rw [h.dump]
    refine h.read _ fun m hm => ⟨m.data, ?_, (hmembers m hm).reads⟩
    exact Pairs.find?_eq_some_of_mem (by simpa [Pairs.keys, Function.comp_def, Member.entry])
      (List.mem_map_of_mem hm)
  distinct := by
    rw [h.dump]
    refine ⟨by simpa [Function.comp_def, Member.entry],
      Value.distinctMembers_iff.mpr fun p hp => ?_⟩
    obtain ⟨m, hm, rfl⟩ := List.mem_map.mp hp
    exact (hmembers m hm).distinct

/-- A model is dumped with short numbers if its members are. -/
theorem Follows.isShort_dump (h : c.Follows members a) :
    (c.dump a).isShort = (members a).all (·.data.isShort) := by
  rw [h.dump, Value.isShort_map, List.all_map]
  rfl

end Codec

/-! ## Schemas -/

section Data

variable (r : Relation)

@[simp] theorem Value.distinct_threshold : ((r.threshold.map Value.float).getD .null).Distinct := by
  cases r.threshold <;> trivial

@[simp] theorem Value.distinct_unionTypes :
    ((r.unionTypes.map fun ts => .list (ts.map .text)).getD .null : Value).Distinct := by
  cases r.unionTypes with
  | none => trivial
  | some ts => exact Value.distinctList_texts ts

@[simp] theorem Value.isShort_threshold :
    ((r.threshold.map Value.float).getD .null).isShort = true := by
  cases r.threshold <;> rfl

@[simp] theorem Value.isShort_unionTypes :
    ((r.unionTypes.map fun ts => .list (ts.map .text)).getD .null : Value).isShort = true := by
  cases r.unionTypes with
  | none => rfl
  | some ts => simp

end Data

/-- Every member of a shape is plain data. -/
theorem Shape.survives_members (s : Shape) : ∀ m ∈ s.members, m.Survives := by
  cases s <;> simp [members]

namespace Models.Documented

variable {M : Models} (hM : M.Documented)

include hM

theorem keeps_shape {s : Shape} (hs : s.Storable) : M.shape.Keeps s :=
  (hM.shape s hs).keeps (by cases s <;> simp [Shape.members]) s.survives_members

theorem keeps_field {f : Field} (hf : f.Storable) : M.field.Keeps f := by
  refine (hM.field f hf).keeps (by simp [Field.members]) ?_
  simp [Field.members, Member.survives_model _ (hM.keeps_shape hf)]

theorem keeps_entity {e : Entity} (he : e.Storable) : M.entity.Keeps e := by
  refine (hM.entity e he).keeps (by simp [Entity.members]) ?_
  have hfields : (Member.models "fields" M.field e.fields).Survives :=
    Member.survives_models _ fun p hp => hM.keeps_field (he.fields p hp)
  simp [Entity.members, hfields, Value.distinct_stored he.definition,
    Value.distinct_stored he.directives]

/-- **A schema survives**, as far as a snapshot keeps it. -/
theorem keeps_schema {s : Schema} (hs : s.Storable) : M.schema.Keeps s := by
  refine (hM.schema s hs).keeps (by simp [Schema.members]) ?_
  have hentities : (Member.models "entities" M.entity s.entities).Survives :=
    Member.survives_models _ fun p hp => hM.keeps_entity (hs p hp)
  have huris : (Value.ofTexts s.typeUris).Distinct :=
    Value.distinct_table s.typeUris fun _ _ => trivial
  simp [Schema.members, hentities, huris]

theorem isShort_shape {s : Shape} (hs : s.Storable) : (M.shape.dump s).isShort = s.isShort := by
  rw [(hM.shape s hs).isShort_dump]
  cases s <;> simp [Shape.members, Shape.isShort]

theorem isShort_field {f : Field} (hf : f.Storable) :
    (M.field.dump f).isShort = f.shape.isShort := by
  rw [(hM.field f hf).isShort_dump]
  simp [Field.members, hM.isShort_shape hf]

theorem isShort_entity {e : Entity} (he : e.Storable) :
    (M.entity.dump e).isShort = e.isShort := by
  have hfields : (Member.models "fields" M.field e.fields).data.isShort
      = e.fields.values.all (·.shape.isShort) :=
    Member.isShort_models _ fun p hp => hM.isShort_field (he.fields p hp)
  rw [(hM.entity e he).isShort_dump]
  simp only [Entity.members, List.all_cons, hfields, Member.data_plain,
    Value.stored_of_finite he.definition.value.finite,
    Value.stored_of_finite he.directives.value.finite]
  simp [Entity.isShort, Bool.and_assoc]

/-- **A schema is dumped with short numbers if its own are short.** -/
theorem isShort_schema {s : Schema} (hs : s.Storable) :
    (M.schema.dump s).isShort = s.isShort := by
  have hentities : (Member.models "entities" M.entity s.entities).data.isShort = s.isShort :=
    Member.isShort_models _ fun p hp => hM.isShort_entity (hs p hp)
  rw [(hM.schema s hs).isShort_dump]
  simp only [Schema.members, List.all_cons, hentities]
  simp

end Models.Documented

/-! ## The library of the program -/

namespace Lenient

@[simp] theorem nullable_ofText? (o : Option String) : nullable text? (.ofText? o) = some o := by
  cases o <;> rfl

@[simp] theorem nullable_ofInt? (o : Option Int) : nullable int? (.ofInt? o) = some o := by
  cases o <;> rfl

@[simp] theorem nullable_operator? (o : Option Operator) :
    nullable operator? (.ofText? (o.map (·.symbol))) = some o := by
  rcases o with _ | _ | _ | _ | _ <;> rfl

@[simp] theorem nullable_float? (o : Option Binary64) :
    nullable float? ((o.map .float).getD .null) = some o := by
  cases o <;> rfl

@[simp] theorem texts?_map (ts : List String) : texts? (.list (ts.map .text)) = some ts := by
  rw [texts?]
  induction ts with
  | nil => rfl
  | cons t ts ih => rw [List.map_cons, List.mapM_cons, ih]; rfl

@[simp] theorem nullable_texts? (o : Option (List String)) :
    nullable texts? ((o.map fun ts => .list (ts.map .text)).getD .null) = some o := by
  cases o with
  | none => rfl
  | some ts => exact congrArg (Option.map some) (texts?_map ts)

/-- Members that are read one by one are read together. -/
theorem mapM_eq_some {α : Type} {read : Value → Option α} {ms : List (String × Value)}
    {ps : List (String × α)}
    (h : ms.map (fun m => (m.1, read m.2)) = ps.map fun p => (p.1, some p.2)) :
    ms.mapM (fun p : String × Value => (read p.2).map fun a => (p.1, a)) = some ps := by
  induction ms generalizing ps with
  | nil =>
    obtain rfl := List.map_eq_nil_iff.mp h.symm
    rfl
  | cons m ms ih =>
    obtain ⟨p, ps, rfl⟩ : ∃ p ps', ps = p :: ps' :=
      List.exists_cons_of_ne_nil fun hnil => by simp [hnil] at h
    obtain ⟨hm, hms⟩ := List.cons.inj h
    obtain ⟨hkey, hread⟩ := Prod.mk.inj hm
    rw [List.mapM_cons, hread, ih hms, hkey]
    rfl

/-- **A table is read entry by entry.** -/
theorem table?_eq_some {α : Type} {read : Value → Option α} {t : Table String α}
    {ms : List (String × Value)}
    (h : ms.map (fun m => (m.1, read m.2)) = t.entries.map fun p => (p.1, some p.2)) :
    table? read (.map ms) = some t := by
  rw [table?, mapM_eq_some h, Option.map_some, Table.ofList_entries]

@[simp] theorem table?_ofTexts (t : Table String String) : table? text? (.ofTexts t) = some t :=
  table?_eq_some (by simp [text?, Function.comp_def])

@[simp] theorem record?_ofRecord (r : Record) : record? (.ofRecord r) = some r := by
  rw [Value.ofRecord, record?, Table.ofList_entries]

theorem record?_stored {r : Record} (h : r.Storable) :
    record? (Value.ofRecord r).stored = some r := by
  simp [Value.stored_of_finite h.value.finite]

/-- A member that is there is read. -/
theorem member?_eq {α : Type} {ms : List (String × Value)} {key : String} {v : Value}
    (h : Pairs.find? key ms = some v) (read : Value → Option α) (absent : Option α) :
    member? (.map ms) key read absent = read v := by
  rw [member?, Value.member?, h]

end Lenient

namespace Models

open Lenient

theorem follows_standardShape (s : Shape) : standardShape.Follows Shape.members s where
  dump := rfl
  read ms h := by
    change shape? (.map ms) = some s
    cases s with
    | scalar =>
      simp only [Shape.members, List.forall_mem_cons, Member.name_plain,
        Member.exists_reads_plain] at h
      obtain ⟨hkind, -⟩ := h
      rw [shape?, member?_eq hkind]
      rfl
    | parametric p =>
      simp only [Shape.members, List.forall_mem_cons, Member.name_plain,
        Member.exists_reads_plain] at h
      obtain ⟨hkind, hprecision, hscale, hlength, -⟩ := h
      simp [shape?, parametric?, member?_eq hkind, member?_eq hprecision, member?_eq hscale,
        member?_eq hlength, text?]
    | generic g =>
      simp only [Shape.members, List.forall_mem_cons, Member.name_plain,
        Member.exists_reads_plain] at h
      obtain ⟨hkind, hkey, hvalue, helement, hstruct, henum, href, -⟩ := h
      simp [shape?, generic?, member?_eq hkind, member?_eq hkey, member?_eq hvalue,
        member?_eq helement, member?_eq hstruct, member?_eq henum, member?_eq href, text?]
    | relation r =>
      simp only [Shape.members, List.forall_mem_cons, Member.name_plain,
        Member.exists_reads_plain] at h
      obtain ⟨hkind, htype, hbackref, hoperator, hthreshold, htypes, hprompt, -⟩ := h
      simp [shape?, relation?, member?_eq hkind, member?_eq htype, member?_eq hbackref,
        member?_eq hoperator, member?_eq hthreshold, member?_eq htypes, member?_eq hprompt, text?]

theorem follows_standardField (f : Field) :
    standardField.Follows (Field.members standardShape) f where
  dump := rfl
  read ms h := by
    simp only [Field.members, List.forall_mem_cons, Member.name_plain, Member.exists_reads_plain,
      Member.name_model] at h
    obtain ⟨hname, htype, harray, hoptional, hrequired, hunique, hindexed, hshape, -⟩ := h
    obtain ⟨v, hshape, hreads⟩ := hshape
    change field? (.map ms) = some f
    have hread : shape? v = some f.shape := hreads
    simp [field?, member?_eq hname, member?_eq htype, member?_eq harray, member?_eq hoptional,
      member?_eq hrequired, member?_eq hunique, member?_eq hindexed, member?_eq hshape, hread,
      text?, bool?]

theorem follows_standardEntity {e : Entity} (he : e.Storable) :
    standardEntity.Follows (Entity.members standardField) e where
  dump := rfl
  read ms h := by
    simp only [Entity.members, List.forall_mem_cons, Member.name_plain, Member.exists_reads_plain,
      Member.name_models] at h
    obtain ⟨hname, ⟨_, hfields, fs, rfl, hreads⟩, hdefinition, huri, hdirectives, -⟩ := h
    change entity? (.map ms) = some e
    have hread : table? field? (.map fs) = some e.fields := table?_eq_some hreads
    simp [entity?, member?_eq hname, member?_eq hfields, member?_eq hdefinition, member?_eq huri,
      member?_eq hdirectives, hread, text?, record?_stored he.definition,
      record?_stored he.directives]

/-- **The library of the program does what is documented of it.** -/
theorem standard_documented : standard.Documented where
  shape s _ := follows_standardShape s
  field f _ := follows_standardField f
  entity _ he := follows_standardEntity he
  schema s _ :=
    { dump := rfl
      read := fun ms h => by
        simp only [Schema.members, List.forall_mem_cons, Member.name_plain,
          Member.exists_reads_plain, Member.name_models] at h
        obtain ⟨⟨_, hentities, es, rfl, hreads⟩, huris, -⟩ := h
        change schema? (.map ms) = some s
        have hread : table? entity? (.map es) = some s.entities := table?_eq_some hreads
        simp [schema?, member?_eq hentities, member?_eq huris, hread] }

end Models

end EntitySchema
