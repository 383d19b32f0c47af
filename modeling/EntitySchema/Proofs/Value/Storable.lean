import EntitySchema.Json.Writer
import EntitySchema.Proofs.Table
import EntitySchema.Snapshot.Models
import Mathlib.Data.List.Basic

/-!
# Proofs/Value/Storable — values and models that a snapshot keeps

A snapshot keeps a value as it is if its mappings have distinct keys and its doubles are finite, at
every depth (`Value.Storable`): JSON has one place for each key, and `Value.stored` turns the other
doubles into null (`stored_of_finite`).  Of a schema it keeps the free-form parts that are storable
and the thresholds that are finite; all else is typed (`Schema.Storable`).  What a snapshot would
keep, it can hold only if the whole numbers are short (`Schema.isShort`).
-/

namespace EntitySchema

namespace Value

mutual

/-- Every double in the value is finite. -/
def Finite : Value → Prop
  | .number (.float x) => x.isFinite = true
  | .list xs => FiniteList xs
  | .map ms => FiniteMembers ms
  | _ => True

/-- Every double in the values is finite. -/
def FiniteList : List Value → Prop
  | [] => True
  | x :: xs => x.Finite ∧ FiniteList xs

/-- Every double in the members is finite. -/
def FiniteMembers : List (String × Value) → Prop
  | [] => True
  | (_, x) :: ms => x.Finite ∧ FiniteMembers ms

end

mutual

/-- **A finite value is stored as it is.** -/
theorem stored_of_finite : ∀ {v : Value}, v.Finite → v.stored = v
  | .null, _ | .bool _, _ | .text _, _ | .number (.int _), _ => rfl
  | .number (.float _), h => if_pos h
  | .list _, h => congrArg Value.list (storedList_of_finite h)
  | .map _, h => congrArg Value.map (storedMembers_of_finite h)

theorem storedList_of_finite : ∀ {xs : List Value}, FiniteList xs → storedList xs = xs
  | [], _ => rfl
  | x :: xs, h => by rw [storedList, stored_of_finite h.1, storedList_of_finite h.2]

theorem storedMembers_of_finite : ∀ {ms : List (String × Value)},
    FiniteMembers ms → storedMembers ms = ms
  | [], _ => rfl
  | (k, x) :: ms, h => by rw [storedMembers, stored_of_finite h.1, storedMembers_of_finite h.2]

end

/-- A snapshot keeps the value as it is. -/
structure Storable (v : Value) : Prop where
  /-- Its mappings have distinct keys. -/
  distinct : v.Distinct
  /-- Its doubles are finite. -/
  finite : v.Finite

theorem distinctMembers_iff {ms : List (String × Value)} :
    DistinctMembers ms ↔ ∀ p ∈ ms, p.2.Distinct := by
  induction ms with
  | nil => simp [DistinctMembers]
  | cons p ms ih => simp [DistinctMembers, ih]

theorem finiteMembers_iff {ms : List (String × Value)} :
    FiniteMembers ms ↔ ∀ p ∈ ms, p.2.Finite := by
  induction ms with
  | nil => simp [FiniteMembers]
  | cons p ms ih => simp [FiniteMembers, ih]

end Value

/-- A snapshot keeps the record as it is. -/
def Record.Storable (r : Record) : Prop := ∀ p ∈ r.entries, p.2.Storable

/-- A snapshot keeps the shape as it is: its threshold is finite. -/
def Shape.Storable : Shape → Prop
  | .relation r => ∀ t, r.threshold = some t → t.isFinite
  | _ => True

/-- A snapshot keeps the field as it is. -/
def Field.Storable (f : Field) : Prop := f.shape.Storable

/-- A snapshot keeps the fields and the free-form parts of the entity as they are. -/
structure Entity.Storable (e : Entity) : Prop where
  /-- The fields. -/
  fields : ∀ p ∈ e.fields.entries, p.2.Storable
  /-- The declaring record. -/
  definition : e.definition.Storable
  /-- The settings. -/
  directives : e.directives.Storable

/-- A snapshot keeps every entity as it is. -/
def Schema.Storable (s : Schema) : Prop := ∀ p ∈ s.entities.entries, p.2.Storable

/-! ## Short whole numbers -/

/-- Whether the sizes in a shape are short. -/
def Shape.isShort : Shape → Bool
  | .parametric p =>
      [p.precision, p.scale, p.length].all fun size => size.all fun z => (Number.int z).isShort
  | _ => true

/-- Whether the whole numbers in an entity are short: sizes, and those in the free-form parts. -/
def Entity.isShort (e : Entity) : Bool :=
  e.fields.values.all (·.shape.isShort) && (Value.ofRecord e.definition).isShort
    && (Value.ofRecord e.directives).isShort

/-- Whether the whole numbers in a schema are short. -/
def Schema.isShort (s : Schema) : Bool := s.entities.values.all (·.isShort)

/-! ## Records -/

theorem Record.storable_empty : Record.Storable .empty := Table.forall_empty

theorem Record.storable_iff {r : Record} :
    r.Storable ↔ Value.DistinctMembers r.entries ∧ Value.FiniteMembers r.entries := by
  rw [Value.distinctMembers_iff, Value.finiteMembers_iff, ← forall₂_and]
  exact forall₂_congr fun p _ => ⟨fun h => ⟨h.distinct, h.finite⟩, fun h => ⟨h.1, h.2⟩⟩

theorem Record.Storable.value {r : Record} (h : r.Storable) : (Value.ofRecord r).Storable :=
  ⟨⟨r.nodup, (Record.storable_iff.mp h).1⟩, (Record.storable_iff.mp h).2⟩

/-- An entity with nothing but a name, and perhaps an address. -/
theorem Entity.storable_bare (name : String) (typeUri : Option String) :
    ({ name, typeUri } : Entity).Storable :=
  ⟨Table.forall_empty, Record.storable_empty, Record.storable_empty⟩

end EntitySchema
