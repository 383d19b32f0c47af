import EntitySchema.Proofs.Table
import EntitySchema.Proofs.Text.Search
import EntitySchema.Resolve.Pending

/-!
# Proofs/Resolve/Pending — what a payload carries, at every depth

    payload
    ├─ _pending_x   {type, data}        carried for x: an entity with a payload of its own
    │                └─ _pending_y …    carried for y inside x: at the path [x, y]
    └─ name …

An entity that a payload carries is named by the fields that lead to it (`within?`).  It is known if
its type is, and so are the types of all entities around it.  What is created for a payload is a
list of such entities, in the order of their creation (`Fulfils`).
-/

namespace EntitySchema

/-- The members of a payload. -/
def Value.record : Value → Record
  | .map ms => .ofList ms
  | _ => .empty

namespace Resolve

/-! ## Pending keys -/

@[simp] theorem pendingField?_eq_some_iff {key field : String} :
    pendingField? key = some field ↔ key = pendingLead ++ field := by
  rw [pendingField?, Option.map_eq_some_iff]
  constructor
  · rintro ⟨rest, hrest, rfl⟩
    have htext : key.toList = pendingLead.toList ++ rest := by simpa using hrest
    rw [← String.toList_inj, htext, String.toList_append, String.toList_ofList]
  · rintro rfl
    exact ⟨field.toList, Text.dropLead?_eq_some_iff.mpr String.toList_append, String.ofList_toList⟩

theorem ne_of_pendingField?_eq_none {key field : String} (h : pendingField? key = none) :
    key ≠ pendingLead ++ field :=
  fun heq => nomatch h.symm.trans (pendingField?_eq_some_iff.mpr heq)

/-! ## Entities that are carried -/

/-- An entity that a payload carries. -/
structure Carried where
  /-- The name of its type. -/
  type : String
  /-- Its type. -/
  entity : Entity
  /-- Its own payload. -/
  payload : Value

/-- The entity in a pending value, if its type is known. -/
def carriedBy? (s : Schema) : Value → Option Carried
  | .map ms =>
      match (Pairs.find? "type" ms).getD (.text "") with
      | .text type => (s.entity? type).map fun entity =>
          { type, entity, payload := orEmpty ((Pairs.find? "data" ms).getD .null) }
      | _ => none
  | _ => none

theorem carriedBy?_map_of_text {s : Schema} {object : List (String × Value)} {name : String}
    (h : (Pairs.find? "type" object).getD (.text "") = .text name) :
    carriedBy? s (.map object) = (s.entity? name).map fun entity =>
      ⟨name, entity, orEmpty ((Pairs.find? "data" object).getD .null)⟩ := by
  rw [carriedBy?, h]

theorem carriedBy?_map_of_ne {s : Schema} {object : List (String × Value)}
    (h : ∀ name, (Pairs.find? "type" object).getD (.text "") ≠ .text name) :
    carriedBy? s (.map object) = none := by
  rw [carriedBy?]
  split
  next name heq => exact absurd heq (h name)
  next => rfl

/-- The entity that a payload carries for a field. -/
def carried? (s : Schema) (payload : Value) (field : String) : Option Carried :=
  (payload.record.get? (pendingLead ++ field)).bind (carriedBy? s)

/-- The entity inside another one that the fields lead to, from the outermost to the innermost. -/
def within? (s : Schema) : Carried → List String → Option Carried
  | c, [] => some c
  | c, field :: path => (carried? s c.payload field).bind (within? s · path)

/-- Payloads whose pending objects, at every depth, have texts as types and objects as data, or no
data at all, and whose keys begin with the lead of pending keys once at most. -/
inductive Orderly : Value → Prop
  | map {ms : List (String × Value)}
      (once : ∀ key value field, (key, value) ∈ ms → pendingField? key = some field →
        pendingField? field = none)
      (typed : ∀ key object, (key, .map object) ∈ ms → pendingField? key ≠ none →
        ∃ type, (Pairs.find? "type" object).getD (.text "") = .text type)
      (inner : ∀ key object, (key, .map object) ∈ ms → pendingField? key ≠ none →
        (Pairs.find? "data" object).getD .null ≠ .null →
          Orderly ((Pairs.find? "data" object).getD .null)) :
      Orderly (.map ms)

theorem orderly_empty : Orderly (.map []) :=
  .map (fun _ _ _ h => nomatch h) (fun _ _ h => nomatch h) fun _ _ h => nomatch h

/-- **A member more.** -/
theorem Orderly.cons {ms : List (String × Value)} {key : String} {v : Value}
    (h : Orderly (.map ms))
    (once : ∀ field, pendingField? key = some field → pendingField? field = none)
    (typed : ∀ object, v = .map object → pendingField? key ≠ none →
      ∃ type, (Pairs.find? "type" object).getD (.text "") = .text type)
    (inner : ∀ object, v = .map object → pendingField? key ≠ none →
      (Pairs.find? "data" object).getD .null ≠ .null →
        Orderly ((Pairs.find? "data" object).getD .null)) :
    Orderly (.map ((key, v) :: ms)) := by
  cases h with
  | map once' typed' inner' =>
    refine .map (fun k w field hmem => ?_) (fun k object hmem => ?_) fun k object hmem => ?_
    · obtain heq | hmem := List.mem_cons.mp hmem
      · rw [(Prod.mk.inj heq).1]
        exact once field
      · exact once' k w field hmem
    · obtain heq | hmem := List.mem_cons.mp hmem
      · rw [(Prod.mk.inj heq).1]
        exact typed object (Prod.mk.inj heq).2.symm
      · exact typed' k object hmem
    · obtain heq | hmem := List.mem_cons.mp hmem
      · rw [(Prod.mk.inj heq).1]
        exact inner object (Prod.mk.inj heq).2.symm
      · exact inner' k object hmem

/-- A member that is not pending may have any value. -/
theorem Orderly.cons_plain {ms : List (String × Value)} {key : String} {v : Value}
    (h : Orderly (.map ms)) (hkey : pendingField? key = none) : Orderly (.map ((key, v) :: ms)) :=
  h.cons (fun _ hfield => nomatch hkey.symm.trans hfield) (fun _ _ hpending => absurd hkey hpending)
    fun _ _ hpending => absurd hkey hpending

theorem Orderly.cons_object {ms object : List (String × Value)} {key : String}
    (h : Orderly (.map ms)) (hkey : (pendingField? key).bind pendingField? = none)
    (htype : ∃ type, (Pairs.find? "type" object).getD (.text "") = .text type)
    (hdata : (Pairs.find? "data" object).getD .null ≠ .null →
      Orderly ((Pairs.find? "data" object).getD .null)) :
    Orderly (.map ((key, .map object) :: ms)) := by
  refine h.cons (fun field hfield => ?_) (fun _ heq _ => ?_) fun _ heq _ => ?_
  · rwa [hfield] at hkey
  · obtain rfl := Value.map.inj heq
    exact htype
  · obtain rfl := Value.map.inj heq
    exact hdata

theorem Orderly.recordOf_eq {payload : Value} (h : Orderly payload) :
    recordOf payload = .ok payload.record := by
  cases h
  rfl

/-- What the fields of an orderly payload are called is not pending itself. -/
theorem Orderly.plain {payload : Value} (h : Orderly payload) :
    ∀ field ∈ payload.record.keys.filterMap pendingField?, pendingField? field = none := by
  intro field hfield
  obtain ⟨key, hkey, hpending⟩ := List.mem_filterMap.mp hfield
  obtain ⟨⟨_, v⟩, hmem, rfl⟩ := List.mem_map.mp hkey
  cases h with
  | map once _ _ => exact once _ v field (Table.mem_of_mem_ofList hmem) hpending

/-- A member of a payload is less deep than the payload. -/
theorem depth_lt_of_mem {key : String} {v : Value} {ms : List (String × Value)}
    (h : (key, v) ∈ ms) : v.depth < (Value.map ms).depth := by
  rw [Value.depth, Nat.lt_succ_iff]
  induction ms with
  | nil => exact absurd h List.not_mem_nil
  | cons p ms ih =>
    obtain ⟨k, w⟩ := p
    rw [Value.depthMembers]
    obtain heq | h := List.mem_cons.mp h
    · rw [(Prod.mk.inj heq).2]
      exact Nat.le_max_left ..
    · exact (ih h).trans (Nat.le_max_right ..)

/-- The data of a pending object, filled or not, is less deep than the object. -/
theorem depth_orEmpty_le {object : List (String × Value)} :
    (orEmpty ((Pairs.find? "data" object).getD .null)).depth ≤ (Value.map object).depth := by
  rw [orEmpty]
  split
  · cases hdata : Pairs.find? "data" object with
    | none => exact Nat.zero_le _
    | some data => exact (depth_lt_of_mem (Pairs.mem_of_find?_eq_some hdata)).le
  · rw [Value.depth, Value.depth]
    exact Nat.succ_le_succ (Nat.zero_le _)

/-- **What an orderly payload carries has an orderly payload**, and one that is less deep. -/
theorem Orderly.carried {s : Schema} {payload : Value} {field : String} {c : Carried}
    (h : Orderly payload) (hc : carried? s payload field = some c) :
    Orderly c.payload ∧ c.payload.depth < payload.depth := by
  obtain ⟨v, hv, hc⟩ := Option.bind_eq_some_iff.mp hc
  cases h with
  | @map ms once typed inner =>
    have hmem : (pendingLead ++ field, v) ∈ ms :=
      Table.mem_of_mem_ofList (Table.get?_eq_some_iff.mp hv)
    have hpending : pendingField? (pendingLead ++ field) ≠ none := by
      rw [pendingField?_eq_some_iff.mpr rfl]
      exact Option.some_ne_none field
    cases v with
    | map object =>
      obtain ⟨type, htype⟩ := typed _ object hmem hpending
      rw [carriedBy?_map_of_text htype] at hc
      obtain ⟨e, -, rfl⟩ := Option.map_eq_some_iff.mp hc
      refine ⟨?_, depth_orEmpty_le.trans_lt (depth_lt_of_mem hmem)⟩
      rw [orEmpty]
      split_ifs with hfilled
      · refine inner _ object hmem hpending fun hnull => ?_
        rw [hnull] at hfilled
        exact Bool.false_ne_true hfilled
      · exact orderly_empty
    | _ => cases hc

/-! ## Creations -/

/-- An entity that was created for a payload. -/
structure Creation where
  /-- The fields that lead to it. -/
  path : List String
  /-- What the payload carried there. -/
  carried : Carried
  /-- The record it was created from. -/
  data : Record
  /-- The id it was given. -/
  id : Value

namespace Creation

/-- The call that creates the entity. -/
def call (m : Creation) : Call := .create m.carried.type m.data

/-- The creation as seen from around the entity that is carried for a field. -/
def inside (field : String) (m : Creation) : Creation := { m with path := field :: m.path }

end Creation

/-- The ids are those that the store has given, from the calls before. -/
def Answered (b : Backend) : List Call → List Creation → Prop
  | _, [] => True
  | log, m :: ms =>
      (∃ created, b.create log m.carried.type m.data = .ok created ∧
        created.get? Match.idKey = some m.id) ∧ Answered b (log ++ [m.call]) ms

@[simp] theorem answered_append {b : Backend} {ms ns : List Creation} {log : List Call} :
    Answered b log (ms ++ ns) ↔
      Answered b log ms ∧ Answered b (log ++ ms.map Creation.call) ns := by
  induction ms generalizing log with
  | nil => simp [Answered]
  | cons m ms ih => simp [Answered, ih, and_assoc]

@[simp] theorem answered_inside {b : Backend} {field : String} {ms : List Creation}
    {log : List Call} :
    Answered b log (ms.map (.inside field)) ↔ Answered b log ms := by
  induction ms generalizing log with
  | nil => rfl
  | cons m ms ih => rw [List.map_cons, Answered, ih]; rfl

/-- The value of a field that links to an entity: a list of one id for an array field. -/
def linkTo (e : Entity) (field : String) (id : Value) : Value :=
  if (e.fields.get? field).any (·.modifiers.array) then .list [id] else id

/-- What a payload has become once all that it carries is created. -/
structure Completes (made : List Creation) (path : List String) (c : Carried) (data : Record) :
    Prop where
  /-- Nothing is pending any more. -/
  settled : ∀ key, pendingField? key ≠ none → data.get? key = none
  /-- The fields of the entities it carried link to them. -/
  linked : ∀ m ∈ made, ∀ field, m.path = path ++ [field] →
    data.get? field = some (linkTo c.entity field m.id)
  /-- All other members are kept. -/
  kept : ∀ key, pendingField? key = none → (∀ m ∈ made, m.path ≠ path ++ [key]) →
    data.get? key = c.payload.record.get? key

/-- What is created for a payload, in order, and the record that it becomes. -/
structure Fulfils (s : Schema) (root : Carried) (made : List Creation) (data : Record) : Prop where
  /-- Nothing is created twice. -/
  once : (made.map (·.path)).Nodup
  /-- Every known entity that the payload carries is created, and nothing else is. -/
  all : ∀ path c, (∃ m ∈ made, m.path = path ∧ m.carried = c) ↔
    path ≠ [] ∧ within? s root path = some c
  /-- What is created later lies not within what was created before. -/
  inner_first : made.Pairwise fun m later => ¬ m.path <+: later.path
  /-- The payload becomes the record. -/
  whole : Completes made [] root data
  /-- The payloads of what is created become what they were created from. -/
  parts : ∀ m ∈ made, Completes made m.path m.carried m.data

end Resolve

end EntitySchema
