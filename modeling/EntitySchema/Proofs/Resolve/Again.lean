import EntitySchema.Proofs.Resolve.Frame
import EntitySchema.Proofs.Resolve.Reuse

/-!
# Proofs/Resolve/Again — forward resolution of what it has resolved

    data ──forward──▸ data', calls        data' ──forward──▸ data', no calls

Every way out of the turn of a field leaves it set: what is reused and what is created has an id, an
array is set to a list even if it is empty, and the rest was given (`FieldStep.isSet`).  Later turns
do not unset it, whatever their marks are called.  So a second run takes the branch of what is set
for every field, and all that is left to do is to relate what the arrays hold (`forward_again`).
-/

namespace EntitySchema.Resolve

open Session

/-- Whatever the store finds or creates has an id other than null. -/
structure Backend.NeverNull (b : Backend) : Prop where
  /-- What is found. -/
  found : ∀ find log type query least limit ms, b.search? = some find →
    find log type query least limit = .ok ms → ∀ m ∈ ms, m.get? Match.idKey ≠ some .null
  /-- What is created. -/
  created : b.Identifies

theorem Backend.NeverNull.searchFor {b : Backend} (h : b.NeverNull) {log log' : List Call}
    {type query : String} {least : Number} {limit : Int} {ms : List Match}
    (hsearch : (b.searchFor type query least limit).Returns log ms log') :
    ∀ m ∈ ms, m.get? Match.idKey ≠ some .null := by
  obtain ⟨-, rfl, -⟩ | ⟨find, hfind, hms, -⟩ := Backend.searchFor_cases hsearch
  · exact List.forall_mem_nil _
  · exact h.found find log type query least limit ms hfind hms

/-- The types that the forward fuzzy fields of the entity relate to are in the schema. -/
def RelatesWithin (schema : Schema) (e : Entity) : Prop :=
  ∀ p ∈ e.fields.entries, p.2.operator? = some .forwardFuzzy →
    ∀ type ∈ p.2.relatedType?, schema.hasEntity type = true

instance (schema : Schema) (e : Entity) : Decidable (RelatesWithin schema e) :=
  inferInstanceAs (Decidable (∀ p ∈ e.fields.entries, _ → _))

/-- The relations to what an array that is filled by reuse or generation holds: one for each item of
a list, in order, and none with a similarity. -/
def heldRelations (data : Record) (p : String × Field) : List Pending :=
  match p.2.relatedType?, data.get? p.1 with
  | some type, some (.list ids) =>
      if LinksMany p.2 then ids.map fun id => ⟨p.1, type, id, none⟩ else []
  | _, _ => []

namespace Setting

variable {st : Setting} {default : Number} {key : String} {f : Field} {r r' : Forward}
  {log log' : List Call} {fields : List (String × Field)}

/-! ## Every field is set -/

theorem Fills.isSet {rel : Relation} {t : Number} (hids : st.backend.NeverNull)
    (hknown : st.schema.hasEntity rel.relatedType = true)
    (h : st.Fills key f rel t r log r' log') : isSet r'.data key = true := by
  cases h with
  | listed => exact isSet_insert nofun (.inl rfl)
  | @reused _ _ id _ _ searched chosen =>
    obtain ⟨m, hm, hgives, -⟩ := exists_of_best chosen
    have hid : id ≠ .null := fun hnull => hids.searchFor searched m hm (hnull ▸ hgives.1)
    exact isSet_iff.mpr ⟨id, get?_insert_marks .., hid⟩
  | generated _ _ _ generates =>
    obtain ⟨rfl, hunknown⟩ | ⟨id, rfl, hnull, -⟩ := generates.cases_pending hids.created
    · rw [Schema.hasEntity, Table.contains_iff] at hknown
      exact absurd hknown (Table.get?_eq_none_iff.mp hunknown)
    · rw [Forward.addGenerated, if_neg hnull]
      exact isSet_insert hnull (.inl rfl)

/-- **A field is set after its turn.** -/
theorem FieldStep.isSet (hids : st.backend.NeverNull)
    (hknown : ∀ type ∈ f.relatedType?, st.schema.hasEntity type = true)
    (hfuzzy : f.operator? = some .forwardFuzzy) (h : st.FieldStep default key f r log r' log') :
    isSet r'.data key = true := by
  cases h with
  | idle other => exact absurd hfuzzy other
  | kept _ _ set => exact set
  | filled relation _ _ fills =>
    exact fills.isSet hids (hknown _ (Field.relatedType?_of_relation? relation))

/-- **All fields are set after their turns.**  The induction is on the fields; what the turn of the
first has set stays set in the turns of the others. -/
theorem isSet_of_forwardFields (hids : st.backend.NeverNull)
    (hknown : ∀ p ∈ fields, p.2.operator? = some .forwardFuzzy →
      ∀ type ∈ p.2.relatedType?, st.schema.hasEntity type = true)
    (h : (st.forwardFields default r fields).Returns log r' log') :
    ∀ p ∈ fields, p.2.operator? = some .forwardFuzzy → isSet r'.data p.1 = true := by
  induction fields generalizing r log with
  | nil => exact List.forall_mem_nil _
  | cons p fields ih =>
    obtain ⟨r₁, between, hfield, hfields⟩ := returns_bind_iff.mp h
    obtain ⟨hp, hknown⟩ := List.forall_mem_cons.mp hknown
    refine List.forall_mem_cons.mpr ⟨fun hfuzzy => ?_, ih hknown hfields⟩
    have hturn := (fieldStep_of_returns hfield).isSet hids (hp hfuzzy) hfuzzy
    exact (forwardFields_grown hfields).set p.1 hturn

/-! ## The second run -/

theorem heldRelations_of_operator_ne {data : Record} (h : f.operator? ≠ some .forwardFuzzy) :
    heldRelations data (key, f) = [] := by
  rw [heldRelations.eq_def]
  split
  · exact if_neg fun hmany => h hmany.1
  · rfl

theorem heldRelations_of_relation? {data : Record} {rel : Relation}
    (hrel : f.relation? = some rel) (hfuzzy : f.operator? = some .forwardFuzzy) :
    heldRelations data (key, f) =
      if f.modifiers.array then keptRelations key rel.relatedType (data.get? key) else [] := by
  rw [heldRelations.eq_def, keptRelations.eq_def, Field.relatedType?_of_relation? hrel]
  cases data.get? key with
  | none => exact (ite_self _).symm
  | some v =>
    cases v with
    | list ids => simp only [LinksMany, hfuzzy, true_and]
    | _ => exact (ite_self _).symm

/-- **The turn of a field that is set** makes no call. -/
theorem forwardField_of_isSet (hset : f.operator? = some .forwardFuzzy → isSet r.data key = true) :
    st.forwardField default r key f =
      pure ⟨r.data, r.pending ++ heldRelations r.data (key, f)⟩ := by
  by_cases hfuzzy : f.operator? = some .forwardFuzzy
  · obtain ⟨rel, hrel, hoperator⟩ := Option.bind_eq_some_iff.mp hfuzzy
    rw [heldRelations_of_relation? hrel hfuzzy, forwardField, hrel]
    dsimp only
    rw [if_neg (not_not_intro hoperator), if_pos (hset hfuzzy)]
  · rw [heldRelations_of_operator_ne hfuzzy, List.append_nil]
    exact forwardField_of_operator_ne st default r key hfuzzy

/-- **The turns of fields that are set** make no calls. -/
theorem forwardFields_of_isSet
    (hset : ∀ p ∈ fields, p.2.operator? = some .forwardFuzzy → isSet r.data p.1 = true) :
    st.forwardFields default r fields =
      pure ⟨r.data, r.pending ++ fields.flatMap (heldRelations r.data)⟩ := by
  induction fields generalizing r with
  | nil => rw [forwardFields, List.flatMap_nil, List.append_nil]
  | cons p fields ih =>
    obtain ⟨hp, hset⟩ := List.forall_mem_cons.mp hset
    rw [forwardFields, forwardField_of_isSet hp, pure_bind, List.flatMap_cons, ← List.append_assoc]
    exact ih hset

/-- The setting of a second run, on the data that the first came to. -/
def again (st : Setting) (data : Record) : Setting :=
  { st with context := { st.context with parentData := data } }

end Setting

/-- **Forward resolution can be run again.**  All types that forward fuzzy fields relate to are in
the schema, and no id is null.  If a run returns, then on its data a second run makes no call,
whatever was called before; it leaves the data as it is, and the relations it yields are those to
what the arrays hold. -/
theorem forward_again {st : Setting} {e : Entity} (hknown : RelatesWithin st.schema e)
    (hids : st.backend.NeverNull) {r : Forward} {log log' : List Call}
    (h : (forward st e).Returns log r log') (later : List Call) :
    (forward (st.again r.data) e).Returns later
      ⟨r.data, e.fields.entries.flatMap (heldRelations r.data)⟩ later := by
  have hset := Setting.isSet_of_forwardFields hids hknown h
  rw [forward,
    Setting.forwardFields_of_isSet (r := ⟨(st.again r.data).context.parentData, []⟩) hset]
  exact returns_pure_iff.mpr ⟨rfl, rfl⟩

theorem forward_again_shelf : ∃ r log,
    (forward (.of finder tagged shelved) (shelf "Topic")).Returns [] r log ∧
      r.data.get? "tags" = some (.list [.text "first", .text "Tag4"]) ∧
      RelatesWithin tagged (shelf "Topic") ∧ finder.NeverNull ∧
      (forward ((Setting.of finder tagged shelved).again r.data) (shelf "Topic")).Returns log
        ⟨r.data, [⟨"tags", "Tag", .text "first", none⟩, ⟨"tags", "Tag", .text "Tag4", none⟩,
          ⟨"topics", "Topic", .text "first", none⟩]⟩ log := by
  have hknown : RelatesWithin tagged (shelf "Topic") := by decide +kernel
  have hids : finder.NeverNull := by
    constructor
    case found =>
      rintro find log type query least limit ms ⟨⟩ ⟨⟩
      exact List.forall_mem_singleton.mpr (by decide +kernel)
    case created =>
      rintro log type data created ⟨⟩
      rw [Match.idKey, Table.get?_insert_self]
      exact nofun
  have hrun : (forward (.of finder tagged shelved) (shelf "Topic") []).1.toOption.any fun r =>
      decide (r.data.get? "tags" = some (.list [.text "first", .text "Tag4"]) ∧
        (shelf "Topic").fields.entries.flatMap (heldRelations r.data) =
          [⟨"tags", "Tag", .text "first", none⟩, ⟨"tags", "Tag", .text "Tag4", none⟩,
            ⟨"topics", "Topic", .text "first", none⟩]) := by decide +kernel
  obtain ⟨r, log, hreturns, hr⟩ := exists_returns_of_any hrun
  obtain ⟨htags, hheld⟩ := of_decide_eq_true hr
  have hagain := forward_again hknown hids hreturns log
  rw [hheld] at hagain
  exact ⟨r, log, hreturns, htags, hknown, hids, hagain⟩

end EntitySchema.Resolve
