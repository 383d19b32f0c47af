import EntitySchema.Proofs.Search.Ordered
import EntitySchema.Resolve.Forward
import Mathlib.Tactic.SplitIfs

/-!
# Proofs/Resolve/Step — what a step of forward resolution can do

    generation    refused  |  created
    hint          reused   |  generated
    field         idle  |  kept  |  filled:  listed  |  reused  |  generated

A step that returns took one of a few ways, each with its own result and its own calls
(`Setting.Generates`, `Setting.HintStep`, `Setting.FieldStep`).  What holds of resolution is shown
way by way, and the steps themselves are opened here only.
-/

namespace EntitySchema

theorem Field.operator?_of_relation? {f : Field} {rel : Relation} (h : f.relation? = some rel) :
    f.operator? = rel.operator := by
  rw [operator?, h, Option.bind_some]

theorem Field.relatedType?_of_relation? {f : Field} {rel : Relation} (h : f.relation? = some rel) :
    f.relatedType? = some rel.relatedType := by
  rw [relatedType?, h, Option.map_some]

theorem exists_of_rel_some {α β : Type} {R : α → β → Prop} {a? : Option α} {b : β}
    (h : Option.Rel R a? (some b)) : ∃ a, a? = some a ∧ R a b := by
  cases h with
  | some h => exact ⟨_, rfl, h⟩

theorem eq_none_of_rel_none {α β : Type} {R : α → β → Prop} {a? : Option α}
    (h : Option.Rel R a? none) : a? = none := by
  cases h with
  | none => rfl

/-- The match has the id and the score. -/
def Match.Gives (m : Match) (x : Value × Value) : Prop :=
  m.get? idKey = some x.1 ∧ m.get? scoreKey = some x.2

theorem Match.Gives.score_ne_null {m : Match} {x : Value × Value} {t : Number} (h : m.Gives x)
    (hreaches : m.reaches t = true) : x.2 ≠ .null := by
  intro hnull
  rw [reaches, h.2, hnull] at hreaches
  exact Bool.false_ne_true hreaches

/-- Whether the match has one of the ids. -/
def Match.isAmong (ids : List Value) (m : Match) : Bool :=
  (m.get? idKey).any fun id => ids.any id.same

namespace Resolve

/-- A search is asked of the store and logged, or the store cannot search and nothing is found. -/
theorem Backend.searchFor_cases {b : Backend} {type query : String} {least : Number} {limit : Int}
    {ms : List Match} {log log' : List Call}
    (h : (b.searchFor type query least limit).Returns log ms log') :
    b.search? = none ∧ ms = [] ∧ log' = log ∨
      ∃ find, b.search? = some find ∧ find log type query least limit = .ok ms ∧
        log' = log ++ [.search type query least limit] := by
  rw [searchFor] at h
  rcases hfind : b.search? with _ | find <;> rw [hfind] at h
  · obtain ⟨rfl, rfl⟩ := Session.returns_pure_iff.mp h
    exact .inl ⟨rfl, rfl, rfl⟩
  · exact .inr ⟨find, rfl, Session.returns_perform_iff.mp h⟩

theorem Backend.createEntity_returns {b : Backend} {type : String} {data : Record} {id : Value}
    {log log' : List Call} (h : (b.createEntity type data).Returns log id log') :
    (∃ created, b.create log type data = .ok created ∧ created.get? Match.idKey = some id) ∧
      log' = log ++ [.create type data] := by
  obtain ⟨created, between, hcall, h⟩ := Session.returns_bind_iff.mp h
  obtain ⟨hcreated, rfl⟩ := Session.returns_perform_iff.mp hcall
  obtain ⟨hid, rfl⟩ := Session.returns_lift_iff.mp h
  exact ⟨⟨created, hcreated, Record.require_eq_ok_iff.mp hid⟩, rfl⟩

/-- Created entities have an id other than null. -/
def Backend.Identifies (b : Backend) : Prop :=
  ∀ log type data created, b.create log type data = .ok created →
    created.get? Match.idKey ≠ some .null

/-- The least score of a match for a field: its own threshold, or the default. -/
def leastScore (default : Number) (f : Field) : Number :=
  (f.threshold?.map Number.float).getD default

/-- The call that marks an entity as reused. -/
def Call.reuse (type : String) (id score : Value) : Call :=
  .update type id (.ofList [("$generated", .bool false), ("$similarity", score)])

/-- A generated entity in the field under `key`; an id that is null is not stored. -/
def Forward.addGenerated (r : Forward) (key : String) : Option Pending → Forward
  | none => r
  | some p => ⟨if p.id = .null then r.data else r.data.insert key p.id, r.pending ++ [p]⟩

namespace Setting

variable {st : Setting} {log log' : List Call} {key field type hint : String} {f : Field}
  {default t : Number}

/-! ## The choice of a match -/

/-- **A single field chooses the first match**, if it reaches the threshold. -/
theorem chosen_of_best {ms : List Match} {chosen : Option (Value × Value)}
    (h : best t ms = .ok chosen) :
    Option.Rel Match.Gives (ms.head?.filter (Match.reaches t)) chosen := by
  cases ms with
  | nil =>
    obtain rfl := Except.ok.inj h
    exact .none
  | cons m ms =>
    obtain ⟨score, hscore, h⟩ := bind_eq_ok_iff.mp h
    obtain ⟨reached, hreached, h⟩ := bind_eq_ok_iff.mp h
    have hscore := Record.require_eq_ok_iff.mp hscore
    have hm := Match.reaches_eq_of_isAtLeast hscore hreached
    rw [List.head?_cons, Option.filter_some, hm]
    cases reached with
    | false =>
      obtain rfl := Except.ok.inj h
      exact .none
    | true =>
      obtain ⟨id, hid, h⟩ := bind_eq_ok_iff.mp h
      obtain rfl := Except.ok.inj h
      exact .some ⟨Record.require_eq_ok_iff.mp hid, hscore⟩

theorem exists_of_best {ms : List Match} {x : Value × Value} (h : best t ms = .ok (some x)) :
    ∃ m ∈ ms, m.Gives x ∧ m.reaches t = true := by
  obtain ⟨m, hm, hgives⟩ := exists_of_rel_some (chosen_of_best h)
  obtain ⟨hhead, hreaches⟩ := Option.filter_eq_some_iff.mp hm
  exact ⟨m, List.mem_of_head? hhead, hgives, hreaches⟩

/-- **A hint chooses the first match that reaches the threshold and is not used.** -/
theorem chosen_of_firstUnused {used : List Value} {ms : List Match}
    {chosen : Option (Value × Value)} (h : firstUnused t used ms = .ok chosen) :
    Option.Rel Match.Gives (ms.find? fun m => m.reaches t && !m.isAmong used) chosen := by
  induction ms with
  | nil =>
    obtain rfl := Except.ok.inj h
    exact .none
  | cons m ms ih =>
    obtain ⟨score, hscore, h⟩ := bind_eq_ok_iff.mp h
    obtain ⟨reached, hreached, h⟩ := bind_eq_ok_iff.mp h
    have hscore := Record.require_eq_ok_iff.mp hscore
    have hm := Match.reaches_eq_of_isAtLeast hscore hreached
    rw [List.find?_cons, hm]
    cases reached with
    | false => exact ih h
    | true =>
      obtain ⟨id, hid, h⟩ := bind_eq_ok_iff.mp h
      have hid := Record.require_eq_ok_iff.mp hid
      obtain ⟨-, -, h⟩ := bind_eq_ok_iff.mp h
      rw [Match.isAmong, hid, Option.any_some]
      cases hused : used.any id.same with
      | true =>
        rw [hused] at h
        exact ih h
      | false =>
        rw [hused] at h
        obtain rfl := Except.ok.inj h
        exact .some ⟨hid, hscore⟩

/-! ## Reuse and generation -/

theorem eq_of_reuse {id score : Value} {p : Pending}
    (h : (st.reuse field type id score).Returns log p log') :
    p = ⟨field, type, id, some score⟩ ∧ log' = log ++ [.reuse type id score] := by
  obtain ⟨_, between, hupdate, h⟩ := Session.returns_bind_iff.mp h
  obtain ⟨-, rfl⟩ := Session.returns_perform_iff.mp hupdate
  obtain ⟨rfl, rfl⟩ := Session.returns_pure_iff.mp h
  exact ⟨rfl, rfl⟩

/-- How a generation ends: it is refused if the type is not known, and otherwise an entity is
created, once what its payload carries is resolved. -/
inductive Generates (st : Setting) (field type hint : String) (log : List Call) :
    Option Pending → List Call → Prop
  | refused (unknown : st.schema.entity? type = none) :
      Generates st field type hint log none (log ++ [.generate type hint st.context])
  | created {e : Entity} {generated : Value} {payload made : Record} {id : Value}
      {between : List Call} (known : st.schema.entity? type = some e)
      (generates : st.backend.generate log type hint st.context = .ok generated)
      (nested : (st.resolveNested e generated).Returns (log ++ [.generate type hint st.context])
        payload between)
      (creates : st.backend.create between type (st.marked field payload) = .ok made)
      (identified : made.get? Match.idKey = some id) :
      Generates st field type hint log (some ⟨field, type, id, none⟩)
        (between ++ [.create type (st.marked field payload)])

theorem generates_of_returns {p? : Option Pending}
    (h : (st.generate field type hint).Returns log p? log') :
    st.Generates field type hint log p? log' := by
  obtain ⟨generated, between, hcall, h⟩ := Session.returns_bind_iff.mp h
  obtain ⟨hgenerated, rfl⟩ := Session.returns_perform_iff.mp hcall
  cases he : st.schema.entity? type with
  | none =>
    rw [he] at h
    obtain ⟨rfl, rfl⟩ := Session.returns_pure_iff.mp h
    exact .refused he
  | some e =>
    rw [he] at h
    obtain ⟨payload, between, hnested, h⟩ := Session.returns_bind_iff.mp h
    obtain ⟨id, between', hcreate, h⟩ := Session.returns_bind_iff.mp h
    obtain ⟨rfl, rfl⟩ := Session.returns_pure_iff.mp h
    obtain ⟨⟨made, hmade, hid⟩, rfl⟩ := Backend.createEntity_returns hcreate
    exact .created he hgenerated hnested hmade hid

/-- An entity is refused if its type is not known, and has an id if it is created. -/
theorem Generates.cases_pending {p? : Option Pending}
    (h : st.Generates field type hint log p? log') (hids : st.backend.Identifies) :
    p? = none ∧ st.schema.entity? type = none ∨
      ∃ id, p? = some ⟨field, type, id, none⟩ ∧ id ≠ .null ∧ st.schema.entity? type ≠ none := by
  cases h with
  | refused unknown => exact .inl ⟨rfl, unknown⟩
  | created known generates nested creates identified =>
    refine .inr ⟨_, rfl, fun hnull => hids _ _ _ _ creates (hnull ▸ identified), ?_⟩
    rw [known]
    exact nofun

/-! ## Hints -/

/-- What becomes of a hint: the first match that reaches the threshold and is not used is reused,
or else an entity is generated. -/
inductive HintStep (st : Setting) (key field type : String) (t : Number) (l : Links)
    (hint : Value) (log : List Call) : Links → List Call → Prop
  | reused {ms : List Match} {between : List Call} {id score : Value}
      (searched : (st.backend.searchFor type (hintQuery key hint) t 10).Returns log ms between)
      (chosen : firstUnused t l.used ms = .ok (some (id, score))) :
      HintStep st key field type t l hint log
        ⟨l.ids ++ [id], l.pending ++ [⟨field, type, id, some score⟩], l.used ++ [id]⟩
        (between ++ [.reuse type id score])
  | generated {ms : List Match} {between log' : List Call} {p? : Option Pending}
      (searched : (st.backend.searchFor type (hintQuery key hint) t 10).Returns log ms between)
      (chosen : firstUnused t l.used ms = .ok none)
      (generates : st.Generates field type (hintQuery key hint) between p? log') :
      HintStep st key field type t l hint log (l.addGenerated p?) log'

theorem hintStep_of_returns {l l' : Links} {hint : Value}
    (h : (st.linkHint key field type t l hint).Returns log l' log') :
    st.HintStep key field type t l hint log l' log' := by
  obtain ⟨ms, between, hsearch, h⟩ := Session.returns_bind_iff.mp h
  obtain ⟨chosen, _, hlift, h⟩ := Session.returns_bind_iff.mp h
  obtain ⟨hchosen, rfl⟩ := Session.returns_lift_iff.mp hlift
  cases chosen with
  | some chosen =>
    obtain ⟨id, score⟩ := chosen
    obtain ⟨p, between', hreuse, h⟩ := Session.returns_bind_iff.mp h
    obtain ⟨rfl, rfl⟩ := Session.returns_pure_iff.mp h
    obtain ⟨rfl, rfl⟩ := eq_of_reuse hreuse
    exact .reused hsearch hchosen
  | none =>
    obtain ⟨p?, between', hgenerate, h⟩ := Session.returns_bind_iff.mp h
    obtain ⟨rfl, rfl⟩ := Session.returns_pure_iff.mp h
    exact .generated hsearch hchosen (generates_of_returns hgenerate)

/-! ## Fields -/

/-- How an unset field is filled: an array from its hints, a single field with the best match or
else with an entity that is generated. -/
inductive Fills (st : Setting) (key : String) (f : Field) (rel : Relation) (t : Number)
    (r : Forward) (log : List Call) : Forward → List Call → Prop
  | listed {l : Links} {log' : List Call} (array : f.modifiers.array = true)
      (links : (st.linkHints key f.name rel.relatedType t {}
        (hintsOf (st.context.parentData.get? (key ++ "Hint")))).Returns log l log') :
      Fills st key f rel t r log ⟨r.data.insert key (.list l.ids), r.pending ++ l.pending⟩ log'
  | reused {ms : List Match} {between : List Call} {id score : Value}
      (single : f.modifiers.array = false)
      (searched : (st.backend.searchFor rel.relatedType (st.singleQuery key rel) t 5).Returns log
        ms between)
      (chosen : best t ms = .ok (some (id, score))) :
      Fills st key f rel t r log
        ⟨((r.data.insert key id).insert (key ++ "$matched") (.bool true)).insert
          (key ++ "$score") score, r.pending ++ [⟨f.name, rel.relatedType, id, some score⟩]⟩
        (between ++ [.reuse rel.relatedType id score])
  | generated {ms : List Match} {between log' : List Call} {p? : Option Pending}
      (single : f.modifiers.array = false)
      (searched : (st.backend.searchFor rel.relatedType (st.singleQuery key rel) t 5).Returns log
        ms between)
      (chosen : best t ms = .ok none)
      (generates : st.Generates f.name rel.relatedType (st.singleQuery key rel) between p? log') :
      Fills st key f rel t r log (r.addGenerated key p?) log'

variable {rel : Relation} {r r' : Forward}

theorem fills_of_fillArray (harray : f.modifiers.array = true)
    (h : (st.fillArray key f rel.relatedType t r).Returns log r' log') :
    st.Fills key f rel t r log r' log' := by
  obtain ⟨l, between, hlinks, h⟩ := Session.returns_bind_iff.mp h
  obtain ⟨rfl, rfl⟩ := Session.returns_pure_iff.mp h
  exact .listed harray hlinks

theorem fills_of_fillSingle (hsingle : f.modifiers.array = false)
    (h : (st.fillSingle key f rel t r).Returns log r' log') :
    st.Fills key f rel t r log r' log' := by
  obtain ⟨ms, between, hsearch, h⟩ := Session.returns_bind_iff.mp h
  obtain ⟨chosen, _, hlift, h⟩ := Session.returns_bind_iff.mp h
  obtain ⟨hchosen, rfl⟩ := Session.returns_lift_iff.mp hlift
  cases chosen with
  | some chosen =>
    obtain ⟨id, score⟩ := chosen
    obtain ⟨p, between', hreuse, h⟩ := Session.returns_bind_iff.mp h
    obtain ⟨rfl, rfl⟩ := Session.returns_pure_iff.mp h
    obtain ⟨rfl, rfl⟩ := eq_of_reuse hreuse
    exact .reused hsingle hsearch hchosen
  | none =>
    obtain ⟨p?, between', hgenerate, h⟩ := Session.returns_bind_iff.mp h
    have hgenerates := generates_of_returns hgenerate
    cases p? with
    | none =>
      obtain ⟨rfl, rfl⟩ := Session.returns_pure_iff.mp h
      exact .generated hsingle hsearch hchosen hgenerates
    | some p =>
      obtain ⟨rfl, rfl⟩ := Session.returns_pure_iff.mp h
      exact .generated hsingle hsearch hchosen hgenerates

theorem forwardField_of_operator_ne (st : Setting) (default : Number) (r : Forward) (key : String)
    {f : Field} (hoperator : f.operator? ≠ some .forwardFuzzy) :
    st.forwardField default r key f = pure r := by
  rw [forwardField]
  cases hrel : f.relation? with
  | none => rfl
  | some rel =>
    rw [Field.operator?_of_relation? hrel] at hoperator
    exact if_pos hoperator

/-- What becomes of a field: nothing if it is not forward fuzzy, relations to what it holds if it is
set, and otherwise it is filled. -/
inductive FieldStep (st : Setting) (default : Number) (key : String) (f : Field) (r : Forward)
    (log : List Call) : Forward → List Call → Prop
  | idle (other : f.operator? ≠ some .forwardFuzzy) : FieldStep st default key f r log r log
  | kept {rel : Relation} (relation : f.relation? = some rel)
      (fuzzy : f.operator? = some .forwardFuzzy) (set : isSet r.data key = true) :
      FieldStep st default key f r log
        ⟨r.data, r.pending ++
          if f.modifiers.array then keptRelations key rel.relatedType (r.data.get? key) else []⟩ log
  | filled {rel : Relation} {r' : Forward} {log' : List Call} (relation : f.relation? = some rel)
      (fuzzy : f.operator? = some .forwardFuzzy) (unset : isSet r.data key = false)
      (fills : st.Fills key f rel (leastScore default f) r log r' log') :
      FieldStep st default key f r log r' log'

/-- **The ways of a field.** -/
theorem fieldStep_of_returns (h : (st.forwardField default r key f).Returns log r' log') :
    st.FieldStep default key f r log r' log' := by
  rw [forwardField] at h
  cases hrel : f.relation? with
  | none =>
    rw [hrel] at h
    obtain ⟨rfl, rfl⟩ := Session.returns_pure_iff.mp h
    exact .idle (by simp [Field.operator?, hrel])
  | some rel =>
    rw [hrel] at h
    dsimp only at h
    have hoperator := Field.operator?_of_relation? hrel
    have hleast : leastScore default f = (rel.threshold.map Number.float).getD default := by
      rw [leastScore, Field.threshold?, hrel, Option.bind_some]
    by_cases hother : rel.operator ≠ some .forwardFuzzy
    · rw [if_pos hother] at h
      obtain ⟨rfl, rfl⟩ := Session.returns_pure_iff.mp h
      exact .idle (by rwa [hoperator])
    · rw [if_neg hother] at h
      have hfuzzy := hoperator.trans (Decidable.not_not.mp hother)
      by_cases hset : isSet r.data key = true
      · rw [if_pos hset] at h
        obtain ⟨rfl, rfl⟩ := Session.returns_pure_iff.mp h
        exact .kept hrel hfuzzy hset
      · rw [if_neg hset] at h
        refine .filled hrel hfuzzy (by simpa using hset) ?_
        rw [hleast]
        split_ifs at h with harray
        · exact fills_of_fillArray harray h
        · exact fills_of_fillSingle (by simpa using harray) h

end Setting

end Resolve

end EntitySchema
