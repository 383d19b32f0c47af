import EntitySchema.Proofs.Resolve.History
import EntitySchema.Proofs.Session.Stages

/-!
# Proofs/Resolve/Calls — which calls are made for a field

    forward    field₁ ▸ search, update | generate, nested calls, create …    field₂ ▸ …
    backward   field₁ ▸ search …                                             field₂ ▸ …

Resolution takes the fields of an entity one after another, so its calls fall into stages, one for
each field (`divides_forward`, `divides_backward`).  What the calls of a field may be is said once,
for any property of calls: forward resolution searches at the threshold of the field and makes calls
that its setting allows (`staysWithin_forwardField`), backward resolution only searches, at the
threshold of the entity (`staysWithin_backwardField`).  Both hold however the run ends.
-/

namespace EntitySchema

open Session

/-! ## Searches of the candidates of a union -/

namespace Search

variable {κ : Type} {ask : Searcher κ} {o : Options} {query : String} {P : κ → Prop}

theorem staysWithin_orderedFrom (hask : ∀ type, (ask (o.request query type)).StaysWithin P)
    (types : List String) (r : Result) : (orderedFrom ask o query r types).StaysWithin P := by
  induction types generalizing r with
  | nil => exact staysWithin_pure
  | cons type types ih =>
    rw [orderedFrom]
    refine staysWithin_bind (staysWithin_attempt (hask type)) fun x => ?_
    cases x with
    | error e =>
      dsimp only
      split
      · exact staysWithin_fail
      · exact ih _
    | ok ms =>
      refine staysWithin_bind staysWithin_lift fun parts => ?_
      obtain ⟨above, below⟩ := parts
      cases above with
      | nil => exact ih _
      | cons m ms => exact staysWithin_bind staysWithin_lift fun _ => staysWithin_pure

theorem staysWithin_askAll (hask : ∀ type, (ask (o.request query type)).StaysWithin P) :
    ∀ types : List String, (askAll ask o query types).StaysWithin P
  | [] => staysWithin_pure
  | type :: types =>
      staysWithin_bind (staysWithin_attempt (hask type)) fun _ =>
        staysWithin_bind (staysWithin_askAll hask types) fun _ => staysWithin_pure

theorem staysWithin_search (hask : ∀ type, (ask (o.request query type)).StaysWithin P)
    (types : List String) : (search ask o query types).StaysWithin P := by
  rw [search]
  split
  · exact staysWithin_pure
  · split
    · exact staysWithin_orderedFrom hask types _
    · refine staysWithin_bind (staysWithin_askAll hask types) fun _ => ?_
      refine staysWithin_bind staysWithin_lift fun _ => ?_
      exact staysWithin_bind staysWithin_lift fun _ => staysWithin_pure

end Search

namespace Resolve

/-! ## Backward resolution -/

section

variable {b : Backend} {P : Call → Prop} {t : Number} {key query type : String} {f : Field}

theorem staysWithin_searchFor {limit : Int} (hP : P (.search type query t limit)) :
    (b.searchFor type query t limit).StaysWithin P := by
  rw [Backend.searchFor]
  split
  · exact staysWithin_perform hP
  · exact staysWithin_pure

theorem staysWithin_value {array : Bool} {x : Except Failure (List Value)} {m : Match}
    {next : Value → Run Record} (hnext : ∀ v, (next v).StaysWithin P) :
    (if array then do let v ← Value.list <$> (liftM x : Run (List Value)); next v
      else do let v ← (liftM (Record.require m Match.idKey) : Run Value); next v).StaysWithin P := by
  split
  · refine staysWithin_bind ?_ hnext
    exact staysWithin_bind staysWithin_lift fun _ => staysWithin_pure
  · exact staysWithin_bind staysWithin_lift hnext

theorem staysWithin_fillFromTarget (hP : ∀ type query limit, P (.search type query t limit))
    (data : Record) : (fillFromTarget b t key query f type data).StaysWithin P := by
  refine staysWithin_bind (staysWithin_searchFor (hP ..)) fun found => ?_
  cases found with
  | nil => exact staysWithin_pure
  | cons m ms => exact staysWithin_value fun _ => staysWithin_pure

theorem staysWithin_fillFromUnion (hP : ∀ type query limit, P (.search type query t limit))
    (types : List String) (data : Record) :
    (fillFromUnion b t key query f types data).StaysWithin P := by
  refine staysWithin_bind (Search.staysWithin_search (fun type => ?_) types) fun r => ?_
  · exact staysWithin_bind (staysWithin_searchFor (hP ..)) fun _ => staysWithin_pure
  · dsimp only
    split
    · exact staysWithin_pure
    · exact staysWithin_value fun _ => staysWithin_pure

/-- **A backward fuzzy field is only searched for, at one threshold.** -/
theorem staysWithin_backwardField (hP : ∀ type query limit, P (.search type query t limit))
    (given data : Record) (key : String) (f : Field) :
    (backwardField b t given data key f).StaysWithin P := by
  rw [backwardField]
  split
  · exact staysWithin_pure
  · split
    · exact staysWithin_pure
    · split
      · exact staysWithin_pure
      · split
        · exact staysWithin_pure
        · split
          · exact staysWithin_fillFromUnion hP _ data
          · exact staysWithin_fillFromTarget hP data

/-- The calls that backward resolution makes for each field. -/
def backwardStages (b : Backend) (e : Entity) (given : Record) (log : List Call) :
    List (Stage (String × Field) Call) :=
  stages (fun data p => backwardField b (.float e.fuzzyThreshold) given data p.1 p.2) given
    e.fields.entries log

theorem backwardFields_eq_foldlM (given : Record) : ∀ (fields : List (String × Field))
    (data : Record), backwardFields b t given data fields =
      fields.foldlM (fun data p => backwardField b t given data p.1 p.2) data
  | [], _ => rfl
  | (key, f) :: fields, data => by
      rw [backwardFields, List.foldlM_cons]
      exact bind_congr fun data => backwardFields_eq_foldlM given fields data

/-- **The calls of backward resolution are those for its fields.** -/
theorem divides_backward (b : Backend) (e : Entity) (given : Record) (log : List Call) :
    Divides (backwardStages b e given log) (backward b e given) e.fields.entries log := by
  rw [backward, backwardFields_eq_foldlM]
  exact divides_stages (fun data p =>
    (staysWithin_backwardField (fun _ _ _ => trivial) given data p.1 p.2).mono
      fun _ _ (_ : ∀ c ∈ _, True) => trivial) given e.fields.entries log

end

/-! ## Forward resolution -/

namespace Setting

/-- The calls by which entities are made and linked are such as `P` allows. -/
structure Allows (st : Setting) (P : Call → Prop) : Prop where
  /-- Payloads may be generated. -/
  generate : ∀ type hint, P (.generate type hint st.context)
  /-- What a payload carries may be resolved. -/
  nested : ∀ e payload, (st.resolveNested e payload).StaysWithin P
  /-- Entities may be created. -/
  create : ∀ type data, P (.create type data)
  /-- Entities may be marked as reused. -/
  update : ∀ type id patch, P (.update type id patch)

variable {st : Setting} {P : Call → Prop} {t : Number} {key type : String} {f : Field}

theorem staysWithin_generate (hgenerate : ∀ type hint, P (.generate type hint st.context))
    (hnested : ∀ e payload, (st.resolveNested e payload).StaysWithin P)
    (hcreate : ∀ type data, P (.create type data)) (field type hint : String) :
    (st.generate field type hint).StaysWithin P := by
  refine staysWithin_bind (staysWithin_perform (hgenerate ..)) fun generated => ?_
  split
  · exact staysWithin_pure
  · refine staysWithin_bind (hnested _ _) fun payload => ?_
    exact staysWithin_bind (staysWithin_createEntity hcreate _ _) fun _ => staysWithin_pure

theorem Allows.generates (h : st.Allows P) (field type hint : String) :
    (st.generate field type hint).StaysWithin P :=
  staysWithin_generate h.generate h.nested h.create field type hint

theorem Allows.reuses (h : st.Allows P) (field type : String) (id score : Value) :
    (st.reuse field type id score).StaysWithin P :=
  staysWithin_bind (staysWithin_perform (h.update ..)) fun _ => staysWithin_pure

theorem staysWithin_linkHint (h : st.Allows P)
    (hP : ∀ type query limit, P (.search type query t limit)) (l : Links) (hint : Value) :
    (st.linkHint key f.name type t l hint).StaysWithin P := by
  refine staysWithin_bind (staysWithin_searchFor (hP ..)) fun found => ?_
  refine staysWithin_bind staysWithin_lift fun best => ?_
  split
  · exact staysWithin_bind (h.reuses _ _ _ _) fun _ => staysWithin_pure
  · exact staysWithin_bind (h.generates _ _ _) fun _ => staysWithin_pure

theorem staysWithin_linkHints (h : st.Allows P)
    (hP : ∀ type query limit, P (.search type query t limit)) : ∀ (hints : List Value) (l : Links),
    (st.linkHints key f.name type t l hints).StaysWithin P
  | [], _ => staysWithin_pure
  | hint :: hints, l =>
      staysWithin_bind (staysWithin_linkHint h hP l hint) (staysWithin_linkHints h hP hints)

theorem staysWithin_fillSingle (h : st.Allows P)
    (hP : ∀ type query limit, P (.search type query t limit)) (rel : Relation) (r : Forward) :
    (st.fillSingle key f rel t r).StaysWithin P := by
  refine staysWithin_bind (staysWithin_searchFor (hP ..)) fun found => ?_
  refine staysWithin_bind staysWithin_lift fun best => ?_
  split
  · exact staysWithin_bind (h.reuses _ _ _ _) fun _ => staysWithin_pure
  · refine staysWithin_bind (h.generates _ _ _) fun p => ?_
    split
    · exact staysWithin_pure
    · exact staysWithin_pure

/-- **A forward fuzzy field is searched for at its own threshold**, or else at the default. -/
theorem staysWithin_forwardField (h : st.Allows P) (default : Number) (r : Forward) (key : String)
    (f : Field) (hP : ∀ type query limit, P (.search type query (leastScore default f) limit)) :
    (st.forwardField default r key f).StaysWithin P := by
  rw [forwardField]
  cases hrel : f.relation? with
  | none => exact staysWithin_pure
  | some rel =>
    have hleast : leastScore default f = (rel.threshold.map Number.float).getD default := by
      rw [leastScore, Field.threshold?, hrel, Option.bind_some]
    rw [hleast] at hP
    dsimp only
    split
    · exact staysWithin_pure
    · split
      · exact staysWithin_pure
      · split_ifs
        · exact staysWithin_bind (staysWithin_linkHints h hP _ _) fun _ => staysWithin_pure
        · exact staysWithin_fillSingle h hP rel r

/-- The calls that forward resolution makes for each field. -/
def forwardStages (st : Setting) (e : Entity) (log : List Call) :
    List (Stage (String × Field) Call) :=
  stages (fun r p => st.forwardField (.float e.fuzzyThreshold) r p.1 p.2)
    ⟨st.context.parentData, []⟩ e.fields.entries log

theorem forwardFields_eq_foldlM (default : Number) : ∀ (fields : List (String × Field))
    (r : Forward), st.forwardFields default r fields =
      fields.foldlM (fun r p => st.forwardField default r p.1 p.2) r
  | [], _ => rfl
  | (key, f) :: fields, r => by
      rw [forwardFields, List.foldlM_cons]
      exact bind_congr fun r => forwardFields_eq_foldlM default fields r

end Setting

/-- The calls for a field are added to those before. -/
theorem ensures_forwardField_true (b : Backend) (schema : Schema) (context : Context)
    (default : Number) (r : Forward) (p : String × Field) :
    ((Setting.of b schema context).forwardField default r p.1 p.2).Ensures fun _ _ => True := by
  have hallows : (Setting.of b schema context).Allows fun _ => True :=
    ⟨fun _ _ => trivial,
      fun e payload => staysWithin_createPending (fun _ _ => trivial) _ e payload,
      fun _ _ => trivial, fun _ _ _ => trivial⟩
  exact (Setting.staysWithin_forwardField hallows default r p.1 p.2 fun _ _ _ => trivial).mono
    fun _ _ (_ : ∀ c ∈ _, True) => trivial

/-- **The calls of forward resolution are those for its fields.** -/
theorem divides_forward (b : Backend) (schema : Schema) (context : Context) (e : Entity)
    (log : List Call) : Divides ((Setting.of b schema context).forwardStages e log)
      (forward (.of b schema context) e) e.fields.entries log := by
  rw [forward, Setting.forwardFields_eq_foldlM]
  exact divides_stages (ensures_forwardField_true b schema context _) _ e.fields.entries log

end Resolve

end EntitySchema
