import EntitySchema.Grammar.Definition
import EntitySchema.Proofs.Resolve.Frame
import Mathlib.Data.List.Basic

/-!
# Proofs/Resolve/Forward — the accounts of forward resolution

    data[f]   pending, by field   updates   creations
       │            │                │          │
       └── ids ─────┴── similarity ──┴── none ──┘

A field that was unset is filled with the ids of its own pending relations (`Setting.Settled`), and
each of these stems from one event: from a reused entity, which is updated, or from one that was
created.  A turn of a field writes under three keys only (`Writes`), so as long as no field is
called like the marks of another, the fields do not disturb each other (`forwardFields_turns`) and
the accounts of the whole run agree (`forward_accounts`).
-/

namespace EntitySchema.Resolve

namespace Setting

variable {st : Setting} {log log' : List Call} {key field type : String} {f : Field}
  {threshold : Number}

/-! ## Arrays -/

/-- **A hint adds the ids of the relations it yields.** -/
theorem linkHint_returns (hquiet : st.Quiet) (hids : st.backend.Identifies) {l l' : Links}
    {hint : Value} (h : (st.linkHint key field type threshold l hint).Returns log l' log') :
    ∃ ps, l'.pending = l.pending ++ ps ∧ l'.ids = l.ids ++ ps.map (·.id) ∧
      (∀ p ∈ ps, p.field = field) ∧ st.Yields log ps log' := by
  cases hintStep_of_returns h with
  | reused searched =>
    exact ⟨_, rfl, rfl, List.forall_mem_singleton.mpr rfl,
      (searchFor_yields searched).trans (reuse_yields ..)⟩
  | generated searched _ generates =>
    have hyields := (searchFor_yields searched).trans (generates.yields hquiet)
    obtain ⟨rfl, -⟩ | ⟨id, rfl, hnull, -⟩ := generates.cases_pending hids
    · exact ⟨[], (List.append_nil _).symm, (List.append_nil _).symm, List.forall_mem_nil _, hyields⟩
    · exact ⟨[_], rfl, if_neg hnull, List.forall_mem_singleton.mpr rfl, hyields⟩

/-- The hints of a field, one after another. -/
theorem linkHints_returns (hquiet : st.Quiet) (hids : st.backend.Identifies) :
    ∀ {hints : List Value} {l l' : Links} {log : List Call},
    (st.linkHints key field type threshold l hints).Returns log l' log' →
    ∃ ps, l'.pending = l.pending ++ ps ∧ l'.ids = l.ids ++ ps.map (·.id) ∧
      (∀ p ∈ ps, p.field = field) ∧ st.Yields log ps log'
  | [], l, l', log, h => by
      obtain ⟨rfl, rfl⟩ := Session.returns_pure_iff.mp h
      exact ⟨[], (List.append_nil _).symm, (List.append_nil _).symm, List.forall_mem_nil _,
        .refl log⟩
  | hint :: hints, l, l', log, h => by
      obtain ⟨l₁, between, hhint, hhints⟩ := Session.returns_bind_iff.mp h
      obtain ⟨ps, hpending, hlinked, hfield, hyields⟩ := linkHint_returns hquiet hids hhint
      obtain ⟨ps', hpending', hlinked', hfield', hyields'⟩ := linkHints_returns hquiet hids hhints
      refine ⟨ps ++ ps', ?_, ?_, List.forall_mem_append.mpr ⟨hfield, hfield'⟩,
        hyields.trans hyields'⟩
      · rw [hpending', hpending, List.append_assoc]
      · rw [hlinked', hlinked, List.map_append, List.append_assoc]

/-! ## The turn of a field -/

/-- A field that was unset is filled from its relations: an array with all their ids, in order, a
single field with the id of the one it has.  A single field without one stays unset, and then its
type is not known. -/
def Settled (st : Setting) (key : String) (f : Field) (data : Record) (ps : List Pending) : Prop :=
  if f.modifiers.array then data.get? key = some (.list (ps.map (·.id)))
  else
    (∃ p, ps = [p] ∧ data.get? key = some p.id) ∨
      ps = [] ∧ isSet data key = false ∧ ∃ type, f.relatedType? = some type ∧
        st.schema.entity? type = none

/-- What the turn of a field comes to: relations `ps` are added, which are its own. -/
structure Turn (st : Setting) (key : String) (f : Field) (log : List Call) (r r' : Forward)
    (log' : List Call) (ps : List Pending) : Prop where
  /-- The relations are added at the end. -/
  pending : r'.pending = r.pending ++ ps
  /-- They are relations of the field. -/
  named : ∀ p ∈ ps, p.field = key
  /-- They stem from the events of the turn, unless the field was set. -/
  yields : st.Yields log (if isSet r.data key then [] else ps) log'
  /-- Those of a field that was set have no similarity. -/
  kept : isSet r.data key → ∀ p ∈ ps, p.similarity = none
  /-- A field that was unset is filled from them. -/
  settled : f.operator? = some .forwardFuzzy → isSet r.data key = false →
    st.Settled key f r'.data ps
  /-- Nothing else changes in the data. -/
  frame : ∀ k, ¬ Writes key k → r'.data.get? k = r.data.get? k

variable {r r₁ r' : Forward} {ps ps' : List Pending} {data data' : Record}

theorem Settled.congr (h : st.Settled key f data ps) (hdata : data'.get? key = data.get? key) :
    st.Settled key f data' ps := by
  rw [Settled] at h ⊢
  rwa [hdata, isSet_congr hdata]

theorem Settled.of_array (harray : f.modifiers.array)
    (h : data.get? key = some (.list (ps.map (·.id)))) : st.Settled key f data ps := by
  rwa [Settled, if_pos harray]

theorem Settled.of_single {p : Pending} (hsingle : f.modifiers.array = false)
    (h : data.get? key = some p.id) : st.Settled key f data [p] := by
  rw [Settled, if_neg (by simp [hsingle])]
  exact .inl ⟨p, rfl, h⟩

/-- A field that was unset has had its turn. -/
theorem Turn.of_unset (hunset : isSet r.data key = false) (hnamed : ∀ p ∈ ps, p.field = key)
    (hyields : st.Yields log ps log') (hsettled : st.Settled key f data ps)
    (hframe : ∀ k, ¬ Writes key k → data.get? k = r.data.get? k) :
    st.Turn key f log r ⟨data, r.pending ++ ps⟩ log' ps where
  pending := rfl
  named := hnamed
  yields := by rwa [hunset, if_neg Bool.false_ne_true]
  kept := fun hset => absurd hset (by simp [hunset])
  settled := fun _ _ => hsettled
  frame := hframe

/-- A field that is filled has had its turn. -/
theorem Fills.turn (hquiet : st.Quiet) (hids : st.backend.Identifies) (hname : f.name = key)
    {rel : Relation} (hrel : f.relation? = some rel) (hunset : isSet r.data key = false)
    (h : st.Fills key f rel threshold r log r' log') : ∃ ps, st.Turn key f log r r' log' ps := by
  have hframe := (h.grown hunset).frame
  cases h with
  | @listed l _ array links =>
    obtain ⟨ps, hpending, hlinked, hfield, hyields⟩ := linkHints_returns hquiet hids links
    obtain rfl : l.pending = ps := hpending
    have hsettled : st.Settled key f (r.data.insert key (.list l.ids)) l.pending := by
      refine .of_array array ?_
      rw [Table.get?_insert_self, hlinked]
      rfl
    exact ⟨l.pending,
      .of_unset hunset (fun p hp => (hfield p hp).trans hname) hyields hsettled hframe⟩
  | reused single searched =>
    refine ⟨_, .of_unset hunset (List.forall_mem_singleton.mpr hname)
      ((searchFor_yields searched).trans (reuse_yields ..)) (.of_single single ?_) hframe⟩
    exact get?_insert_marks ..
  | generated single searched _ generates =>
    have hyields := (searchFor_yields searched).trans (generates.yields hquiet)
    obtain ⟨rfl, hunknown⟩ | ⟨id, rfl, hnull, -⟩ := generates.cases_pending hids
    · have hsettled : st.Settled key f r.data [] := by
        rw [Settled, if_neg (by simp [single])]
        exact .inr ⟨rfl, hunset, rel.relatedType, Field.relatedType?_of_relation? hrel, hunknown⟩
      have hturn := Turn.of_unset hunset (List.forall_mem_nil _) hyields hsettled hframe
      rw [List.append_nil] at hturn
      exact ⟨[], hturn⟩
    · rw [Forward.addGenerated, if_neg hnull] at hframe ⊢
      exact ⟨[_], .of_unset hunset (List.forall_mem_singleton.mpr hname) hyields
        (.of_single single (Table.get?_insert_self ..)) hframe⟩

theorem mem_keptRelations {v : Option Value} {p : Pending} (hp : p ∈ keptRelations key type v) :
    p.field = key ∧ p.similarity = none := by
  rw [keptRelations.eq_def] at hp
  split at hp
  · obtain ⟨id, -, rfl⟩ := List.mem_map.mp hp
    exact ⟨rfl, rfl⟩
  · exact absurd hp List.not_mem_nil

/-- **The turn of a field.** -/
theorem forwardField_turn (hquiet : st.Quiet) (hids : st.backend.Identifies) {default : Number}
    (hname : f.name = key) (h : (st.forwardField default r key f).Returns log r' log') :
    ∃ ps, st.Turn key f log r r' log' ps := by
  cases fieldStep_of_returns h with
  | idle other =>
    refine ⟨[], ⟨(List.append_nil _).symm, List.forall_mem_nil _, ?_,
      fun _ => List.forall_mem_nil _, fun hfuzzy => absurd hfuzzy other, fun _ _ => rfl⟩⟩
    rw [ite_self]
    exact .refl log
  | @kept rel relation fuzzy set =>
    have hkept : ∀ p ∈ if f.modifiers.array then
        keptRelations key rel.relatedType (r.data.get? key) else [],
        p.field = key ∧ p.similarity = none := by
      intro p hp
      split at hp
      · exact mem_keptRelations hp
      · exact absurd hp List.not_mem_nil
    refine ⟨_, ⟨rfl, fun p hp => (hkept p hp).1, ?_, fun _ p hp => (hkept p hp).2,
      fun _ hunset => absurd set (by simp [hunset]), fun _ _ => rfl⟩⟩
    rw [if_pos set]
    exact .refl log
  | filled relation _ unset fills => exact fills.turn hquiet hids hname relation unset

/-! ## One field after another -/

/-- What the turns of the fields come to: relations `ps` are added, each of them for its field. -/
structure Turns (st : Setting) (fields : List (String × Field)) (log : List Call) (r r' : Forward)
    (log' : List Call) (ps : List Pending) : Prop where
  /-- The relations are added at the end. -/
  pending : r'.pending = r.pending ++ ps
  /-- They are relations of the fields. -/
  named : ∀ p ∈ ps, ∃ q ∈ fields, q.1 = p.field
  /-- Those of fields that were unset stem from the events of the turns. -/
  yields : st.Yields log (ps.filter fun p => !isSet r.data p.field) log'
  /-- Those of fields that were set have no similarity. -/
  kept : ∀ p ∈ ps, isSet r.data p.field → p.similarity = none
  /-- A field that was unset is filled from its own. -/
  settled : ∀ q ∈ fields, q.2.operator? = some .forwardFuzzy → isSet r.data q.1 = false →
    st.Settled q.1 q.2 r'.data (ps.filter fun p => p.field = q.1)
  /-- Nothing else changes in the data. -/
  frame : ∀ k, (∀ q ∈ fields, ¬ Writes q.1 k) → r'.data.get? k = r.data.get? k

variable {between : List Call} {fields : List (String × Field)}

theorem Turns.nil (log : List Call) (r : Forward) : st.Turns [] log r r log [] where
  pending := (List.append_nil _).symm
  named := List.forall_mem_nil _
  yields := .refl log
  kept := List.forall_mem_nil _
  settled := List.forall_mem_nil _
  frame := fun _ _ => rfl

/-- **One more turn before the others**, of a field apart from theirs. -/
theorem Turns.cons (happart : ∀ q ∈ fields, ¬ Writes key q.1 ∧ ¬ Writes q.1 key)
    (turn : st.Turn key f log r r₁ between ps) (turns : st.Turns fields between r₁ r' log' ps') :
    st.Turns ((key, f) :: fields) log r r' log' (ps ++ ps') := by
  have hother : ∀ q ∈ fields, key ≠ q.1 := fun q hq heq => (happart q hq).1 (.inl heq.symm)
  -- The fields behind this one find what they found before its turn.
  have hsame : ∀ q ∈ fields, isSet r₁.data q.1 = isSet r.data q.1 := fun q hq =>
    isSet_congr (turn.frame q.1 (happart q hq).1)
  have hsame' : ∀ p ∈ ps', isSet r₁.data p.field = isSet r.data p.field := by
    intro p hp
    obtain ⟨q, hq, hfield⟩ := turns.named p hp
    exact hfield ▸ hsame q hq
  constructor
  case pending => rw [turns.pending, turn.pending, List.append_assoc]
  case named =>
    refine List.forall_mem_append.mpr ⟨fun p hp => ?_, fun p hp => ?_⟩
    · exact ⟨(key, f), List.mem_cons_self, (turn.named p hp).symm⟩
    · obtain ⟨q, hq, hfield⟩ := turns.named p hp
      exact ⟨q, List.mem_cons_of_mem _ hq, hfield⟩
  case yields =>
    have hown : ps.filter (fun p => !isSet r.data p.field) =
        if isSet r.data key then [] else ps := by
      rw [List.filter_congr fun p hp => by rw [turn.named p hp]]
      cases isSet r.data key <;> simp
    have hrest : ps'.filter (fun p => !isSet r.data p.field) =
        ps'.filter fun p => !isSet r₁.data p.field :=
      List.filter_congr fun p hp => by rw [hsame' p hp]
    rw [List.filter_append, hown, hrest]
    exact turn.yields.trans turns.yields
  case kept =>
    refine List.forall_mem_append.mpr ⟨fun p hp hset => ?_, fun p hp hset => ?_⟩
    · exact turn.kept (turn.named p hp ▸ hset) p hp
    · exact turns.kept p hp ((hsame' p hp).trans hset)
  case settled =>
    refine List.forall_mem_cons.mpr ⟨fun hfuzzy hunset => ?_, fun q hq hfuzzy hunset => ?_⟩
    · have hown : (ps ++ ps').filter (fun p => p.field = key) = ps := by
        rw [List.filter_append, List.filter_eq_self.mpr fun p hp => by simp [turn.named p hp],
          List.filter_eq_nil_iff.mpr, List.append_nil]
        intro p hp
        obtain ⟨q, hq, hfield⟩ := turns.named p hp
        simpa [← hfield] using (hother q hq).symm
      rw [hown]
      exact (turn.settled hfuzzy hunset).congr (turns.frame key fun q hq => (happart q hq).2)
    · have hown : (ps ++ ps').filter (fun p => p.field = q.1) =
          ps'.filter fun p => p.field = q.1 := by
        rw [List.filter_append, List.filter_eq_nil_iff.mpr, List.nil_append]
        intro p hp
        simpa [turn.named p hp] using hother q hq
      rw [hown]
      exact turns.settled q hq hfuzzy ((hsame q hq).trans hunset)
  case frame =>
    intro k hk
    obtain ⟨hkey, hk⟩ := List.forall_mem_cons.mp hk
    exact (turns.frame k hk).trans (turn.frame k hkey)

/-- **The turns of the fields do not disturb each other**, as long as none writes under the key of
another.  The induction is on the fields; `r` is what the fields before them have left. -/
theorem forwardFields_turns (hquiet : st.Quiet) (hids : st.backend.Identifies) {default : Number}
    (hnames : ∀ q ∈ fields, q.2.name = q.1)
    (happart : fields.Pairwise fun q q' => ¬ Writes q.1 q'.1 ∧ ¬ Writes q'.1 q.1)
    (h : (st.forwardFields default r fields).Returns log r' log') :
    ∃ ps, st.Turns fields log r r' log' ps := by
  induction fields generalizing r log with
  | nil =>
    obtain ⟨rfl, rfl⟩ := Session.returns_pure_iff.mp h
    exact ⟨[], .nil log r⟩
  | cons q fields ih =>
    obtain ⟨hname, hnames⟩ := List.forall_mem_cons.mp hnames
    obtain ⟨hq, happart⟩ := List.pairwise_cons.mp happart
    obtain ⟨r₁, between, hfield, hfields⟩ := Session.returns_bind_iff.mp h
    obtain ⟨ps, turn⟩ := forwardField_turn hquiet hids hname hfield
    obtain ⟨ps', turns⟩ := ih hnames happart hfields
    exact ⟨ps ++ ps', .cons hq turn turns⟩

end Setting

/-- **The accounts of forward resolution agree.**  Fields stand under their own names, and none is
called like the marks `g$matched` and `g$score` of another.  Then every field that was unset is
filled from its own pending relations.  The run falls into events, whose calls make up the log: the
updates among them are those of the pending relations with a similarity, one for one and in order,
and the entities that were created for a field, not inside a nested payload, are those of the
pending relations without a similarity of fields that were unset. -/
theorem forward_accounts {b : Backend} {schema : Schema} {context : Context} {e : Entity}
    (hnames : ∀ q ∈ e.fields.entries, q.2.name = q.1)
    (hmarks : ∀ g ∈ e.fields.keys, g ++ "$matched" ∉ e.fields.keys ∧ g ++ "$score" ∉ e.fields.keys)
    (hids : b.Identifies) {r : Forward} {log log' : List Call}
    (h : (forward (.of b schema context) e).Returns log r log') :
    (∀ q ∈ e.fields.entries, q.2.operator? = some .forwardFuzzy →
      isSet context.parentData q.1 = false →
        (Setting.of b schema context).Settled q.1 q.2 r.data
          (r.pending.filter fun p => p.field = q.1)) ∧
    ∃ evs, (Setting.of b schema context).History log evs log' ∧
      log' = log ++ evs.flatMap (Event.calls context) ∧
      (evs.flatMap (Event.calls context)).filter Call.isUpdate =
        r.pending.filterMap Pending.update? ∧
      evs.filterMap Event.created? = r.pending.filter fun p =>
        p.similarity = none ∧ isSet context.parentData p.field = false := by
  have happart : e.fields.entries.Pairwise fun q q' => ¬ Writes q.1 q'.1 ∧ ¬ Writes q'.1 q.1 := by
    refine (List.pairwise_map.mp e.fields.nodup).imp_of_mem fun {q q'} hq hq' hne => ?_
    exact ⟨fun hw => hne (eq_of_writes hmarks hq hq' hw).symm,
      fun hw => hne (eq_of_writes hmarks hq' hq hw)⟩
  have hquiet := Setting.quiet_of b schema context
  obtain ⟨ps, turns⟩ := Setting.forwardFields_turns hquiet hids hnames happart h
  have hpending : r.pending = ps := turns.pending
  subst hpending
  refine ⟨turns.settled, ?_⟩
  obtain ⟨evs, hevs, hyielded⟩ := turns.yields
  refine ⟨evs, hevs, hevs.log_eq, ?_, ?_⟩
  · refine (hevs.updates hquiet).trans ?_
    rw [hyielded, List.filterMap_filter]
    refine List.filterMap_congr fun p hp => ?_
    split_ifs with hset
    · rfl
    · have hkept := turns.kept p hp (by simpa using hset)
      rw [Pending.update?, hkept, Option.map_none]
  · rw [hevs.created, hyielded, List.filter_filter]
    exact List.filter_congr fun p _ => by cases p.similarity <;> simp [Setting.of]

/-- A store that finds the tag `old` only, and a generator whose payloads carry a region. -/
def library : Backend :=
  { search? := some fun _ _ query _ _ => .ok <|
      if query = "old" then [.ofList [("$id", .text "tag"), ("$score", .number (.int 1))]] else []
    create := fun log type r => .ok (r.insert "$id" (.text (type ++ toString log.length)))
    update := fun _ _ _ _ => .ok ()
    generate := fun _ _ hint _ => .ok (.map [("name", .text hint),
      ("_pending_region", .map [("type", .text "Region"), ("data", .map [])])]) }

theorem library_identifies : library.Identifies := by
  rintro log type data created ⟨⟩ hnull
  rw [Match.idKey, Table.get?_insert_self] at hnull
  exact nomatch hnull

/-- An array with two hints, a single field, one whose type is not known, and one that is set. -/
def atlas : Entity :=
  { name := "Atlas"
    fields := .ofList
      [("tags", .parse "tags" "~>Tag[]"), ("cover", .parse "cover" "What is on it? ~>Image"),
        ("shop", .parse "shop" "~>Shop"), ("related", .parse "related" "~>Tag[]")] }

/-- The schema of an atlas, without shops. -/
def geography : Schema :=
  { entities := .ofList
      [("Atlas", atlas), ("Tag", { name := "Tag" }), ("Image", { name := "Image" }),
      ("Region", { name := "Region" })] }

/-- The hints for the tags of an atlas, and related tags. -/
def given : Context :=
  { parent := "Atlas"
    parentData := .ofList [("tagsHint", .list [.text "old", .text "new"]),
      ("related", .list [.text "tag"])]
    parentId := "atlas" }

theorem forward_accounts_atlas : ∃ (r : Forward) (evs : List Event) (log' : List Call),
    (forward (.of library geography given) atlas).Returns [] r log' ∧
      r.pending =
        [⟨"tags", "Tag", .text "tag", some (.number (.int 1))⟩, ⟨"tags", "Tag", .text "Tag5", none⟩,
          ⟨"cover", "Image", .text "Image9", none⟩, ⟨"related", "Tag", .text "tag", none⟩] ∧
      r.data.get? "tags" = some (.list [.text "tag", .text "Tag5"]) ∧
      log' = evs.flatMap (Event.calls given) ∧
      log'.filter Call.isUpdate = [.update "Tag" (.text "tag")
        (.ofList [("$generated", .bool false), ("$similarity", .number (.int 1))])] ∧
      (evs.filterMap Event.created?).map (·.id) = [.text "Tag5", .text "Image9"] := by
  have hrun : (forward (.of library geography given) atlas []).1.toOption.any fun r =>
      decide (r.pending =
        [⟨"tags", "Tag", .text "tag", some (.number (.int 1))⟩, ⟨"tags", "Tag", .text "Tag5", none⟩,
          ⟨"cover", "Image", .text "Image9", none⟩, ⟨"related", "Tag", .text "tag", none⟩]) := by
    decide +kernel
  obtain ⟨r, log', hreturns, hpending⟩ := Session.exists_returns_of_any hrun
  have hpending := of_decide_eq_true hpending
  obtain ⟨hsettled, evs, -, hlog, hupdates, hcreated⟩ := forward_accounts
    (by decide +kernel) (by decide +kernel) library_identifies hreturns
  have htags := hsettled ("tags", .parse "tags" "~>Tag[]") (by decide +kernel) (by decide +kernel)
    (by decide +kernel)
  rw [Setting.Settled, if_pos (by decide +kernel), hpending] at htags
  rw [List.nil_append] at hlog
  rw [← hlog, hpending] at hupdates
  rw [hpending] at hcreated
  refine ⟨r, evs, log', hreturns, hpending, htags.trans (by decide +kernel), hlog,
    hupdates.trans (by decide +kernel), ?_⟩
  rw [hcreated]
  decide +kernel

end EntitySchema.Resolve
