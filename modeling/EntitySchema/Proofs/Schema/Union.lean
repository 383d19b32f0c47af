import EntitySchema.Proofs.Schema.Reference

/-!
# Proofs/Schema/Union — unions in another order

    fields before  ─  the union  ─  fields behind
                         │
       own entity first? nothing : the candidates that are missing

A union is checked at its own place among the errors of the schema (`referenceErrors_addField`), and
the candidates that are missing are the same in every order (`missingCandidates_perm`).  But what
the field refers to is its first candidate (`Field.head?_of_ofValue`), and a field that refers to
its own entity is not checked any further, so the order counts where the own entity is the first
candidate in one of two orders only and a candidate is missing (`referenceErrors_reordered`).
-/

namespace EntitySchema

/-! ## What a union refers to -/

namespace Field

open Grammar

theorem unionTypes_plainField {name : String} {text : List Char} {r : Relation}
    (hr : (plainField name text).relation? = some r) : r.unionTypes = none := by
  rw [plainField.eq_def] at hr
  dsimp only at hr
  split at hr
  · exact absurd hr (by simp [relation?, Shape.relation?])
  · split at hr
    · exact absurd hr (by simp [relation?, Shape.relation?])
    · split at hr
      · exact absurd hr (by simp [relation?, Shape.relation?])
      · rw [namedShape.eq_def] at hr
        split at hr
        · obtain rfl := Option.some.inj hr
          rfl
        · dsimp only at hr
          split at hr
          · obtain rfl := Option.some.inj hr
            rfl
          · exact absurd hr (by simp [relation?, Shape.relation?])

theorem head?_relationField {name : String} {arrow : Arrow} (harrow : arrow.unionTypes ≠ some [])
    {r : Relation} (hr : (relationField name arrow).relation? = some r) {ts : List String}
    (hts : r.unionTypes = some ts) : ts.head? = some r.relatedType := by
  simp only [relationField, relation?, Shape.relation?, Option.some.injEq] at hr
  -- The parts stay a variable: their computation is not to be unfolded.
  generalize splitBackref (stripModifiers arrow.target.toList).1 = parts at hr
  subst hr
  dsimp only at hts ⊢
  cases ts with
  | nil => exact absurd hts harrow
  | cons t ts => rw [hts, List.head?_cons]

theorem head?_parse {name definition : String} {r : Relation}
    (hr : (parse name definition).relation? = some r) {ts : List String}
    (hts : r.unionTypes = some ts) : ts.head? = some r.relatedType := by
  rw [parse] at hr
  cases harrow : Arrow.parse? definition with
  | none =>
    rw [harrow] at hr
    exact absurd ((unionTypes_plainField hr).symm.trans hts) (by simp)
  | some arrow =>
    rw [harrow] at hr
    refine head?_relationField (fun hnil => ?_) hr hts
    rw [Arrow.parse?_eq] at harrow
    obtain ⟨p, -, rfl⟩ := Option.map_eq_some_iff.mp harrow
    dsimp only at hnil
    exact candidates?_ne_nil _ hnil

/-- **A union refers to its first candidate.** -/
theorem head?_of_ofValue {name : String} {v : Value} {f : Field} (h : ofValue name v = .ok f)
    {r : Relation} (hr : f.relation? = some r) {ts : List String} (hts : r.unionTypes = some ts) :
    ts.head? = some r.relatedType := by
  obtain ⟨definition, rfl | rfl⟩ := exists_parse_of_ofValue h
  · exact head?_parse hr hts
  · exact head?_parse hr hts

end Field

namespace Schema

variable {s : Schema} {owner key : String}

/-! ## The candidates that are missing -/

/-- The candidates of a union of `owner` that are missing; none of them if the schema has none of
the candidates. -/
def missingCandidates (s : Schema) (owner : String) (ts : List String) : List String :=
  if ts.any s.hasEntity then ts.filter fun t => !s.hasEntity t && t != owner else []

/-- **The same candidates are missing in every order.** -/
theorem missingCandidates_perm {ts ts' : List String} (h : ts.Perm ts') :
    (s.missingCandidates owner ts).Perm (s.missingCandidates owner ts') := by
  rw [missingCandidates, missingCandidates, h.any_eq]
  split
  · exact h.filter _
  · exact .refl _

theorem missingTypes_of_union {r : Relation} {ts : List String} (hoperator : r.operator ≠ none)
    (hts : r.unionTypes = some ts) (hhead : ts.head? = some r.relatedType) :
    s.missingTypes owner r =
      if ts.head? = some owner then [] else s.missingCandidates owner ts := by
  have hguard : (r.operator.isNone ∨ r.relatedType = owner) ↔ ts.head? = some owner := by
    rw [hhead, Option.some.injEq, Option.isNone_iff_eq_none, or_iff_right hoperator]
  rw [missingTypes, if_congr hguard rfl rfl, hts]
  cases ts with
  | nil => exact absurd hhead (by simp)
  | cons t ts => rfl

/-! ## The place of a field -/

/-- **A field is checked at its own place**, whatever it is. -/
theorem referenceErrors_addField {e : Entity} (he : s.entity? owner = some e) (key : String) :
    ∃ before after, ∀ f : Field, f.name = key →
      (s.addField owner f).referenceErrors = before ++ s.fieldErrors e f ++ after := by
  obtain ⟨fields, fields', hfields⟩ := e.fields.exists_entries_insert key
  obtain ⟨entities, entities', hentities⟩ := Table.exists_entries_modify he
  refine ⟨(entities.map Prod.snd).flatMap s.entityErrors ++
      (fields.map Prod.snd).flatMap (s.fieldErrors e),
    (fields'.map Prod.snd).flatMap (s.fieldErrors e) ++
      (entities'.map Prod.snd).flatMap s.entityErrors, ?_⟩
  rintro f rfl
  have hchecked : (s.addField owner f).entityErrors = s.entityErrors := by
    have hnames : (s.addField owner f).entityNames = s.entityNames := Table.keys_mapValues ..
    funext e
    rw [entityErrors, fieldErrors_congr hnames]
    rfl
  have hvalues : (s.addField owner f).entities.values = entities.map Prod.snd ++
      { e with fields := e.fields.insert f.name f } :: entities'.map Prod.snd := by
    rw [Table.values, addField, hentities, List.map_append, List.map_cons]
  have hown : s.entityErrors { e with fields := e.fields.insert f.name f } =
      (fields.map Prod.snd).flatMap (s.fieldErrors e) ++
        (s.fieldErrors e f ++ (fields'.map Prod.snd).flatMap (s.fieldErrors e)) := by
    rw [entityErrors, Table.values, hfields, List.map_append, List.map_cons, List.flatMap_append,
      List.flatMap_cons]
    rfl
  change (s.addField owner f).entities.values.flatMap (s.addField owner f).entityErrors = _
  rw [hchecked, hvalues, List.flatMap_append, List.flatMap_cons, hown]
  simp only [List.append_assoc]

/-! ## Another order -/

/-- **Two orders of a union give the same errors, unless one of them alone starts with the own
entity and a candidate is missing.**  Two definitions of a field list the same candidates; the
errors of the other fields stay as they are.  Of the candidates that are missing, which are the same
for both, all are reported, but none by a definition whose first candidate is its own entity. -/
theorem referenceErrors_reordered {e : Entity} (he : s.entity? owner = some e) {v v' : Value}
    {f f' : Field} (hf : Field.ofValue key v = .ok f) (hf' : Field.ofValue key v' = .ok f')
    {r r' : Relation} (hr : f.relation? = some r) (hr' : f'.relation? = some r')
    (hoperator : r.operator ≠ none) (hoperator' : r'.operator ≠ none) {ts ts' : List String}
    (hts : r.unionTypes = some ts) (hts' : r'.unionTypes = some ts') (hperm : ts.Perm ts') :
    ∃ before after missing missing',
      (s.addField owner f).referenceErrors =
        before ++ (missing.map fun t => ⟨e.name, key, t⟩) ++ after ∧
      (s.addField owner f').referenceErrors =
        before ++ (missing'.map fun t => ⟨e.name, key, t⟩) ++ after ∧
      missing = (if ts.head? = some e.name then [] else s.missingCandidates e.name ts) ∧
      missing' = (if ts'.head? = some e.name then [] else s.missingCandidates e.name ts') ∧
      ((missing = [] ↔ missing' = []) ↔ s.missingCandidates e.name ts = [] ∨
        (ts.head? = some e.name ↔ ts'.head? = some e.name)) ∧
      ((∀ t, t ∈ missing ↔ t ∈ missing') ↔ s.missingCandidates e.name ts = [] ∨
        (ts.head? = some e.name ↔ ts'.head? = some e.name)) := by
  obtain ⟨before, after, hplace⟩ := referenceErrors_addField he key
  have herrors : ∀ {v : Value} {f : Field} {r : Relation} {ts : List String},
      Field.ofValue key v = .ok f → f.relation? = some r → r.operator ≠ none →
      r.unionTypes = some ts → (s.addField owner f).referenceErrors = before ++
        ((if ts.head? = some e.name then [] else s.missingCandidates e.name ts).map
          fun t => ⟨e.name, key, t⟩) ++ after := by
    intro v f r ts hf hr hoperator hts
    have hname := Field.name_of_ofValue hf
    rw [hplace f hname, fieldErrors, hr, hname,
      ← missingTypes_of_union hoperator hts (Field.head?_of_ofValue hf hr hts)]
  have hmissing : (s.missingCandidates e.name ts).Perm (s.missingCandidates e.name ts') :=
    missingCandidates_perm hperm
  refine ⟨before, after, _, _, herrors hf hr hoperator hts, herrors hf' hr' hoperator' hts', rfl,
    rfl, ?_⟩
  generalize s.missingCandidates e.name ts = missing at hmissing ⊢
  generalize s.missingCandidates e.name ts' = missing' at hmissing ⊢
  have hnil : missing' = [] ↔ missing = [] := by
    rw [← List.length_eq_zero_iff, ← hmissing.length_eq, List.length_eq_zero_iff]
  have hnone : (∀ t, t ∉ missing) ↔ missing = [] := List.eq_nil_iff_forall_not_mem.symm
  by_cases hfirst : ts.head? = some e.name <;> by_cases hfirst' : ts'.head? = some e.name
  · simp [hfirst, hfirst']
  · simp [hfirst, hfirst', ← hmissing.mem_iff, hnone, hnil]
  · simp [hfirst, hfirst', hnone]
  · simp [hfirst, hfirst', hmissing.mem_iff, hnil]

/-- An entity with a reference that leads nowhere. -/
def clan : Schema :=
  { entities := .ofList
      [("Person", { name := "Person", fields := .ofList [("home", .parse "home" "->Castle")] })] }

theorem referenceErrors_reordered_clan : ∃ before after,
    (clan.addField "Person" (.parse "head" "->Person|Ghost")).referenceErrors = before ++ after ∧
    (clan.addField "Person" (.parse "head" "->Ghost|Person")).referenceErrors =
      before ++ ⟨"Person", "head", "Ghost"⟩ :: after ∧
    ¬ (clan.missingCandidates "Person" ["Person", "Ghost"] = [] ∨
      (["Person", "Ghost"].head? = some "Person" ↔ ["Ghost", "Person"].head? = some "Person")) := by
  have he : clan.entity? "Person" = some
      { name := "Person", fields := .ofList [("home", .parse "home" "->Castle")] } := rfl
  have hf : Field.ofValue "head" (.text "->Person|Ghost") =
      .ok (.parse "head" "->Person|Ghost") := rfl
  have hf' : Field.ofValue "head" (.text "->Ghost|Person") =
      .ok (.parse "head" "->Ghost|Person") := rfl
  have hr : (Field.parse "head" "->Person|Ghost").relation? = some
      { relatedType := "Person", operator := some .forwardExact
        unionTypes := some ["Person", "Ghost"] } := by decide +kernel
  have hr' : (Field.parse "head" "->Ghost|Person").relation? = some
      { relatedType := "Ghost", operator := some .forwardExact
        unionTypes := some ["Ghost", "Person"] } := by decide +kernel
  obtain ⟨before, after, missing, missing', herrors, herrors', hmissing, hmissing', hsame, -⟩ :=
    referenceErrors_reordered he hf hf' hr hr' nofun nofun rfl rfl (.swap ..)
  obtain rfl : missing = [] := hmissing.trans (by decide +kernel)
  obtain rfl : missing' = ["Ghost"] := hmissing'.trans (by decide +kernel)
  refine ⟨before, after, ?_, ?_, fun horder => ?_⟩
  · rw [herrors, List.map_nil, List.append_nil]
  · rw [herrors', List.map_singleton, List.append_assoc, List.singleton_append]
  · exact absurd ((hsame.mpr horder).mp rfl) (List.cons_ne_nil _ _)

end Schema

end EntitySchema
