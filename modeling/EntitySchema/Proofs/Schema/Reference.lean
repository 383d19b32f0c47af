import EntitySchema.Proofs.Schema.Assembly

/-!
# Proofs/Schema/Reference — checking before and after the inverse fields are added

    schema as written ──checkReferences──▸ the first error, or none
            │ withInverses
            ▾
     assembled schema ──referenceErrors──▸ the same errors

An inverse field has no operator, so it is never checked, and it is added to an entity that is there
already: an answer leaves the reference errors and their order as they are
(`referenceErrors_answer`), and so does adding all inverse fields (`referenceErrors_withInverses`).
Hence a record is refused for the first reference error of the schema that is assembled unchecked
(`assemble_checked`).
-/

namespace EntitySchema.Schema

/-! ## Which records are declared -/

theorem exists_declareMembers {ms : List (String × Value)}
    (h : ∀ m ∈ ms, isSetting m.1 = false → ∃ e, Entity.ofValue m.1 m.2 = .ok e) :
    ∀ s : Schema, ∃ s', s.declareMembers ms = .ok s' := by
  induction ms with
  | nil => exact fun s => ⟨s, rfl⟩
  | cons m ms ih =>
    intro s
    obtain ⟨name, value⟩ := m
    obtain ⟨hm, hms⟩ := List.forall_mem_cons.mp h
    rw [declareMembers]
    cases hname : isSetting name with
    | true => exact ih hms s
    | false =>
      obtain ⟨e, he⟩ := hm hname
      rw [he]
      exact ih hms (s.addEntity name e)

/-- **A record whose members declare entities, settings aside, declares a schema.** -/
theorem exists_declare {raw : Record}
    (h : ∀ m ∈ raw.entries, isSetting m.1 = false → ∃ e, Entity.ofValue m.1 m.2 = .ok e) :
    ∃ s, declare raw = .ok s := exists_declareMembers h {}

/-! ## Reference errors under an answer -/

/-- The reference errors of an entity, in order of its fields. -/
def entityErrors (s : Schema) (e : Entity) : List ReferenceError :=
  e.fields.values.flatMap (s.fieldErrors e)

variable {s t : Schema}

theorem hasEntity_congr (h : s.entityNames = t.entityNames) : s.hasEntity = t.hasEntity := by
  funext name
  rw [Bool.eq_iff_iff, hasEntity, hasEntity, Table.contains_iff, Table.contains_iff]
  exact iff_of_eq (congrArg (name ∈ ·) h)

/-- A field is checked against the names of the entities. -/
theorem fieldErrors_congr (h : s.entityNames = t.entityNames) : s.fieldErrors = t.fieldErrors := by
  funext e f
  simp only [fieldErrors, missingTypes, hasEntity_congr h]

/-- An inverse field has no operator, so it is not checked. -/
@[simp] theorem fieldErrors_inverse (s : Schema) (e : Entity) (q : BackrefRequest) :
    s.fieldErrors e q.inverse = [] := rfl

@[simp] theorem entityErrors_answer (s : Schema) (e : Entity) (q : BackrefRequest) :
    s.entityErrors (e.answer q) = s.entityErrors e := by
  have hname : s.fieldErrors (e.answer q) = s.fieldErrors e := rfl
  rw [entityErrors, hname, Entity.answer]
  split_ifs with hnew
  · rfl
  · dsimp only
    rw [Table.values, Table.entries_insert (fun hmem => hnew (Table.contains_iff.mpr hmem)),
      List.map_append, List.flatMap_append, List.map_singleton, List.flatMap_singleton,
      fieldErrors_inverse, List.append_nil]
    rfl

/-- **An answer leaves the reference errors as they are.** -/
@[simp] theorem referenceErrors_answer (s : Schema) (q : BackrefRequest) :
    (s.answer q).referenceErrors = s.referenceErrors := by
  have hvalues : (s.answer q).entities.values =
      s.entities.entries.map fun p => if p.1 = q.target then p.2.answer q else p.2 := by
    rw [Table.values, answer, Table.modify, Table.mapValues, List.map_map]
    rfl
  have hchecked : (s.answer q).entityErrors = s.entityErrors := by
    funext e
    rw [entityErrors, fieldErrors_congr (entityNames_answer s q)]
    rfl
  change (s.answer q).entities.values.flatMap (s.answer q).entityErrors =
    s.entities.values.flatMap s.entityErrors
  rw [hvalues, hchecked, Table.values, List.flatMap_map, List.flatMap_map]
  refine List.flatMap_congr fun p _ => ?_
  split
  · exact entityErrors_answer s p.2 q
  · rfl

/-- **Inverse fields leave the reference errors as they are.** -/
theorem referenceErrors_withInverses (hs : s.OwnNames) (hnamed : s.BackrefsNamed) :
    s.withInverses.referenceErrors = s.referenceErrors := by
  rw [withInverses_eq_foldl hs hnamed]
  exact List.foldlRecOn (motive := fun t => t.referenceErrors = s.referenceErrors) _ _ rfl
    fun t ht q _ => (referenceErrors_answer t q).trans ht

/-! ## Checked and unchecked assembly -/

theorem assemble_eq_error_iff {raw : Record} {err : SchemaError} :
    assemble raw = .error err ↔ (∃ cause, declare raw = .error cause ∧ err = .declaration cause) ∨
      ∃ written e es, declare raw = .ok written ∧ written.referenceErrors = e :: es ∧
        err = .reference e := by
  rw [assemble, assembleSteps]
  cases hwritten : declare raw with
  | error cause => simp [eq_comm]
  | ok written =>
    dsimp only
    rw [if_pos rfl, checkReferences]
    cases herrors : written.referenceErrors with
    | nil => simp [herrors]
    | cons e es => simp [herrors, eq_comm]

/-- **A record is refused for the first reference error of the schema that is assembled unchecked**,
and is accepted with that very schema if there is none. -/
theorem assemble_checked {raw : Record}
    (h : ∀ m ∈ raw.entries, isSetting m.1 = false → ∃ e, Entity.ofValue m.1 m.2 = .ok e) :
    ∃ s, assemble raw false = .ok s ∧
      ((∃ err, assemble raw true = .error err) ↔ s.referenceErrors ≠ []) ∧
      (∀ err, assemble raw true = .error err → ∃ e es, s.referenceErrors = e :: es ∧
        err = .reference e ∧ err.message = e.message ∧ err.entity = e.entity ∧
        err.field = e.field ∧ err.missingType = e.missingType) ∧
      ∀ s', assemble raw true = .ok s' → s' = s ∧ s'.referenceErrors = [] := by
  obtain ⟨written, hwritten⟩ := exists_declare h
  have herrors : written.withInverses.referenceErrors = written.referenceErrors :=
    referenceErrors_withInverses (ownNames_of_declare hwritten) (backrefsNamed_of_declare hwritten)
  refine ⟨written.withInverses, assemble_eq_ok_iff.mpr ⟨written, hwritten, nofun, rfl⟩, ?_⟩
  rw [herrors]
  have hrefused : ∀ err, assemble raw true = .error err ↔
      ∃ e es, written.referenceErrors = e :: es ∧ err = .reference e := by
    intro err
    rw [assemble_eq_error_iff]
    simp [hwritten]
  refine ⟨?_, fun err herr => ?_, fun s' hs' => ?_⟩
  · simp only [hrefused]
    constructor
    · rintro ⟨-, e, es, hcons, -⟩
      exact hcons ▸ List.cons_ne_nil e es
    · intro hne
      obtain ⟨e, es, hcons⟩ := List.exists_cons_of_ne_nil hne
      exact ⟨_, e, es, hcons, rfl⟩
  · obtain ⟨e, es, hcons, rfl⟩ := (hrefused err).mp herr
    exact ⟨e, es, hcons, rfl, rfl, rfl, rfl, rfl⟩
  · obtain ⟨written', hwritten', hchecked, rfl⟩ := assemble_eq_ok_iff.mp hs'
    obtain rfl := Except.ok.inj (hwritten.symm.trans hwritten')
    exact ⟨rfl, herrors.trans (hchecked rfl)⟩

/-- Inverse fields for entities before and after the one that asks, a type that is missing, and a
union with a candidate that is missing. -/
def magazine : Record :=
  ⟨[("$version", .number (.int 1)),
    ("Person", .map [("name", .text "string"), ("mentor", .text "->Person.students")]),
    ("Article", .map [("author", .text "->Person.articles"), ("issue", .text "->Issue.articles"),
      ("owner", .text "->Person|Team"), ("next", .text "->Page.articles")]),
    ("Page", .map [("shows", .list [.text "->Article.pages"])])], by decide⟩

theorem assemble_checked_magazine : ∃ s, assemble magazine false = .ok s ∧
    (s.entity? "Person").map (·.fields.keys) = some ["name", "mentor", "students", "articles"] ∧
    s.referenceErrors = [⟨"Article", "issue", "Issue"⟩, ⟨"Article", "owner", "Team"⟩] ∧
    ∃ err, assemble magazine true = .error err ∧ err.entity = "Article" ∧ err.field = "issue" ∧
      err.missingType = "Issue" ∧
      err.message = "Invalid schema: Article.issue references non-existent type 'Issue'" := by
  have hreads : ∀ m ∈ magazine.entries, isSetting m.1 = false →
      (Entity.ofValue m.1 m.2).toOption.any fun _ => true := by decide +kernel
  have hdeclared : ∀ m ∈ magazine.entries, isSetting m.1 = false →
      ∃ e, Entity.ofValue m.1 m.2 = .ok e :=
    fun m hm hname => (exists_ok_of_any (hreads m hm hname)).imp fun _ => And.left
  obtain ⟨s, hs, hrefused, hcarries, -⟩ := assemble_checked hdeclared
  have hshape : (assemble magazine false).toOption.any fun s => decide
      ((s.entity? "Person").map (·.fields.keys) = some ["name", "mentor", "students", "articles"] ∧
        s.referenceErrors = [⟨"Article", "issue", "Issue"⟩, ⟨"Article", "owner", "Team"⟩]) := by
    decide +kernel
  obtain ⟨t, ht, hshape⟩ := exists_ok_of_any hshape
  obtain rfl := Except.ok.inj (hs.symm.trans ht)
  obtain ⟨hkeys, herrors⟩ := of_decide_eq_true hshape
  obtain ⟨err, herr⟩ := hrefused.mpr (herrors ▸ List.cons_ne_nil _ _)
  obtain ⟨e, es, hcons, -, hmessage, hentity, hfield, hmissing⟩ := hcarries err herr
  obtain ⟨rfl, -⟩ := List.cons.inj (herrors.symm.trans hcons)
  exact ⟨s, hs, hkeys, herrors, err, herr, hentity, hfield, hmissing, hmessage⟩

end EntitySchema.Schema
