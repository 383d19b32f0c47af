import EntitySchema.Proofs.Dependency.Inverse

/-!
# Proofs/Validation/Backref — backrefs are answered or reported

    E.f ──backref──▸ R.b ──relates to──▸ E     answered
                         └─────────────▸ ?     reported as shadowed

In an assembled schema the backref of a field names a field of the target: for an inverse field it
is the field that asked for it (`get?_inverse_backref`), for a declared field the one that was there
or was added for it (`contains_backref`).  What stands there is compared with what was asked for, so
a field that is no answer is reported (`mem_shadowed_iff`).  The checks of single fields find no
fault with an inverse field (`not_warns_inverse`).
-/

namespace EntitySchema

/-- The entity and the field that a warning is about, unless it is about an entity as a whole. -/
def Warning.field? : Warning → Option (String × String)
  | .ownType _ => none
  | .dangling entity field _ => some (entity, field)
  | .ignoredThreshold entity field _ => some (entity, field)
  | .shadowed _ _ entity field => some (entity, field)

namespace Schema

variable {s : Schema}

/-! ## What the checks say -/

/-- Whether one of the checks of single fields warns about the field `f` of the entity `e`. -/
def Warns (s : Schema) (e : Entity) (f : Field) (w : Warning) : Prop :=
  s.dangling? e f = some w ∨ ignoredThreshold? e f = some w ∨ s.shadowed? e f = some w

theorem dangling?_eq_some_iff {e : Entity} {f : Field} {w : Warning} :
    s.dangling? e f = some w ↔ ∃ r, f.relation? = some r ∧ r.operator = none ∧
      s.hasEntity r.relatedType = false ∧ w = .dangling e.name f.name r.relatedType := by
  rw [dangling?]
  constructor
  · intro h
    obtain ⟨r, hr, h⟩ := Option.bind_eq_some_iff.mp h
    obtain ⟨⟨hop, hentity⟩, h⟩ := Option.ite_none_right_eq_some.mp h
    exact ⟨r, hr, by simpa using hop, by simpa using hentity, (Option.some.inj h).symm⟩
  · rintro ⟨r, hr, hop, hentity, rfl⟩
    rw [hr]
    exact if_pos (by simp [hop, hentity])

theorem ignoredThreshold?_eq_some_iff {e : Entity} {f : Field} {w : Warning} :
    ignoredThreshold? e f = some w ↔ ∃ o, f.operator? = some o ∧ f.threshold?.isSome ∧
      o.matchMode = .exact ∧ w = .ignoredThreshold e.name f.name o := by
  rw [ignoredThreshold?]
  constructor
  · intro h
    obtain ⟨o, ho, h⟩ := Option.bind_eq_some_iff.mp h
    obtain ⟨⟨hthreshold, hexact⟩, h⟩ := Option.ite_none_right_eq_some.mp h
    exact ⟨o, ho, hthreshold, hexact, (Option.some.inj h).symm⟩
  · rintro ⟨o, ho, hthreshold, hexact, rfl⟩
    rw [ho]
    exact if_pos ⟨hthreshold, hexact⟩

theorem shadowed?_eq_some_iff {e : Entity} {f : Field} {w : Warning} :
    s.shadowed? e f = some w ↔ ∃ r b related g, f.relation? = some r ∧ r.backref = some b ∧
      b ≠ "" ∧ r.relatedType ≠ "" ∧ s.entity? r.relatedType = some related ∧
      related.fields.get? b = some g ∧ g.relatedType? ≠ some e.name ∧
      w = .shadowed r.relatedType b e.name f.name := by
  rw [shadowed?]
  constructor
  · intro h
    obtain ⟨r, hr, h⟩ := Option.bind_eq_some_iff.mp h
    obtain ⟨b, hb, h⟩ := Option.bind_eq_some_iff.mp h
    obtain ⟨hne, h⟩ := Option.ite_none_left_eq_some.mp h
    obtain ⟨related, hrelated, h⟩ := Option.bind_eq_some_iff.mp h
    obtain ⟨g, hg, h⟩ := Option.bind_eq_some_iff.mp h
    obtain ⟨hother, h⟩ := Option.ite_none_left_eq_some.mp h
    rw [not_or] at hne
    exact ⟨r, b, related, g, hr, hb, hne.1, hne.2, hrelated, hg, hother, (Option.some.inj h).symm⟩
  · rintro ⟨r, b, related, g, hr, hb, hne, htype, hrelated, hg, hother, rfl⟩
    simp [hr, hb, hne, htype, hrelated, hg, hother]

/-- A warning of a check is about the field that was checked. -/
theorem Warns.field? {e : Entity} {f : Field} {w : Warning} (h : s.Warns e f w) :
    w.field? = some (e.name, f.name) := by
  obtain h | h | h := h
  · obtain ⟨r, -, -, -, rfl⟩ := dangling?_eq_some_iff.mp h
    rfl
  · obtain ⟨o, -, -, -, rfl⟩ := ignoredThreshold?_eq_some_iff.mp h
    rfl
  · obtain ⟨r, b, related, g, -, -, -, -, -, -, -, rfl⟩ := shadowed?_eq_some_iff.mp h
    rfl

theorem mem_forFields_iff {α : Type} {check : Entity → Field → Option α} {a : α} :
    a ∈ s.forFields check ↔ ∃ name e, s.entity? name = some e ∧
      ∃ f ∈ e.fields.values, check e f = some a := by
  rw [forFields, List.mem_flatMap]
  constructor
  · rintro ⟨e, he, ha⟩
    obtain ⟨p, hp, rfl⟩ := List.mem_map.mp he
    exact ⟨p.1, p.2, Table.get?_eq_some_iff.mpr hp, List.mem_filterMap.mp ha⟩
  · rintro ⟨name, e, he, ha⟩
    exact ⟨e, List.mem_map_of_mem (Table.get?_eq_some_iff.mp he), List.mem_filterMap.mpr ha⟩

/-- **The warnings about fields are those of the checks.** -/
theorem mem_warnings_iff {w : Warning} (hw : w.field? ≠ none) : w ∈ s.validate.warnings ↔
    ∃ name e, s.entity? name = some e ∧ ∃ f ∈ e.fields.values, s.Warns e f w := by
  have hown : w ∉ s.requiredCycles.filterMap ownType? := by
    intro hmem
    obtain ⟨path, -, hpath⟩ := List.mem_filterMap.mp hmem
    rw [ownType?.eq_def] at hpath
    split at hpath
    · obtain rfl := Option.some.inj hpath
      exact hw rfl
    · exact absurd hpath (by simp)
  rw [validate, List.mem_append, List.mem_append, List.mem_append, or_iff_right hown,
    mem_forFields_iff, mem_forFields_iff, mem_forFields_iff]
  simp only [Warns]
  grind

/-! ## Inverse fields -/

/-- The backref of an inverse field names the field that asked for it, and that relates back. -/
theorem get?_inverse_backref (hs : s.OwnNames) (hnamed : s.BackrefsNamed) {q : BackrefRequest}
    (hq : q ∈ s.requests) {related : Entity}
    (hrelated : s.withInverses.entity? q.source = some related) :
    related.fields.get? q.field.name = some q.field ∧ q.field.relatedType? = some q.target := by
  obtain ⟨e, he, hf, hrequest⟩ := mem_requests_iff.mp hq
  obtain ⟨r, hr, -, htarget, -, -⟩ := Field.request?_eq_some_iff.mp hrequest
  have hget := Table.get?_eq_some_iff.mp (hs.get?_eq_some he hf).2
  refine ⟨Table.get?_eq_some_iff.mpr ?_, by rw [Field.relatedType?, hr, Option.map_some, htarget]⟩
  rw [entries_withInverses hs hnamed he hrelated]
  exact List.mem_append_left _ hget

/-- **No check of a single field warns about an inverse field.** -/
theorem not_warns_inverse (hs : s.OwnNames) (hnamed : s.BackrefsNamed) {q : BackrefRequest}
    (hq : q ∈ s.requests) {e : Entity} (he : s.withInverses.entity? q.target = some e)
    (w : Warning) : ¬ s.withInverses.Warns e q.inverse w := by
  have hrelation : q.inverse.relation? =
      some { relatedType := q.source, backref := some q.field.name } := rfl
  rintro (h | h | h)
  · obtain ⟨r, hr, -, hentity, -⟩ := dangling?_eq_some_iff.mp h
    obtain rfl := Option.some.inj (hrelation.symm.trans hr)
    obtain ⟨e₀, he₀, -, -⟩ := mem_requests_iff.mp hq
    obtain ⟨e', he', -⟩ := exists_entity?_withInverses hs hnamed he₀
    rw [entity?] at he'
    rw [hasEntity, Table.contains, he'] at hentity
    exact absurd hentity (by simp)
  · obtain ⟨o, ho, -⟩ := ignoredThreshold?_eq_some_iff.mp h
    exact absurd ho (by simp [Field.operator?, hrelation])
  · obtain ⟨r, b, related, g, hr, hb, -, -, hrelated, hg, hother, -⟩ := shadowed?_eq_some_iff.mp h
    obtain rfl := Option.some.inj (hrelation.symm.trans hr)
    obtain rfl := Option.some.inj hb
    obtain ⟨hasking, htarget⟩ := get?_inverse_backref hs hnamed hq hrelated
    obtain rfl := Option.some.inj (hasking.symm.trans hg)
    rw [(ownNames_withInverses hs hnamed _ (Table.get?_eq_some_iff.mp he)).1] at hother
    exact hother htarget

/-! ## Answers and reports -/

/-- **The backref of a field names a field of the target**, which relates back, unless the field was
declared. -/
theorem exists_get?_backref (hs : s.OwnNames) (hnamed : s.BackrefsNamed) {name : String}
    {e : Entity} (he : s.withInverses.entity? name = some e) {f : Field} (hf : f ∈ e.fields.values)
    {r : Relation} (hr : f.relation? = some r) {b : String} (hb : r.backref = some b)
    {related : Entity} (hrelated : s.withInverses.entity? r.relatedType = some related) :
    ∃ g, related.fields.get? b = some g ∧ (r.relatedType ≠ "" ∨ g.relatedType? = some name) := by
  obtain ⟨e₀, he₀, -, -⟩ := fields_withInverses hs hnamed he
  obtain hf | ⟨q, hq, rfl⟩ := (mem_values_withInverses_iff hs hnamed he₀ he).mp hf
  · have hrequest : f.request? name = some ⟨r.relatedType, b, name, f⟩ :=
      Field.request?_eq_some_iff.mpr ⟨r, hr, hb, rfl, rfl, rfl⟩
    have hq : ⟨r.relatedType, b, name, f⟩ ∈ s.requests :=
      mem_requests_iff.mpr ⟨e₀, he₀, hf, hrequest⟩
    obtain ⟨g, hg⟩ := Option.isSome_iff_exists.mp (contains_backref hs hnamed hq hrelated)
    exact ⟨g, hg, .inl (hnamed _ hq).1⟩
  · obtain ⟨hmem, rfl⟩ := mem_of_mem_firstRequests hq
    obtain rfl := Option.some.inj hr
    obtain rfl := Option.some.inj hb
    obtain ⟨hasking, htarget⟩ := get?_inverse_backref hs hnamed hmem hrelated
    exact ⟨q.field, hasking, .inr htarget⟩

/-- **A field is reported as shadowed exactly if what it names does not relate back.** -/
theorem mem_shadowed_iff (hs : s.OwnNames) {name : String} {e : Entity}
    (he : s.entity? name = some e) {f : Field} (hf : f ∈ e.fields.values) {r : Relation}
    (hr : f.relation? = some r) {b : String} (hb : r.backref = some b) (hne : b ≠ "")
    {related : Entity} (hrelated : s.entity? r.relatedType = some related) {g : Field}
    (hg : related.fields.get? b = some g)
    (htype : r.relatedType ≠ "" ∨ g.relatedType? = some name) :
    .shadowed r.relatedType b name f.name ∈ s.validate.warnings ↔ g.relatedType? ≠ some name := by
  obtain ⟨hname, hget⟩ := hs.get?_eq_some he hf
  rw [mem_warnings_iff (by simp [Warning.field?])]
  constructor
  · rintro ⟨name', e', he', f', hf', hwarns⟩
    -- the warning names the entity and the field, so it is about these
    obtain ⟨hname', hget'⟩ := hs.get?_eq_some he' hf'
    obtain ⟨hentity, hfield⟩ := Prod.mk.inj (Option.some.inj hwarns.field?)
    obtain rfl : name = name' := hentity.trans hname'
    obtain rfl := Option.some.inj (he.symm.trans he')
    rw [← hfield, hget] at hget'
    obtain rfl := Option.some.inj hget'
    obtain h | h | h := hwarns
    · obtain ⟨_, -, -, -, h⟩ := dangling?_eq_some_iff.mp h
      cases h
    · obtain ⟨_, -, -, -, h⟩ := ignoredThreshold?_eq_some_iff.mp h
      cases h
    · obtain ⟨r', b', related', g', hr', hb', -, -, hrelated', hg', hother, -⟩ :=
        shadowed?_eq_some_iff.mp h
      obtain rfl := Option.some.inj (hr.symm.trans hr')
      obtain rfl := Option.some.inj (hb.symm.trans hb')
      obtain rfl := Option.some.inj (hrelated.symm.trans hrelated')
      obtain rfl := Option.some.inj (hg.symm.trans hg')
      rwa [hname] at hother
  · intro hother
    refine ⟨name, e, he, f, hf, .inr (.inr (shadowed?_eq_some_iff.mpr ?_))⟩
    exact ⟨r, b, related, g, hr, hb, hne, htype.resolve_right hother, hrelated, hg,
      hname.symm ▸ hother, by rw [hname]⟩

/-- **Every backref is answered or reported.**  If a field of an assembled schema has a backref and
a target in the schema, the target has a field under that name, and the field is reported as
shadowed exactly if that one does not relate back.  And no warning about a field is about an inverse
field: it names a field of the schema as written. -/
theorem backref_of_assemble {raw : Record} {check : Bool} {s : Schema}
    (h : assemble raw check = .ok s) :
    (∀ name e, s.entity? name = some e → ∀ f ∈ e.fields.values, ∀ r, f.relation? = some r →
      ∀ b, r.backref = some b → b ≠ "" → ∀ related, s.entity? r.relatedType = some related →
        ∃ g, related.fields.get? b = some g ∧
          (.shadowed r.relatedType b name f.name ∈ s.validate.warnings ↔
            g.relatedType? ≠ some name)) ∧
    ∃ written, declare raw = .ok written ∧ ∀ w ∈ s.validate.warnings, ∀ owner field,
      w.field? = some (owner, field) →
        ∃ e, written.entity? owner = some e ∧ field ∈ e.fields.keys := by
  obtain ⟨written, hwritten, -, rfl⟩ := assemble_eq_ok_iff.mp h
  have hown := ownNames_of_declare hwritten
  have hnamed := backrefsNamed_of_declare hwritten
  have hown' := ownNames_withInverses hown hnamed
  refine ⟨?_, written, hwritten, ?_⟩
  · intro name e he f hf r hr b hb hne related hrelated
    obtain ⟨g, hg, htype⟩ := exists_get?_backref hown hnamed he hf hr hb hrelated
    exact ⟨g, hg, mem_shadowed_iff hown' he hf hr hb hne hrelated hg htype⟩
  · intro w hw owner field hfield
    obtain ⟨name, e', he', f, hf, hwarns⟩ := (mem_warnings_iff (by simp [hfield])).mp hw
    obtain ⟨rfl, rfl⟩ := Prod.mk.inj (Option.some.inj (hfield.symm.trans hwarns.field?))
    obtain ⟨hname, -⟩ := hown'.get?_eq_some he' hf
    obtain ⟨e, he, -, -⟩ := fields_withInverses hown hnamed he'
    obtain hf | ⟨q, hq, rfl⟩ := (mem_values_withInverses_iff hown hnamed he he').mp hf
    · have hget := (hown.get?_eq_some he hf).2
      exact ⟨e, hname ▸ he, Table.contains_iff.mp (Option.isSome_of_eq_some hget)⟩
    · obtain ⟨hmem, rfl⟩ := mem_of_mem_firstRequests hq
      exact absurd hwarns (not_warns_inverse hown hnamed hmem he' w)

/-- A field asks for the name of a number, another one for an inverse field. -/
def shelf : Record :=
  ⟨[("Post", .map [("author", .text "->Author.posts"), ("tags", .text "->Tag.posts[]")]),
    ("Author", .map [("posts", .text "int")]), ("Tag", .map [])], by decide⟩

theorem backref_of_assemble_shelf : ∃ s e posts, assemble shelf = .ok s ∧
    s.entity? "Author" = some e ∧ e.fields.get? "posts" = some posts ∧
    .shadowed "Author" "posts" "Post" "author" ∈ s.validate.warnings := by
  obtain ⟨s, hs, hfacts⟩ := exists_ok_of_any (x := assemble shelf)
    (p := fun s => (s.entity? "Author").any fun related =>
      related.fields.get? "posts" = some { name := "posts", type := "int" } &&
      (s.entity? "Post").any fun e => e.fields.values.any fun f => f.relation?.any fun r =>
        f.name = "author" ∧ r.backref = some "posts" ∧ r.relatedType = "Author")
    (by decide +kernel)
  obtain ⟨related, hrelated, hfacts⟩ := (Option.any_eq_true ..).mp hfacts
  rw [Bool.and_eq_true, decide_eq_true_iff] at hfacts
  obtain ⟨hposts, hfacts⟩ := hfacts
  obtain ⟨e, he, hfacts⟩ := (Option.any_eq_true ..).mp hfacts
  obtain ⟨f, hf, hfacts⟩ := List.any_eq_true.mp hfacts
  obtain ⟨r, hr, hfacts⟩ := (Option.any_eq_true ..).mp hfacts
  obtain ⟨hname, hb, htype⟩ := of_decide_eq_true hfacts
  obtain ⟨g, hg, hshadowed⟩ := (backref_of_assemble hs).1 "Post" e he f hf r hr "posts" hb
    (by decide) related (htype ▸ hrelated)
  obtain rfl := Option.some.inj (hposts.symm.trans hg)
  rw [htype, hname] at hshadowed
  exact ⟨s, related, _, hs, hrelated, hposts, hshadowed.mpr (by decide)⟩

end Schema

end EntitySchema
