import EntitySchema.Proofs.Dependency.Links
import EntitySchema.Proofs.Schema.Assembly
import EntitySchema.Proofs.Validation

/-!
# Proofs/Dependency/Inverse — what inverse fields demand

    asking field ──request──▸ inverse field ──isInverseSide?──▸ no demand, or one back

An inverse field is the inverse side of a pair if the field that asked for it has an operator or
holds a single value, and then it demands nothing.  A list without an operator is as much of an
inverse as its inverse: neither side yields, and both demand each other (`hard_withInverses`).
-/

namespace EntitySchema

/-- Whether the inverse field yields to the asking one: it points back to it by a name, and that has
an operator or holds a single value. -/
def BackrefRequest.Yields (q : BackrefRequest) : Prop :=
  q.field.name ≠ "" ∧ (q.field.operator?.isSome ∨ q.field.modifiers.array = false)

instance (q : BackrefRequest) : Decidable q.Yields := inferInstanceAs (Decidable (_ ∧ _))

namespace Schema

open Dependency

variable {s : Schema}

/-- A finished entity has its declared fields and the inverse fields that are asked for first. -/
theorem entries_withInverses (hs : s.OwnNames) (hnamed : s.BackrefsNamed) {name : String}
    {e e' : Entity} (he : s.entity? name = some e) (he' : s.withInverses.entity? name = some e') :
    e'.fields.entries = e.fields.entries ++
      (firstRequests s.requests name e).map fun q => (q.backref, q.inverse) := by
  obtain ⟨e₀, he₀, -, hfields⟩ := fields_withInverses hs hnamed he'
  obtain rfl : e = e₀ := Option.some.inj (he.symm.trans he₀)
  exact hfields

/-- A finished entity has the declared field under a name, or else an inverse field. -/
theorem get?_withInverses (hs : s.OwnNames) (hnamed : s.BackrefsNamed) {name : String}
    (key : String) {e e' : Entity} (he : s.entity? name = some e)
    (he' : s.withInverses.entity? name = some e') :
    e'.fields.get? key = e.fields.get? key ∨
      e.fields.get? key = none ∧ ∃ q : BackrefRequest, e'.fields.get? key = some q.inverse := by
  have hentries := entries_withInverses hs hnamed he he'
  cases hget : e.fields.get? key with
  | some f =>
    refine .inl (Table.get?_eq_some_iff.mpr ?_)
    rw [hentries]
    exact List.mem_append_left _ (Table.get?_eq_some_iff.mp hget)
  | none =>
    cases hget' : e'.fields.get? key with
    | none => exact .inl rfl
    | some f =>
      have hmem := Table.get?_eq_some_iff.mp hget'
      rw [hentries, List.mem_append] at hmem
      obtain hdeclared | hinverse := hmem
      · exact absurd (hget.symm.trans (Table.get?_eq_some_iff.mpr hdeclared)) (by simp)
      · obtain ⟨q, -, hq⟩ := List.mem_map.mp hinverse
        exact .inr ⟨rfl, q, congrArg some (Prod.mk.inj hq).2.symm⟩

theorem mem_values_withInverses_iff (hs : s.OwnNames) (hnamed : s.BackrefsNamed) {name : String}
    {e e' : Entity} {f : Field} (he : s.entity? name = some e)
    (he' : s.withInverses.entity? name = some e') : f ∈ e'.fields.values ↔
      f ∈ e.fields.values ∨ ∃ q ∈ firstRequests s.requests name e, q.inverse = f := by
  rw [Table.values, entries_withInverses hs hnamed he he', List.map_append, List.map_map,
    List.mem_append]
  exact or_congr_right List.mem_map

/-- **Inverse fields make no field an inverse side**, since they are lists without an operator. -/
theorem isInverseSide_withInverses (hs : s.OwnNames) (hnamed : s.BackrefsNamed) (owner : String)
    (f : Field) : s.withInverses.isInverseSide owner f = s.isInverseSide owner f := by
  rw [isInverseSide, isInverseSide]
  match f.relation? with
  | none => rfl
  | some r =>
    dsimp only
    refine if_congr Iff.rfl rfl ?_
    match he : s.entity? r.relatedType with
    | none =>
      have he' : s.withInverses.entity? r.relatedType = none := by
        rw [withInverses_eq_foldl hs hnamed, entity?_foldl_answer, he]
        rfl
      rw [he']
    | some e =>
      obtain ⟨e', he', -⟩ := exists_entity?_withInverses hs hnamed he
      rw [he', Option.bind_some, Option.bind_some]
      obtain hsame | ⟨hnone, q, hinverse⟩ :=
        get?_withInverses hs hnamed (r.backref.getD "") he he'
      · rw [hsame]
      · rw [hnone, hinverse]
        simp [BackrefRequest.inverse, Field.inverse, Field.operator?, Field.relation?,
          Shape.relation?]

theorem effectiveOperator_withInverses (hs : s.OwnNames) (hnamed : s.BackrefsNamed)
    (owner : String) (f : Field) :
    s.withInverses.effectiveOperator owner f = s.effectiveOperator owner f := by
  rw [effectiveOperator, effectiveOperator, isInverseSide_withInverses hs hnamed]

theorem demands_withInverses_iff (hs : s.OwnNames) (hnamed : s.BackrefsNamed) {owner d : String}
    {f : Field} : s.withInverses.Demands owner f d ↔ s.Demands owner f d := by
  rw [Demands, Demands, effectiveOperator_withInverses hs hnamed]

/-! ## Inverse fields that yield -/

theorem isInverseSide_inverse (hs : s.OwnNames) {q : BackrefRequest} (hq : q ∈ s.requests)
    (hsource : q.source ≠ "") : s.isInverseSide q.target q.inverse = decide q.Yields := by
  obtain ⟨e, he, hf, hrequest⟩ := mem_requests_iff.mp hq
  have hget := (hs.get?_eq_some he hf).2
  obtain ⟨r, hr, hbackref, htarget, -, -⟩ := Field.request?_eq_some_iff.mp hrequest
  have hback : q.field.backref? = some q.backref := by
    rw [Field.backref?, hr, Option.bind_some, hbackref]
  have hrelated : q.field.relatedType? = some q.target := by
    rw [Field.relatedType?, hr, Option.map_some, htarget]
  have hrelation : q.inverse.relation? =
      some { relatedType := q.source, backref := some q.field.name } := rfl
  have harray : q.inverse.modifiers.array = true := rfl
  have hinverse : q.inverse.name = q.backref := rfl
  rw [isInverseSide, hrelation]
  by_cases hname : q.field.name = ""
  · simp [BackrefRequest.Yields, hname]
  · simp [BackrefRequest.Yields, harray, hname, hsource, he, hget, hback, hrelated, hinverse]

/-- **An inverse field that does not yield demands its source.** -/
theorem demands_inverse_iff (hs : s.OwnNames) {q : BackrefRequest} (hq : q ∈ s.requests)
    {d : String} : s.Demands q.target q.inverse d ↔
      q.source = d ∧ ¬ q.Yields ∧ d ≠ "" ∧ isPrimitive d = false := by
  have hoperator : q.inverse.operator? = none := rfl
  constructor
  · rintro ⟨r, hr, rfl, hne, hprim, hop, -⟩
    obtain rfl := Option.some.inj hr
    rw [effectiveOperator, hoperator, Option.getD_none, isInverseSide_inverse hs hq hne] at hop
    refine ⟨rfl, fun hyields => ?_, hne, hprim⟩
    rw [decide_eq_true hyields, if_pos rfl] at hop
    exact absurd hop (by decide)
  · rintro ⟨rfl, hnot, hne, hprim⟩
    refine ⟨_, rfl, rfl, hne, hprim, ?_, rfl⟩
    rw [effectiveOperator, hoperator, Option.getD_none, isInverseSide_inverse hs hq hne,
      decide_eq_false hnot]
    rfl

/-- **A finished entity depends on what it did and on what its inverse fields demand.** -/
theorem mem_hard_withInverses_iff (hs : s.OwnNames) (hnamed : s.BackrefsNamed) {k d : String} :
    d ∈ s.withInverses.dependencyGraph.hard k ↔ d ∈ s.dependencyGraph.hard k ∨
      ∃ e, s.entity? k = some e ∧ ∃ q ∈ firstRequests s.requests k e,
        q.source = d ∧ ¬ q.Yields ∧ d ≠ "" ∧ isPrimitive d = false := by
  have hinverse : ∀ {e : Entity} {q : BackrefRequest}, q ∈ firstRequests s.requests k e →
      (s.withInverses.Demands k q.inverse d ↔
        q.source = d ∧ ¬ q.Yields ∧ d ≠ "" ∧ isPrimitive d = false) := by
    intro e q hq
    obtain ⟨hmem, rfl⟩ := mem_of_mem_firstRequests hq
    rw [demands_withInverses_iff hs hnamed, demands_inverse_iff hs hmem]
  rw [mem_hard_dependencyGraph_iff, mem_hard_dependencyGraph_iff]
  constructor
  · rintro ⟨e', he', f, hf, hdemands⟩
    obtain ⟨e, he, -, -⟩ := fields_withInverses hs hnamed he'
    obtain hf | ⟨q, hq, rfl⟩ := (mem_values_withInverses_iff hs hnamed he he').mp hf
    · exact .inl ⟨e, he, f, hf, (demands_withInverses_iff hs hnamed).mp hdemands⟩
    · exact .inr ⟨e, he, q, hq, (hinverse hq).mp hdemands⟩
  · rintro (⟨e, he, f, hf, hdemands⟩ | ⟨e, he, q, hq, hdemands⟩)
    · obtain ⟨e', he', -⟩ := exists_entity?_withInverses hs hnamed he
      have hf' := (mem_values_withInverses_iff hs hnamed he he').mpr (.inl hf)
      exact ⟨e', he', f, hf', (demands_withInverses_iff hs hnamed).mpr hdemands⟩
    · obtain ⟨e', he', -⟩ := exists_entity?_withInverses hs hnamed he
      have hq' := (mem_values_withInverses_iff hs hnamed he he').mpr (.inr ⟨q, hq, rfl⟩)
      exact ⟨e', he', q.inverse, hq', (hinverse hq).mpr hdemands⟩

/-! ## Cycles -/

/-- Schemas with the same requirements both have errors or both have none. -/
theorem errors_ne_nil_congr {s s' : Schema} (h : ∀ k d, s.Requires k d ↔ s'.Requires k d) :
    s.validate.errors ≠ [] ↔ s'.validate.errors ≠ [] := by
  have hrequires : s.Requires = s'.Requires := by
    ext k d
    exact h k d
  rw [errors_ne_nil_iff, errors_ne_nil_iff, hrequires]

/-- No field has the name of an optional one. -/
def PlainNames (s : Schema) : Prop :=
  ∀ name e, s.entity? name = some e → ∀ key ∈ e.fields.keys, key.toList.getLast? ≠ some '?'

instance (s : Schema) : Decidable s.PlainNames :=
  decidable_of_iff (∀ p ∈ s.entities.entries, ∀ key ∈ p.2.fields.keys,
      key.toList.getLast? ≠ some '?')
    ⟨fun h _ _ he => h _ (Table.get?_eq_some_iff.mp he),
      fun h p hp => h p.1 p.2 (Table.get?_eq_some_iff.mpr hp)⟩

theorem requires_withInverses_iff (hs : s.OwnNames) (hnamed : s.BackrefsNamed)
    (hplain : s.PlainNames)
    (hyields : ∀ k e, s.entity? k = some e → ∀ q ∈ firstRequests s.requests k e, q.Yields)
    (k d : String) : s.withInverses.Requires k d ↔ s.Requires k d := by
  have hnames : ∀ e, s.entity? k = some e → ∀ p ∈ e.fields.entries, s.Demands k p.2 d →
      p.1.toList.getLast? ≠ some '?' := fun e he p hp _ =>
    hplain k e he p.1 (List.mem_map_of_mem hp)
  have hnames' : ∀ e', s.withInverses.entity? k = some e' → ∀ p ∈ e'.fields.entries,
      s.withInverses.Demands k p.2 d → p.1.toList.getLast? ≠ some '?' := by
    intro e' he' p hp hdemands
    obtain ⟨e, he, -, hfields⟩ := fields_withInverses hs hnamed he'
    rw [hfields, List.mem_append] at hp
    obtain hp | hp := hp
    · exact hnames e he p hp ((demands_withInverses_iff hs hnamed).mp hdemands)
    · obtain ⟨q, hq, rfl⟩ := List.mem_map.mp hp
      obtain ⟨hmem, rfl⟩ := mem_of_mem_firstRequests hq
      rw [demands_withInverses_iff hs hnamed, demands_inverse_iff hs hmem] at hdemands
      exact absurd (hyields _ e he q hq) hdemands.2.1
  rw [Requires, Requires, mem_dependencies_iff hnames, mem_dependencies_iff hnames',
    mem_hard_withInverses_iff hs hnamed]
  refine or_iff_left ?_
  rintro ⟨e, he, q, hq, -, hnot, -⟩
  exact hnot (hyields k e he q hq)

/-- **Inverse fields add the dependencies of those that do not yield, and no others.**  If all
yield, the graph has a cycle exactly if that of the schema as written has one, and the finished
schema is refused exactly if the schema as written is; the last is said of schemas where no field
has the name of an optional one. -/
theorem hard_withInverses {raw : Record} {written : Schema} (h : declare raw = .ok written) :
    (∀ k d, d ∈ written.withInverses.dependencyGraph.hard k ↔
      d ∈ written.dependencyGraph.hard k ∨ ∃ e, written.entity? k = some e ∧
        ∃ q ∈ firstRequests written.requests k e,
          q.source = d ∧ ¬ q.Yields ∧ d ≠ "" ∧ isPrimitive d = false) ∧
    ((∀ k e, written.entity? k = some e → ∀ q ∈ firstRequests written.requests k e, q.Yields) →
      written.withInverses.dependencyGraph.hasCycles = written.dependencyGraph.hasCycles ∧
      (written.PlainNames →
        (written.withInverses.validate.errors ≠ [] ↔ written.validate.errors ≠ []))) := by
  have hown := ownNames_of_declare h
  have hnamed := backrefsNamed_of_declare h
  have hhard := fun k d => mem_hard_withInverses_iff hown hnamed (k := k) (d := d)
  refine ⟨hhard, fun hyields => ⟨?_, fun hplain => ?_⟩⟩
  · refine Graph.hasCycles_congr fun k d => (hhard k d).trans (or_iff_left ?_)
    rintro ⟨e, he, q, hq, -, hnot, -⟩
    exact hnot (hyields k e he q hq)
  · exact errors_ne_nil_congr (requires_withInverses_iff hown hnamed hplain hyields)

theorem hard_withInverses_blog : ∃ written, declare blog = .ok written ∧
    (∀ d, d ∈ written.withInverses.dependencyGraph.hard "Post" ↔
      d ∈ written.dependencyGraph.hard "Post") ∧
    written.withInverses.dependencyGraph.hasCycles = written.dependencyGraph.hasCycles ∧
    (written.withInverses.validate.errors ≠ [] ↔ written.validate.errors ≠ []) := by
  obtain ⟨written, hwritten, hfacts⟩ := exists_ok_of_any (x := declare blog)
    (p := fun written =>
      (written.entities.entries.all fun p =>
        (firstRequests written.requests p.1 p.2).all fun q => decide q.Yields) &&
      written.entities.entries.all fun p =>
        p.2.fields.keys.all fun key => decide (key.toList.getLast? ≠ some '?'))
    (by decide +kernel)
  rw [Bool.and_eq_true, List.all_eq_true, List.all_eq_true] at hfacts
  have hyields : ∀ k e, written.entity? k = some e →
      ∀ q ∈ firstRequests written.requests k e, q.Yields := by
    intro k e he q hq
    have h := hfacts.1 _ (Table.get?_eq_some_iff.mp he)
    exact of_decide_eq_true (List.all_eq_true.mp h q hq)
  have hplain : written.PlainNames := by
    intro name e he key hkey
    have h := hfacts.2 _ (Table.get?_eq_some_iff.mp he)
    exact of_decide_eq_true (List.all_eq_true.mp h key hkey)
  obtain ⟨hhard, hcycles⟩ := hard_withInverses hwritten
  obtain ⟨hsame, herrors⟩ := hcycles hyields
  refine ⟨written, hwritten, fun d => (hhard "Post" d).trans (or_iff_left ?_), hsame,
    herrors hplain⟩
  rintro ⟨e, he, q, hq, -, hnot, -⟩
  exact hnot (hyields _ e he q hq)

/-- A list without an operator asks for an inverse field. -/
def tagged : Record :=
  ⟨[("Post", .map [("tags", .text "Tag.posts[]")]), ("Tag", .map [])], by decide⟩

/-- A field without a name asks for an inverse field. -/
def unnamed : Record :=
  ⟨[("Post", .map [("", .text "->Tag.posts")]), ("Tag", .map [])], by decide⟩

/-- **Two lists without operators demand each other**, so an inverse field closes a cycle that was
not there; and a field without a name has no inverse side. -/
theorem exists_hard_withInverses_ne :
    (∃ written, declare tagged = .ok written ∧
      ¬ (∀ k d, d ∈ written.withInverses.dependencyGraph.hard k ↔
        d ∈ written.dependencyGraph.hard k) ∧
      written.dependencyGraph.hasCycles = false ∧
      written.withInverses.dependencyGraph.hasCycles = true ∧
      written.validate.errors = [] ∧ written.withInverses.validate.errors ≠ []) ∧
    ∃ written, declare unnamed = .ok written ∧
      ¬ (∀ k d, d ∈ written.withInverses.dependencyGraph.hard k ↔
        d ∈ written.dependencyGraph.hard k) := by
  constructor
  · obtain ⟨written, hwritten, hfacts⟩ := exists_ok_of_any (x := declare tagged)
      (p := fun written => decide (
        ("Post" ∈ written.withInverses.dependencyGraph.hard "Tag" ∧
          "Post" ∉ written.dependencyGraph.hard "Tag") ∧
        written.dependencyGraph.hasCycles = false ∧
        written.withInverses.dependencyGraph.hasCycles = true ∧
        written.validate.errors = [] ∧ written.withInverses.validate.errors ≠ []))
      (by decide +kernel)
    obtain ⟨⟨hafter, hbefore⟩, hrest⟩ := of_decide_eq_true hfacts
    exact ⟨written, hwritten, fun h => hbefore ((h "Tag" "Post").mp hafter), hrest⟩
  · obtain ⟨written, hwritten, hfacts⟩ := exists_ok_of_any (x := declare unnamed)
      (p := fun written => decide ("Post" ∈ written.withInverses.dependencyGraph.hard "Tag" ∧
        "Post" ∉ written.dependencyGraph.hard "Tag"))
      (by decide +kernel)
    obtain ⟨hafter, hbefore⟩ := of_decide_eq_true hfacts
    exact ⟨written, hwritten, fun h => hbefore ((h "Tag" "Post").mp hafter)⟩

end Schema

end EntitySchema
