import EntitySchema.Proofs.Grammar.Target
import EntitySchema.Proofs.Schema.Backref
import EntitySchema.Schema.Assembly

/-!
# Proofs/Schema/Assembly — the fields of an assembled schema

    record ──declare──▸ schema as written ──withInverses──▸ assembled schema

Checking references refuses a schema or leaves it as it is, so an assembled schema is the schema as
written with its inverse fields (`assemble_eq_ok_iff`).  Hence every entity has the fields of its
declaration and, behind them, one inverse field for each request that comes first
(`fields_of_assemble`).
-/

namespace EntitySchema.Schema

theorem backrefsNamed_of_declare {raw : Record} {s : Schema} (h : declare raw = .ok s) :
    s.BackrefsNamed := by
  intro q hq
  obtain ⟨e, he, hf, hrequest⟩ := mem_requests_iff.mp hq
  obtain ⟨p, hp, hpf⟩ := List.mem_map.mp hf
  obtain ⟨v, hv⟩ := (declared_of_declare h _ (Table.get?_eq_some_iff.mp he)).2 p hp
  obtain ⟨r, hr, hbackref, htarget, -, -⟩ := Field.request?_eq_some_iff.mp hrequest
  obtain ⟨hbackref, htarget'⟩ := Field.backrefNamed_of_ofValue hv (hpf ▸ hr) _ hbackref
  exact ⟨htarget ▸ htarget', hbackref⟩

theorem assemble_eq_ok_iff {raw : Record} {check : Bool} {s : Schema} :
    assemble raw check = .ok s ↔ ∃ written, declare raw = .ok written ∧
      (check = true → written.referenceErrors = []) ∧ s = written.withInverses := by
  rw [assemble, assembleSteps]
  cases hwritten : declare raw with
  | error cause => simp
  | ok written =>
    have hcomplete : (Except.ok written.complete.1 : Except SchemaError Schema) = .ok s ↔
        s = written.withInverses := by
      rw [Except.ok.injEq]
      exact eq_comm
    match check with
    | false => simpa using hcomplete
    | true =>
      dsimp only
      rw [if_pos rfl, checkReferences]
      match herrors : written.referenceErrors with
      | [] => simpa [herrors] using hcomplete
      | e :: es => simp [herrors]

/-- **Every entity of an assembled schema has the fields of its declaration, and then the inverse
fields that are asked for first.**  Only declared fields ask (`written.requests`), in order of the
entities and of their fields; each inverse field stands under the name that is asked for and leads
back to the asking field.  Everything stands under its own name, and completing the schema once
more adds nothing. -/
theorem fields_of_assemble {raw : Record} {check : Bool} {s : Schema}
    (h : assemble raw check = .ok s) :
    ∃ written, declare raw = .ok written ∧
      s.entityNames = (raw.keys.filter fun name => !isSetting name) ∧
      written.entityNames = s.entityNames ∧
      (∀ name e', s.entity? name = some e' → ∃ v e, raw.get? name = some v ∧
        Entity.ofValue name v = .ok e ∧ written.entity? name = some e ∧
        e' = { e with fields := e'.fields } ∧
        e'.fields.entries = e.fields.entries ++
          (firstRequests written.requests name e).map fun q =>
            (q.backref,
              { name := q.backref, type := q.source, modifiers := { array := true }
                shape := .relation { relatedType := q.source, backref := some q.field.name } })) ∧
      s.OwnNames ∧ s.complete = (s, []) := by
  obtain ⟨written, hwritten, -, rfl⟩ := assemble_eq_ok_iff.mp h
  have hown := ownNames_of_declare hwritten
  have hnamed := backrefsNamed_of_declare hwritten
  have hnames := entityNames_withInverses hown hnamed
  refine ⟨written, hwritten, hnames.trans (entityNames_of_declare hwritten), hnames.symm, ?_,
    ownNames_withInverses hown hnamed, complete_withInverses hown hnamed⟩
  intro name e' he'
  obtain ⟨e, he, hsame, hfields⟩ := fields_withInverses hown hnamed he'
  obtain ⟨v, hv, hdeclares⟩ := ofValue_of_declare hwritten (Table.get?_eq_some_iff.mp he)
  exact ⟨v, e, hv, hdeclares, he, hsame, hfields⟩

/-- Two fields that ask for one inverse field, one that asks its own entity, and two entities that
ask each other. -/
def blog : Record :=
  ⟨[("$version", .number (.int 1)),
    ("Post", .map [("author", .text "->Author.posts"), ("editor", .text "Author.posts?"),
      ("parent", .text "Post.children")]),
    ("Author", .map [("name", .text "string"), ("likes", .list [.text "~>Post.fans"])])], by decide⟩

theorem exists_ok_of_any {α ε : Type} {x : Except ε α} {p : α → Bool}
    (h : x.toOption.any p = true) : ∃ a, x = .ok a ∧ p a = true := by
  match x with
  | .error e => exact absurd h (by simp [Except.toOption])
  | .ok a => exact ⟨a, rfl, h⟩

theorem fields_of_assemble_blog : ∃ s, assemble blog = .ok s ∧ s.OwnNames ∧ s.complete = (s, []) ∧
    (s.entity? "Post").map (·.fields.keys)
      = some ["author", "editor", "parent", "children", "fans"] ∧
    (s.entity? "Author").map (·.fields.keys) = some ["name", "likes", "posts"] := by
  obtain ⟨s, hs, hkeys⟩ := exists_ok_of_any (x := assemble blog)
    (p := fun s => decide ((s.entity? "Post").map (·.fields.keys)
        = some ["author", "editor", "parent", "children", "fans"] ∧
      (s.entity? "Author").map (·.fields.keys) = some ["name", "likes", "posts"]))
    (by decide +kernel)
  obtain ⟨-, -, -, -, -, hown, hcomplete⟩ := fields_of_assemble hs
  exact ⟨s, hs, hown, hcomplete, of_decide_eq_true hkeys⟩

end EntitySchema.Schema
