import EntitySchema.Proofs.Table
import EntitySchema.Proofs.Schema.Declaration
import EntitySchema.Schema.Backref

/-!
# Proofs/Schema/Backref — which inverse fields a schema gets

    declared fields ──requests──▸ one request after another ──answer──▸ withInverses

Visiting the entities answers the requests of the declared fields, in order, and nothing else
(`withInverses_eq_foldl`): an inverse field asks for a field that is there already.  An answer adds
one field at the end of its target, unless the name is taken, so a target gets the first request
for each name it does not declare (`fields_withInverses`), and then no request is left
(`complete_withInverses`).
-/

namespace EntitySchema

/-! ## Requests -/

/-- A field that asks for an inverse field. -/
structure BackrefRequest where
  /-- The entity that shall have the inverse field. -/
  target : String
  /-- The name of the inverse field. -/
  backref : String
  /-- The entity with the asking field. -/
  source : String
  /-- The asking field. -/
  field : Field
deriving DecidableEq

/-- The inverse field that a request asks for. -/
def BackrefRequest.inverse (q : BackrefRequest) : Field := q.field.inverse q.source q.backref

/-- What a field of `source` asks for. -/
def Field.request? (source : String) (f : Field) : Option BackrefRequest :=
  f.relation?.bind fun r => r.backref.map fun backref => ⟨r.relatedType, backref, source, f⟩

/-- The requests of the fields of an entity, in order. -/
def Entity.requests (source : String) (e : Entity) : List BackrefRequest :=
  e.fields.values.filterMap (Field.request? source)

/-- The requests of all fields, in order of declaration. -/
def Schema.requests (s : Schema) : List BackrefRequest :=
  s.entities.entries.flatMap fun p => p.2.requests p.1

/-- Of requests the first one for each field of `target` that the entity `e` there does not have. -/
def firstRequests (qs : List BackrefRequest) (target : String) (e : Entity) : List BackrefRequest :=
  ((qs.filter fun q => q.target = target).filter fun q => !e.fields.contains q.backref).eraseDupsBy
    fun q q' => q.backref == q'.backref

/-- Adds a field at the end, unless its name is taken. -/
def Entity.answer (e : Entity) (q : BackrefRequest) : Entity :=
  { e with fields := if e.fields.contains q.backref then e.fields
      else e.fields.insert q.backref q.inverse }

/-- Answers a request. -/
def Schema.answer (s : Schema) (q : BackrefRequest) : Schema :=
  { s with entities := s.entities.modify q.target (·.answer q) }

theorem Field.request?_eq_some_iff {source : String} {f : Field} {q : BackrefRequest} :
    f.request? source = some q ↔ ∃ r, f.relation? = some r ∧ r.backref = some q.backref ∧
      r.relatedType = q.target ∧ source = q.source ∧ f = q.field := by
  rw [request?, Option.bind_eq_some_iff]
  refine exists_congr fun r => and_congr_right fun _ => ?_
  rw [Option.map_eq_some_iff]
  constructor
  · rintro ⟨backref, hbackref, rfl⟩
    exact ⟨hbackref, rfl, rfl, rfl⟩
  · rintro ⟨hbackref, htarget, rfl, rfl⟩
    exact ⟨q.backref, hbackref, by rw [htarget]⟩

theorem Entity.mem_requests_iff {source : String} {e : Entity} {q : BackrefRequest} :
    q ∈ e.requests source ↔ q.field ∈ e.fields.values ∧ q.field.request? source = some q := by
  rw [requests, List.mem_filterMap]
  constructor
  · rintro ⟨f, hf, hq⟩
    obtain ⟨r, -, -, -, -, rfl⟩ := Field.request?_eq_some_iff.mp hq
    exact ⟨hf, hq⟩
  · rintro ⟨hf, hq⟩
    exact ⟨q.field, hf, hq⟩

theorem Schema.mem_requests_iff {s : Schema} {q : BackrefRequest} : q ∈ s.requests ↔
    ∃ e, s.entity? q.source = some e ∧ q.field ∈ e.fields.values ∧
      q.field.request? q.source = some q := by
  rw [requests, List.mem_flatMap]
  constructor
  · rintro ⟨⟨source, e⟩, he, hq⟩
    obtain ⟨hf, hq⟩ := Entity.mem_requests_iff.mp hq
    obtain ⟨r, -, -, -, rfl, -⟩ := Field.request?_eq_some_iff.mp hq
    exact ⟨e, Table.get?_eq_some_iff.mpr he, hf, hq⟩
  · rintro ⟨e, he, hf, hq⟩
    exact ⟨(q.source, e), Table.get?_eq_some_iff.mp he, Entity.mem_requests_iff.mpr ⟨hf, hq⟩⟩

theorem sublist_eraseDupsBy {α : Type} (r : α → α → Bool) :
    ∀ l : List α, (l.eraseDupsBy r).Sublist l
  | [] => .slnil
  | a :: l => by
      rw [List.eraseDupsBy_cons]
      exact ((sublist_eraseDupsBy r _).trans List.filter_sublist).cons_cons a
termination_by l => l.length
decreasing_by
  exact Nat.lt_succ_of_le (List.length_filter_le ..)

theorem mem_of_mem_firstRequests {qs : List BackrefRequest} {target : String} {e : Entity}
    {q : BackrefRequest}
    (hq : q ∈ firstRequests qs target e) : q ∈ qs ∧ q.target = target := by
  have hmem := (List.mem_filter.mp ((sublist_eraseDupsBy _ _).subset hq)).1
  obtain ⟨hq, htarget⟩ := List.mem_filter.mp hmem
  exact ⟨hq, by simpa using htarget⟩

/-! ## One answer -/

namespace Entity

@[simp] theorem contains_answer (e : Entity) (q : BackrefRequest) (key : String) :
    (e.answer q).fields.contains key = (decide (q.backref = key) || e.fields.contains key) := by
  rw [answer]
  split_ifs with hhas
  · by_cases hkey : q.backref = key
    · simp [← hkey, hhas]
    · simp [hkey]
  · exact Table.contains_insert ..

/-- **An entity gets the first field for each name it does not have**, at the end. -/
theorem fields_foldl_answer (qs : List BackrefRequest) : ∀ e : Entity,
    (qs.foldl answer e).fields.entries = e.fields.entries ++
      ((qs.filter fun q => !e.fields.contains q.backref).eraseDupsBy
        fun q q' => q.backref == q'.backref).map fun q => (q.backref, q.inverse) := by
  induction qs with
  | nil => intro e; simp [List.eraseDupsBy, List.eraseDupsBy.loop]
  | cons q qs ih =>
    intro e
    rw [List.foldl_cons, ih]
    by_cases hhas : e.fields.contains q.backref
    · have hsame : e.answer q = e := by rw [answer, if_pos hhas]
      rw [hsame, List.filter_cons_of_neg (by simp [hhas])]
    · have hentries :
          (e.answer q).fields.entries = e.fields.entries ++ [(q.backref, q.inverse)] := by
        rw [answer, if_neg hhas]
        exact Table.entries_insert (fun hmem => hhas (Table.contains_iff.mpr hmem)) _
      rw [hentries, List.filter_cons_of_pos (by simpa using hhas), List.eraseDupsBy_cons,
        List.filter_filter, List.map_cons, List.append_assoc, List.singleton_append]
      have hfilter : (qs.filter fun q' => !(e.answer q).fields.contains q'.backref) =
          qs.filter fun q' =>
            decide ((q'.backref == q.backref) = false) && !e.fields.contains q'.backref := by
        refine List.filter_congr fun q' _ => ?_
        rw [contains_answer, Bool.not_or]
        by_cases heq : q'.backref = q.backref <;> simp [heq, Ne.symm]
      rw [hfilter]

theorem contains_foldl_answer (qs : List BackrefRequest) (key : String) : ∀ e : Entity,
    (qs.foldl answer e).fields.contains key ↔
      (∃ q ∈ qs, q.backref = key) ∨ e.fields.contains key := by
  induction qs with
  | nil => simp
  | cons q qs ih =>
    intro e
    rw [List.foldl_cons, ih, contains_answer, Bool.or_eq_true, decide_eq_true_iff,
      List.exists_mem_cons_iff, or_assoc, or_left_comm]

end Entity

namespace Schema

@[simp] theorem entityNames_answer (s : Schema) (q : BackrefRequest) :
    (s.answer q).entityNames = s.entityNames := Table.keys_mapValues ..

/-- An answer changes its target only. -/
theorem entity?_answer (s : Schema) (q : BackrefRequest) (name : String) :
    (s.answer q).entity? name =
      if name = q.target then (s.entity? name).map (·.answer q) else s.entity? name :=
  Table.get?_modify ..

theorem entity?_foldl_answer (qs : List BackrefRequest) (name : String) : ∀ s : Schema,
    (qs.foldl answer s).entity? name =
      (s.entity? name).map ((qs.filter fun q => q.target = name).foldl Entity.answer) := by
  induction qs with
  | nil => intro s; simp
  | cons q qs ih =>
    intro s
    rw [List.foldl_cons, ih, entity?_answer]
    by_cases hname : name = q.target
    · rw [if_pos hname, List.filter_cons_of_pos (by simp [hname]), Option.map_map]
      rfl
    · rw [if_neg hname, List.filter_cons_of_neg (by simpa using Ne.symm hname)]

/-- **An entity keeps its fields and gets the first one that is asked for under each new name.** -/
theorem fields_foldl_answer {s : Schema} {qs : List BackrefRequest} {name : String} {e' : Entity}
    (he' : (qs.foldl answer s).entity? name = some e') :
    ∃ e, s.entity? name = some e ∧ e' = { e with fields := e'.fields } ∧
      e'.fields.entries = e.fields.entries ++
        (firstRequests qs name e).map fun q => (q.backref, q.inverse) := by
  rw [entity?_foldl_answer] at he'
  obtain ⟨e, he, rfl⟩ := Option.map_eq_some_iff.mp he'
  refine ⟨e, he, ?_, Entity.fields_foldl_answer _ e⟩
  refine List.foldlRecOn (motive := fun t : Entity => t = { e with fields := t.fields }) _ _ rfl ?_
  intro t ht q _
  rw [ht]
  rfl

/-- Fields stay, and a request that was answered leaves one under its name. -/
theorem contains_foldl_answer {s : Schema} {qs : List BackrefRequest} {name key : String}
    {e' : Entity} (he' : (qs.foldl answer s).entity? name = some e') :
    e'.fields.contains key ↔ (∃ q ∈ qs, q.target = name ∧ q.backref = key) ∨
      ∃ e, s.entity? name = some e ∧ e.fields.contains key := by
  rw [entity?_foldl_answer] at he'
  obtain ⟨e, he, rfl⟩ := Option.map_eq_some_iff.mp he'
  rw [Entity.contains_foldl_answer]
  simp [he, and_assoc]

/-! ## One entity after another -/

/-- A request that is met already is answered by nothing. -/
theorem answer_eq_self {s : Schema} {q : BackrefRequest}
    (h : ∀ e, s.entity? q.target = some e → e.fields.contains q.backref) : s.answer q = s := by
  have hid : s.entities.modify q.target (·.answer q) = s.entities.modify q.target id :=
    Table.modify_congr fun e he => by
      rw [Entity.answer, if_pos (h e he)]
      rfl
  rw [answer, hid, Table.modify_id]

/-- Each inverse field that is asked for and the entity that shall have it are named. -/
def BackrefsNamed (s : Schema) : Prop := ∀ q ∈ s.requests, q.target ≠ "" ∧ q.backref ≠ ""

theorem missingInverse?_eq {s : Schema} {source : String} {f : Field} :
    s.missingInverse? source f = (f.request? source).bind fun q =>
      (s.entity? q.target).bind fun e =>
        if q.target = "" ∨ q.backref = "" ∨ e.fields.contains q.backref then none
        else some ⟨q.target, q.backref, source⟩ := by
  rw [missingInverse?, Field.request?]
  cases f.relation? with
  | none => rfl
  | some r =>
    cases hbackref : r.backref with
    | none => simp [hbackref]
    | some backref => simp [hbackref]

/-- A field without a request, or with one that is met, finds what it asks for. -/
theorem missingInverse?_eq_none {s : Schema} {source : String} {f : Field}
    (h : ∀ q, f.request? source = some q →
      ∀ e, s.entity? q.target = some e → e.fields.contains q.backref) :
    s.missingInverse? source f = none := by
  rw [missingInverse?_eq, Option.bind_eq_none_iff]
  intro q hq
  rw [Option.bind_eq_none_iff]
  intro e he
  exact if_pos (.inr (.inr (h q hq e he)))

theorem completeFields_cons {s : Schema} {source : String} {f : Field} {q : BackrefRequest}
    (hq : f.request? source = some q) (htarget : q.target ≠ "") (hbackref : q.backref ≠ "")
    (fs : List Field) :
    (completeFields source (f :: fs) s).1 = (completeFields source fs (s.answer q)).1 := by
  have hmissing : s.missingInverse? source f = (s.entity? q.target).bind fun e =>
      if e.fields.contains q.backref then none else some ⟨q.target, q.backref, source⟩ := by
    rw [missingInverse?_eq, hq, Option.bind_some]
    simp only [htarget, hbackref, false_or]
  rw [completeFields]
  cases hmiss : s.missingInverse? source f with
  | none =>
    dsimp only
    rw [answer_eq_self]
    intro e he
    rw [hmissing, he] at hmiss
    simpa using hmiss
  | some i =>
    dsimp only
    rw [hmissing] at hmiss
    obtain ⟨e, he, hi⟩ := Option.bind_eq_some_iff.mp hmiss
    obtain ⟨hnew, hi⟩ := Option.ite_none_left_eq_some.mp hi
    obtain rfl := Option.some.inj hi
    obtain ⟨r, -, -, -, rfl, rfl⟩ := Field.request?_eq_some_iff.mp hq
    have hadd : s.addField q.target (q.field.inverse q.source q.backref) = s.answer q := by
      refine congrArg (fun t => { s with entities := t }) (Table.modify_congr fun e' he' => ?_)
      obtain rfl : e = e' := Option.some.inj (he.symm.trans he')
      rw [Entity.answer, if_neg hnew]
      rfl
    rw [hadd]

/-- Fields that ask for nothing new add nothing. -/
theorem completeFields_of_met {s : Schema} {source : String} : ∀ {fs : List Field},
    (∀ f ∈ fs, s.missingInverse? source f = none) → completeFields source fs s = (s, [])
  | [], _ => rfl
  | f :: fs, h => by
      rw [List.forall_mem_cons] at h
      rw [completeFields, h.1]
      exact completeFields_of_met h.2

theorem completeFields_append (source : String) (gs : List Field) :
    ∀ (fs : List Field) (s : Schema), (completeFields source (fs ++ gs) s).1 =
      (completeFields source gs (completeFields source fs s).1).1
  | [], _ => rfl
  | f :: fs, s => by
      rw [List.cons_append, completeFields, completeFields]
      split
      · exact completeFields_append source gs fs s
      · exact completeFields_append source gs fs _

/-- The fields of an entity have their requests answered. -/
theorem completeFields_eq_foldl (source : String) : ∀ {fs : List Field} {s : Schema},
    (∀ q ∈ fs.filterMap (Field.request? source), q.target ≠ "" ∧ q.backref ≠ "") →
    (completeFields source fs s).1 = (fs.filterMap (Field.request? source)).foldl answer s
  | [], _, _ => rfl
  | f :: fs, s, h => by
      match hq : f.request? source with
      | none =>
        rw [List.filterMap_cons_none hq] at h ⊢
        have hnone : s.missingInverse? source f = none :=
          missingInverse?_eq_none fun q hq' => absurd (hq.symm.trans hq') (by simp)
        rw [completeFields, hnone]
        exact completeFields_eq_foldl source h
      | some q =>
        rw [List.filterMap_cons_some hq, List.forall_mem_cons] at h
        rw [List.filterMap_cons_some hq, List.foldl_cons, completeFields_cons hq h.1.1 h.1.2]
        exact completeFields_eq_foldl source h.2

/-- **An inverse field asks for the field that asked for it**, which is there. -/
theorem missingInverse?_inverse {s : Schema} (hs : s.OwnNames) {q : BackrefRequest}
    (hq : q ∈ s.requests) (qs : List BackrefRequest) :
    (qs.foldl answer s).missingInverse? q.target q.inverse = none := by
  obtain ⟨e, he, hf, -⟩ := mem_requests_iff.mp hq
  have hkey : e.fields.contains q.field.name :=
    Option.isSome_of_eq_some (hs.get?_eq_some he hf).2
  refine missingInverse?_eq_none fun q' hq' e' he' => ?_
  obtain ⟨r, hr, hbackref, htarget, -, -⟩ := Field.request?_eq_some_iff.mp hq'
  obtain rfl := Option.some.inj hr
  rw [← htarget] at he'
  rw [← Option.some.inj hbackref]
  exact (contains_foldl_answer he').mpr (.inr ⟨e, he, hkey⟩)

/-- **The visit of the entities answers the declared requests**, those of each entity in its turn.
The induction is on the entities that are still to visit; `qs` are the requests answered so far. -/
theorem completeEntities_eq_foldl {s : Schema} (hs : s.OwnNames) (hnamed : s.BackrefsNamed) :
    ∀ {ps : List (String × Entity)} {qs : List BackrefRequest}, ps ⊆ s.entities.entries →
      qs ⊆ s.requests → (completeEntities (ps.map Prod.fst) (qs.foldl answer s)).1 =
        (qs ++ ps.flatMap fun p => p.2.requests p.1).foldl answer s
  | [], qs, _, _ => by
      rw [List.flatMap_nil, List.append_nil]
      rfl
  | (name, e) :: ps, qs, hps, hqs => by
      obtain ⟨hp, hps⟩ := List.cons_subset.mp hps
      have he : s.entity? name = some e := Table.get?_eq_some_iff.mpr hp
      have hreq : e.requests name ⊆ s.requests := fun q hq =>
        List.mem_flatMap.mpr ⟨(name, e), hp, hq⟩
      have hne : (qs.foldl answer s).entity? name ≠ none := by
        rw [entity?_foldl_answer, he]
        exact Option.some_ne_none _
      -- When its turn comes, the entity has its declared fields and inverse ones behind them.
      obtain ⟨e', he'⟩ := Option.ne_none_iff_exists'.mp hne
      obtain ⟨e₀, he₀, -, hentries⟩ := fields_foldl_answer he'
      obtain rfl : e = e₀ := Option.some.inj (he.symm.trans he₀)
      have hvalues : e'.fields.values =
          e.fields.values ++ (firstRequests qs name e).map BackrefRequest.inverse := by
        rw [Table.values, hentries, List.map_append, List.map_map]
        rfl
      have hdeclared : (completeFields name e.fields.values (qs.foldl answer s)).1 =
          (qs ++ e.requests name).foldl answer s := by
        rw [List.foldl_append]
        exact completeFields_eq_foldl name fun q hq => hnamed q (hreq hq)
      have hmet : completeFields name ((firstRequests qs name e).map BackrefRequest.inverse)
          ((qs ++ e.requests name).foldl answer s) =
          ((qs ++ e.requests name).foldl answer s, []) := by
        refine completeFields_of_met fun f hf => ?_
        obtain ⟨q, hq, rfl⟩ := List.mem_map.mp hf
        obtain ⟨hmem, rfl⟩ := mem_of_mem_firstRequests hq
        exact missingInverse?_inverse hs (hqs hmem) _
      rw [List.map_cons, completeEntities, he', Option.map_some, Option.getD_some, hvalues]
      dsimp only
      rw [completeFields_append, hdeclared, hmet,
        completeEntities_eq_foldl hs hnamed hps (List.append_subset.mpr ⟨hqs, hreq⟩),
        List.flatMap_cons, List.append_assoc]

/-- **Inverse fields are the answers to the declared requests**, in order. -/
theorem withInverses_eq_foldl {s : Schema} (hs : s.OwnNames) (hnamed : s.BackrefsNamed) :
    s.withInverses = s.requests.foldl answer s :=
  completeEntities_eq_foldl hs hnamed (List.Subset.refl s.entities.entries)
    (List.nil_subset s.requests)

/-! ## The finished schema -/

theorem entityNames_withInverses {s : Schema} (hs : s.OwnNames) (hnamed : s.BackrefsNamed) :
    s.withInverses.entityNames = s.entityNames := by
  rw [withInverses_eq_foldl hs hnamed]
  exact List.foldlRecOn (motive := fun t : Schema => t.entityNames = s.entityNames) _ _ rfl
    fun t ht q _ => (entityNames_answer t q).trans ht

/-- **An entity keeps its fields and gets the first one that is asked for under each new name.** -/
theorem fields_withInverses {s : Schema} (hs : s.OwnNames) (hnamed : s.BackrefsNamed)
    {name : String} {e' : Entity} (he' : s.withInverses.entity? name = some e') :
    ∃ e, s.entity? name = some e ∧ e' = { e with fields := e'.fields } ∧
      e'.fields.entries = e.fields.entries ++
        (firstRequests s.requests name e).map fun q => (q.backref, q.inverse) := by
  rw [withInverses_eq_foldl hs hnamed] at he'
  exact fields_foldl_answer he'

theorem exists_entity?_withInverses {s : Schema} (hs : s.OwnNames) (hnamed : s.BackrefsNamed)
    {name : String} {e : Entity} (he : s.entity? name = some e) :
    ∃ e', s.withInverses.entity? name = some e' ∧ e'.fields.entries = e.fields.entries ++
      (firstRequests s.requests name e).map fun q => (q.backref, q.inverse) := by
  rw [withInverses_eq_foldl hs hnamed, entity?_foldl_answer, he]
  exact ⟨_, rfl, Entity.fields_foldl_answer _ e⟩

/-- The backref of a declared field names a field of the target. -/
theorem contains_backref {s : Schema} (hs : s.OwnNames) (hnamed : s.BackrefsNamed)
    {q : BackrefRequest} (hq : q ∈ s.requests) {e' : Entity}
    (he' : s.withInverses.entity? q.target = some e') : e'.fields.contains q.backref := by
  rw [withInverses_eq_foldl hs hnamed] at he'
  exact (contains_foldl_answer he').mpr (.inl ⟨q, hq, rfl, rfl⟩)

theorem ownNames_withInverses {s : Schema} (hs : s.OwnNames) (hnamed : s.BackrefsNamed) :
    s.withInverses.OwnNames := by
  rintro ⟨name, e'⟩ hp
  obtain ⟨e, he, hsame, hfields⟩ := fields_withInverses hs hnamed (Table.get?_eq_some_iff.mpr hp)
  have hp := hs _ (Table.get?_eq_some_iff.mp he)
  refine ⟨(congrArg Entity.name hsame).trans hp.1, fun r hr => ?_⟩
  rw [hfields, List.mem_append] at hr
  obtain hr | hr := hr
  · exact hp.2 r hr
  · obtain ⟨q, -, rfl⟩ := List.mem_map.mp hr
    rfl

theorem completeEntities_of_met {s : Schema} : ∀ {names : List String},
    (∀ name ∈ names, ∀ e, s.entity? name = some e →
      ∀ f ∈ e.fields.values, s.missingInverse? name f = none) →
    completeEntities names s = (s, [])
  | [], _ => rfl
  | name :: names, h => by
      rw [List.forall_mem_cons] at h
      have hfields : completeFields name (((s.entity? name).map (·.fields.values)).getD []) s
          = (s, []) := by
        refine completeFields_of_met fun f hf => ?_
        match he : s.entity? name with
        | none =>
          rw [he] at hf
          exact absurd hf List.not_mem_nil
        | some e =>
          rw [he] at hf
          exact h.1 e he f hf
      rw [completeEntities, hfields]
      dsimp only
      rw [completeEntities_of_met h.2]
      rfl

/-- **A finished schema asks for nothing more.** -/
theorem complete_withInverses {s : Schema} (hs : s.OwnNames) (hnamed : s.BackrefsNamed) :
    s.withInverses.complete = (s.withInverses, []) := by
  refine completeEntities_of_met fun name _ e' he' f hf => ?_
  obtain ⟨e, he, -, hfields⟩ := fields_withInverses hs hnamed he'
  rw [Table.values, hfields, List.map_append, List.map_map, List.mem_append] at hf
  obtain hf | hf := hf
  · refine missingInverse?_eq_none fun q hq t ht => ?_
    obtain ⟨r, -, -, -, hsource, hfield⟩ := Field.request?_eq_some_iff.mp hq
    subst hsource hfield
    exact contains_backref hs hnamed (mem_requests_iff.mpr ⟨e, he, hf, hq⟩) ht
  · obtain ⟨q, hq, rfl⟩ := List.mem_map.mp hf
    obtain ⟨hmem, rfl⟩ := mem_of_mem_firstRequests hq
    rw [withInverses_eq_foldl hs hnamed]
    exact missingInverse?_inverse hs hmem _

end Schema

end EntitySchema
