import EntitySchema.Grammar.Definition
import EntitySchema.Proofs.Resolve.Calls

/-!
# Proofs/Resolve/Reuse — how often an entity is reused

    tags   ~>Tag[]   ▸  t₁ t₂ …    no entity twice
    topics ~>Tag[]   ▸  t₁ …       no entity twice, but t₁ once more

The ids that the hints of an array field have reused are kept while the field is resolved, and what
is found under one of them is passed over (`reuses_linkHints`).  The next field starts without any.
So within a field nothing is reused twice, and whatever is reused twice is reused by two array
fields of one type (`reused_twice`).
-/

namespace EntitySchema.Resolve

open Session

/-! ## Reused entities -/

/-- The entity that a call marks as reused: its type and its id. -/
def Call.reused? : Call → Option (String × Value)
  | .update type id _ => some (type, id)
  | _ => none

/-- The entities that calls mark as reused, in order. -/
def reused (calls : List Call) : List (String × Value) := calls.filterMap Call.reused?

/-- One entity has the type of another and an id that is the same. -/
def SameEntity (x y : String × Value) : Prop := x.1 = y.1 ∧ y.2.same x.2 = true

instance (x y : String × Value) : Decidable (SameEntity x y) := inferInstanceAs (Decidable (_ ∧ _))

/-- No entity comes twice. -/
def Once (xs : List (String × Value)) : Prop := xs.Pairwise fun x y => ¬ SameEntity x y

instance (xs : List (String × Value)) : Decidable (Once xs) :=
  inferInstanceAs (Decidable (List.Pairwise _ xs))

@[simp] theorem reused_append (calls calls' : List Call) :
    reused (calls ++ calls') = reused calls ++ reused calls' := List.filterMap_append

/-- However the session ends, `Q` holds of the entities that it has reused and of what it came
to. -/
def Reuses {α : Type} (Q : List (String × Value) → Except Failure α → Prop) (x : Run α) : Prop :=
  x.Ensures fun calls r => Q (reused calls) r

section

variable {α β : Type} {Q : List (String × Value) → Except Failure α → Prop}
  {R : List (String × Value) → Except Failure β → Prop}

/-- A session that marks nothing as reused. -/
theorem reuses_of_staysWithin {x : Run α} (h : x.StaysWithin fun c => c.reused? = none) :
    Reuses (fun xs _ => xs = []) x :=
  h.mono fun _ _ hcalls => List.filterMap_eq_nil_iff.mpr hcalls

theorem reuses_pure {a : α} (h : Q [] (.ok a)) : Reuses Q (pure a) := ensures_pure h

theorem reuses_bind {x : Run α} {f : α → Run β} (hx : Reuses Q x)
    (hfailed : ∀ xs e, Q xs (.error e) → R xs (.error e))
    (hf : ∀ xs a, Q xs (.ok a) → Reuses (fun ys r => R (xs ++ ys) r) (f a)) :
    Reuses R (x >>= f) :=
  ensures_bind hx (fun _ e => hfailed _ e) fun calls a hQ =>
    (hf _ a hQ).mono fun calls' r h => by simpa using h

/-- What comes after a session that marks nothing as reused. -/
theorem reuses_after {x : Run α} {f : α → Run β} (hx : x.StaysWithin fun c => c.reused? = none)
    (hfailed : ∀ e, R [] (.error e)) (hf : ∀ a, Reuses R (f a)) : Reuses R (x >>= f) := by
  refine reuses_bind (reuses_of_staysWithin hx) ?_ ?_
  · rintro _ e rfl
    exact hfailed e
  · rintro _ a rfl
    exact hf a

/-- What comes after a step that makes no calls. -/
theorem reuses_after_lift {x : Except Failure α} {f : α → Run β} (hfailed : ∀ e, R [] (.error e))
    (hf : ∀ a, x = .ok a → Reuses R (f a)) : Reuses R ((liftM x : Run α) >>= f) := by
  have hx : (liftM x : Run α).Ensures fun calls r => calls = [] ∧ x = r := ensures_lift ⟨rfl, rfl⟩
  refine ensures_bind hx ?_ ?_
  · rintro _ e ⟨rfl, -⟩
    exact hfailed e
  · rintro _ a ⟨rfl, ha⟩
    exact hf a ha

end

namespace Setting

/-! ## The hints of a field -/

/-- A match that is chosen has an id that is not used. -/
theorem not_used_of_firstUnused {t : Number} {used : List Value} {id score : Value}
    {ms : List Match} (h : firstUnused t used ms = .ok (some (id, score))) :
    used.any id.same = false := by
  obtain ⟨m, hm, hid, -⟩ := exists_of_rel_some (chosen_of_firstUnused h)
  have hunused := List.find?_some hm
  rw [Match.isAmong, hid, Option.any_some, Bool.and_eq_true, Bool.not_eq_true'] at hunused
  exact hunused.2

variable {st : Setting} {t : Number} {key type : String} {f : Field}

theorem reuses_reuse (field type : String) (id score : Value) :
    Reuses (fun xs _ => xs = [(type, id)]) (st.reuse field type id score) := by
  have hupdate : Reuses (fun xs _ => xs = [(type, id)]) (st.backend.updateEntity type id
      (.ofList [("$generated", .bool false), ("$similarity", score)])) :=
    ensures_perform fun _ => rfl
  refine reuses_bind hupdate (fun _ _ h => h) ?_
  · rintro _ p rfl
    exact reuses_pure (List.append_nil _)

/-- Nothing that is resolved inside a payload is marked as reused. -/
def NestsQuietly (st : Setting) : Prop :=
  ∀ e payload, (st.resolveNested e payload).StaysWithin fun c => c.reused? = none

theorem nestsQuietly_of (b : Backend) (schema : Schema) (context : Context) :
    (Setting.of b schema context).NestsQuietly := fun e payload =>
  staysWithin_createPending (fun _ _ => rfl) _ e payload

theorem NestsQuietly.generates (h : st.NestsQuietly) (field type hint : String) :
    (st.generate field type hint).StaysWithin fun c => c.reused? = none :=
  staysWithin_generate (fun _ _ => rfl) h (fun _ _ => rfl) field type hint

/-- What hints reuse: entities of the type of the field, none of them used, each once. -/
structure Fresh (type : String) (used : List Value) (xs : List (String × Value)) : Prop where
  /-- They have the type of the field. -/
  type_eq : ∀ x ∈ xs, x.1 = type
  /-- Their ids are not used. -/
  not_used : ∀ x ∈ xs, used.any x.2.same = false
  /-- None of them comes twice. -/
  once : Once xs

theorem Fresh.nil (used : List Value) : Fresh type used [] :=
  ⟨List.forall_mem_nil _, List.forall_mem_nil _, .nil⟩

theorem Fresh.singleton {used : List Value} {id : Value} (h : used.any id.same = false) :
    Fresh type used [(type, id)] :=
  ⟨List.forall_mem_singleton.mpr rfl, List.forall_mem_singleton.mpr h, List.pairwise_singleton ..⟩

/-- What is reused later is fresh if the ids reused before count as used. -/
theorem Fresh.append {used : List Value} {xs ys : List (String × Value)} (hxs : Fresh type used xs)
    (hys : Fresh type (used ++ xs.map Prod.snd) ys) : Fresh type used (xs ++ ys) := by
  have hnot : ∀ y ∈ ys, used.any y.2.same = false ∧ (xs.map Prod.snd).any y.2.same = false := by
    intro y hy
    rw [← Bool.or_eq_false_iff, ← List.any_append]
    exact hys.not_used y hy
  refine ⟨List.forall_mem_append.mpr ⟨hxs.type_eq, hys.type_eq⟩,
    List.forall_mem_append.mpr ⟨hxs.not_used, fun y hy => (hnot y hy).1⟩, ?_⟩
  refine List.pairwise_append.mpr ⟨hxs.once, hys.once, fun x hx y hy hsame => ?_⟩
  exact List.any_eq_false.mp (hnot y hy).2 x.2 (List.mem_map_of_mem hx) hsame.2

/-- What a hint reuses was not used, and is used afterwards. -/
def Uses (type : String) (l : Links) (xs : List (String × Value)) (r : Except Failure Links) :
    Prop := Fresh type l.used xs ∧ ∀ l', r = .ok l' → l'.used = l.used ++ xs.map Prod.snd

/-- **A hint reuses an entity that is not used, and uses it.** -/
theorem reuses_linkHint (hquiet : st.NestsQuietly) (l : Links) (hint : Value) :
    Reuses (Uses type l) (st.linkHint key f.name type t l hint) := by
  have hfailed : ∀ e : Failure, Uses type l [] (.error e) := fun e => ⟨.nil _, nofun⟩
  refine reuses_after (staysWithin_searchFor rfl) hfailed fun found => ?_
  refine reuses_after_lift hfailed fun best hbest => ?_
  cases best with
  | some best =>
    obtain ⟨id, score⟩ := best
    refine reuses_bind (reuses_reuse _ type id score) ?_ ?_
    · rintro _ e rfl
      exact ⟨.singleton (not_used_of_firstUnused hbest), nofun⟩
    · rintro _ p rfl
      refine reuses_pure ⟨.singleton (not_used_of_firstUnused hbest), ?_⟩
      rintro _ ⟨⟩
      rfl
  | none =>
    refine reuses_after (hquiet.generates _ _ _) hfailed fun p => reuses_pure ⟨.nil _, ?_⟩
    rintro _ ⟨⟩
    cases p with
    | none => exact (List.append_nil _).symm
    | some p => exact (List.append_nil _).symm

/-- **The hints of a field reuse no entity twice.** -/
theorem reuses_linkHints (hquiet : st.NestsQuietly) (hints : List Value) (l : Links) :
    Reuses (fun xs _ => Fresh type l.used xs) (st.linkHints key f.name type t l hints) := by
  induction hints generalizing l with
  | nil => exact reuses_pure (.nil _)
  | cons hint hints ih =>
    refine reuses_bind (reuses_linkHint hquiet l hint) (fun xs e h => h.1) ?_
    rintro xs l' ⟨hxs, hused⟩
    refine (ih l').mono fun calls r hys => hxs.append ?_
    rwa [← hused l' rfl]

/-! ## Fields -/

/-- What the calls for a field reuse. -/
structure ReusesFor (f : Field) (xs : List (String × Value)) : Prop where
  /-- Only forward fuzzy fields reuse something. -/
  operator : xs ≠ [] → f.operator? = some .forwardFuzzy
  /-- It has the type of the field. -/
  type : ∀ x ∈ xs, f.relatedType? = some x.1
  /-- Nothing is reused twice. -/
  once : Once xs
  /-- A single field reuses no more than one entity. -/
  single : f.modifiers.array = false → xs.length ≤ 1

theorem ReusesFor.nil (f : Field) : ReusesFor f [] :=
  ⟨nofun, List.forall_mem_nil _, .nil, fun _ => Nat.zero_le 1⟩

theorem reuses_fillSingle (hquiet : st.NestsQuietly) (rel : Relation) (r : Forward) :
    Reuses (fun xs _ => xs = [] ∨ ∃ id, xs = [(rel.relatedType, id)])
      (st.fillSingle key f rel t r) := by
  refine reuses_after (staysWithin_searchFor rfl) (fun _ => .inl rfl) fun found => ?_
  refine reuses_after_lift (fun _ => .inl rfl) fun best _ => ?_
  cases best with
  | some best =>
    obtain ⟨id, score⟩ := best
    refine reuses_bind (reuses_reuse _ rel.relatedType id score) (fun xs _ h => .inr ⟨id, h⟩) ?_
    rintro _ p rfl
    exact reuses_pure (.inr ⟨id, rfl⟩)
  | none =>
    refine reuses_after (hquiet.generates _ _ _) (fun _ => .inl rfl) fun p => ?_
    cases p with
    | none => exact reuses_pure (.inl rfl)
    | some p => exact reuses_pure (.inl rfl)

/-- **A field reuses no entity twice.** -/
theorem reuses_forwardField (hquiet : st.NestsQuietly) (default : Number) (r : Forward)
    (key : String) (f : Field) :
    Reuses (fun xs _ => ReusesFor f xs) (st.forwardField default r key f) := by
  rw [forwardField]
  cases hrel : f.relation? with
  | none => exact reuses_pure (.nil f)
  | some rel =>
    have htype : f.relatedType? = some rel.relatedType := by rw [Field.relatedType?, hrel]; rfl
    have hfuzzy (hother : ¬ rel.operator ≠ some .forwardFuzzy) :
        f.operator? = some .forwardFuzzy := by
      rw [Field.operator?, hrel]
      exact Decidable.not_not.mp hother
    dsimp only
    split
    · exact reuses_pure (.nil f)
    next hother =>
    split
    · exact reuses_pure (.nil f)
    split_ifs with harray
    · have hfresh : ∀ xs, Fresh rel.relatedType [] xs → ReusesFor f xs := fun xs h =>
        ⟨fun _ => hfuzzy hother, fun x hx => htype.trans (congrArg some (h.type_eq x hx).symm),
          h.once, fun hsingle => absurd harray (by simp [hsingle])⟩
      refine reuses_bind (reuses_linkHints hquiet _ {}) (fun xs _ => hfresh xs) fun xs l h => ?_
      refine reuses_pure ?_
      rw [List.append_nil]
      exact hfresh xs h
    · refine (reuses_fillSingle hquiet rel r).mono fun calls _ h => ?_
      obtain h | ⟨id, h⟩ := h
      · rw [h]
        exact .nil f
      · rw [h]
        exact ⟨fun _ => hfuzzy hother, List.forall_mem_singleton.mpr htype,
          List.pairwise_singleton .., fun _ => Nat.le_refl 1⟩

end Setting

/-! ## The whole run -/

/-- The entities that array fields reuse, stage by stage. -/
def reusedByArrays (gs : List (Stage (String × Field) Call)) : List (String × Value) :=
  (gs.filter fun g => g.item.2.modifiers.array).flatMap fun g => reused g.calls

/-- The field is an array that is filled by reuse or generation. -/
def LinksMany (f : Field) : Prop := f.operator? = some .forwardFuzzy ∧ f.modifiers.array = true

instance (f : Field) : Decidable (LinksMany f) := inferInstanceAs (Decidable (_ ∧ _))

/-- No two arrays that are filled by reuse or generation have one type. -/
def TypesApart (fields : List (String × Field)) : Prop :=
  fields.Pairwise fun p q => LinksMany p.2 → LinksMany q.2 → p.2.relatedType? ≠ q.2.relatedType?

instance (fields : List (String × Field)) : Decidable (TypesApart fields) :=
  inferInstanceAs (Decidable (List.Pairwise _ fields))

/-- Stages of fields that reuse the same entity. -/
def Shares (g g' : Stage (String × Field) Call) : Prop :=
  g.item.2.modifiers.array = true ∧ g'.item.2.modifiers.array = true ∧
    ∃ x ∈ reused g.calls, ∃ y ∈ reused g'.calls, SameEntity x y

/-- Arrays that reuse the same entity have one type. -/
theorem Shares.type_eq {g g' : Stage (String × Field) Call} (h : Shares g g')
    (hg : Setting.ReusesFor g.item.2 (reused g.calls))
    (hg' : Setting.ReusesFor g'.item.2 (reused g'.calls)) :
    LinksMany g.item.2 ∧ LinksMany g'.item.2 ∧
      g.item.2.relatedType? = g'.item.2.relatedType? := by
  obtain ⟨harray, harray', x, hx, y, hy, htype, -⟩ := h
  refine ⟨⟨hg.operator (List.ne_nil_of_mem hx), harray⟩,
    ⟨hg'.operator (List.ne_nil_of_mem hy), harray'⟩, ?_⟩
  rw [hg.type x hx, hg'.type y hy, htype]

section

variable {gs : List (Stage (String × Field) Call)}

theorem once_reusedByArrays_iff (h : ∀ g ∈ gs, Once (reused g.calls)) :
    Once (reusedByArrays gs) ↔ gs.Pairwise fun g g' => ¬ Shares g g' := by
  rw [Once, reusedByArrays, List.pairwise_flatMap, List.pairwise_filter]
  refine (and_iff_right fun g hg => h g (List.mem_filter.mp hg).1).trans ?_
  refine List.Pairwise.iff fun {g g'} => ⟨?_, ?_⟩
  · rintro h ⟨harray, harray', x, hx, y, hy, hsame⟩
    exact h harray harray' x hx y hy hsame
  · exact fun h harray harray' x hx y hy hsame => h ⟨harray, harray', x, hx, y, hy, hsame⟩

/-- Fields with types apart share nothing. -/
theorem pairwise_not_shares {fields : List (String × Field)} (hapart : TypesApart fields)
    (hitems : (gs.map (·.item)).Sublist fields)
    (h : ∀ g ∈ gs, Setting.ReusesFor g.item.2 (reused g.calls)) :
    gs.Pairwise fun g g' => ¬ Shares g g' := by
  have hpairs : gs.Pairwise fun g g' => LinksMany g.item.2 → LinksMany g'.item.2 →
      g.item.2.relatedType? ≠ g'.item.2.relatedType? :=
    List.pairwise_map.mp (List.Pairwise.sublist hitems hapart)
  refine hpairs.imp_of_mem fun {g g'} hg hg' hne hshares => ?_
  obtain ⟨hmany, hmany', htype⟩ := hshares.type_eq (h g hg) (h g' hg')
  exact hne hmany hmany' htype

end

/-- **Within a field nothing is reused twice, and across fields only by arrays of one type.**  The
calls of the run, however it ends, are those for its fields.  What an array field reuses is of its
type, and each entity comes once.  So array fields reuse nothing twice exactly if no two of them
share an entity, and they share none if their types are apart. -/
theorem reused_twice (b : Backend) (schema : Schema) (context : Context) (e : Entity)
    (log : List Call) :
    let gs := (Setting.of b schema context).forwardStages e log
    Divides gs (forward (.of b schema context) e) e.fields.entries log ∧
      (∀ g ∈ gs, Setting.ReusesFor g.item.2 (reused g.calls)) ∧
      (Once (reusedByArrays gs) ↔ gs.Pairwise fun g g' => ¬ Shares g g') ∧
      (TypesApart e.fields.entries → Once (reusedByArrays gs)) := by
  intro gs
  have hdivides := divides_forward b schema context e log
  have hquiet := Setting.nestsQuietly_of b schema context
  have hreuses : ∀ g ∈ gs, Setting.ReusesFor g.item.2 (reused g.calls) :=
    forall_stages (fun r (p : String × Field) =>
      Setting.reuses_forwardField hquiet _ r p.1 p.2) _ _ _
  have honce := once_reusedByArrays_iff fun g hg => (hreuses g hg).once
  exact ⟨hdivides, hreuses, honce, fun hapart =>
    honce.mpr (pairwise_not_shares hapart hdivides.items_prefix.sublist hreuses)⟩

/-- A store that finds the same for every query. -/
def finder : Backend :=
  { search? := some fun _ _ _ _ _ => .ok [.ofList [("$id", .text "first"), ("$score", .int 1)]]
    create := fun log type r => .ok (r.insert "$id" (.text (type ++ toString log.length)))
    update := fun _ _ _ _ => .ok ()
    generate := fun _ _ _ _ => .ok (.map []) }

/-- Two arrays, of one type or not. -/
def shelf (other : String) : Entity :=
  { name := "Shelf"
    fields := .ofList
      [("tags", .parse "tags" "~>Tag[]"), ("topics", .parse "topics" ("~>" ++ other ++ "[]"))] }

/-- Two hints for the tags, and one for the topics. -/
def shelved : Context :=
  { parent := "Shelf"
    parentData := .ofList [("tagsHint", .list [.text "old", .text "new"]),
      ("topicsHint", .text "old")]
    parentId := "shelf" }

/-- The entities of a library. -/
def tagged : Schema :=
  { entities := .ofList [("Tag", { name := "Tag" }), ("Topic", { name := "Topic" })] }

theorem reused_twice_shelf :
    (TypesApart (shelf "Topic").fields.entries ∧
      Once (reusedByArrays ((Setting.of finder tagged shelved).forwardStages (shelf "Topic") [])) ∧
      reusedByArrays ((Setting.of finder tagged shelved).forwardStages (shelf "Topic") []) =
        [("Tag", .text "first"), ("Topic", .text "first")]) ∧
    reusedByArrays ((Setting.of finder tagged shelved).forwardStages (shelf "Tag") []) =
      [("Tag", .text "first"), ("Tag", .text "first")] := by
  have htypes : TypesApart (shelf "Topic").fields.entries := by decide +kernel
  obtain ⟨-, -, -, hapart⟩ := reused_twice finder tagged shelved (shelf "Topic") []
  exact ⟨⟨htypes, hapart htypes, by decide +kernel⟩, by decide +kernel⟩

end EntitySchema.Resolve
