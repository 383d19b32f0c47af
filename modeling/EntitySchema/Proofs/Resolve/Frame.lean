import EntitySchema.Grammar.Definition
import EntitySchema.Proofs.Resolve.Backward
import EntitySchema.Proofs.Resolve.Calls

/-!
# Proofs/Resolve/Frame — resolution only fills what is unset

    given data     set, kept    unset            other keys, kept
    resolved data  set, kept    set or unset     other keys, kept    marks of what was filled

Both resolutions write into the data that they test (`isSet`), so a key that one field writes may
count as given when the turn of another comes.  Nothing that is set is ever unset, though, and so a
field that is filled at its turn was unset in the data given (`Grown.foldlM`).  Hence only unset
fields are filled, whatever the fields are called (`resolution_grows`).
-/

namespace EntitySchema.Resolve

open Session

/-! ## Data that grows -/

@[simp] theorem isSet_iff {data : Record} {key : String} :
    isSet data key = true ↔ ∃ v, data.get? key = some v ∧ v ≠ .null := by
  rw [isSet.eq_def]
  split <;> simp_all

theorem isSet_congr {data data' : Record} {key : String} (h : data'.get? key = data.get? key) :
    isSet data' key = isSet data key := by rw [isSet, isSet, h]

/-- A value other than null is set, and unsets nothing. -/
theorem isSet_insert {data : Record} {key k : String} {v : Value} (hv : v ≠ .null)
    (h : k = key ∨ isSet data key = true) : isSet (data.insert k v) key = true := by
  rw [isSet_iff, Table.get?_insert]
  split
  · exact ⟨v, rfl, hv⟩
  · exact isSet_iff.mp (h.resolve_left ‹_›)

/-- The data has grown: it differs under the keys in `W` at most, all keys are where they were, and
what was set is set. -/
structure Grown (W : String → Prop) (data data' : Record) : Prop where
  /-- Nothing else changes. -/
  frame : ∀ k, ¬ W k → data'.get? k = data.get? k
  /-- No key is removed or moved. -/
  keys : data.keys <+: data'.keys
  /-- What is set stays set. -/
  set : ∀ k, isSet data k = true → isSet data' k = true

namespace Grown

variable {W W' : String → Prop} {data data₁ data' : Record} {key : String} {v : Value}

theorem refl (W : String → Prop) (data : Record) : Grown W data data where
  frame := fun _ _ => rfl
  keys := List.prefix_rfl
  set := fun _ => id

theorem trans (h : Grown W data data₁) (h' : Grown W data₁ data') : Grown W data data' where
  frame := fun k hk => (h'.frame k hk).trans (h.frame k hk)
  keys := h.keys.trans h'.keys
  set := fun k hset => h'.set k (h.set k hset)

theorem mono (h : Grown W data data') (hW : ∀ k, W k → W' k) : Grown W' data data' where
  frame := fun k hk => h.frame k fun hw => hk (hW k hw)
  keys := h.keys
  set := h.set

/-- A key that is unset may be written, and under any key a value other than null. -/
theorem insert (hkey : W key) (h : isSet data key = false ∨ v ≠ .null) :
    Grown W data (data.insert key v) where
  frame := fun k hk => by
    rw [Table.get?_insert, if_neg]
    rintro rfl
    exact hk hkey
  keys := by
    rw [Table.keys_insert]
    split
    · exact List.prefix_rfl
    · exact List.prefix_append ..
  set := fun k hset => by
    obtain hunset | hv := h
    · have hne : key ≠ k := fun heq => by simp [← heq, hunset] at hset
      have hget : (data.insert key v).get? k = data.get? k := by rw [Table.get?_insert, if_neg hne]
      rwa [isSet_congr hget]
    · exact isSet_insert hv (.inr hset)

theorem unset (h : Grown W data data') (hunset : isSet data' key = false) :
    isSet data key = false := by
  refine eq_false_of_ne_true fun hset => ?_
  rw [h.set key hset] at hunset
  exact Bool.noConfusion hunset

end Grown

/-! ## One field after another -/

/-- The key `k` may be written when the fields are filled that have the operator and are unset. -/
def Fillable (o : Operator) (writes : String → String → Prop) (fields : List (String × Field))
    (data : Record) (k : String) : Prop :=
  ∃ p ∈ fields, p.2.operator? = some o ∧ isSet data p.1 = false ∧ writes p.1 k

instance {o : Operator} {writes : String → String → Prop} [∀ key k, Decidable (writes key k)]
    {fields : List (String × Field)} {data : Record} {k : String} :
    Decidable (Fillable o writes fields data k) :=
  inferInstanceAs (Decidable (∃ p ∈ fields, _))

section

variable {o : Operator} {writes : String → String → Prop} {σ : Type} {d : σ → Record}
  {step : σ → String × Field → Run σ} {s s' : σ} {fields : List (String × Field)}
  {log log' : List Call}

/-- **A run fills what was unset at its start**, if every turn fills what is unset then.  The
induction is on the fields; nothing that is set at the start is unset when a later turn comes. -/
theorem Grown.foldlM
    (hstep : ∀ {s p s' log log'}, (step s p).Returns log s' log' →
      Grown (Fillable o writes [p] (d s)) (d s) (d s'))
    (h : (fields.foldlM step s).Returns log s' log') :
    Grown (Fillable o writes fields (d s)) (d s) (d s') := by
  induction fields generalizing s log with
  | nil =>
    obtain ⟨rfl, rfl⟩ := returns_pure_iff.mp h
    exact .refl _ _
  | cons p fields ih =>
    rw [List.foldlM_cons] at h
    obtain ⟨s₁, between, hturn, hrest⟩ := returns_bind_iff.mp h
    have hgrown := hstep hturn
    refine (hgrown.mono ?_).trans ((ih hrest).mono ?_)
    · rintro k ⟨q, hq, hfillable⟩
      exact ⟨q, List.mem_cons.mpr (.inl (List.mem_singleton.mp hq)), hfillable⟩
    · rintro k ⟨q, hq, hoperator, hunset, hwrites⟩
      exact ⟨q, List.mem_cons_of_mem p hq, hoperator, hgrown.unset hunset, hwrites⟩

end

/-! ## Backward resolution -/

/-- The turn of a backward fuzzy field may write under `k`. -/
def WritesType (key k : String) : Prop := k = key ∨ k = key ++ "$matchedType"

instance (key k : String) : Decidable (WritesType key k) := inferInstanceAs (Decidable (_ ∨ _))

variable {b : Backend} {t : Number} {given data data' : Record} {key : String} {f : Field}
  {log log' : List Call}

theorem Fill.grown (x : Fill) (hunset : isSet data x.key = false) :
    Grown (WritesType x.key) data (x.store data) := by
  have hvalue : Grown (WritesType x.key) data (data.insert x.key x.value) :=
    .insert (.inl rfl) (.inl hunset)
  cases hunion : x.field.isUnion with
  | true =>
    rw [Fill.store_of_union hunion]
    exact hvalue.trans (.insert (.inr rfl) (.inr nofun))
  | false =>
    rw [Fill.store_of_not_union hunion]
    exact hvalue

theorem operator?_of_backwardQuery? {query : String} (h : backwardQuery? given key f = some query) :
    f.operator? = some .backwardFuzzy := by
  obtain ⟨rel, hrel, h⟩ := Option.bind_eq_some_iff.mp h
  rw [Field.operator?_of_relation? hrel]
  split at h
  · assumption
  · exact nomatch h

theorem backwardField_grown (h : (backwardField b t given data key f).Returns log data' log') :
    Grown (Fillable .backwardFuzzy WritesType [(key, f)] data) data data' := by
  obtain ⟨-, ⟨rfl, -⟩ | ⟨hunset, query, hquery, ⟨rfl, -⟩ | ⟨x, rfl, rfl, -, rfl⟩⟩⟩ :=
    backwardField_returns h
  · exact .refl _ _
  · exact .refl _ _
  · exact (x.grown hunset).mono fun k hwrites =>
      ⟨_, List.mem_singleton_self _, operator?_of_backwardQuery? hquery, hunset, hwrites⟩

theorem backwardFields_grown {fields : List (String × Field)}
    (h : (backwardFields b t given data fields).Returns log data' log') :
    Grown (Fillable .backwardFuzzy WritesType fields data) data data' := by
  rw [backwardFields_eq_foldlM] at h
  exact Grown.foldlM (d := id) backwardField_grown h

/-! ## Forward resolution -/

/-- The turn of a forward fuzzy field may write under `k`. -/
def Writes (key k : String) : Prop := k = key ∨ k = key ++ "$matched" ∨ k = key ++ "$score"

instance (key k : String) : Decidable (Writes key k) := inferInstanceAs (Decidable (_ ∨ _ ∨ _))

theorem mark_ne (key : String) : key ++ "$matched" ≠ key ∧ key ++ "$score" ≠ key :=
  ⟨fun h => by simpa using congrArg String.length h,
    fun h => by simpa using congrArg String.length h⟩

/-- The marks of a field leave its value alone. -/
theorem get?_insert_marks (data : Record) (key : String) (id matched score : Value) :
    (((data.insert key id).insert (key ++ "$matched") matched).insert (key ++ "$score")
      score).get? key = some id := by
  rw [Table.get?_insert, if_neg (mark_ne key).2, Table.get?_insert, if_neg (mark_ne key).1,
    Table.get?_insert_self]

/-- Fields disturb no other if none is called like the marks of another. -/
theorem eq_of_writes {e : Entity}
    (hmarks : ∀ g ∈ e.fields.keys, g ++ "$matched" ∉ e.fields.keys ∧ g ++ "$score" ∉ e.fields.keys)
    {q q' : String × Field} (hq : q ∈ e.fields.entries) (hq' : q' ∈ e.fields.entries)
    (hwrites : Writes q.1 q'.1) : q'.1 = q.1 := by
  have hmem : q'.1 ∈ e.fields.keys := List.mem_map_of_mem hq'
  obtain ⟨hmatched, hscore⟩ := hmarks q.1 (List.mem_map_of_mem hq)
  obtain heq | heq | heq := hwrites
  · exact heq
  · exact absurd (heq ▸ hmem) hmatched
  · exact absurd (heq ▸ hmem) hscore

/-- Neither the fields before a field nor those behind it write under its key. -/
theorem not_writes_of_split {e : Entity}
    (hmarks : ∀ g ∈ e.fields.keys, g ++ "$matched" ∉ e.fields.keys ∧ g ++ "$score" ∉ e.fields.keys)
    {before after : List (String × Field)} {p : String × Field}
    (hsplit : before ++ p :: after = e.fields.entries) :
    ∀ q ∈ before ++ after, ¬ Writes q.1 p.1 := by
  intro q hq hwrites
  have hnodup := e.fields.nodup
  rw [← hsplit, List.map_append, List.map_cons, List.perm_middle.nodup_iff, List.nodup_cons,
    ← List.map_append] at hnodup
  have hmem : q ∈ e.fields.entries ∧ p ∈ e.fields.entries := by
    rw [← hsplit]
    exact ⟨List.perm_middle.mem_iff.mpr (List.mem_cons_of_mem p hq), by simp⟩
  rw [eq_of_writes hmarks hmem.1 hmem.2 hwrites] at hnodup
  exact hnodup.1 (List.mem_map_of_mem hq)

namespace Setting

variable {st : Setting} {default : Number} {rel : Relation} {r r' : Forward}

theorem Fills.grown (hunset : isSet r.data key = false)
    (h : st.Fills key f rel t r log r' log') : Grown (Writes key) r.data r'.data := by
  have hkey : ∀ v, Grown (Writes key) r.data (r.data.insert key v) :=
    fun v => .insert (.inl rfl) (.inl hunset)
  cases h with
  | listed => exact hkey _
  | @reused _ _ id _ _ _ chosen =>
    obtain ⟨m, -, hgives, hreaches⟩ := exists_of_best chosen
    refine ((hkey id).trans (.insert (.inr (.inl rfl)) (.inr ?_))).trans
      (.insert (.inr (.inr rfl)) (.inr (hgives.score_ne_null hreaches)))
    exact nofun
  | @generated _ _ _ p? =>
    cases p? with
    | none => exact .refl _ _
    | some p =>
      rw [Forward.addGenerated]
      dsimp only
      split
      · exact .refl _ _
      · exact hkey _

theorem forwardField_grown (h : (st.forwardField default r key f).Returns log r' log') :
    Grown (Fillable .forwardFuzzy Writes [(key, f)] r.data) r.data r'.data := by
  cases fieldStep_of_returns h with
  | idle => exact .refl _ _
  | kept => exact .refl _ _
  | filled _ fuzzy unset fills =>
    exact (fills.grown unset).mono fun k hwrites =>
      ⟨_, List.mem_singleton_self _, fuzzy, unset, hwrites⟩

theorem forwardFields_grown {fields : List (String × Field)}
    (h : (st.forwardFields default r fields).Returns log r' log') :
    Grown (Fillable .forwardFuzzy Writes fields r.data) r.data r'.data := by
  rw [forwardFields_eq_foldlM] at h
  exact Grown.foldlM (d := Forward.data) forwardField_grown h

theorem get?_of_not_writes {fields : List (String × Field)} {k : String}
    (hk : ∀ q ∈ fields, ¬ Writes q.1 k)
    (h : (fields.foldlM (fun r p => st.forwardField default r p.1 p.2) r).Returns log r' log') :
    r'.data.get? k = r.data.get? k := by
  rw [← forwardFields_eq_foldlM] at h
  refine (forwardFields_grown h).frame k ?_
  rintro ⟨q, hq, -, -, hwrites⟩
  exact hk q hq hwrites

end Setting

/-! ## Both resolutions -/

/-- Whether a call only looks for entities. -/
def Call.isSearch : Call → Bool
  | .search .. => true
  | _ => false

/-- **Resolution only fills unset fields**, whatever they are called.  Backward resolution changes
the data under the keys of the backward fuzzy fields that are unset in what is given, and beside
them the types that matched; forward resolution changes it under the keys of the forward fuzzy
fields that are unset, and beside them the marks of what is reused.  No key is removed, and what is
set stays set.  Backward resolution searches and makes no other call, however it ends. -/
theorem resolution_grows (e : Entity) :
    (∀ (b : Backend) (given : Record),
      (backward b e given).StaysWithin (fun c => c.isSearch = true) ∧
        ∀ log data log', (backward b e given).Returns log data log' →
          Grown (Fillable .backwardFuzzy WritesType e.fields.entries given) given data) ∧
    ∀ (st : Setting) log r log', (forward st e).Returns log r log' →
      Grown (Fillable .forwardFuzzy Writes e.fields.entries st.context.parentData)
        st.context.parentData r.data := by
  refine ⟨fun b given => ⟨?_, fun log data log' h => backwardFields_grown h⟩,
    fun st log r log' h => Setting.forwardFields_grown h⟩
  rw [backward, backwardFields_eq_foldlM]
  exact staysWithin_foldlM (fun data (p : String × Field) =>
    staysWithin_backwardField (fun _ _ _ => rfl) given data p.1 p.2) _ _

/-- A store that finds something for every query. -/
def obliging : Backend :=
  { search? := some fun _ _ query _ _ =>
      .ok [.ofList [("$id", .text ("id of " ++ query)), ("$score", .int 1)]]
    create := fun _ _ r => .ok r
    update := fun _ _ _ _ => .ok ()
    generate := fun _ _ _ _ => .ok .null }

/-- A union and three single fields, of which one is called like a mark of another. -/
def note : Entity :=
  { name := "Note"
    fields := .ofList
      [("owner", .parse "owner" "author <~Person|Team"), ("topic", .parse "topic" "~>Topic"),
        ("topic$matched", .parse "topic$matched" "~>Topic"), ("place", .parse "place" "~>Place")] }

/-- A title and a place. -/
def drafted : Record := .ofList [("title", .text "On notes"), ("place", .text "here")]

theorem resolution_grows_note : ∃ data log r log',
    (backward obliging note drafted).Returns [] data log ∧
      data.get? "owner$matchedType" = some (.text "Person") ∧
      data.get? "title" = some (.text "On notes") ∧ data.get? "topic" = none ∧
      (∀ c ∈ log, c.isSearch = true) ∧
      (forward (.of obliging {} ⟨"Note", drafted, "note"⟩) note).Returns [] r log' ∧
      r.data.get? "topic$matched" = some (.bool true) ∧
      r.data.get? "title" = some (.text "On notes") ∧
      r.data.get? "place" = some (.text "here") := by
  have hbackward : (backward obliging note drafted []).1.toOption.any fun data =>
      decide (data.get? "owner$matchedType" = some (.text "Person")) := by decide +kernel
  obtain ⟨data, log, hdata, htype⟩ := Session.exists_returns_of_any hbackward
  have hforward : (forward (.of obliging {} ⟨"Note", drafted, "note"⟩) note []).1.toOption.any
      fun r => decide (r.data.get? "topic$matched" = some (.bool true)) := by decide +kernel
  obtain ⟨r, log', hr, hmark⟩ := Session.exists_returns_of_any hforward
  obtain ⟨hgrows, hgrows'⟩ := resolution_grows note
  obtain ⟨hsearches, hgrown⟩ := hgrows obliging drafted
  have hgrown := hgrown _ _ _ hdata
  have hgrown' := hgrows' _ _ _ _ hr
  obtain ⟨calls, hlog, hcalls⟩ := hsearches.makesOnly hdata
  refine ⟨data, log, r, log', hdata, of_decide_eq_true htype, ?_, ?_, ?_, hr,
    of_decide_eq_true hmark, ?_, ?_⟩
  · exact (hgrown.frame "title" (by decide +kernel)).trans (by decide +kernel)
  · exact (hgrown.frame "topic" (by decide +kernel)).trans (by decide +kernel)
  · rwa [hlog]
  · exact (hgrown'.frame "title" (by decide +kernel)).trans (by decide +kernel)
  · exact (hgrown'.frame "place" (by decide +kernel)).trans (by decide +kernel)

end EntitySchema.Resolve
