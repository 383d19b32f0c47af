import EntitySchema.Proofs.Resolve.Step

/-!
# Proofs/Resolve/History — what forward resolution did, call by call

    searched   ▸  search
    reused     ▸  update                               ─▸  a relation with a similarity
    refused    ▸  generate
    created    ▸  generate, nested calls …, create     ─▸  a relation without one

The log of a forward resolution falls into events (`Setting.History`).  The calls of the nested
resolver stand inside the event that made them, so what is created for a field is told apart from
what a payload carried with it.  As long as the nested resolver updates nothing, as `nestedPending`
does, the updates in the log are those of the relations with a similarity (`History.updates`).
-/

namespace EntitySchema.Resolve

/-! ## The nested resolver -/

/-- Whether a call changes an entity. -/
def Call.isUpdate : Call → Bool
  | .update .. => true
  | _ => false

section

variable {P : Call → Prop} {b : Backend} {s : Schema} {create : Entity → Value → Run Record}

theorem staysWithin_createEntity (hP : ∀ type data, P (.create type data)) (type : String)
    (data : Record) : (b.createEntity type data).StaysWithin P :=
  Session.staysWithin_bind (Session.staysWithin_perform (hP type data)) fun _ =>
    Session.staysWithin_lift

theorem staysWithin_pendingMember (hP : ∀ type data, P (.create type data))
    (hcreate : ∀ e v, (create e v).StaysWithin P) (e : Entity) (data : Record) (field : String)
    (v : Value) : (pendingMember b s create e data field v).StaysWithin P := by
  cases v with
  | map ms =>
    refine Session.staysWithin_bind Session.staysWithin_lift fun found => ?_
    cases found with
    | none => exact Session.staysWithin_pure
    | some found =>
      refine Session.staysWithin_bind (hcreate _ _) fun nested => ?_
      exact Session.staysWithin_bind (staysWithin_createEntity hP _ _) fun _ =>
        Session.staysWithin_pure
  | _ => exact Session.staysWithin_pure

theorem staysWithin_pendingMembers (hP : ∀ type data, P (.create type data))
    (hcreate : ∀ e v, (create e v).StaysWithin P) (e : Entity) : ∀ (keys : List String)
    (data : Record), (pendingMembers b s create e data keys).StaysWithin P
  | [], _ => Session.staysWithin_pure
  | key :: keys, data => by
      rw [pendingMembers]
      split
      · exact staysWithin_pendingMembers hP hcreate e keys data
      · exact Session.staysWithin_bind (staysWithin_pendingMember hP hcreate e _ _ _)
          (staysWithin_pendingMembers hP hcreate e keys)

/-- The nested resolver creates entities, and that is all. -/
theorem staysWithin_createPending (hP : ∀ type data, P (.create type data)) :
    ∀ (fuel : Nat) (e : Entity) (payload : Value), (createPending b s fuel e payload).StaysWithin P
  | 0, _, _ => Session.staysWithin_pure
  | fuel + 1, e, _ =>
      Session.staysWithin_bind Session.staysWithin_lift fun data =>
        staysWithin_pendingMembers hP (staysWithin_createPending hP fuel) e data.keys data

end

/-! ## Events -/

/-- The update that marks a reused entity. -/
def Pending.update? (p : Pending) : Option Call :=
  p.similarity.map fun score =>
    .update p.type p.id (.ofList [("$generated", .bool false), ("$similarity", score)])

/-- What forward resolution does at once. -/
inductive Event where
  /-- Entities of a type were searched. -/
  | searched (type query : String) (least : Number) (limit : Int)
  /-- An entity was linked and marked as reused. -/
  | reused (p : Pending) (score : Value)
  /-- A payload was generated, but its type is not known. -/
  | refused (type hint : String)
  /-- A payload was generated, what it carries was resolved, and the entity was created. -/
  | created (p : Pending) (hint : String) (nested : List Call) (payload : Record)

namespace Event

/-- The calls of an event. -/
def calls (context : Context) : Event → List Call
  | searched type query least limit => [.search type query least limit]
  | reused p score =>
      [.update p.type p.id (.ofList [("$generated", .bool false), ("$similarity", score)])]
  | refused type hint => [.generate type hint context]
  | created p hint nested payload =>
      .generate p.type hint context :: (nested ++ [.create p.type payload])

/-- The relation that an event leaves pending. -/
def pending? : Event → Option Pending
  | reused p _ => some p
  | created p .. => some p
  | _ => none

/-- The relation to an entity that was created. -/
def created? : Event → Option Pending
  | created p .. => some p
  | _ => none

end Event

namespace Setting

/-- The nested resolver updates nothing. -/
def Quiet (st : Setting) : Prop :=
  ∀ e generated, (st.resolveNested e generated).MakesOnly fun c => c.isUpdate = false

theorem quiet_of (b : Backend) (s : Schema) (context : Context) : (Setting.of b s context).Quiet :=
  fun e generated =>
    (staysWithin_createPending (fun _ _ => rfl) (generated.depth + 1) e generated).makesOnly

/-- The event can take place after the calls in `log`. -/
def Occurs (st : Setting) (log : List Call) : Event → Prop
  | .searched .. => st.backend.canSearch
  | .reused p score => p.similarity = some score
  | .refused type _ => st.schema.entity? type = none
  | .created p hint nested payload =>
      ∃ e generated record created,
        st.schema.entity? p.type = some e ∧
        st.backend.generate log p.type hint st.context = .ok generated ∧
        (st.resolveNested e generated).Returns (log ++ [.generate p.type hint st.context]) record
          (log ++ .generate p.type hint st.context :: nested) ∧
        payload = st.marked p.field record ∧
        st.backend.create (log ++ .generate p.type hint st.context :: nested) p.type payload =
          .ok created ∧
        created.get? Match.idKey = some p.id ∧ p.similarity = none

/-- The events take place one after another and lead from one log to the other. -/
inductive History (st : Setting) : List Call → List Event → List Call → Prop
  | nil (log : List Call) : History st log [] log
  | cons {log log' : List Call} {ev : Event} {evs : List Event} (occurs : st.Occurs log ev)
      (rest : History st (log ++ ev.calls st.context) evs log') : History st log (ev :: evs) log'

variable {st : Setting} {log between log' : List Call} {ev : Event} {evs evs' : List Event}

namespace History

theorem one (h : st.Occurs log ev) : st.History log [ev] (log ++ ev.calls st.context) :=
  .cons h (.nil _)

theorem append (h : st.History log evs between) (h' : st.History between evs' log') :
    st.History log (evs ++ evs') log' := by
  induction h with
  | nil => exact h'
  | cons occurs _ ih => exact .cons occurs (ih h')

/-- The log grows by the calls of the events. -/
theorem log_eq (h : st.History log evs log') :
    log' = log ++ evs.flatMap (Event.calls st.context) := by
  induction h with
  | nil => exact (List.append_nil _).symm
  | cons _ _ ih => rw [ih, List.flatMap_cons, List.append_assoc]

/-- A relation without a similarity was created. -/
theorem created (h : st.History log evs log') :
    evs.filterMap Event.created? =
      (evs.filterMap Event.pending?).filter fun p => p.similarity.isNone := by
  induction h with
  | nil => rfl
  | @cons log log' ev evs occurs _ ih =>
    cases ev with
    | searched => exact ih
    | refused => exact ih
    | reused p score =>
      have hscore : p.similarity = some score := occurs
      rw [List.filterMap_cons_none (f := Event.created?) rfl,
        List.filterMap_cons_some (f := Event.pending?) rfl,
        List.filter_cons_of_neg (by simp [hscore]), ih]
    | created p hint nested payload =>
      obtain ⟨_, _, _, _, -, -, -, -, -, -, hsimilarity⟩ := occurs
      rw [List.filterMap_cons_some (f := Event.created?) rfl,
        List.filterMap_cons_some (f := Event.pending?) rfl,
        List.filter_cons_of_pos (by simp [hsimilarity]), ih]

end History

/-- The updates of an event are those of its relation. -/
theorem Occurs.updates (hquiet : st.Quiet) (h : st.Occurs log ev) :
    (ev.calls st.context).filter Call.isUpdate = (ev.pending?.bind Pending.update?).toList := by
  cases ev with
  | searched => rfl
  | refused => rfl
  | reused p score =>
    have hscore : p.similarity = some score := h
    rw [Event.pending?, Option.bind_some, Pending.update?, hscore]
    rfl
  | created p hint nested payload =>
    obtain ⟨e, generated, record, -, -, -, hnested, -, -, -, hsimilarity⟩ := h
    obtain ⟨calls, hcalls, hother⟩ := hquiet e generated hnested
    obtain rfl : nested = calls := by simpa using hcalls
    have hnone : nested.filter Call.isUpdate = [] := by
      rw [List.filter_eq_nil_iff]
      exact fun c hc => by simp [hother c hc]
    rw [Event.pending?, Option.bind_some, Pending.update?, hsimilarity, Event.calls,
      List.filter_cons_of_neg (by simp [Call.isUpdate]), List.filter_append, hnone]
    rfl

/-- **The updates in the log are those of the relations with a similarity**, in order. -/
theorem History.updates (hquiet : st.Quiet) (h : st.History log evs log') :
    (evs.flatMap (Event.calls st.context)).filter Call.isUpdate =
      (evs.filterMap Event.pending?).filterMap Pending.update? := by
  induction h with
  | nil => rfl
  | @cons log log' ev evs occurs _ ih =>
    rw [List.flatMap_cons, List.filter_append, ih, occurs.updates hquiet]
    cases hpending : ev.pending? with
    | none => rw [List.filterMap_cons_none hpending, Option.bind_none, Option.toList_none,
        List.nil_append]
    | some p =>
      rw [List.filterMap_cons_some hpending, List.filterMap_cons, Option.bind_some]
      cases p.update? <;> rfl

/-! ## The relations that a run yields -/

/-- The run leads from one log to the other and leaves the relations pending. -/
def Yields (st : Setting) (log : List Call) (ps : List Pending) (log' : List Call) : Prop :=
  ∃ evs, st.History log evs log' ∧ evs.filterMap Event.pending? = ps

theorem Yields.refl (log : List Call) : st.Yields log [] log := ⟨[], .nil log, rfl⟩

theorem Yields.trans {ps ps' : List Pending} (h : st.Yields log ps between)
    (h' : st.Yields between ps' log') : st.Yields log (ps ++ ps') log' := by
  obtain ⟨evs, hevs, rfl⟩ := h
  obtain ⟨evs', hevs', rfl⟩ := h'
  exact ⟨evs ++ evs', hevs.append hevs', List.filterMap_append⟩

theorem searchFor_yields {type query : String} {least : Number} {limit : Int} {ms : List Match}
    (h : (st.backend.searchFor type query least limit).Returns log ms log') :
    st.Yields log [] log' := by
  obtain ⟨-, -, rfl⟩ | ⟨find, hfind, -, rfl⟩ := Backend.searchFor_cases h
  · exact .refl _
  · have hsearch : st.backend.canSearch := Option.isSome_of_eq_some hfind
    have hevent : st.Occurs log (.searched type query least limit) := hsearch
    exact ⟨_, History.one hevent, rfl⟩

/-- **A reused entity is updated once**, and the relation has its score. -/
theorem reuse_yields (field type : String) (id score : Value) :
    st.Yields log [⟨field, type, id, some score⟩] (log ++ [.reuse type id score]) := by
  have hevent : st.Occurs log (.reused ⟨field, type, id, some score⟩ score) := rfl
  exact ⟨_, History.one hevent, rfl⟩

/-- **An entity is created once, unless its type is not known.** -/
theorem Generates.yields (hquiet : st.Quiet) {field type hint : String} {p? : Option Pending}
    (h : st.Generates field type hint log p? log') : st.Yields log p?.toList log' := by
  cases h with
  | refused unknown =>
    have hevent : st.Occurs log (.refused type hint) := unknown
    exact ⟨_, History.one hevent, rfl⟩
  | @created e generated payload made id between known generates nested creates identified =>
    obtain ⟨inside, rfl, -⟩ := hquiet e generated nested
    rw [List.append_assoc, List.singleton_append] at nested creates
    have hevent : st.Occurs log
        (.created ⟨field, type, id, none⟩ hint inside (st.marked field payload)) :=
      ⟨e, generated, payload, made, known, generates, nested, rfl, creates, identified, rfl⟩
    refine ⟨[.created ⟨field, type, id, none⟩ hint inside (st.marked field payload)], ?_, rfl⟩
    rw [List.append_assoc, List.append_assoc, List.singleton_append]
    exact History.one hevent

end Setting

end EntitySchema.Resolve
