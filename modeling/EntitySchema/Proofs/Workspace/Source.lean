import EntitySchema.Proofs.Schema.Storable
import EntitySchema.Proofs.Workspace.Job
import EntitySchema.Workspace.Source

/-!
# Proofs/Workspace/Source — what a schema file compiles to

    (compile F p sys).outcome d = ok s   ⟺   d holds a text at p, and schemaOf? F sys text = some s

Compiling reads the schema file and nothing else, so the schema depends on the text alone and the
disk stays as it is.  A document whose data is the data of JSON (`Yaml.Node.IsJson`) gives a schema
that a snapshot keeps as it is (`storable_of_schemaOf?`).
-/

namespace EntitySchema

/-! ## Documents of JSON data -/

namespace Yaml.Node

mutual

/-- The node is data of JSON: its keys are texts and its doubles are finite. -/
def IsJson : Node → Prop
  | .scalar (.number (.float x)) => x.isFinite = true
  | .scalar _ => True
  | .sequence ns => AllJson ns
  | .mapping ms => MembersJson ms

/-- The nodes are data of JSON. -/
def AllJson : List Node → Prop
  | [] => True
  | n :: ns => n.IsJson ∧ AllJson ns

/-- The members are data of JSON. -/
def MembersJson : List (Scalar × Node) → Prop
  | [] => True
  | (.text _, n) :: ms => n.IsJson ∧ MembersJson ms
  | _ :: _ => False

end

mutual

/-- Data of JSON can be told. -/
def decideIsJson : (n : Node) → Decidable n.IsJson
  | .scalar (.number (.float x)) => inferInstanceAs (Decidable (x.isFinite = true))
  | .scalar .null | .scalar (.bool _) | .scalar (.text _) | .scalar (.number (.int _)) =>
      isTrue trivial
  | .sequence ns => decideAllJson ns
  | .mapping ms => decideMembersJson ms

/-- Nodes that are all data of JSON can be told. -/
def decideAllJson : (ns : List Node) → Decidable (AllJson ns)
  | [] => isTrue trivial
  | n :: ns =>
      have := decideIsJson n
      have := decideAllJson ns
      inferInstanceAs (Decidable (n.IsJson ∧ AllJson ns))

/-- Members that are data of JSON can be told. -/
def decideMembersJson : (ms : List (Scalar × Node)) → Decidable (MembersJson ms)
  | [] => isTrue trivial
  | (.text _, n) :: ms =>
      have := decideIsJson n
      have := decideMembersJson ms
      inferInstanceAs (Decidable (n.IsJson ∧ MembersJson ms))
  | (.null, _) :: _ | (.bool _, _) :: _ | (.number _, _) :: _ => isFalse id

end

instance (n : Node) : Decidable n.IsJson := decideIsJson n

theorem storable_list {vs : List Value} (h : ∀ v ∈ vs, v.Storable) : (Value.list vs).Storable := by
  induction vs with
  | nil => exact ⟨trivial, trivial⟩
  | cons v vs ih =>
    rw [List.forall_mem_cons] at h
    exact ⟨⟨h.1.distinct, (ih h.2).distinct⟩, ⟨h.1.finite, (ih h.2).finite⟩⟩

mutual

/-- **Data of JSON is storable.** -/
theorem IsJson.storable : ∀ {n : Node}, n.IsJson → n.toValue.Storable
  | .scalar .null, _ | .scalar (.bool _), _ | .scalar (.text _), _
  | .scalar (.number (.int _)), _ =>
      ⟨trivial, trivial⟩
  | .scalar (.number (.float _)), h => ⟨trivial, h⟩
  | .sequence _, h => storable_list (AllJson.storable h)
  | .mapping _, h => Record.Storable.value (Table.forall_ofList (MembersJson.storable h))

theorem AllJson.storable : ∀ {ns : List Node}, AllJson ns → ∀ v ∈ toValues ns, v.Storable
  | [], _ => nofun
  | _ :: _, h => List.forall_mem_cons.mpr ⟨IsJson.storable h.1, AllJson.storable h.2⟩

theorem MembersJson.storable : ∀ {ms : List (Scalar × Node)}, MembersJson ms →
    ∀ p ∈ toMembers ms, p.2.Storable
  | [], _ => nofun
  | (.text _, _) :: _, h => List.forall_mem_cons.mpr ⟨IsJson.storable h.1, MembersJson.storable h.2⟩
  | (.null, _) :: _, h | (.bool _, _) :: _, h | (.number _, _) :: _, h => h.elim

end

end Yaml.Node

namespace Source

open Yaml (Scalar Node)

variable {F : Formats}

variable (F) in
/-- The text is a document of JSON data, or no document at all. -/
def JsonValued (text : String) : Prop := ∀ n ∈ F.document? text, n.IsJson

instance (text : String) : Decidable (JsonValued F text) :=
  inferInstanceAs (Decidable (∀ n ∈ F.document? text, n.IsJson))

theorem storable_textMembers : ∀ {ms : List (Scalar × Node)}, Node.MembersJson ms →
    ∀ p ∈ (textMembers ms).1, p.2.Storable
  | [], _ => nofun
  | (.text _, _) :: _, h =>
      List.forall_mem_cons.mpr ⟨Node.IsJson.storable h.1, storable_textMembers h.2⟩
  | (.null, _) :: _, h | (.bool _, _) :: _, h | (.number _, _) :: _, h => h.elim

theorem membersStorable_declaration (name : String) : ∀ {n : Node}, n.IsJson →
    (declaration name n).1.MembersStorable
  | .scalar _, h | .sequence _, h => h.storable.members
  | .mapping ms, h => by
      rw [declaration]
      split
      · exact (Node.IsJson.storable (n := .mapping ms) h).members
      · rintro ms' heq
        cases heq
        exact storable_textMembers h

theorem membersStorable_declarations : ∀ {ms : List (Scalar × Node)}, Node.MembersJson ms →
    ∀ p ∈ (declarations ms).1, p.2.MembersStorable
  | [], _ => nofun
  | (.text k, n) :: ms, h => by
      have hn := membersStorable_declaration k h.1
      rw [declarations]
      rcases hdecl : declaration k n with ⟨v, _ | bad⟩
      · rw [hdecl] at hn
        exact List.forall_mem_cons.mpr ⟨hn, membersStorable_declarations h.2⟩
      · rw [hdecl] at hn
        exact List.forall_mem_cons.mpr ⟨hn, nofun⟩
  | (.null, _) :: _, h | (.bool _, _) :: _, h | (.number _, _) :: _, h => h.elim

/-! ## The schema of a text -/

variable (F) in
/-- The members of a document; an empty one has none. -/
def members? (text : String) : Option (List (Scalar × Node)) :=
  match F.document? text with
  | some (.mapping ms) => some ms
  | some (.scalar .null) => some []
  | _ => none

/-- The schema that members declare, if their keys are texts. -/
def schemaOfMembers? (ms : List (Scalar × Node)) : Option Schema :=
  match declarations ms with
  | (members, none) => (Schema.assemble (.ofList members) true).toOption
  | (_, some _) => none

variable (F) in
/-- The schema of a text. -/
def schemaOf? (systemEntities : Bool) (text : String) : Option Schema :=
  ((members? F text).bind schemaOfMembers?).map fun s =>
    if systemEntities then s.withSystemEntities else s

@[simp] theorem readOnly_members {p : Path} : (members F p).ReadOnly := by
  refine Job.readOnly_bind (fun text => ?_) Job.readOnly_readText
  rcases F.document? text with _ | ⟨_ | _ | _ | _⟩ | _ | ms <;> trivial

theorem members_eq_ok_iff {p : Path} {d : Disk} {ms : List (Scalar × Node)} :
    ((members F p).outcome d).1 = .ok ms ↔
      ∃ text, d.read p = .ok text ∧ members? F text = some ms := by
  rw [members, Job.readOnly_readText.result_bind]
  refine exists_congr fun text => and_congr ?_ ?_
  · cases h : d.read p <;> simp [h]
  · rw [members?]
    rcases F.document? text with _ | ⟨_ | _ | _ | _⟩ | _ | ms' <;> simp

@[simp] theorem readOnly_assemble {p : Path} {ms : List (Scalar × Node)} :
    (assemble p ms).ReadOnly := by
  rw [assemble]
  rcases declarations ms with ⟨members, _ | bad⟩
  · exact Job.readOnly_bind (fun _ => Job.readOnly_lift) Job.readOnly_forEach_report
  · dsimp only
    cases Schema.declare (.ofList members) <;> trivial

theorem assemble_eq_ok_iff {p : Path} {ms : List (Scalar × Node)} {d : Disk} {s : Schema} :
    ((assemble p ms).outcome d).1 = .ok s ↔ schemaOfMembers? ms = some s := by
  rw [assemble, schemaOfMembers?]
  rcases declarations ms with ⟨members, _ | bad⟩
  · dsimp only
    rw [Job.outcome_bind_of_ok (Job.outcome_forEach_report .assembled d _), Job.outcome_lift,
      Schema.assemble]
    cases (Schema.assembleSteps (.ofList members) true).1 <;>
      simp [Except.toOption]
  · dsimp only
    cases Schema.declare (.ofList members) <;> simp

@[simp] theorem readOnly_compile {p : Path} {systemEntities : Bool} :
    (compile F p systemEntities).ReadOnly :=
  Job.readOnly_bind (fun _ => Job.readOnly_bind (fun _ => Job.readOnly_pure) readOnly_assemble)
    readOnly_members

@[simp] theorem not_tells_members {p : Path} {d : Disk} {n : Notice} :
    ¬ (members F p).Tells d n := by
  rw [members, Job.tells_bind, not_or]
  refine ⟨Job.not_tells_readText, fun ⟨text, _, _, h⟩ => ?_⟩
  revert h
  rcases F.document? text with _ | ⟨_ | _ | _ | _⟩ | _ | ms <;> exact nofun

theorem tells_assemble {p : Path} {ms : List (Scalar × Node)} {d : Disk} {n : Notice} :
    (assemble p ms).Tells d n → ∃ step, n = .assembled step := by
  rw [assemble]
  rcases declarations ms with ⟨members, _ | bad⟩
  · dsimp only
    rw [Job.tells_bind]
    rintro (h | ⟨_, _, _, h⟩)
    · obtain ⟨step, -, rfl⟩ := Job.tells_forEach_report h
      exact ⟨step, rfl⟩
    · exact absurd h Job.not_tells_lift
  · dsimp only
    cases Schema.declare (.ofList members) <;> exact nofun

/-- Compiling tells nothing but the steps of assembling. -/
theorem tells_compile {p : Path} {systemEntities : Bool} {d : Disk} {n : Notice}
    (h : (compile F p systemEntities).Tells d n) : ∃ step, n = .assembled step := by
  rw [compile, Job.tells_bind] at h
  rcases h with h | ⟨ms, _, _, h⟩
  · exact absurd h not_tells_members
  · rw [Job.tells_bind] at h
    rcases h with h | ⟨_, _, _, h⟩
    · exact tells_assemble h
    · exact absurd h Job.not_tells_pure

/-- **Compiling a schema file depends on its text alone.** -/
theorem compile_eq_ok_iff {p : Path} {systemEntities : Bool} {d : Disk} {s : Schema} :
    ((compile F p systemEntities).outcome d).1 = .ok s ↔
      ∃ text, d.read p = .ok text ∧ schemaOf? F systemEntities text = some s := by
  rw [compile, readOnly_members.result_bind]
  simp only [readOnly_assemble.result_bind, members_eq_ok_iff, assemble_eq_ok_iff,
    Job.outcome_pure, Except.ok.injEq, schemaOf?, Option.map_eq_some_iff, Option.bind_eq_some_iff]
  constructor
  · rintro ⟨ms, ⟨text, htext, hms⟩, s₀, hs₀, rfl⟩
    exact ⟨text, htext, s₀, ⟨ms, hms, hs₀⟩, rfl⟩
  · rintro ⟨text, htext, s₀, ⟨ms, hms, hs₀⟩, rfl⟩
    exact ⟨ms, ⟨text, htext, hms⟩, s₀, hs₀, rfl⟩

/-- **The schema of JSON data is one that a snapshot keeps.** -/
theorem storable_of_schemaOf? {systemEntities : Bool} {text : String} {s : Schema}
    (htext : JsonValued F text) (h : schemaOf? F systemEntities text = some s) : s.Storable := by
  obtain ⟨s₀, hs₀, rfl⟩ := Option.map_eq_some_iff.mp h
  obtain ⟨ms, hms, hs₀⟩ := Option.bind_eq_some_iff.mp hs₀
  have hjson : Node.MembersJson ms := by
    rw [members?] at hms
    split at hms
    · cases hms
      exact htext _ ‹_›
    · cases hms
      trivial
    · cases hms
  have hs₀ : s₀.Storable := by
    rw [schemaOfMembers?] at hs₀
    rcases hdecl : declarations ms with ⟨members, _ | bad⟩ <;>
      rw [hdecl] at hs₀ <;> dsimp only at hs₀
    · have hmembers := membersStorable_declarations hjson
      rw [hdecl] at hmembers
      cases hassemble : Schema.assemble (.ofList members) true with
      | error e =>
        rw [hassemble] at hs₀
        cases hs₀
      | ok s =>
        rw [hassemble] at hs₀
        cases hs₀
        exact Schema.storable_of_assemble (Table.forall_ofList hmembers) hassemble
    · cases hs₀
  split
  · exact hs₀.withSystemEntities
  · exact hs₀

end Source

end EntitySchema
