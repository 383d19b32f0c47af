import EntitySchema.Grammar.Definition
import EntitySchema.Proofs.Resolve.Calls
import EntitySchema.Proofs.Validation.Backref

/-!
# Proofs/Resolve/Threshold — which threshold a field is searched at

    ->Type(0.9)   <-Type(0.9)    not searched, and warned about
    ~>Type(0.9)                  searched at 0.9
    <~Type(0.9)                  searched at the threshold of the entity, without a warning

Validation warns about a threshold on an exact operator, since nothing is searched for there.  On a
fuzzy operator it is silent.  Forward resolution searches at the threshold of the field, backward
resolution at that of the entity, whatever the field says (`searched_at`).
-/

namespace EntitySchema.Resolve

open Session

/-- The least score that a search asks for. -/
def Call.least? : Call → Option Number
  | .search _ _ least _ => some least
  | _ => none

/-- Every search among the calls asks for the score `t`. -/
def SearchesAt (t : Number) (calls : List Call) : Prop :=
  ∀ c ∈ calls, ∀ least, c.least? = some least → least = t

/-- The calls are searches that ask for the score `t`. -/
def OnlySearchesAt (t : Number) (calls : List Call) : Prop := ∀ c ∈ calls, c.least? = some t

theorem OnlySearchesAt.searchesAt_iff {t t' : Number} {calls : List Call}
    (h : OnlySearchesAt t calls) : SearchesAt t' calls ↔ calls = [] ∨ t' = t := by
  constructor
  · intro hcalls
    cases calls with
    | nil => exact .inl rfl
    | cons c calls =>
      exact .inr (hcalls c List.mem_cons_self t (h c List.mem_cons_self)).symm
  · rintro (rfl | rfl)
    · exact List.forall_mem_nil _
    · exact fun c hc least hleast => Option.some.inj (hleast.symm.trans (h c hc))

/-! ## The calls for a field -/

theorem backwardField_of_operator_ne (b : Backend) (t : Number) (given data : Record) (key : String)
    {f : Field} (hoperator : f.operator? ≠ some .backwardFuzzy) :
    backwardField b t given data key f = pure data := by
  rw [backwardField]
  cases hrel : f.relation? with
  | none => rfl
  | some rel =>
    rw [Field.operator?, hrel] at hoperator
    exact if_pos (.inl hoperator)

/-- **Forward resolution searches at the threshold of the field**, and makes no call for a field
with another operator. -/
theorem ensures_forwardField (b : Backend) (schema : Schema) (context : Context) (default : Number)
    (r : Forward) (key : String) (f : Field) :
    ((Setting.of b schema context).forwardField default r key f).Ensures fun calls _ =>
      (f.operator? ≠ some .forwardFuzzy → calls = []) ∧
        SearchesAt (leastScore default f) calls := by
  by_cases hoperator : f.operator? = some .forwardFuzzy
  · have hallows : (Setting.of b schema context).Allows fun c =>
        ∀ least, c.least? = some least → least = leastScore default f :=
      ⟨fun _ _ => nofun, fun e payload => staysWithin_createPending (fun _ _ => nofun) _ e payload,
        fun _ _ => nofun, fun _ _ _ => nofun⟩
    refine (Setting.staysWithin_forwardField hallows default r key f ?_).mono
      fun calls _ hcalls => ⟨absurd hoperator, hcalls⟩
    rintro type query limit _ ⟨⟩
    rfl
  · rw [Setting.forwardField_of_operator_ne _ default r key hoperator]
    exact ensures_pure ⟨fun _ => rfl, List.forall_mem_nil _⟩

/-- **Backward resolution only searches, at the one threshold it is given**, and makes no call for a
field with another operator. -/
theorem ensures_backwardField (b : Backend) (t : Number) (given data : Record) (key : String)
    (f : Field) :
    (backwardField b t given data key f).Ensures fun calls _ =>
      (f.operator? ≠ some .backwardFuzzy → calls = []) ∧ OnlySearchesAt t calls := by
  by_cases hoperator : f.operator? = some .backwardFuzzy
  · exact (staysWithin_backwardField (fun _ _ _ => rfl) given data key f).mono
      fun calls _ hcalls => ⟨absurd hoperator, hcalls⟩
  · rw [backwardField_of_operator_ne b t given data key hoperator]
    exact ensures_pure ⟨fun _ => rfl, List.forall_mem_nil _⟩

/-! ## Both resolutions -/

/-- A threshold that validation does not warn about stands on a fuzzy operator. -/
theorem fuzzy_of_silent {s : Schema} {name : String} {e : Entity} (he : s.entity? name = some e)
    {f : Field} (hf : f ∈ e.fields.values) {o : Operator} (ho : f.operator? = some o)
    (ht : f.threshold?.isSome) (hsilent : .ignoredThreshold e.name f.name o ∉ s.validate.warnings) :
    o = .forwardFuzzy ∨ o = .backwardFuzzy := by
  have hmode : o.matchMode ≠ .exact := by
    intro hexact
    refine hsilent ((Schema.mem_warnings_iff (by simp [Warning.field?])).mpr
      ⟨name, e, he, f, hf, ?_⟩)
    exact .inr (.inl (Schema.ignoredThreshold?_eq_some_iff.mpr ⟨o, ho, ht, hexact, rfl⟩))
  cases o with
  | forwardFuzzy => exact .inl rfl
  | backwardFuzzy => exact .inr rfl
  | forwardExact | backwardExact => exact absurd rfl hmode

/-- **A threshold without a warning is the one that forward resolution searches at.**  The field has
a fuzzy operator.  If it is resolved forward, every search for it asks for its threshold.  If it is
resolved backward, every search for it asks for the threshold of the entity, so its own is honoured
only if there is no search or the two are equal.  Both hold for every run, however it ends. -/
theorem searched_at {s : Schema} {name : String} {e : Entity} (he : s.entity? name = some e)
    {key : String} {f : Field} (hf : (key, f) ∈ e.fields.entries) {o : Operator}
    (ho : f.operator? = some o) {t : Binary64} (ht : f.threshold? = some t)
    (hsilent : .ignoredThreshold e.name f.name o ∉ s.validate.warnings) (b : Backend) :
    (∀ context log, let gs := (Setting.of b s context).forwardStages e log
      Divides gs (forward (.of b s context) e) e.fields.entries log ∧
        ∀ g ∈ gs, g.item = (key, f) →
          (o = .backwardFuzzy → g.calls = []) ∧ SearchesAt (.float t) g.calls) ∧
    (∀ given log, let gs := backwardStages b e given log
      Divides gs (backward b e given) e.fields.entries log ∧
        ∀ g ∈ gs, g.item = (key, f) →
          (o = .forwardFuzzy → g.calls = []) ∧ OnlySearchesAt (.float e.fuzzyThreshold) g.calls ∧
          (SearchesAt (.float t) g.calls ↔ g.calls = [] ∨ t = e.fuzzyThreshold)) ∧
    (o = .forwardFuzzy ∨ o = .backwardFuzzy) := by
  refine ⟨fun context log => ⟨divides_forward b s context e log, fun g hg hitem => ?_⟩,
    fun given log => ⟨divides_backward b e given log, fun g hg hitem => ?_⟩, ?_⟩
  · have hleast : leastScore (.float e.fuzzyThreshold) f = .float t := by
      rw [leastScore, ht]
      rfl
    obtain ⟨hnone, hsearches⟩ := forall_stages
      (fun r (p : String × Field) => ensures_forwardField b s context _ r p.1 p.2) _ _ _ g hg
    rw [hitem] at hnone hsearches
    rw [ho] at hnone
    refine ⟨fun hbackward => hnone ?_, hleast ▸ hsearches⟩
    rw [hbackward]
    decide
  · obtain ⟨hnone, hsearches⟩ := forall_stages
      (fun data (p : String × Field) => ensures_backwardField b _ given data p.1 p.2) _ _ _ g hg
    rw [hitem, ho] at hnone
    refine ⟨fun hforward => hnone ?_, hsearches, ?_⟩
    · rw [hforward]
      decide
    · rw [hsearches.searchesAt_iff, Number.float.injEq]
  · exact fuzzy_of_silent he (List.mem_map_of_mem hf) ho (by simp [ht]) hsilent

/-- A store that can search and finds nothing. -/
def vacant : Backend :=
  { search? := some fun _ _ _ _ _ => .ok []
    create := fun _ _ r => .ok r
    update := fun _ _ _ _ => .ok ()
    generate := fun _ _ _ _ => .ok .null }

/-- A field that is resolved backward, and a threshold of nine tenths. -/
def strictField : Field := .parse "category" "What is it about? <~Category(0.9)"

/-- An entity with such a field. -/
def strictPost : Entity := { name := "Post", fields := .ofList [("category", strictField)] }

/-- The schema of such an entity. -/
def strictBlog : Schema :=
  { entities := .ofList [("Post", strictPost), ("Category", { name := "Category" })] }

theorem searched_at_strictPost : ∃ t, strictField.threshold? = some t ∧
    strictBlog.entity? "Post" = some strictPost ∧
    ("category", strictField) ∈ strictPost.fields.entries ∧
    strictField.operator? = some .backwardFuzzy ∧
    .ignoredThreshold strictPost.name strictField.name .backwardFuzzy ∉
      strictBlog.validate.warnings ∧
    ∃ g ∈ backwardStages vacant strictPost .empty [], g.item = ("category", strictField) ∧
      ¬ SearchesAt (.float t) g.calls := by
  obtain ⟨t, ht⟩ := Option.isSome_iff_exists.mp
    (show strictField.threshold?.isSome = true by decide +kernel)
  have hother : t ≠ strictPost.fuzzyThreshold := by
    intro heq
    rw [heq] at ht
    exact absurd ht (by decide +kernel)
  have he : strictBlog.entity? "Post" = some strictPost := by decide +kernel
  have hf : ("category", strictField) ∈ strictPost.fields.entries := by decide +kernel
  have ho : strictField.operator? = some .backwardFuzzy := by decide +kernel
  have hsilent : .ignoredThreshold strictPost.name strictField.name .backwardFuzzy ∉
      strictBlog.validate.warnings := by decide +kernel
  obtain ⟨-, hbackward, -⟩ := searched_at he hf ho ht hsilent vacant
  have hstages : backwardStages vacant strictPost .empty [] =
      [⟨("category", strictField),
        [.search "Category" "What is it about?" (.float strictPost.fuzzyThreshold) 1]⟩] := by
    decide +kernel
  refine ⟨t, ht, he, hf, ho, hsilent, _, hstages ▸ List.mem_cons_self, rfl, fun hsearches => ?_⟩
  obtain ⟨-, hstage⟩ := hbackward .empty []
  obtain ⟨-, -, hiff⟩ := hstage _ (hstages ▸ List.mem_cons_self) rfl
  obtain hnone | heq := hiff.mp hsearches
  · exact List.cons_ne_nil _ _ hnone
  · exact hother heq

end EntitySchema.Resolve
