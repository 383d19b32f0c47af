import EntitySchema.Proofs.Session

/-!
# Proofs/Session/Stages — which step of a run made a call

    items     i₁        i₂        …
    log  ++   calls₁ ++ calls₂ ++ …

A session that takes items one after another makes its calls in stages, one for each item up to the
last or to the first whose step fails (`stages`).  However it ends, the stages make up what it added
to the log (`divides_stages`), and what every step ensures holds of every stage (`forall_stages`).
-/

namespace EntitySchema.Session

variable {κ σ ι α : Type}

/-- The calls that were made for one item. -/
structure Stage (ι κ : Type) where
  /-- The item. -/
  item : ι
  /-- The calls, in order. -/
  calls : List κ
deriving DecidableEq

/-- The stages of the session that takes the items one after another, from `s` on. -/
def stages (step : σ → ι → Session κ σ) : σ → List ι → List κ → List (Stage ι κ)
  | _, [], _ => []
  | s, i :: is, log =>
      ⟨i, (step s i log).2.drop log.length⟩ ::
        match step s i log with
        | (.ok s', log') => stages step s' is log'
        | (.error _, _) => []

/-- The stages make up what the session adds to the log, in the order of the items, and there is one
for every item if the session returns. -/
structure Divides (gs : List (Stage ι κ)) (x : Session κ α) (items : List ι) (log : List κ) :
    Prop where
  /-- The calls of the stages are added, stage by stage. -/
  log_eq : (x log).2 = log ++ gs.flatMap (·.calls)
  /-- The items come in their order. -/
  items_prefix : gs.map (·.item) <+: items
  /-- No item is left out if the session returns. -/
  complete : ∀ a log', x.Returns log a log' → gs.map (·.item) = items

variable {step : σ → ι → Session κ σ} {s : σ} {is : List ι} {log : List κ}

theorem divides_stages (hstep : ∀ s i, (step s i).Ensures fun _ _ => True) (s : σ) (is : List ι)
    (log : List κ) : Divides (stages step s is log) (is.foldlM step s) is log := by
  induction is generalizing s log with
  | nil => exact ⟨(List.append_nil log).symm, List.prefix_rfl, fun _ _ _ => rfl⟩
  | cons i is ih =>
    obtain ⟨calls, r, hr, -⟩ := hstep s i log
    have hcalls : (step s i log).2.drop log.length = calls := by rw [hr, List.drop_left]
    have hrun : (i :: is).foldlM step s log = (step s i).andThen (is.foldlM step) log := by
      rw [List.foldlM_cons]
      rfl
    rw [stages, hcalls, hr]
    rw [andThen, hr] at hrun
    cases r with
    | error e =>
      refine ⟨?_, ?_, fun a log' h => ?_⟩
      · rw [hrun, List.flatMap_singleton]
      · exact List.prefix_append [i] is
      · exact nomatch hrun.symm.trans h
    | ok s' =>
      obtain ⟨hlog, hprefix, hcomplete⟩ := ih s' (log ++ calls)
      refine ⟨?_, ?_, fun a log' h => ?_⟩
      · rw [hrun, List.flatMap_cons, ← List.append_assoc]
        exact hlog
      · exact List.prefix_cons_iff.mpr (.inr ⟨_, rfl, hprefix⟩)
      · exact congrArg (i :: ·) (hcomplete a log' (hrun.symm.trans h))

section

variable {a : σ} {log' : List κ}

/-- The first stage of a session that returns. -/
theorem stages_cons (hstep : ∀ s i, (step s i).Ensures fun _ _ => True) {i : ι}
    (h : ((i :: is).foldlM step s).Returns log a log') :
    ∃ s' calls, (step s i).Returns log s' (log ++ calls) ∧
      (is.foldlM step s').Returns (log ++ calls) a log' ∧
      stages step s (i :: is) log = ⟨i, calls⟩ :: stages step s' is (log ++ calls) := by
  obtain ⟨s', log₁, hfirst, hrest⟩ := returns_bind_iff.mp h
  obtain ⟨calls, r, hr, -⟩ := hstep s i log
  obtain ⟨rfl, rfl⟩ := Prod.mk.inj (hfirst.symm.trans hr)
  refine ⟨s', calls, hfirst, hrest, ?_⟩
  rw [stages, hr, List.drop_left]

/-- **A session that returns comes to a stage by the steps before it**, takes its step there, and
goes on with the steps behind it. -/
theorem stage_returns (hstep : ∀ s i, (step s i).Ensures fun _ _ => True)
    {before after : List (Stage ι κ)} {g : Stage ι κ} (h : (is.foldlM step s).Returns log a log')
    (hsplit : stages step s is log = before ++ g :: after) :
    ∃ s₁ s₂ between, between = log ++ before.flatMap (·.calls) ∧
      ((before.map (·.item)).foldlM step s).Returns log s₁ between ∧
      (step s₁ g.item).Returns between s₂ (between ++ g.calls) ∧
      ((after.map (·.item)).foldlM step s₂).Returns (between ++ g.calls) a log' := by
  induction before generalizing s is log with
  | nil =>
    cases is with
    | nil => exact nomatch hsplit
    | cons i is =>
      obtain ⟨s', calls, hfirst, hrest, hstages⟩ := stages_cons hstep h
      obtain ⟨rfl, rfl⟩ := List.cons.inj (hstages.symm.trans hsplit)
      refine ⟨s, s', log, (List.append_nil log).symm, returns_pure_iff.mpr ⟨rfl, rfl⟩, hfirst, ?_⟩
      rwa [(divides_stages hstep s' is _).complete a log' hrest]
  | cons g₀ before ih =>
    cases is with
    | nil => exact nomatch hsplit
    | cons i is =>
      obtain ⟨s', calls, hfirst, hrest, hstages⟩ := stages_cons hstep h
      obtain ⟨rfl, hbehind⟩ := List.cons.inj (hstages.symm.trans hsplit)
      obtain ⟨s₁, s₂, between, rfl, hbefore, hturn, hafter⟩ := ih hrest hbehind
      refine ⟨s₁, s₂, _, ?_, ?_, hturn, hafter⟩
      · rw [List.flatMap_cons, List.append_assoc]
      · exact returns_bind_iff.mpr ⟨s', _, hfirst, hbefore⟩

end

/-- **What every step ensures holds of every stage.** -/
theorem forall_stages {Q : ι → List κ → Prop}
    (hstep : ∀ s i, (step s i).Ensures fun calls _ => Q i calls) (s : σ) (is : List ι)
    (log : List κ) : ∀ g ∈ stages step s is log, Q g.item g.calls := by
  induction is generalizing s log with
  | nil => exact List.forall_mem_nil _
  | cons i is ih =>
    obtain ⟨calls, r, hr, hQ⟩ := hstep s i log
    have hcalls : (step s i log).2.drop log.length = calls := by rw [hr, List.drop_left]
    rw [stages, hcalls, hr]
    refine List.forall_mem_cons.mpr ⟨hQ, ?_⟩
    cases r with
    | error e => exact List.forall_mem_nil _
    | ok s' => exact ih s' (log ++ calls)

end EntitySchema.Session
