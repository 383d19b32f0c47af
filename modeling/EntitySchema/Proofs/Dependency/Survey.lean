import EntitySchema.Proofs.Dependency.Walk
import Mathlib.Data.List.Chain
import Mathlib.Logic.Relation

/-!
# Proofs/Dependency/Survey — what a walk over all types finds

    survey (with a counter) ──surveys_foldl──▸ Surveys (without) ──induction──▸ cycles, loops

`Surveys` tells a walk step by step: a name on the path closes a cycle, a known name is passed over,
a new name is entered.  `survey` follows it as long as there is room (`Room`).  Two facts come by
induction on the steps: every cycle met is one (`cycles_sound`), and a type that needs itself is met
exactly once (`count_loops`).
-/

namespace EntitySchema.Dependency

variable {next : String → List String}

/-- A simple cycle, closed by the type it starts with. -/
def IsCycle (next : String → List String) (c : List String) : Prop :=
  ∃ a ps, c = a :: ps ++ [a] ∧ (a :: ps).Nodup ∧ c.IsChain (Needs next)

/-! ## Steps of a survey -/

/-- The survey `s` becomes the survey `s'` when the names are visited at the end of the path. -/
inductive Surveys (next : String → List String) :
    List String → Survey → List String → Survey → Prop
  | nil {path : List String} {s : Survey} : Surveys next path s [] s
  | close {path names : List String} {name : String} {s s' : Survey} (h : name ∈ path)
      (rest : Surveys next path { s with cycles := s.cycles ++ [closeCycle path name] } names s') :
      Surveys next path s (name :: names) s'
  | pass {path names : List String} {name : String} {s s' : Survey} (h : name ∉ path)
      (hv : name ∈ s.visited) (rest : Surveys next path s names s') :
      Surveys next path s (name :: names) s'
  | enter {path names : List String} {name : String} {s s₁ s' : Survey} (h : name ∉ path)
      (hv : name ∉ s.visited)
      (inner : Surveys next (path ++ [name]) { s with visited := name :: s.visited } (next name) s₁)
      (rest : Surveys next path s₁ names s') : Surveys next path s (name :: names) s'

/-- **The counter does not run out** where there is room. -/
theorem surveys_foldl {types : List String} (htypes : ∀ u, next u ≠ [] → u ∈ types) :
    ∀ (fuel : ℕ) {path : List String} (s : Survey) (names : List String), Room types path fuel →
      Surveys next path s names (names.foldl (survey next fuel path) s)
  | 0, _, _, _, hroom => absurd rfl hroom.fuel_ne_zero
  | fuel + 1, path, s, [], _ => .nil
  | fuel + 1, path, s, name :: names, hroom => by
      rw [List.foldl_cons, survey]
      simp only [List.contains_iff_mem]
      split_ifs with h hv
      · exact .close h (surveys_foldl htypes (fuel + 1) _ names hroom)
      · exact .pass h hv (surveys_foldl htypes (fuel + 1) _ names hroom)
      · refine .enter h hv ?_ (surveys_foldl htypes (fuel + 1) _ names hroom)
        by_cases hnext : next name = []
        · rw [hnext]
          exact .nil
        · exact surveys_foldl htypes fuel _ (next name) (hroom.enter h (htypes name hnext))

namespace Surveys

variable {path names : List String} {s s' : Survey}

theorem cycles_prefix (h : Surveys next path s names s') : s.cycles <+: s'.cycles := by
  induction h with
  | nil => exact List.prefix_refl _
  | close _ _ ih => exact (List.prefix_append _ _).trans ih
  | pass _ _ _ ih => exact ih
  | enter _ _ _ _ ih ih' => exact ih.trans ih'

theorem visited_subset (h : Surveys next path s names s') : s.visited ⊆ s'.visited := by
  induction h with
  | nil => exact List.Subset.refl _
  | close _ _ ih => exact ih
  | pass _ _ _ ih => exact ih
  | enter _ _ _ _ ih ih' => exact fun x hx => ih' (ih (List.mem_cons_of_mem _ hx))

/-- What is visited is on the path or known in the end. -/
theorem names_visited (h : Surveys next path s names s') :
    ∀ name ∈ names, name ∈ path ∨ name ∈ s'.visited := by
  induction h with
  | nil => simp
  | close h _ ih => exact List.forall_mem_cons.mpr ⟨.inl h, ih⟩
  | pass _ hv rest ih => exact List.forall_mem_cons.mpr ⟨.inr (rest.visited_subset hv), ih⟩
  | enter _ _ inner rest _ ih =>
    refine List.forall_mem_cons.mpr ⟨.inr (rest.visited_subset ?_), ih⟩
    exact inner.visited_subset (List.mem_cons_self ..)

end Surveys

/-! ## Cycles that are met -/

/-- A cycle is the path from its first type on. -/
theorem exists_closeCycle_eq {path : List String} {name : String} (h : name ∈ path) :
    ∃ pre post, path = pre ++ name :: post ∧ closeCycle path name = name :: post ++ [name] := by
  obtain ⟨pre, post, rfl, hpre⟩ := List.eq_append_cons_of_mem h
  refine ⟨pre, post, rfl, ?_⟩
  have hdrop : ∀ a ∈ pre, (a != name) = true := fun a ha => by
    rw [bne_iff_ne]
    rintro rfl
    exact hpre ha
  rw [closeCycle, List.dropWhile_append_of_pos hdrop, List.dropWhile_cons_of_neg (by simp)]

/-- A path closed by its last type is a cycle through that type alone; other cycles are longer. -/
theorem closeCycle_eq_pair_iff {path : List String} (hnodup : path.Nodup) {name n : String}
    (h : name ∈ path) :
    closeCycle path name = [n, n] ↔ path.getLast? = some n ∧ name = n := by
  obtain ⟨pre, post, rfl, hclose⟩ := exists_closeCycle_eq h
  rw [hclose, List.getLast?_append]
  constructor
  · intro heq
    obtain ⟨rfl, hpost⟩ := List.cons.inj heq
    obtain rfl : post = [] := by simpa using congrArg List.length hpost
    exact ⟨by simp, rfl⟩
  · rintro ⟨hlast, rfl⟩
    have hpost : post = [] := by
      by_contra hne
      rw [List.getLast?_cons_of_ne_nil hne] at hlast
      have hmem : name ∈ post := List.mem_of_getLast? (by simpa [hne] using hlast)
      exact (List.nodup_cons.mp (List.nodup_append.mp hnodup).2.1).1 hmem
    rw [hpost]
    rfl

/-- **What closes a path is a cycle.** -/
theorem isCycle_closeCycle {path : List String} {name : String} (hnodup : path.Nodup)
    (hchain : (path ++ [name]).IsChain (Needs next)) (h : name ∈ path) :
    IsCycle next (closeCycle path name) := by
  obtain ⟨pre, post, rfl, hclose⟩ := exists_closeCycle_eq h
  rw [List.append_assoc] at hchain
  refine ⟨name, post, hclose, (List.nodup_append.mp hnodup).2.1, ?_⟩
  rw [hclose]
  exact hchain.right_of_append

/-- A path goes on with what its last type needs. -/
theorem isChain_concat {path : List String} {name : String}
    (hchain : (path ++ [name]).IsChain (Needs next)) :
    ∀ d ∈ next name, (path ++ [name] ++ [d]).IsChain (Needs next) := fun d hd =>
  hchain.append (.singleton d) (by simpa using hd)

theorem cycles_sound {path names : List String} {s s' : Survey}
    (h : Surveys next path s names s') (hnodup : path.Nodup)
    (hchain : ∀ name ∈ names, (path ++ [name]).IsChain (Needs next)) :
    ∀ c ∈ s'.cycles, c ∈ s.cycles ∨ IsCycle next c := by
  induction h with
  | nil => exact fun c hc => .inl hc
  | close h _ ih =>
    intro c hc
    obtain ⟨hname, hnames⟩ := List.forall_mem_cons.mp hchain
    rcases ih hnodup hnames c hc with hc | hc
    · rcases List.mem_append.mp hc with hc | hc
      · exact .inl hc
      · rw [List.mem_singleton.mp hc]
        exact .inr (isCycle_closeCycle hnodup hname h)
    · exact .inr hc
  | pass _ _ _ ih => exact ih hnodup (List.forall_mem_cons.mp hchain).2
  | enter h _ _ _ ih ih' =>
    intro c hc
    obtain ⟨hname, hnames⟩ := List.forall_mem_cons.mp hchain
    rcases ih' hnodup hnames c hc with hc | hc
    · exact ih (nodup_concat hnodup h) (isChain_concat hname) c hc
    · exact .inr hc

/-! ## Types that need themselves -/

/-- A name that is not on the path is not the last type on it. -/
theorem count_cons_of_notMem {path : List String} {name : String} (h : name ∉ path)
    (names : List String) (n : String) :
    (if path.getLast? = some n then (name :: names).count n else 0)
      = if path.getLast? = some n then names.count n else 0 := by
  split_ifs with hlast
  · refine List.count_cons_of_ne ?_
    rintro rfl
    exact h (List.mem_of_getLast? hlast)
  · rfl

/-- **A type that needs itself is met once for each time it names itself**, namely from itself. -/
theorem count_loops {path names : List String} {s s' : Survey}
    (h : Surveys next path s names s') (hnodup : path.Nodup) (n : String) :
    s'.cycles.count [n, n] + (if n ∈ s.visited then (next n).count n else 0)
      = s.cycles.count [n, n] + (if n ∈ s'.visited then (next n).count n else 0)
        + (if path.getLast? = some n then names.count n else 0) := by
  induction h with
  | nil => simp
  | @close path names name s s' h _ ih =>
    have ih := ih hnodup
    have hclose : [closeCycle path name].count [n, n]
        = if path.getLast? = some n ∧ name = n then 1 else 0 := by
      simp only [List.count_singleton, beq_iff_eq, closeCycle_eq_pair_iff hnodup h]
    rw [List.count_append, hclose] at ih
    simp only [List.count_cons, beq_iff_eq]
    split_ifs at ih ⊢ <;> first | omega | tauto
  | pass h _ _ ih => rw [count_cons_of_notMem h, ih hnodup]
  | @enter path names name s s₁ s' h hs _ _ ih ih' =>
    have ih := ih (nodup_concat hnodup h)
    have ih' := ih' hnodup
    rw [count_cons_of_notMem h]
    rw [List.getLast?_append, List.getLast?_singleton, Option.some_or] at ih
    dsimp only at ih
    by_cases hn : name = n
    · subst hn
      rw [if_pos (List.mem_cons_self ..), if_pos rfl] at ih
      rw [if_neg hs]
      omega
    · have hmem : n ∈ name :: s.visited ↔ n ∈ s.visited := by
        simp [Ne.symm hn]
      simp only [hmem, Option.some_inj, if_neg hn] at ih
      omega

end EntitySchema.Dependency
