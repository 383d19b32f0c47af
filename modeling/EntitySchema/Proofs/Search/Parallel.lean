import EntitySchema.Proofs.Search.Rank
import Mathlib.Data.List.Perm.Subperm

/-!
# Proofs/Search/Parallel — one after another, and all of them

    types ──qualified──▸ [],  …,  [],  ms,  …
                                       └── ordered: these          parallel: the best of all ──┘

What qualifies at a candidate is the same in both ways, if the answers depend on the requests alone
and failures are only noted.  So both find nothing if no candidate has a match that qualifies.
Otherwise one finds what qualifies at one candidate (`orderedFrom_settles`), and that is part of
what the other one ranks (`parallel_returns`).
-/

namespace EntitySchema.Search

variable {κ : Type} {ask : Searcher κ} {answer : Request → Except Failure (List Match)}
  {o o' : Options} {query : String}

/-- Whether requests are always answered by `answer`, whatever was asked before. -/
def Searcher.Answers (ask : Searcher κ) (answer : Request → Except Failure (List Match)) : Prop :=
  ∀ r log, (ask r log).1 = answer r

theorem Searcher.Answers.exists_returns (hask : ask.Answers answer) (r : Request) (log : List κ) :
    ∃ log', ask r log = (answer r, log') := ⟨(ask r log).2, Prod.ext (hask r log) rfl⟩

/-- Whether the matches that are answered have numbers as their scores. -/
def Scored (answer : Request → Except Failure (List Match)) : Prop :=
  ∀ r ms, answer r = .ok ms → ∀ m ∈ ms, m.IsScored

namespace Options

/-- The matches of a candidate that qualify; a failed search has none. -/
def qualified (o : Options) (answer : Request → Except Failure (List Match))
    (query type : String) : List Match :=
  match answer (o.request query type) with
  | .ok ms => o.qualifying type ms
  | .error _ => []

theorem qualified_of_ok {type : String} {ms : List Match}
    (h : answer (o.request query type) = .ok ms) :
    o.qualified answer query type = o.qualifying type ms := by
  rw [qualified, h]

theorem qualified_of_error {type : String} {e : Failure}
    (h : answer (o.request query type) = .error e) : o.qualified answer query type = [] := by
  rw [qualified, h]

theorem mem_qualified (hscored : Scored answer) {type : String} {m : Match}
    (hm : m ∈ o.qualified answer query type) :
    m.IsScored ∧ m.qualifies (o.thresholdFor type) = true := by
  cases h : answer (o.request query type) with
  | error e =>
    rw [qualified_of_error h] at hm
    exact absurd hm List.not_mem_nil
  | ok ms =>
    rw [qualified_of_ok h, qualifying] at hm
    obtain ⟨hm, hqualifies⟩ := List.mem_filter.mp hm
    obtain ⟨m', hm', rfl⟩ := List.mem_map.mp hm
    exact ⟨(hscored _ ms h m' hm').tag type, hqualifies⟩

/-- The matches of a candidate are measured without failure. -/
theorem partition_qualifying (o : Options) (type : String) {ms : List Match}
    (h : ∀ m ∈ ms, m.IsScored) :
    ∃ below, Match.partition (o.thresholdFor type) (ms.map (Match.tag type)) =
      .ok (o.qualifying type ms, below) := by
  refine ⟨_, Match.partition_eq_ok _ fun m hm => ?_⟩
  obtain ⟨m', hm', rfl⟩ := List.mem_map.mp hm
  exact (h m' hm').tag type

end Options

/-! ## One after another -/

/-- What a search that goes on from `r` comes to: no candidate has a match, or it finds what one of
them has. -/
inductive Settles (found : String → List Match) (types : List String) (r r' : Result) : Prop
  | exhausted (misses : ∀ type ∈ types, found type = []) (exhausted : r'.exhausted = true)
      (same : r'.found = r.found)
  | hit {type : String} (mem : type ∈ types) (hits : found type ≠ [])
      (found : r'.found = found type) (exhausted : r'.exhausted = r.exhausted)
      (best : ∃ m ∈ r'.found, r'.confidence = m.score)

theorem Settles.cons {found : String → List Match} {type : String} {types : List String}
    {r between r' : Result} (h : Settles found types between r') (hmiss : found type = [])
    (hfound : between.found = r.found) (hexhausted : between.exhausted = r.exhausted) :
    Settles found (type :: types) r r' := by
  cases h with
  | exhausted misses exhausted same =>
    exact .exhausted (List.forall_mem_cons.mpr ⟨hmiss, misses⟩) exhausted (same.trans hfound)
  | hit mem hits found exhausted best =>
    exact .hit (List.mem_cons_of_mem type mem) hits found (exhausted.trans hexhausted) best

section

variable {type : String} {types : List String} {r r' : Result} {log between log' : List κ}

/-- A failure is noted, and the search goes on. -/
theorem orderedFrom_failed {e : Failure} (ho : o.onError = some .resume)
    (hasked : ask (o.request query type) log = (.error e, between))
    (hrest : (orderedFrom ask o query
      { r with
        fallback := r.searched ≠ [], searched := r.searched ++ [type]
        errors := r.errors ++ [⟨type, e⟩] } types).Returns between r' log') :
    (orderedFrom ask o query r (type :: types)).Returns log r' log' := by
  rw [orderedFrom, Session.returns_bind_iff]
  refine ⟨.error e, between, Session.returns_attempt_iff.mpr hasked, ?_⟩
  rw [ho]
  exact hrest

/-- A candidate whose matches all lie below its threshold is passed. -/
theorem orderedFrom_missed {ms below : List Match}
    (hasked : ask (o.request query type) log = (.ok ms, between))
    (hpartition : Match.partition (o.thresholdFor type) (ms.map (Match.tag type)) = .ok ([], below))
    (hrest : (orderedFrom ask o query
      { r with
        fallback := r.searched ≠ [], searched := r.searched ++ [type]
        below := if o.includeBelow then r.below.map (· ++ below) else r.below }
      types).Returns between r' log') :
    (orderedFrom ask o query r (type :: types)).Returns log r' log' := by
  rw [orderedFrom, Session.returns_bind_iff]
  refine ⟨.ok ms, between, Session.returns_attempt_iff.mpr hasked, ?_⟩
  exact Session.returns_bind_iff.mpr
    ⟨([], below), between, Session.returns_lift_iff.mpr ⟨hpartition, rfl⟩, hrest⟩

/-- At a candidate with a match that qualifies the search ends. -/
theorem orderedFrom_hit {ms above below : List Match} {m : Match}
    (hasked : ask (o.request query type) log = (.ok ms, between))
    (hpartition : Match.partition (o.thresholdFor type) (ms.map (Match.tag type)) =
      .ok (m :: above, below))
    (hscored : ∀ m' ∈ m :: above, m'.IsScored) :
    (orderedFrom ask o query r (type :: types)).Returns log
      { r with
        fallback := r.searched ≠ [], searched := r.searched ++ [type]
        below := if o.includeBelow then r.below.map (· ++ below) else r.below
        found := m :: above, matchedType := .text type
        confidence := Match.greatest m.score (above.map Match.score) } between := by
  rw [orderedFrom, Session.returns_bind_iff]
  refine ⟨.ok ms, between, Session.returns_attempt_iff.mpr hasked, ?_⟩
  refine Session.returns_bind_iff.mpr
    ⟨(m :: above, below), between, Session.returns_lift_iff.mpr ⟨hpartition, rfl⟩, ?_⟩
  refine Session.returns_bind_iff.mpr
    ⟨_, between, Session.returns_lift_iff.mpr ⟨Match.scores_eq_ok hscored, rfl⟩, ?_⟩
  exact Session.returns_pure_iff.mpr ⟨rfl, rfl⟩

end

/-- **A search one after another comes to an end**, and finds what qualifies at some candidate if
anything qualifies at any. -/
theorem orderedFrom_settles (hask : ask.Answers answer) (hscored : Scored answer)
    (ho : o.onError = some .resume) : ∀ (types : List String) (r : Result) (log : List κ),
      ∃ r' log', (orderedFrom ask o query r types).Returns log r' log' ∧
        Settles (o.qualified answer query) types r r'
  | [], r, log => by
      refine ⟨{ r with exhausted := true }, log, ?_, .exhausted (List.forall_mem_nil _) rfl rfl⟩
      rw [orderedFrom]
      exact Session.returns_pure_iff.mpr ⟨rfl, rfl⟩
  | type :: types, r, log => by
      obtain ⟨between, hasked⟩ := hask.exists_returns (o.request query type) log
      cases h : answer (o.request query type) with
      | error e =>
        rw [h] at hasked
        obtain ⟨r', log', hrest, hsettles⟩ := orderedFrom_settles hask hscored ho types _ between
        exact ⟨r', log', orderedFrom_failed ho hasked hrest,
          hsettles.cons (Options.qualified_of_error h) rfl rfl⟩
      | ok ms =>
        rw [h] at hasked
        obtain ⟨below, hpartition⟩ := o.partition_qualifying type (hscored _ ms h)
        rw [← Options.qualified_of_ok h] at hpartition
        cases hfound : o.qualified answer query type with
        | nil =>
          rw [hfound] at hpartition
          obtain ⟨r', log', hrest, hsettles⟩ := orderedFrom_settles hask hscored ho types _ between
          exact ⟨r', log', orderedFrom_missed hasked hpartition hrest,
            hsettles.cons hfound rfl rfl⟩
        | cons m above =>
          rw [hfound] at hpartition
          have hscored' : ∀ m' ∈ m :: above, m'.IsScored := fun m' hm' =>
            (Options.mem_qualified hscored (hfound ▸ hm')).1
          exact ⟨_, between, orderedFrom_hit hasked hpartition hscored',
            .hit List.mem_cons_self (by simp [hfound]) hfound.symm rfl
              (Match.exists_score_eq_greatest m above)⟩

/-! ## All of them -/

namespace Options

/-- What the search of a candidate comes to. -/
def outcome (o : Options) (answer : Request → Except Failure (List Match))
    (query type : String) : Outcome :=
  (type, (answer (o.request query type)).map (·.map (Match.tag type)))

end Options

theorem askAll_returns (hask : ask.Answers answer) (o : Options) (query : String) :
    ∀ (types : List String) (log : List κ), ∃ log',
      (askAll ask o query types).Returns log (types.map (o.outcome answer query)) log'
  | [], log => ⟨log, Session.returns_pure_iff.mpr ⟨rfl, rfl⟩⟩
  | type :: types, log => by
      obtain ⟨between, hasked⟩ := hask.exists_returns (o.request query type) log
      obtain ⟨log', hrest⟩ := askAll_returns hask o query types between
      refine ⟨log', Session.returns_bind_iff.mpr
        ⟨_, between, Session.returns_attempt_iff.mpr hasked, ?_⟩⟩
      exact Session.returns_bind_iff.mpr
        ⟨_, log', hrest, Session.returns_pure_iff.mpr ⟨rfl, rfl⟩⟩

/-- **What is collected is what qualifies**, candidate by candidate. -/
theorem collect_outcomes (hscored : Scored answer) (ho : o.onError = some .resume)
    (query : String) : ∀ types : List String, ∃ below errors,
      collect o (types.map (o.outcome answer query)) =
        .ok (types.flatMap (o.qualified answer query), below, errors)
  | [] => ⟨[], [], rfl⟩
  | type :: types => by
      obtain ⟨below, errors, hrest⟩ := collect_outcomes hscored ho query types
      rw [List.map_cons, List.flatMap_cons, Options.outcome]
      cases h : answer (o.request query type) with
      | error e =>
        refine ⟨below, ⟨type, e⟩ :: errors, ?_⟩
        rw [Options.qualified_of_error h, List.nil_append, Except.map, collect, ho,
          if_neg (by decide), hrest]
        rfl
      | ok ms =>
        obtain ⟨below', hpartition⟩ := o.partition_qualifying type (hscored _ ms h)
        refine ⟨below' ++ below, errors, ?_⟩
        rw [Options.qualified_of_ok h, Except.map, collect, hpartition, hrest]
        rfl

/-- **A search of all candidates comes to an end**, and ranks what qualifies at any of them. -/
theorem parallel_returns (hask : ask.Answers answer) (hscored : Scored answer)
    (ho : o.onError = some .resume) (types : List String) (log : List κ) :
    ∃ r log' ranks, (parallel ask o query types).Returns log r log' ∧
      ranks.Perm (types.flatMap (o.qualified answer query)) ∧
      ranks.Pairwise (fun m m' => Match.ranksBefore m.score m'.score) ∧
      r.found = (if o.returnAll then ranks else ranks.take 1) ∧
      (r.exhausted = true ↔ ranks = []) ∧ ∀ m, ranks.head? = some m → r.confidence = m.score := by
  obtain ⟨log', hasked⟩ := askAll_returns hask o query types log
  obtain ⟨below, errors, hcollect⟩ := collect_outcomes hscored ho query types
  have hmem : ∀ m ∈ types.flatMap (o.qualified answer query),
      m.IsScored ∧ ∃ t, m.qualifies t = true := by
    intro m hm
    obtain ⟨type, -, hm⟩ := List.mem_flatMap.mp hm
    exact (Options.mem_qualified hscored hm).imp_right fun h => ⟨_, h⟩
  obtain ⟨ranks, hranked, hperm, hpairwise⟩ :=
    Match.ranked_eq_ok (fun m hm => (hmem m hm).1) fun m hm => (hmem m hm).2
  have hreturns : (parallel ask o query types).Returns log (Result.ofRanked o types
      { searched := types, below := some (if o.includeBelow then below else []), errors }
      ranks) log' := by
    refine Session.returns_bind_iff.mpr ⟨_, log', hasked, ?_⟩
    refine Session.returns_bind_iff.mpr
      ⟨_, log', Session.returns_lift_iff.mpr ⟨hcollect, rfl⟩, ?_⟩
    refine Session.returns_bind_iff.mpr ⟨_, log', Session.returns_lift_iff.mpr ⟨hranked, rfl⟩, ?_⟩
    exact Session.returns_pure_iff.mpr ⟨rfl, rfl⟩
  refine ⟨_, log', ranks, hreturns, hperm, hpairwise, ?_⟩
  cases ranks with
  | nil => simp [Result.ofRanked]
  | cons m ms => simp [Result.ofRanked]

/-! ## Both -/

/-- What qualifies depends on the thresholds and the limit alone. -/
theorem Options.qualified_congr (hthreshold : o'.threshold = o.threshold)
    (hthresholds : o'.thresholds = o.thresholds) (hlimit : o'.limit = o.limit) :
    o'.qualified answer query = o.qualified answer query := by
  funext type
  have hfor : o'.thresholdFor type = o.thresholdFor type := by
    rw [thresholdFor, thresholdFor, hthreshold, hthresholds]
  have hqualifying : o'.qualifying type = o.qualifying type := by
    funext ms
    rw [qualifying, qualifying, hfor]
  rw [qualified, qualified, request, request, hfor, hlimit, hqualifying]

/-- **Both searches agree on what can be found.**  With the same thresholds and the same limit, with
failures noted only and with answers that depend on the requests alone, both searches come to an
end, and both find nothing or both find something.  If they do, everything that the search one after
another finds is, as often, among all matches of the search of all candidates, and the confidence of
the latter is at least as high. -/
theorem ordered_parallel (hask : ask.Answers answer) (hscored : Scored answer) (o o' : Options)
    (ho : o.onError = some .resume) (ho' : o'.onError = some .resume)
    (hthreshold : o'.threshold = o.threshold) (hthresholds : o'.thresholds = o.thresholds)
    (hlimit : o'.limit = o.limit) (query : String) (types : List String) (log log' : List κ) :
    ∃ first best after after', (ordered ask o query types).Returns log first after ∧
      (parallel ask o' query types).Returns log' best after' ∧
      (first.exhausted = true ↔ best.exhausted = true) ∧
      (first.exhausted = true ↔ first.found = []) ∧ (best.exhausted = true ↔ best.found = []) ∧
      (first.found ≠ [] → (o'.returnAll = true → first.found.Subperm best.found) ∧
        ∃ a b, first.confidence.number? = some a ∧ best.confidence.number? = some b ∧
          a.le b = true) := by
  obtain ⟨first, after, hfirst, hsettles⟩ := orderedFrom_settles hask hscored ho types {} log
  obtain ⟨best, after', ranks, hbest, hperm, hpairwise, hfound, hexhausted, hconfidence⟩ :=
    parallel_returns hask hscored ho' types log'
  rw [Options.qualified_congr hthreshold hthresholds hlimit] at hperm
  refine ⟨first, best, after, after', hfirst, hbest, ?_⟩
  cases hsettles with
  | exhausted misses exhausted same =>
    have hranks : ranks = [] := by
      rw [List.flatMap_eq_nil_iff.mpr misses] at hperm
      exact hperm.eq_nil
    subst hranks
    have hnone : best.found = [] := by simpa using hfound
    simp [exhausted, same, hexhausted, hnone]
  | @hit type mem hits found exhausted highest =>
    obtain ⟨m, hm, hfirst'⟩ := highest
    have hsublist : first.found.Sublist (types.flatMap (o.qualified answer query)) := by
      rw [found, List.flatMap_def]
      exact List.sublist_flatten_of_mem (List.mem_map_of_mem mem)
    have hpart : first.found.Subperm ranks := hsublist.subperm.trans hperm.symm.subperm
    have hne : first.found ≠ [] := List.ne_nil_of_mem hm
    have hqualifies := (Options.mem_qualified hscored (found ▸ hm)).2
    cases ranks with
    | nil => exact absurd (hpart.subset hm) List.not_mem_nil
    | cons top rest =>
      obtain ⟨a, b, ha, hb, hle⟩ :=
        Match.exists_le_of_pairwise hpairwise (hpart.subset hm) hqualifies
      have hbestFound : best.found ≠ [] := by
        rw [hfound]
        split <;> simp
      refine ⟨?_, ?_, ?_, fun _ => ⟨fun hall => ?_, a, b, ?_, ?_, hle⟩⟩
      · simp [exhausted, hexhausted]
      · simp [exhausted, hne]
      · simp [hexhausted, hbestFound]
      · rwa [hfound, if_pos hall]
      · rw [hfirst', ha]
      · rw [hconfidence top rfl, hb]

/-- The searcher that logs each request and gives the answer to it. -/
def Searcher.scripted (answer : Request → Except Failure (List Match)) : Searcher Request :=
  fun r => Session.perform (fun _ => answer r) r

theorem Searcher.answers_scripted (answer : Request → Except Failure (List Match)) :
    (Searcher.scripted answer).Answers answer := fun _ _ => rfl

/-- Persons cannot be searched; of the teams one has a low score, and a group has the highest. -/
def directory (r : Request) : Except Failure (List Match) :=
  if r.type = "Person" then .error (.backend "RuntimeError" "offline")
  else if r.type = "Team" then
    .ok [⟨[(Match.idKey, .text "t1"), (Match.scoreKey, .int 1)], by decide⟩,
      ⟨[(Match.idKey, .text "t2"), (Match.scoreKey, .int 3)], by decide⟩]
  else .ok [⟨[(Match.idKey, .text "g1"), (Match.scoreKey, .int 5)], by decide⟩]

theorem scored_directory : Scored directory := by
  intro r ms h
  rw [directory] at h
  split at h
  · cases h
  · split at h
    · cases h
      exact List.forall_mem_cons.mpr ⟨⟨.int 1, .int 1, rfl, rfl⟩,
        List.forall_mem_singleton.mpr ⟨.int 3, .int 3, rfl, rfl⟩⟩
    · cases h
      exact List.forall_mem_singleton.mpr ⟨.int 5, .int 5, rfl, rfl⟩

/-- The options of a search that notes failures, for scores of two at least. -/
def tolerant (returnAll : Bool) : Options :=
  { threshold := some (.int 2), onError := some .resume, returnAll }

theorem ordered_parallel_directory : ∃ first best after after',
    (ordered (.scripted directory) (tolerant false) "core" ["Person", "Team", "Group"]).Returns []
      first after ∧
    (parallel (.scripted directory) (tolerant true) "core" ["Person", "Team", "Group"]).Returns []
      best after' ∧
    first.found ≠ [] ∧ first.found.Subperm best.found ∧
    ∃ a b, first.confidence.number? = some a ∧ best.confidence.number? = some b ∧
      a.le b = true := by
  obtain ⟨first, best, after, after', hfirst, hbest, -, -, -, hfound⟩ :=
    ordered_parallel (Searcher.answers_scripted directory) scored_directory (tolerant false)
      (tolerant true) rfl rfl rfl rfl rfl "core" ["Person", "Team", "Group"] [] []
  have hhits : ((ordered (.scripted directory) (tolerant false) "core"
      ["Person", "Team", "Group"]) []).1.toOption.any (fun r => decide (r.found ≠ [])) = true := by
    decide +kernel
  obtain ⟨first', _, hfirst', hhit⟩ := Session.exists_returns_of_any hhits
  obtain rfl := Except.ok.inj (Prod.mk.inj (hfirst.symm.trans hfirst')).1
  have hne : first.found ≠ [] := of_decide_eq_true hhit
  obtain ⟨hall, hconfidence⟩ := hfound hne
  exact ⟨first, best, after, after', hfirst, hbest, hne, hall rfl, hconfidence⟩

end EntitySchema.Search
