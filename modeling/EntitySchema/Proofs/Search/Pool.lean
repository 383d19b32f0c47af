import EntitySchema.Proofs.Search.Direct
import EntitySchema.Proofs.Search.Turns
import EntitySchema.Proofs.Sorted

/-!
# Proofs/Search/Pool — what all candidates have, pooled and ranked

    turns      x₁              x₂              …
    pooled     qualifiers x₁ ++ qualifiers x₂ ++ …  ──ranked──▸  best first
    below      rejects x₁    ++ rejects x₂    ++ …
    errors     failure? x₁, failure? x₂, …

All candidates are asked, whatever fails (`askAll_turns`), and what they come to is pooled in their
order (`collect_of_not_thrown`).  The sort is stable, so matches with the same score stay in that
order (`Match.ranks_sorted`).
-/

namespace EntitySchema

namespace Match

/-- Whether two matches have scores of the same rank. -/
def tiesWith (m m' : Match) : Bool := ranksBefore m.score m'.score && ranksBefore m'.score m.score

/-- The matches in descending order of their scores, those with equal scores in the order of
`ms`. -/
structure Ranks (ms ranks : List Match) : Prop where
  /-- None is lost and none is added. -/
  perm : ranks.Perm ms
  /-- No score exceeds one before it. -/
  descending : ranks.Pairwise fun m m' => ranksBefore m.score m'.score = true
  /-- Matches that tie keep their order. -/
  stable : ∀ m, ranks.filter (tiesWith m) = ms.filter (tiesWith m)

/-- **Matches that qualify can be ranked**, each for a threshold of its own. -/
theorem ranks_sorted {ms : List Match} (hqualify : ∀ m ∈ ms, ∃ t, m.qualifies t) :
    Ranks ms (sorted (fun a b => ranksBefore a.score b.score) ms) := by
  have htrans : ∀ a b c : Match, ranksBefore a.score b.score = true →
      ranksBefore b.score c.score = true → ranksBefore a.score c.score = true :=
    fun a b c => ranksBefore_trans a.score b.score c.score
  have htotal := ranksBefore_total_of_qualify hqualify
  refine ⟨perm_sorted _ ms, pairwise_sorted htrans htotal, fun m => ?_⟩
  refine filter_sorted_of_ties htrans _ htotal fun a b ha hb => ?_
  exact htrans a m b ((Bool.and_eq_true ..).mp ha).2 ((Bool.and_eq_true ..).mp hb).1

end Match

namespace Search

variable {κ : Type} {ask : Searcher κ} {o : Options} {query : String}

/-! ## Asking and pooling -/

/-- An outcome with the types of its matches. -/
def taggedOutcome (x : Outcome) : Outcome := (x.1, x.2.map (·.map (Match.tag x.1)))

/-- **Every candidate is asked in its turn.** -/
theorem askAll_turns (log : List κ) (types : List String) :
    (askAll ask o query types).Returns log ((turns ask o query log types).map taggedOutcome)
      (logBehind ask o query log types) := by
  induction types generalizing log with
  | nil => exact Session.returns_pure_iff.mpr ⟨rfl, rfl⟩
  | cons type types ih =>
    have hasked : (ask (o.request query type)).attempt.Returns log
        (ask (o.request query type) log).1 (ask (o.request query type) log).2 := rfl
    refine Session.returns_bind_iff.mpr ⟨_, _, hasked, ?_⟩
    exact Session.returns_bind_iff.mpr ⟨_, _, ih _, Session.returns_pure_iff.mpr ⟨rfl, rfl⟩⟩

/-- The error that a search of all candidates throws: the first one, if errors are thrown. -/
def Options.thrown? (o : Options) (xs : List Outcome) : Option SearchError :=
  if o.onError = some .throw then (xs.filterMap failure?).head? else none

@[simp] theorem Options.thrown?_cons_error {type : String} {e : Failure} (xs : List Outcome) :
    o.thrown? ((type, .error e) :: xs) = if o.onError = some .throw then some ⟨type, e⟩ else none :=
  rfl

@[simp] theorem Options.thrown?_cons_ok {type : String} {ms : List Match} (xs : List Outcome) :
    o.thrown? ((type, .ok ms) :: xs) = o.thrown? xs := rfl

theorem collect_of_thrown {xs : List Outcome} (hscored : ∀ x ∈ xs, ScoredOutcome x)
    {error : SearchError} (h : o.thrown? xs = some error) :
    collect o (xs.map taggedOutcome) = .error error.cause := by
  induction xs with
  | nil => simp [Options.thrown?] at h
  | cons x xs ih =>
    obtain ⟨hx, hxs⟩ := List.forall_mem_cons.mp hscored
    obtain ⟨type, e | ms⟩ := x
    · obtain ⟨hthrow, rfl⟩ : o.onError = some .throw ∧ ⟨type, e⟩ = error := by simpa using h
      rw [List.map_cons, taggedOutcome, Except.map, collect, if_pos hthrow]
    · have hbehind := ih hxs (by simpa using h)
      rw [List.map_cons, taggedOutcome, Except.map, collect, partition_tag o hx, hbehind]
      rfl

/-- **What is collected is pooled in the order of the candidates**, unless an error is thrown. -/
theorem collect_of_not_thrown {xs : List Outcome} (hscored : ∀ x ∈ xs, ScoredOutcome x)
    (h : o.thrown? xs = none) :
    collect o (xs.map taggedOutcome) =
      .ok (xs.flatMap o.qualifiers, xs.flatMap o.rejects, xs.filterMap failure?) := by
  induction xs with
  | nil => rfl
  | cons x xs ih =>
    obtain ⟨hx, hxs⟩ := List.forall_mem_cons.mp hscored
    obtain ⟨type, e | ms⟩ := x
    · have hresume : ¬ o.onError = some .throw := by simpa using h
      rw [List.map_cons, taggedOutcome, Except.map, collect, if_neg hresume,
        ih hxs (if_neg hresume)]
      rfl
    · have hbehind := ih hxs (by simpa using h)
      rw [List.map_cons, taggedOutcome, Except.map, collect, partition_tag o hx, hbehind]
      rfl

/-- Every match that is pooled is in one part of the pool. -/
theorem perm_flatMap_parts (xs : List Outcome) :
    (xs.flatMap o.qualifiers ++ xs.flatMap o.rejects ++ xs.flatMap o.incomparables).Perm
      (xs.flatMap taggedMatches) := by
  have hparts : (xs.flatMap fun x => o.qualifiers x ++ o.rejects x ++ o.incomparables x).Perm
      (xs.flatMap taggedMatches) := List.Perm.flatMap_left xs fun x _ => perm_parts o x
  refine List.Perm.trans ?_ hparts
  refine ((List.flatMap_append_perm xs _ _).append_right _).trans ?_
  exact List.flatMap_append_perm xs _ _

/-- Where not-a-number does not come in, two parts are the whole pool. -/
theorem perm_flatMap_two_parts {xs : List Outcome} (hxs : ∀ x ∈ xs, ScoredOutcome x)
    (hscores : ∀ m ∈ xs.flatMap taggedMatches, m.score.number? ≠ some (.float .nan))
    (hthresholds : ∀ x ∈ xs, o.thresholdFor x.1 ≠ .float .nan) :
    (xs.flatMap o.qualifiers ++ xs.flatMap o.rejects).Perm (xs.flatMap taggedMatches) := by
  have hnone : xs.flatMap o.incomparables = [] := by
    refine List.flatMap_eq_nil_iff.mpr fun x hx => ?_
    refine incomparables_eq_nil (hxs x hx) (fun m hm => ?_) (hthresholds x hx)
    exact hscores m (List.mem_flatMap.mpr ⟨x, hx, hm⟩)
  simpa [hnone] using perm_flatMap_parts (o := o) xs

/-! ## What a search says -/

/-- What a search says that has pooled what the candidates come to. -/
def Options.pooled (o : Options) (xs : List Outcome) : Result where
  searched := xs.map Prod.fst
  below := some (if o.includeBelow then xs.flatMap o.rejects else [])
  errors := xs.filterMap failure?

/-- The three ends of a search of all candidates, by what they come to. -/
inductive Options.Settles (o : Options) (xs : List Outcome) : Except Failure Result → Prop
  /-- The first error is thrown. -/
  | thrown {error : SearchError} (first : o.thrown? xs = some error) :
    o.Settles xs (.error error.cause)
  /-- Nothing qualifies. -/
  | exhausted (calm : o.thrown? xs = none) (none : xs.flatMap o.qualifiers = []) :
      o.Settles xs (.ok { o.pooled xs with exhausted := true })
  /-- The matches that qualify are ranked, and the best of them speaks for all. -/
  | ranked {best : Match} {rest : List Match} {type : Value} (calm : o.thrown? xs = none)
      (ranks : Match.Ranks (xs.flatMap o.qualifiers) (best :: rest))
      (typed : best.get? Match.typeKey = some type) :
      o.Settles xs (.ok
        { o.pooled xs with
          found := if o.returnAll then best :: rest else [best]
          matchedType := type
          confidence := best.score
          fallback := some type ≠ (xs.map Prod.fst).head?.map .text })

/-- The matches that are pooled have scores, and each of them qualifies. -/
theorem scored_of_mem_pool {xs : List Outcome} (hscored : ∀ x ∈ xs, ScoredOutcome x) {m : Match}
    (hm : m ∈ xs.flatMap o.qualifiers) : m.IsScored ∧ ∃ t, m.qualifies t = true := by
  obtain ⟨x, hx, hm⟩ := List.mem_flatMap.mp hm
  exact ⟨scored_of_mem_qualifiers (hscored x hx) hm, _, (mem_qualifiers_iff.mp hm).2⟩

/-- The matches that are pooled say their types. -/
theorem exists_type_of_mem_pool {xs : List Outcome} {m : Match} (hm : m ∈ xs.flatMap o.qualifiers) :
    ∃ v, m.get? Match.typeKey = some v := by
  obtain ⟨x, -, hm⟩ := List.mem_flatMap.mp hm
  obtain ⟨type, _ | ms⟩ := x
  · exact absurd (mem_qualifiers_iff.mp hm).1 List.not_mem_nil
  · obtain ⟨m', -, rfl⟩ := List.mem_map.mp (mem_qualifiers_iff.mp hm).1
    exact Match.exists_type_tag type m'

/-! ## All candidates -/

/-- A search that throws nothing ranks what it has pooled. -/
theorem parallel_of_not_thrown (hask : ask.Scored) {types : List String} {log : List κ}
    (h : o.thrown? (turns ask o query log types) = none) :
    parallel ask o query types log =
      (.ok (Result.ofRanked o types (o.pooled (turns ask o query log types))
          (sorted (fun a b => Match.ranksBefore a.score b.score)
            ((turns ask o query log types).flatMap o.qualifiers))),
        logBehind ask o query log types) := by
  have hscored : ∀ x ∈ turns ask o query log types, ScoredOutcome x := fun x hx =>
    scored_of_mem_turns hask hx
  have hcollect := collect_of_not_thrown hscored h
  have hranked := Match.ranked_eq_sorted fun m hm => (scored_of_mem_pool (o := o) hscored hm).1
  rw [parallel, parallelFrom, Session.bind_of_returns (askAll_turns log types),
    Session.bind_of_returns (Session.returns_lift_iff.mpr ⟨hcollect, rfl⟩)]
  dsimp only
  rw [Session.bind_of_returns (Session.returns_lift_iff.mpr ⟨hranked, rfl⟩), Options.pooled,
    map_fst_turns]
  rfl

/-- **A search of all candidates asks every one of them**, and settles what they come to. -/
theorem parallel_settles (hask : ask.Scored) (o : Options) (query : String) (types : List String)
    (log : List κ) :
    o.Settles (turns ask o query log types) (parallel ask o query types log).1 ∧
      (parallel ask o query types log).2 = logBehind ask o query log types := by
  have hscored : ∀ x ∈ turns ask o query log types, ScoredOutcome x := fun x hx =>
    scored_of_mem_turns hask hx
  cases hthrown : o.thrown? (turns ask o query log types) with
  | some error =>
    rw [parallel, parallelFrom, Session.bind_of_returns (askAll_turns log types),
      collect_of_thrown hscored hthrown]
    exact ⟨.thrown hthrown, rfl⟩
  | none =>
    have hranks := Match.ranks_sorted fun m hm => (scored_of_mem_pool (o := o) hscored hm).2
    rw [parallel_of_not_thrown hask hthrown]
    refine ⟨?_, rfl⟩
    generalize sorted _ (List.flatMap _ _) = ranks at hranks
    cases ranks with
    | nil => exact .exhausted hthrown hranks.perm.nil_eq.symm
    | cons best rest =>
      obtain ⟨type, htype⟩ := exists_type_of_mem_pool (hranks.perm.subset List.mem_cons_self)
      have hend := Options.Settles.ranked hthrown hranks htype
      rw [map_fst_turns] at hend
      rw [Result.ofRanked, htype]
      exact hend

/-- Either way to search all candidates comes to the same. -/
theorem search_eq_parallel (ho : o.mode = .parallel) {types : List String} (htypes : types ≠ []) :
    search ask o query types = parallel ask o query types := by
  rw [search, if_neg htypes, ho]
  exact parallelFrom_mode o.mode _ types

/-- **A search of all candidates, for any searcher that gives numbers as scores.**  Either way to
call it comes to the same.  It asks every candidate once and in order, whatever fails, and settles
what they come to.  Every match of a candidate that did not fail qualifies or lies below the
threshold, and never both; it is neither exactly if not-a-number is its score or the threshold. -/
theorem search_pools (answer : List Request → Request → Except Failure (List Match))
    (hscored : (Searcher.recording answer).Scored) (o : Options) (ho : o.mode = .parallel)
    (query first : String) (others : List String) (log : List Request) :
    let xs := turns (.recording answer) o query log (first :: others)
    let run := parallel (.recording answer) o query (first :: others)
    search (.recording answer) o query (first :: others) = run ∧
      (run log).2 = log ++ (first :: others).map (o.request query) ∧
      o.Settles xs (run log).1 ∧
      (xs.flatMap o.qualifiers ++ xs.flatMap o.rejects ++ xs.flatMap o.incomparables).Perm
        (xs.flatMap taggedMatches) ∧
      (∀ x ∈ xs, ∀ m, m ∈ o.incomparables x ↔ m ∈ taggedMatches x ∧
        (m.score.number? = some (.float .nan) ∨ o.thresholdFor x.1 = .float .nan)) ∧
      ((∀ m ∈ xs.flatMap taggedMatches, m.score.number? ≠ some (.float .nan)) →
        (∀ type ∈ first :: others, o.thresholdFor type ≠ .float .nan) →
        (xs.flatMap o.qualifiers ++ xs.flatMap o.rejects).Perm (xs.flatMap taggedMatches)) := by
  intro xs run
  obtain ⟨hsettles, hlog⟩ := parallel_settles hscored o query (first :: others) log
  have hxs : ∀ x ∈ xs, ScoredOutcome x := fun x hx => scored_of_mem_turns hscored hx
  refine ⟨search_eq_parallel ho (List.cons_ne_nil first others),
    hlog.trans (logBehind_recording log _), hsettles, perm_flatMap_parts xs,
    fun x hx m => mem_incomparables_iff (hxs x hx), fun hscores hthresholds => ?_⟩
  have htypes : xs.map Prod.fst = first :: others := map_fst_turns log (first :: others)
  exact perm_flatMap_two_parts hxs hscores fun x hx =>
    hthresholds x.1 (htypes ▸ List.mem_map_of_mem hx)

/-- The options of a search of all candidates for scores of two at least. -/
def thoroughly : Options :=
  { mode := .parallel, threshold := some (.int 2), returnAll := true, includeBelow := true }

theorem search_pools_catalogue : ∃ r,
    search (.recording catalogue) thoroughly "core" ["Person", "Team", "Group", "Firm"] [] =
      (.ok r, ["Person", "Team", "Group", "Firm"].map (thoroughly.request "core")) ∧
    r.found.length = 5 ∧ r.below = some [(matchOf "new" 1).tag "Team"] ∧
    r.errors = [⟨"Person", .backend "RuntimeError" "closed"⟩] := by
  obtain ⟨hsame, hlog, hsettles, -, -, -⟩ :=
    search_pools catalogue scored_catalogue thoroughly rfl "core"
    "Person" ["Team", "Group", "Firm"] []
  have hpool : ((turns (.recording catalogue) thoroughly "core" []
      ["Person", "Team", "Group", "Firm"]).flatMap thoroughly.qualifiers).length = 5 := by
    decide +kernel
  have hbelow : (turns (.recording catalogue) thoroughly "core" []
      ["Person", "Team", "Group", "Firm"]).flatMap thoroughly.rejects =
        [(matchOf "new" 1).tag "Team"] := by
    decide +kernel
  have herrors : (turns (.recording catalogue) thoroughly "core" []
      ["Person", "Team", "Group", "Firm"]).filterMap failure? =
        [⟨"Person", .backend "RuntimeError" "closed"⟩] := by
    decide +kernel
  rw [hsame]
  generalize hrun : (parallel (.recording catalogue) thoroughly "core"
    ["Person", "Team", "Group", "Firm"] []).1 = run at hsettles
  cases hsettles with
  | thrown first => exact nomatch first
  | exhausted calm none =>
    rw [none] at hpool
    exact nomatch hpool
  | ranked calm ranks typed =>
    refine ⟨_, Prod.ext hrun hlog, ranks.perm.length_eq.trans hpool, congrArg some hbelow, herrors⟩

/-- One team is found, and not-a-number is its score. -/
def unmeasured (_ : List Request) (_ : Request) : Except Failure (List Match) :=
  .ok [.ofList [(Match.idKey, .text "t1"), (Match.scoreKey, .float .nan)]]

/-- **A match with not-a-number as its score neither qualifies nor is rejected.** -/
theorem search_loses_unmeasured :
    (Searcher.recording unmeasured).Scored ∧
      (let xs := turns (.recording unmeasured) thoroughly "core" [] ["Team"]
       ¬ (xs.flatMap thoroughly.qualifiers ++ xs.flatMap thoroughly.rejects).Perm
          (xs.flatMap taggedMatches)) ∧
      ∃ r, (search (.recording unmeasured) thoroughly "core" ["Team"] []).1 = .ok r ∧
        r.found = [] ∧ r.below = some [] := by
  refine ⟨fun _ _ ms hms m hm => ?_, fun hperm => ?_, _, rfl, rfl, rfl⟩
  · obtain rfl := Except.ok.inj hms
    obtain rfl := List.mem_singleton.mp hm
    exact ⟨_, _, rfl, rfl⟩
  · exact absurd hperm.length_eq (by decide +kernel)

end Search

end EntitySchema
