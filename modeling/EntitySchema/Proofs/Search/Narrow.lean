import EntitySchema.Proofs.Search.Parallel
import EntitySchema.Proofs.Search.Pool
import EntitySchema.Proofs.Search.Stop

/-!
# Proofs/Search/Narrow — the same search with a higher threshold

    low       x₁   x₂   …   xₖ  ┊               all candidates    pool  ──sorted──▸  found
    high      x₁   x₂   …   xₖ   …   xₙ  ┊                         │ filter            │ filter
                                                                   ▾                   ▾
                                                                  pool' ──sorted──▸  found'

If the answers depend on the type and the query alone, both searches see the same turns.  What
reaches the higher threshold reaches the lower one, so a search one after another stops no later for
the lower one (`upToStop_prefix`), and of all candidates the pool for the higher one is a part of
the other.  Filtering commutes with the stable sort (`filter_sorted`).
-/

namespace EntitySchema

/-- What reaches the higher threshold reaches the lower one. -/
theorem Match.qualifies_of_le {t₁ t₂ : Number} (hle : t₁.le t₂ = true) {m : Match}
    (h : m.qualifies t₂ = true) : m.qualifies t₁ = true := by
  obtain ⟨n, hn, hn₂⟩ := (Option.any_eq_true ..).mp h
  exact (Option.any_eq_true ..).mpr ⟨n, hn, Number.le_trans hle hn₂⟩

namespace Search

variable {κ : Type} {ask : Searcher κ} {o : Options} {query : String}
  {answer : String → String → Except Failure (List Match)} {t₁ t₂ : Number}

/-! ## The same turns -/

/-- Answers that depend on the type and the query alone are the same in every turn. -/
theorem turns_of_answers (hask : ask.Answers fun r => answer r.type r.query) (log : List κ)
    (types : List String) :
    turns ask o query log types = types.map fun type => (type, answer type query) := by
  induction types generalizing log with
  | nil => rfl
  | cons type types ih => rw [turns, ih, hask, List.map_cons]; rfl

/-- A threshold that all candidates share. -/
theorem Options.thresholdFor_of_empty (ho : o.thresholds = .empty) (t : Number) (type : String) :
    { o with threshold := some t }.thresholdFor type = t := by
  rw [thresholdFor]
  dsimp only
  rw [ho]
  rfl

/-! ## One after another -/

namespace Options

variable {low high : Options} {xs : List Outcome}

/-- **Who stops more often asks no more.** -/
theorem upToStop_prefix (h : ∀ x ∈ xs, high.stops x = true → low.stops x = true) :
    low.upToStop xs <+: high.upToStop xs := by
  induction xs with
  | nil => exact List.prefix_rfl
  | cons x xs ih =>
    obtain ⟨hx, hxs⟩ := List.forall_mem_cons.mp h
    cases hhigh : high.stops x with
    | true =>
      rw [upToStop_cons_of_stops hhigh, upToStop_cons_of_stops (hx hhigh)]
    | false =>
      rw [upToStop_cons_of_not_stops hhigh]
      cases hlow : low.stops x with
      | true =>
        rw [upToStop_cons_of_stops hlow]
        exact List.prefix_append [x] _
      | false =>
        rw [upToStop_cons_of_not_stops hlow]
        exact (List.prefix_cons_inj x).mpr (ih hxs)

/-- What stops a search with the higher threshold stops one with the lower. -/
theorem stops_of_le (hlow : ∀ type, low.thresholdFor type = t₁)
    (hhigh : ∀ type, high.thresholdFor type = t₂) (hle : t₁.le t₂ = true)
    (herror : low.onError = high.onError) {x : Outcome} (h : high.stops x = true) :
    low.stops x = true := by
  obtain ⟨type, e | ms⟩ := x
  · rw [stops, herror]
    exact h
  · rw [stops, List.any_eq_true] at h ⊢
    obtain ⟨m, hm, hqualifies⟩ := h
    rw [hhigh] at hqualifies
    exact ⟨m, hm, hlow type ▸ Match.qualifies_of_le hle hqualifies⟩

theorem stop?_eq_none_mono (h : ∀ x ∈ xs, high.stops x = true → low.stops x = true)
    (hlow : low.stop? xs = none) : high.stop? xs = none := by
  rw [stop?, List.find?_eq_none] at hlow ⊢
  exact fun x hx hstops => hlow x hx (h x hx hstops)

/-- A search that only notes failures comes to an end, which says what it asked. -/
theorem Ends.exists_ok (hresume : o.onError = some .resume) {asked : List Outcome}
    {r : Except Failure Result} (h : o.Ends asked (o.stop? xs) r) :
    ∃ r', r = .ok r' ∧ r'.searched = asked.map Prod.fst ∧
      (r'.exhausted = true ↔ o.stop? xs = none) := by
  generalize hk : o.stop? xs = k at h
  cases h with
  | exhausted => exact ⟨_, rfl, rfl, by simp⟩
  | thrown type e =>
    have hstops : o.stops (type, .error e) = true := List.find?_some hk
    rw [stops, hresume] at hstops
    exact absurd hstops (by decide)
  | found mem highest => exact ⟨_, rfl, rfl, by simp [noted]⟩

end Options

/-- A search one after another that only notes failures comes to an end. -/
theorem search_ordered_returns (hask : ask.Scored) (ho : o.mode = .ordered)
    (hresume : o.onError = some .resume) (query : String) (types : List String) (log : List κ) :
    ∃ r after, (search ask o query types).Returns log r after ∧
      r.searched = (o.upToStop (turns ask o query log types)).map Prod.fst ∧
      (r.exhausted = true ↔ o.stop? (turns ask o query log types) = none) := by
  obtain ⟨hends, -⟩ := orderedFrom_ends hask o query types [] log
  rw [← search_eq_orderedFrom ho, List.nil_append] at hends
  obtain ⟨r, hr, hsearched, hexhausted⟩ := hends.exists_ok hresume
  exact ⟨r, _, Prod.ext hr rfl, hsearched, hexhausted⟩

/-! ## All candidates -/

/-- A search of all candidates that only notes failures comes to an end, and finds what is pooled,
best first. -/
theorem search_parallel_returns (hask : ask.Scored) (ho : o.mode = .parallel)
    (hresume : o.onError = some .resume) (hall : o.returnAll = true) (query : String)
    (types : List String) (log : List κ) :
    ∃ r after, (search ask o query types).Returns log r after ∧
      r.found = sorted (fun a b => Match.ranksBefore a.score b.score)
        ((turns ask o query log types).flatMap o.qualifiers) := by
  by_cases htypes : types = []
  · rw [search, if_pos htypes, htypes]
    exact ⟨_, log, Session.returns_pure_iff.mpr ⟨rfl, rfl⟩, rfl⟩
  · have hthrown : o.thrown? (turns ask o query log types) = none := by
      rw [Options.thrown?, hresume]
      rfl
    rw [search_eq_parallel ho htypes]
    refine ⟨_, _, parallel_of_not_thrown hask hthrown, ?_⟩
    generalize sorted _ (List.flatMap _ _) = ranks
    cases ranks with
    | nil => rfl
    | cons best rest => exact if_pos hall

/-- **The pool for the higher threshold is a part of the other**, in the same order. -/
theorem sorted_pool_of_le {low high : Options} (hlow : ∀ type, low.thresholdFor type = t₁)
    (hhigh : ∀ type, high.thresholdFor type = t₂) (hle : t₁.le t₂ = true) (xs : List Outcome) :
    sorted (fun a b => Match.ranksBefore a.score b.score) (xs.flatMap high.qualifiers) =
      (sorted (fun a b => Match.ranksBefore a.score b.score) (xs.flatMap low.qualifiers)).filter
        (Match.qualifies t₂) := by
  have hpart : ∀ x, high.qualifiers x = (low.qualifiers x).filter (Match.qualifies t₂) := by
    intro x
    rw [Options.qualifiers, Options.qualifiers, hlow, hhigh, List.filter_filter]
    refine List.filter_congr fun m _ => ?_
    cases h : m.qualifies t₂ with
    | false => rfl
    | true => rw [Match.qualifies_of_le hle h]; rfl
  have hqualify : ∀ m ∈ xs.flatMap low.qualifiers, ∃ t, m.qualifies t = true := by
    intro m hm
    obtain ⟨x, -, hm⟩ := List.mem_flatMap.mp hm
    exact ⟨_, (mem_qualifiers_iff.mp hm).2⟩
  rw [filter_sorted (fun a b c => Match.ranksBefore_trans a.score b.score c.score) _
    (Match.ranksBefore_total_of_qualify hqualify), List.filter_flatMap,
    funext hpart]

/-! ## Both ways -/

/-- **A higher threshold only narrows a search.** -/
theorem search_narrows (answer : String → String → Except Failure (List Match))
    (hask : ask.Answers fun r => answer r.type r.query) (hscored : ask.Scored) (t₁ t₂ : Number)
    (hle : t₁.le t₂ = true) (o : Options) (hthresholds : o.thresholds = .empty)
    (hresume : o.onError = some .resume) (query : String) (types : List String)
    (log₁ log₂ : List κ) :
    (o.returnAll = true → ∃ r₁ r₂ after₁ after₂,
      (search ask { o with mode := .parallel, threshold := some t₁ } query types).Returns
        log₁ r₁ after₁ ∧
      (search ask { o with mode := .parallel, threshold := some t₂ } query types).Returns
        log₂ r₂ after₂ ∧
      r₂.found = r₁.found.filter (Match.qualifies t₂)) ∧
    ∃ r₁ r₂ after₁ after₂,
      (search ask { o with mode := .ordered, threshold := some t₁ } query types).Returns
        log₁ r₁ after₁ ∧
      (search ask { o with mode := .ordered, threshold := some t₂ } query types).Returns
        log₂ r₂ after₂ ∧
      r₁.searched <+: r₂.searched ∧ (r₁.exhausted = true → r₂.exhausted = true) := by
  let low : Options := { o with threshold := some t₁ }
  let high : Options := { o with threshold := some t₂ }
  have hlow : ∀ type, low.thresholdFor type = t₁ := Options.thresholdFor_of_empty hthresholds t₁
  have hhigh : ∀ type, high.thresholdFor type = t₂ := Options.thresholdFor_of_empty hthresholds t₂
  refine ⟨fun hall => ?_, ?_⟩
  · obtain ⟨r₁, after₁, hr₁, hfound₁⟩ := search_parallel_returns
      (o := { low with mode := .parallel }) hscored rfl hresume hall query types log₁
    obtain ⟨r₂, after₂, hr₂, hfound₂⟩ := search_parallel_returns
      (o := { high with mode := .parallel }) hscored rfl hresume hall query types log₂
    refine ⟨r₁, r₂, after₁, after₂, hr₁, hr₂, ?_⟩
    rw [hfound₁, hfound₂, turns_of_answers hask, turns_of_answers hask]
    exact sorted_pool_of_le hlow hhigh hle _
  · obtain ⟨r₁, after₁, hr₁, hsearched₁, hexhausted₁⟩ := search_ordered_returns
      (o := { low with mode := .ordered }) hscored rfl hresume query types log₁
    obtain ⟨r₂, after₂, hr₂, hsearched₂, hexhausted₂⟩ := search_ordered_returns
      (o := { high with mode := .ordered }) hscored rfl hresume query types log₂
    rw [turns_of_answers hask] at hsearched₁ hexhausted₁ hsearched₂ hexhausted₂
    have hstops := fun x (_ : x ∈ types.map fun type => (type, answer type query)) =>
      Options.stops_of_le (x := x) hlow hhigh hle rfl
    refine ⟨r₁, r₂, after₁, after₂, hr₁, hr₂, ?_, fun h => ?_⟩
    · rw [hsearched₁, hsearched₂]
      exact (Options.upToStop_prefix hstops).map _
    · exact hexhausted₂.mpr (Options.stop?_eq_none_mono hstops (hexhausted₁.mp h))

theorem search_narrows_directory :
    (∃ r₁ r₂ after₁ after₂,
      (search (.scripted directory)
        { tolerant true with mode := .parallel, threshold := some (.int 1) } "core"
        ["Person", "Team", "Group"]).Returns [] r₁ after₁ ∧
      (search (.scripted directory)
        { tolerant true with mode := .parallel, threshold := some (.int 2) } "core"
        ["Person", "Team", "Group"]).Returns [] r₂ after₂ ∧
      r₂.found = r₁.found.filter (Match.qualifies (.int 2))) ∧
    ∃ r₁ r₂ after₁ after₂,
      (search (.scripted directory)
        { tolerant true with mode := .ordered, threshold := some (.int 1) } "core"
        ["Person", "Team", "Group"]).Returns [] r₁ after₁ ∧
      (search (.scripted directory)
        { tolerant true with mode := .ordered, threshold := some (.int 2) } "core"
        ["Person", "Team", "Group"]).Returns [] r₂ after₂ ∧
      r₁.searched <+: r₂.searched ∧ (r₁.exhausted = true → r₂.exhausted = true) := by
  have hscored : (Searcher.scripted directory).Scored := fun r _ ms h => scored_directory r ms h
  have hask : (Searcher.scripted directory).Answers fun r =>
      directory { type := r.type, query := r.query, threshold := .int 0, limit := none } :=
    fun _ _ => rfl
  obtain ⟨hparallel, hordered⟩ := search_narrows
    (fun type query => directory { type, query, threshold := .int 0, limit := none }) hask hscored
    (.int 1) (.int 2) (by decide +kernel) (tolerant true) rfl rfl "core" ["Person", "Team", "Group"]
    [] []
  exact ⟨hparallel rfl, hordered⟩

end Search

end EntitySchema
