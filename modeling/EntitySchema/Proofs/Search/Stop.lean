import EntitySchema.Proofs.Search.Turns

/-!
# Proofs/Search/Stop — where a search one after another stops, and what it says then

    turns     x₁   x₂   …   xₖ  ┊  not asked
              └── passed ──┘ └ stop: a match qualifies, or an error is thrown

The result under way is a function of the candidates asked so far (`Options.noted`): a candidate
that is passed adds itself to them (`orderedFrom_passed`), and the first one that is not passed ends
the search (`orderedFrom_stopped`).  So a search asks the candidates up to the first that stops it,
and its end is the one that this candidate gives it (`orderedFrom_ends`).
-/

namespace EntitySchema.Search

variable {κ : Type} {ask : Searcher κ} {o : Options} {query : String}

/-! ## The stop -/

namespace Options

/-- Whether a search stops at an outcome: a match reaches the threshold, or an error is thrown. -/
def stops (o : Options) : Outcome → Bool
  | (type, .ok ms) => ms.any (Match.qualifies (o.thresholdFor type))
  | (_, .error _) => o.onError.getD .throw = .throw

/-- The first outcome at which a search stops. -/
def stop? (o : Options) (xs : List Outcome) : Option Outcome := xs.find? o.stops

/-- The outcomes up to the first at which a search stops, and all of them if there is none. -/
def upToStop (o : Options) (xs : List Outcome) : List Outcome :=
  xs.takeWhile (!o.stops ·) ++ (o.stop? xs).toList

theorem stop?_cons_of_stops {x : Outcome} (h : o.stops x = true) (xs : List Outcome) :
    o.stop? (x :: xs) = some x := List.find?_cons_of_pos h

theorem stop?_cons_of_not_stops {x : Outcome} (h : o.stops x = false) (xs : List Outcome) :
    o.stop? (x :: xs) = o.stop? xs := List.find?_cons_of_neg (Bool.not_eq_true _ ▸ h)

theorem upToStop_cons_of_stops {x : Outcome} (h : o.stops x = true) (xs : List Outcome) :
    o.upToStop (x :: xs) = [x] := by
  rw [upToStop, stop?_cons_of_stops h, List.takeWhile_cons_of_neg (by rw [h]; decide)]
  rfl

theorem upToStop_cons_of_not_stops {x : Outcome} (h : o.stops x = false) (xs : List Outcome) :
    o.upToStop (x :: xs) = x :: o.upToStop xs := by
  rw [upToStop, stop?_cons_of_not_stops h, List.takeWhile_cons_of_pos (by rw [h]; rfl)]
  rfl

@[simp] theorem stops_eq_false_iff {type : String} {ms : List Match} :
    o.stops (type, .ok ms) = false ↔ o.qualifiers (type, .ok ms) = [] := by
  rw [stops, qualifiers, taggedMatches, List.any_eq_false, List.filter_eq_nil_iff,
    List.forall_mem_map]
  simp only [Match.qualifies_tag]

end Options

/-! ## What a search says -/

/-- What a search says that has asked the candidates and found nothing yet. -/
def Options.noted (o : Options) (asked : List Outcome) : Result where
  searched := asked.map Prod.fst
  fallback := 1 < asked.length
  below := if o.includeBelow then some (asked.flatMap o.rejects) else none
  errors := asked.filterMap failure?

/-- The three ends of a search that has asked the candidates, by the outcome at which it stops. -/
inductive Options.Ends (o : Options) (asked : List Outcome) :
    Option Outcome → Except Failure Result → Prop
  /-- Nothing stopped it. -/
  | exhausted : o.Ends asked none (.ok { o.noted asked with exhausted := true })
  /-- An error is thrown. -/
  | thrown (type : String) (e : Failure) : o.Ends asked (some (type, .error e)) (.error e)
  /-- The matches that qualify are found, and the best score among them. -/
  | found {type : String} {ms : List Match} {best : Match}
      (mem : best ∈ o.qualifiers (type, .ok ms))
      (highest : ∀ m ∈ o.qualifiers (type, .ok ms), Match.ranksBefore best.score m.score) :
      o.Ends asked (some (type, .ok ms)) (.ok
        { o.noted asked with
          found := o.qualifiers (type, .ok ms)
          matchedType := .text type
          confidence := best.score })

/-- A search that finds matches ends with the greatest of their scores. -/
theorem Options.ends_found {type : String} {ms above : List Match} {m : Match}
    (asked : List Outcome)
    (habove : o.qualifiers (type, .ok ms) = m :: above) :
    o.Ends asked (some (type, .ok ms)) (.ok
      { o.noted asked with
        found := m :: above
        matchedType := .text type
        confidence := Match.greatest m.score (above.map Match.score) }) := by
  obtain ⟨best, hbest, hscore⟩ := Match.exists_score_eq_greatest m above
  rw [hscore, ← habove]
  refine .found (habove ▸ hbest) ?_
  rw [habove, ← hscore]
  refine Match.greatest_ranksBefore_score fun m' hm' => ?_
  exact ⟨_, (mem_qualifiers_iff.mp (habove ▸ hm')).2⟩

/-- One more candidate is asked. -/
theorem Options.noted_concat (o : Options) (asked : List Outcome) (x : Outcome) :
    o.noted (asked ++ [x]) =
      { o.noted asked with
        fallback := (o.noted asked).searched ≠ []
        searched := (o.noted asked).searched ++ [x.1]
        below := if o.includeBelow then (o.noted asked).below.map (· ++ o.rejects x)
          else (o.noted asked).below
        errors := (o.noted asked).errors ++ (failure? x).toList } := by
  have hfallback : decide (1 < (asked ++ [x]).length) = decide (asked.map Prod.fst ≠ []) := by
    rw [decide_eq_decide, List.length_append, List.length_singleton, Nat.lt_add_left_iff_pos,
      List.length_pos_iff]
    exact List.map_eq_nil_iff.not.symm
  simp only [noted, hfallback, List.map_append, List.flatMap_append, List.filterMap_append]
  split
  · cases hx : failure? x <;> simp [hx]
  · cases hx : failure? x <;> simp [hx]

/-- What a search says at first. -/
@[simp] theorem Options.noted_nil (o : Options) :
    o.noted [] = { below := if o.includeBelow then some [] else none } := rfl

/-! ## One candidate -/

section

variable {type : String} {log : List κ}

/-- A candidate that does not stop the search is noted. -/
theorem orderedFrom_passed (hask : ask.Scored) (asked : List Outcome) (types : List String)
    (h : o.stops (type, (ask (o.request query type) log).1) = false) :
    orderedFrom ask o query (o.noted asked) (type :: types) log =
      orderedFrom ask o query
        (o.noted (asked ++ [(type, (ask (o.request query type) log).1)])) types
        (ask (o.request query type) log).2 := by
  have hasked : (ask (o.request query type)).attempt.Returns log
      (ask (o.request query type) log).1 (ask (o.request query type) log).2 := rfl
  rw [orderedFrom, Session.bind_of_returns hasked, Options.noted_concat]
  cases hx : (ask (o.request query type) log).1 with
  | error e =>
    rw [hx] at h
    have hthrow : ¬ o.onError.getD .throw = .throw := of_decide_eq_false h
    dsimp only
    rw [if_neg hthrow]
    simp [Options.rejects, taggedMatches, failure?]
  | ok ms =>
    rw [hx, Options.stops_eq_false_iff] at h
    have hscored : ScoredOutcome (type, .ok ms) := hx ▸ hask (o.request query type) log
    have hpartition := partition_tag o hscored
    dsimp only
    rw [Session.bind_of_returns (Session.returns_lift_iff.mpr ⟨hpartition, rfl⟩), h]
    simp [failure?]

/-- **A candidate that stops the search ends it.** -/
theorem orderedFrom_stopped (hask : ask.Scored) (asked : List Outcome) (types : List String)
    (h : o.stops (type, (ask (o.request query type) log).1) = true) :
    ∃ r, orderedFrom ask o query (o.noted asked) (type :: types) log =
        (r, (ask (o.request query type) log).2) ∧
      o.Ends (asked ++ [(type, (ask (o.request query type) log).1)])
        (some (type, (ask (o.request query type) log).1)) r := by
  have hasked : (ask (o.request query type)).attempt.Returns log
      (ask (o.request query type) log).1 (ask (o.request query type) log).2 := rfl
  rw [orderedFrom, Session.bind_of_returns hasked]
  cases hx : (ask (o.request query type) log).1 with
  | error e =>
    rw [hx] at h
    have hthrow : o.onError.getD .throw = .throw := of_decide_eq_true h
    dsimp only
    rw [if_pos hthrow]
    exact ⟨_, rfl, .thrown type e⟩
  | ok ms =>
    have hscored : ScoredOutcome (type, .ok ms) := hx ▸ hask (o.request query type) log
    have hpartition := partition_tag o hscored
    dsimp only
    rw [Session.bind_of_returns (Session.returns_lift_iff.mpr ⟨hpartition, rfl⟩)]
    have hfound : o.qualifiers (type, .ok ms) ≠ [] := fun hnil => by
      rw [hx, Options.stops_eq_false_iff.mpr hnil] at h
      exact Bool.false_ne_true h
    obtain ⟨m, above, habove⟩ := List.exists_cons_of_ne_nil hfound
    have hscores : Match.scores (m :: above) = .ok ((m :: above).map Match.score) :=
      Match.scores_eq_ok fun m' hm' => scored_of_mem_qualifiers hscored (habove ▸ hm')
    have hend := Options.ends_found (asked ++ [(type, .ok ms)]) habove
    rw [Options.noted_concat] at hend
    dsimp only
    rw [habove]
    dsimp only
    rw [Session.bind_of_returns (Session.returns_lift_iff.mpr ⟨hscores, rfl⟩)]
    exact ⟨_, rfl, by simpa [failure?] using hend⟩

end

/-! ## All candidates -/

/-- **A search asks the candidates up to the first that stops it**, and ends as that one says. -/
theorem orderedFrom_ends (hask : ask.Scored) (o : Options) (query : String) (types : List String)
    (asked : List Outcome) (log : List κ) :
    o.Ends (asked ++ o.upToStop (turns ask o query log types))
      (o.stop? (turns ask o query log types))
        (orderedFrom ask o query (o.noted asked) types log).1 ∧
      (orderedFrom ask o query (o.noted asked) types log).2 =
        logBehind ask o query log ((o.upToStop (turns ask o query log types)).map Prod.fst) := by
  induction types generalizing asked log with
  | nil =>
    refine ⟨?_, rfl⟩
    rw [show asked ++ o.upToStop (turns ask o query log []) = asked from List.append_nil asked]
    exact .exhausted
  | cons type types ih =>
    rw [turns]
    cases h : o.stops (type, (ask (o.request query type) log).1) with
    | true =>
      obtain ⟨r, hr, hends⟩ := orderedFrom_stopped hask asked types h
      rw [Options.upToStop_cons_of_stops h, Options.stop?_cons_of_stops h, hr]
      exact ⟨hends, rfl⟩
    | false =>
      rw [Options.upToStop_cons_of_not_stops h, Options.stop?_cons_of_not_stops h,
        orderedFrom_passed hask asked types h, List.append_cons]
      exact ih _ _

/-- A search one after another begins with nothing noted. -/
theorem search_eq_orderedFrom (ho : o.mode = .ordered) (types : List String) :
    search ask o query types = orderedFrom ask o query (o.noted []) types := by
  rw [search, ho, Options.noted_nil]
  by_cases hnil : types = []
  · rw [hnil]
    rfl
  · exact if_neg hnil

/-- **A search one after another, for any searcher that gives numbers as scores.**  It asks exactly
the candidates up to the first that stops it, in order, each with its threshold and the limit; and
it ends as that candidate says: with its error, with its matches that qualify, or, if there is no
such candidate, with nothing found.  What the searcher answers may depend on all that was asked. -/
theorem search_stops (answer : List Request → Request → Except Failure (List Match))
    (hscored : (Searcher.recording answer).Scored) (o : Options) (ho : o.mode = .ordered)
    (query : String) (types : List String) (log : List Request) :
    o.Ends (o.upToStop (turns (.recording answer) o query log types))
        (o.stop? (turns (.recording answer) o query log types))
        (search (.recording answer) o query types log).1 ∧
      (search (.recording answer) o query types log).2 =
        log ++ (o.upToStop (turns (.recording answer) o query log types)).map
          fun x => o.request query x.1 := by
  obtain ⟨hends, hlog⟩ := orderedFrom_ends hscored o query types [] log
  rw [search_eq_orderedFrom ho]
  refine ⟨hends, hlog.trans ?_⟩
  rw [logBehind_recording, List.map_map]
  rfl

/-- The options of a search that notes failures, for scores of three at least. -/
def patient : Options :=
  { threshold := some (.int 3), onError := some .resume, includeBelow := true }

theorem search_stops_catalogue : ∃ r,
    search (.recording catalogue) patient "core" ["Person", "Team", "Group", "Firm", "Club"] [] =
      (.ok r, ["Person", "Team", "Group", "Firm"].map (patient.request "core")) ∧
    r.searched = ["Person", "Team", "Group", "Firm"] ∧ r.matchedType = .text "Firm" ∧
    r.found = [(matchOf "new" 3).tag "Firm"] := by
  obtain ⟨hends, hlog⟩ := search_stops catalogue scored_catalogue patient rfl "core"
    ["Person", "Team", "Group", "Firm", "Club"] []
  have hasked : (patient.upToStop (turns (.recording catalogue) patient "core" []
      ["Person", "Team", "Group", "Firm", "Club"])).map Prod.fst =
        ["Person", "Team", "Group", "Firm"] := by
    decide +kernel
  have hstop : (patient.stop? (turns (.recording catalogue) patient "core" []
      ["Person", "Team", "Group", "Firm", "Club"])).map (fun x => (x.1, x.2.toOption)) =
        some ("Firm", some [matchOf "new" 3, matchOf "old" 2]) := by
    decide +kernel
  obtain ⟨⟨type, x⟩, hstop, heq⟩ := Option.map_eq_some_iff.mp hstop
  rw [hstop] at hends
  generalize hrun : (search (.recording catalogue) patient "core"
    ["Person", "Team", "Group", "Firm", "Club"] []).1 = run at hends
  cases hends with
  | thrown e => exact nomatch heq
  | found mem highest =>
    obtain ⟨rfl, hms⟩ := Prod.mk.inj heq
    obtain rfl := Option.some.inj hms
    have hfound : patient.qualifiers ("Firm", .ok [matchOf "new" 3, matchOf "old" 2]) =
        [(matchOf "new" 3).tag "Firm"] := by
      decide +kernel
    refine ⟨_, Prod.ext hrun ?_, hasked, rfl, by dsimp only; exact hfound⟩
    rw [hlog, ← hasked, List.map_map]
    rfl

end EntitySchema.Search
