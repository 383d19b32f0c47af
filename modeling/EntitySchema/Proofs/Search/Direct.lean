import EntitySchema.Proofs.Session
import EntitySchema.Search.Union

/-!
# Proofs/Search/Direct — a strategy that is called on its own

    search             =  prepared result ──▸ goes on from there
    ordered, parallel  =     empty result ──▸ goes on from there

`search` prepares the result that its strategy goes on from, and the only thing it ever prepares is
a list for the matches below their threshold.  The search of all candidates writes that list anew,
so it does not matter who calls it.  The search one after another only adds to a list that is there:
called on its own it notes no such match, whether they are wanted or not (`search_direct`).
-/

namespace EntitySchema.Search

variable {κ : Type} {ask : Searcher κ} {o : Options} {query : String}

/-! ## The mode is for `search` alone -/

@[simp] theorem orderedFrom_mode (mode : Mode) (types : List String) (r : Result) :
    orderedFrom ask { o with mode } query r types = orderedFrom ask o query r types := by
  induction types generalizing r with
  | nil => rfl
  | cons type types ih =>
    rw [orderedFrom, orderedFrom]
    simp only [ih]
    rfl

@[simp] theorem askAll_mode (mode : Mode) (types : List String) :
    askAll ask { o with mode } query types = askAll ask o query types := by
  induction types with
  | nil => rfl
  | cons type types ih =>
    rw [askAll, askAll, ih]
    rfl

@[simp] theorem collect_mode (mode : Mode) (outcomes : List Outcome) :
    collect { o with mode } outcomes = collect o outcomes := by
  induction outcomes with
  | nil => rfl
  | cons outcome outcomes ih =>
    obtain ⟨type, _ | ms⟩ := outcome
    · rw [collect, collect, ih]
    · rw [collect, collect, ih]
      rfl

/-- **The search of all candidates writes the list of rejected matches anew.** -/
theorem parallelFrom_mode (mode : Mode) (below : Option (List Match)) (types : List String) :
    parallelFrom ask { o with mode } query { below } types = parallel ask o query types := by
  rw [parallel, parallelFrom, parallelFrom, askAll_mode]
  simp only [collect_mode]
  rfl

/-! ## The list of rejected matches -/

/-- The result without the list of the matches below their threshold. -/
def Result.withoutBelow (r : Result) : Result := { r with below := none }

/-- **The list is of no account to the search one after another**: without it all else is the
same. -/
theorem withoutBelow_orderedFrom (types : List String) (r : Result) :
    Result.withoutBelow <$> orderedFrom ask o query r types =
      orderedFrom ask o query r.withoutBelow types := by
  induction types generalizing r with
  | nil => rfl
  | cons type types ih =>
    rw [orderedFrom, orderedFrom, map_bind]
    refine bind_congr fun x => ?_
    cases x with
    | error e =>
      dsimp only
      split
      · rfl
      · rw [ih]
        rfl
    | ok ms =>
      dsimp only
      rw [map_bind]
      refine bind_congr fun (above, below) => ?_
      cases above with
      | nil =>
        dsimp only
        rw [ih]
        simp only [Result.withoutBelow, Option.map_none, ite_self]
        rfl
      | cons m ms =>
        dsimp only
        rw [map_bind]
        refine bind_congr fun scores => ?_
        simp only [Result.withoutBelow, map_pure, Option.map_none, ite_self]
        rfl

/-- A list that is there stays there. -/
theorem below_orderedFrom {types : List String} {r r' : Result} {log log' : List κ}
    (hbelow : r.below ≠ none) (h : (orderedFrom ask o query r types).Returns log r' log') :
    r'.below ≠ none := by
  induction types generalizing r log with
  | nil =>
    obtain ⟨rfl, -⟩ := Session.returns_pure_iff.mp h
    exact hbelow
  | cons type types ih =>
    rw [orderedFrom] at h
    obtain ⟨x, between, -, h⟩ := Session.returns_bind_iff.mp h
    cases x with
    | error e =>
      dsimp only at h
      split at h
      · exact absurd h Session.not_returns_fail
      · refine ih ?_ h
        exact hbelow
    | ok ms =>
      obtain ⟨⟨above, below⟩, _, -, h⟩ := Session.returns_bind_iff.mp h
      have hkept : (if o.includeBelow then r.below.map (· ++ below) else r.below) ≠ none := by
        split
        · exact fun hnone => hbelow (Option.map_eq_none_iff.mp hnone)
        · exact hbelow
      cases above with
      | nil =>
        refine ih ?_ h
        exact hkept
      | cons m ms =>
        obtain ⟨scores, _, -, h⟩ := Session.returns_bind_iff.mp h
        obtain ⟨rfl, -⟩ := Session.returns_pure_iff.mp h
        exact hkept

/-! ## Both ways to call a strategy -/

/-- **A strategy on its own does what `search` does with it**, for any searcher, options and
candidates: it makes the same calls and comes to the same failure or the same result, but for the
matches below their threshold in a search one after another.  These it leaves out, so the two come
to the same unless such matches are wanted and the search returns. -/
theorem search_direct (ask : Searcher κ) (o : Options) (query : String) {types : List String}
    (htypes : types ≠ []) :
    search ask { o with mode := .parallel } query types = parallel ask o query types ∧
      Result.withoutBelow <$> search ask { o with mode := .ordered } query types =
        ordered ask o query types ∧
      ∀ log, search ask { o with mode := .ordered } query types log =
          ordered ask o query types log ↔
        (o.includeBelow = true → ∀ r log', ¬ (ordered ask o query types).Returns log r log') := by
  have hordered : search ask { o with mode := .ordered } query types =
      orderedFrom ask o query { below := if o.includeBelow then some [] else none } types := by
    rw [search, if_neg htypes]
    exact orderedFrom_mode .ordered types _
  have hwithout : Result.withoutBelow <$> search ask { o with mode := .ordered } query types =
      ordered ask o query types := by
    rw [hordered, withoutBelow_orderedFrom]
    rfl
  refine ⟨?_, hwithout, fun log => ⟨fun hsame hwanted r log' hreturns => ?_, fun hreturns => ?_⟩⟩
  · rw [search, if_neg htypes]
    exact parallelFrom_mode .parallel _ types
  · -- The list that `search` has prepared would be in the result of the strategy on its own.
    have hsearch : (search ask { o with mode := .ordered } query types).Returns log r log' :=
      hsame.trans hreturns
    obtain ⟨r', -, rfl⟩ := Session.returns_map_iff.mp (hwithout ▸ hreturns)
    rw [hordered, hwanted] at hsearch
    exact below_orderedFrom (Option.some_ne_none _) hsearch rfl
  · by_cases hwanted : o.includeBelow = true
    · -- The search fails, and there is no list in a failure.
      have hmap := congrFun hwithout log
      change (search ask { o with mode := .ordered } query types).andThen _ log = _ at hmap
      rw [Session.andThen] at hmap
      rcases hx : search ask { o with mode := .ordered } query types log with ⟨e | r, log'⟩
      · rw [hx] at hmap
        exact hmap
      · rw [hx] at hmap
        exact absurd hmap.symm (hreturns hwanted _ log')
    · rw [hordered, if_neg hwanted]
      rfl

/-- One team is found, with a score of two. -/
def teams : Searcher Request :=
  fun r => Session.perform (fun _ => .ok [.ofList [("$id", .text "t1"), ("$score", .int 2)]]) r

/-- The options of a search for scores of three at least that wants the rejected matches too. -/
def thorough : Options := { threshold := some (.int 3), includeBelow := true }

theorem search_direct_teams :
    search teams { thorough with mode := .parallel } "core" ["Team"] =
        parallel teams thorough "core" ["Team"] ∧
      (∃ r log', (ordered teams thorough "core" ["Team"]).Returns [] r log' ∧ r.below = none) ∧
      search teams { thorough with mode := .ordered } "core" ["Team"] [] ≠
        ordered teams thorough "core" ["Team"] [] := by
  obtain ⟨hparallel, -, hordered⟩ :=
    search_direct teams thorough "core" (List.cons_ne_nil "Team" [])
  have hrun : (ordered teams thorough "core" ["Team"] []).1.toOption.any
      (fun r => decide (r.below = none)) = true := by
    decide +kernel
  obtain ⟨r, log', hreturns, hbelow⟩ := Session.exists_returns_of_any hrun
  refine ⟨hparallel, ⟨r, log', hreturns, of_decide_eq_true hbelow⟩, fun hsame => ?_⟩
  exact (hordered []).mp hsame rfl r log' hreturns

end EntitySchema.Search
