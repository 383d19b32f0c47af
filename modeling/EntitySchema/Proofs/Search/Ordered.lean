import EntitySchema.Proofs.Session
import EntitySchema.Search.Union

/-!
# Proofs/Search/Ordered — candidates searched one after another

    types  =  candidates that miss  ++  the one that hits  ::  those that are not asked

A candidate misses if nothing it returns qualifies, or if its search fails where failures are only
noted.  A search that returns has asked the candidates up to the first that hits, or all of them
(`Asks`), and found what qualifies at the one that hits (`orderedFrom_returns`).
-/

namespace EntitySchema

namespace Match

/-- Whether a match has a score and it is at least `t`. -/
def reaches (t : Number) (m : Match) : Bool := (m.get? scoreKey).any fun v => v.number?.any t.le

theorem qualifies_of_reaches {t : Number} {m : Match} (h : m.reaches t) : m.qualifies t := by
  rw [reaches, Option.any_eq_true] at h
  obtain ⟨v, hv, hle⟩ := h
  rw [qualifies, score, hv]
  exact hle

theorem reaches_of_qualifies {t : Number} {m : Match} {v : Value} (hv : m.get? scoreKey = some v)
    (h : m.qualifies t) : m.reaches t := by
  rw [qualifies, score, hv] at h
  rw [reaches, hv]
  exact h

theorem isAtLeast_eq_ok_iff {v : Value} {t : Number} {b : Bool} :
    v.isAtLeast t = .ok b ↔ ∃ n, v.number? = some n ∧ t.le n = b := by
  rw [Value.isAtLeast]
  cases v.number? with
  | none => simp
  | some n => simp

theorem reaches_eq_of_isAtLeast {t : Number} {m : Match} {v : Value} {b : Bool}
    (hv : m.get? scoreKey = some v) (h : v.isAtLeast t = .ok b) : m.reaches t = b := by
  obtain ⟨n, hn, hle⟩ := isAtLeast_eq_ok_iff.mp h
  rw [reaches, hv, Option.any_some, hn, Option.any_some, hle]

theorem eq_of_partition {t : Number} {ms above below : List Match}
    (h : partition t ms = .ok (above, below)) :
    above = ms.filter (qualifies t) ∧ below = ms.filter (isBelow t) := by
  obtain ⟨-, -, h⟩ := bind_eq_ok_iff.mp h
  obtain ⟨rfl, rfl⟩ := Prod.mk.inj (Except.ok.inj h)
  exact ⟨rfl, rfl⟩

theorem scores_eq_ok_iff : ∀ {ms : List Match} {vs : List Value},
    scores ms = .ok vs ↔ ms.map (·.get? scoreKey) = vs.map some
  | [], vs => by
      rw [scores, Except.ok.injEq]
      cases vs <;> simp
  | m :: ms, vs => by
      simp only [scores, bind_eq_ok_iff, Record.require_eq_ok_iff, scores_eq_ok_iff]
      constructor
      · rintro ⟨v, hv, vs', hvs', h⟩
        obtain rfl := Except.ok.inj h
        rw [List.map_cons, List.map_cons, hv, hvs']
      · intro h
        cases vs with
        | nil => exact absurd h (by simp)
        | cons v vs =>
          obtain ⟨hv, hvs⟩ := List.cons.inj h
          exact ⟨v, hv, vs, hvs, rfl⟩

end Match

namespace Search

variable {κ : Type} {ask : Searcher κ} {o : Options} {query : String}

/-- The matches of a candidate that qualify. -/
def Options.qualifying (o : Options) (type : String) (ms : List Match) : List Match :=
  (ms.map (Match.tag type)).filter (Match.qualifies (o.thresholdFor type))

/-- The search goes on behind a candidate: nothing it returned qualifies, or its failure is only
noted. -/
def Options.Misses (o : Options) : Outcome → Prop
  | (type, .ok ms) => o.qualifying type ms = []
  | (_, .error _) => o.onError.getD .throw ≠ .throw

/-- The candidates are asked one after another: first those that miss, with what their searches came
to, and then the one that hits, if there is one. -/
inductive Asks (ask : Searcher κ) (o : Options) (query : String) :
    List String → List κ → List Outcome → Option (String × List Match) → List κ → Prop
  | exhausted (log : List κ) : Asks ask o query [] log [] none log
  | hit {type : String} {types : List String} {log log' : List κ} {ms : List Match}
      (asked : ask (o.request query type) log = (.ok ms, log'))
      (hits : o.qualifying type ms ≠ []) :
      Asks ask o query (type :: types) log [] (some (type, ms)) log'
  | miss {type : String} {types : List String} {log between log' : List κ}
      {x : Except Failure (List Match)} {missed : List Outcome}
      {hit? : Option (String × List Match)}
      (asked : ask (o.request query type) log = (x, between)) (misses : o.Misses (type, x))
      (rest : Asks ask o query types between missed hit? log') :
      Asks ask o query (type :: types) log ((type, x) :: missed) hit? log'

theorem Asks.hits {types : List String} {log log' : List κ} {missed : List Outcome} {type : String}
    {ms : List Match} (h : Asks ask o query types log missed (some (type, ms)) log') :
    o.qualifying type ms ≠ [] := by
  generalize heq : some (type, ms) = hit? at h
  induction h with
  | exhausted => exact nomatch heq
  | hit _ hits =>
    cases heq
    exact hits
  | miss _ _ _ ih => exact ih heq

/-- **A search finds what qualifies at the first candidate that does not miss.**  Every candidate
before it is asked, and none behind it. -/
theorem orderedFrom_returns : ∀ {types : List String} {r r' : Result} {log log' : List κ},
    (orderedFrom ask o query r types).Returns log r' log' →
    ∃ missed hit?, Asks ask o query types log missed hit? log' ∧
      (hit? = none → r'.found = r.found) ∧
      ∀ type ms, hit? = some (type, ms) → r'.found = o.qualifying type ms ∧
        r'.matchedType = .text type ∧ ∀ m ∈ r'.found, m.get? Match.scoreKey ≠ none
  | [], r, r', log, log', h => by
      rw [orderedFrom] at h
      obtain ⟨rfl, rfl⟩ := Session.returns_pure_iff.mp h
      exact ⟨[], none, .exhausted log, fun _ => rfl, nofun⟩
  | type :: types, r, r', log, log', h => by
      rw [orderedFrom] at h
      obtain ⟨x, between, hx, h⟩ := Session.returns_bind_iff.mp h
      have hasked := Session.returns_attempt_iff.mp hx
      cases x with
      | error e =>
        dsimp only at h
        split at h
        · exact absurd h Session.not_returns_fail
        · obtain ⟨missed, hit?, hasks, hnone, hsome⟩ := orderedFrom_returns h
          exact ⟨_, hit?, .miss hasked ‹_› hasks, hnone, hsome⟩
      | ok ms =>
        obtain ⟨⟨above, below⟩, _, hlift, h⟩ := Session.returns_bind_iff.mp h
        obtain ⟨hpartition, rfl⟩ := Session.returns_lift_iff.mp hlift
        obtain ⟨habove, -⟩ := Match.eq_of_partition hpartition
        cases above with
        | nil =>
          obtain ⟨missed, hit?, hasks, hnone, hsome⟩ := orderedFrom_returns h
          exact ⟨_, hit?, .miss hasked habove.symm hasks, hnone, hsome⟩
        | cons m above =>
          have hits : o.qualifying type ms ≠ [] := fun hnil =>
            List.cons_ne_nil m above (habove.trans hnil)
          obtain ⟨vs, _, hlift, h⟩ := Session.returns_bind_iff.mp h
          obtain ⟨hscores, rfl⟩ := Session.returns_lift_iff.mp hlift
          obtain ⟨rfl, rfl⟩ := Session.returns_pure_iff.mp h
          refine ⟨[], some (type, ms), .hit hasked hits, nofun, ?_⟩
          rintro _ _ ⟨⟩
          refine ⟨habove, rfl, fun n hn hnone => ?_⟩
          have hmem := List.mem_map_of_mem (f := (·.get? Match.scoreKey)) hn
          rw [Match.scores_eq_ok_iff.mp hscores, hnone] at hmem
          simp at hmem

end Search

end EntitySchema
