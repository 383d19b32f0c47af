import EntitySchema.Proofs.Search.Rank

/-!
# Proofs/Search/Turns — what the candidates come to, each in its turn

    types      type₁   type₂   …
    turns       x₁      x₂     …       matches or a failure
    ├─ qualifiers       at least the threshold
    ├─ rejects          below it
    └─ failure?         neither, but an error

A searcher may answer from all that was asked before, so what a candidate comes to is said for the
candidates in their order (`turns`).  The matches of a candidate fall into those that qualify and
those that are rejected (`partition_tag`), and into no third part unless not-a-number is compared
(`perm_parts`).
-/

namespace EntitySchema

namespace Match

/-- The type of a match does not touch its score. -/
@[simp] theorem score_tag (type : String) (m : Match) : (m.tag type).score = m.score := by
  rw [tag]
  split
  · rfl
  · rw [score, Table.get?_insert, if_neg (by decide)]
    rfl

@[simp] theorem qualifies_tag (t : Number) (type : String) (m : Match) :
    (m.tag type).qualifies t = m.qualifies t := by simp [qualifies]

/-- Every match says its type once it is tagged. -/
theorem exists_type_tag (type : String) (m : Match) : ∃ v, (m.tag type).get? typeKey = some v := by
  rw [tag]
  split_ifs with h
  · exact Option.isSome_iff_exists.mp h
  · exact ⟨.text type, Table.get?_insert_self ..⟩

/-- Whether the score of a match compares with `t`; not-a-number compares with nothing. -/
def compares (t : Number) (m : Match) : Bool :=
  m.score.number?.any fun n => n.place?.isSome && t.place?.isSome

theorem compares_of_qualifies {t : Number} {m : Match} (h : m.qualifies t = true) :
    m.compares t = true := by
  obtain ⟨n, hn, hle⟩ := (Option.any_eq_true ..).mp h
  obtain ⟨p, q, hp, hq, -⟩ := Number.le_eq_true_iff.mp hle
  rw [compares, hn, Option.any_some, hp, hq]
  rfl

/-- **Below is what compares and does not qualify.** -/
theorem isBelow_eq (t : Number) (m : Match) : m.isBelow t = (!m.qualifies t && m.compares t) := by
  rw [isBelow, qualifies, compares]
  cases m.score.number? with
  | none => rfl
  | some n =>
    rw [Option.any_some, Option.any_some, Option.any_some, Number.lt, Number.le]
    cases n.place? <;> cases t.place? <;> simp

/-- **A score fails to compare only where not-a-number is compared.** -/
theorem IsScored.compares_eq_false_iff {m : Match} (h : m.IsScored) {t : Number} :
    m.compares t = false ↔ m.score.number? = some (.float .nan) ∨ t = .float .nan := by
  obtain ⟨n, hn⟩ := h.exists_number
  rw [compares, hn, Option.any_some, Bool.and_eq_false_iff, Option.isSome_eq_false_iff,
    Option.isSome_eq_false_iff, Option.isNone_iff_eq_none, Option.isNone_iff_eq_none,
    Number.place?_eq_none_iff, Number.place?_eq_none_iff, Option.some.injEq]

end Match

namespace Search

variable {κ : Type} {ask : Searcher κ} {o : Options} {query : String}

/-! ## Searchers -/

/-- Whether the matches of a searcher always have numbers as their scores. -/
def Searcher.Scored (ask : Searcher κ) : Prop :=
  ∀ r log ms, (ask r log).1 = .ok ms → ∀ m ∈ ms, m.IsScored

/-- The searcher that logs every request, and answers it from the requests before it. -/
def Searcher.recording (answer : List Request → Request → Except Failure (List Match)) :
    Searcher Request :=
  fun r => Session.perform (answer · r) r

/-! ## Turns -/

/-- What the searches of the candidates come to, one after another. -/
def turns (ask : Searcher κ) (o : Options) (query : String) : List κ → List String → List Outcome
  | _, [] => []
  | log, type :: types =>
      (type, (ask (o.request query type) log).1) ::
        turns ask o query (ask (o.request query type) log).2 types

/-- The log behind the searches of the candidates. -/
def logBehind (ask : Searcher κ) (o : Options) (query : String) (log : List κ)
    (types : List String) : List κ :=
  types.foldl (fun log type => (ask (o.request query type) log).2) log

@[simp] theorem map_fst_turns (log : List κ) (types : List String) :
    (turns ask o query log types).map Prod.fst = types := by
  induction types generalizing log with
  | nil => rfl
  | cons type types ih => rw [turns, List.map_cons, ih]

/-- A searcher that records requests has recorded one for each candidate. -/
@[simp] theorem logBehind_recording {answer : List Request → Request → Except Failure (List Match)}
    (log : List Request) (types : List String) :
    logBehind (.recording answer) o query log types = log ++ types.map (o.request query) := by
  induction types generalizing log with
  | nil => exact (List.append_nil log).symm
  | cons type types ih =>
    have hstep : logBehind (.recording answer) o query log (type :: types) =
        logBehind (.recording answer) o query (log ++ [o.request query type]) types := rfl
    rw [hstep, ih, List.append_assoc]
    rfl

/-- Whether the matches of an outcome have numbers as their scores. -/
def ScoredOutcome (x : Outcome) : Prop := ∀ ms, x.2 = .ok ms → ∀ m ∈ ms, m.IsScored

theorem scored_of_mem_turns (hask : ask.Scored) {log : List κ} {types : List String} {x : Outcome}
    (hx : x ∈ turns ask o query log types) : ScoredOutcome x := by
  induction types generalizing log with
  | nil => exact absurd hx List.not_mem_nil
  | cons type types ih =>
    obtain rfl | hx := List.mem_cons.mp hx
    · exact hask _ _
    · exact ih hx

/-! ## Parts of an outcome -/

/-- The matches of an outcome, with their types. -/
def taggedMatches : Outcome → List Match
  | (type, .ok ms) => ms.map (Match.tag type)
  | (_, .error _) => []

/-- The matches of an outcome that qualify. -/
def Options.qualifiers (o : Options) (x : Outcome) : List Match :=
  (taggedMatches x).filter (Match.qualifies (o.thresholdFor x.1))

/-- The matches of an outcome that lie below the threshold. -/
def Options.rejects (o : Options) (x : Outcome) : List Match :=
  (taggedMatches x).filter (Match.isBelow (o.thresholdFor x.1))

/-- The matches of an outcome that compare with no threshold, or none with this one. -/
def Options.incomparables (o : Options) (x : Outcome) : List Match :=
  (taggedMatches x).filter (!Match.compares (o.thresholdFor x.1) ·)

/-- The failure of an outcome. -/
def failure? : Outcome → Option SearchError
  | (type, .error e) => some ⟨type, e⟩
  | (_, .ok _) => none

/-- **Every match qualifies, is rejected, or is incomparable**, and one of these only. -/
theorem perm_parts (o : Options) (x : Outcome) :
    (o.qualifiers x ++ o.rejects x ++ o.incomparables x).Perm (taggedMatches x) := by
  have hqualifiers : o.qualifiers x =
      ((taggedMatches x).filter (Match.compares (o.thresholdFor x.1))).filter
        (Match.qualifies (o.thresholdFor x.1)) := by
    rw [List.filter_filter, Options.qualifiers]
    refine List.filter_congr fun m _ => ?_
    cases h : m.qualifies (o.thresholdFor x.1) with
    | false => rfl
    | true => rw [Match.compares_of_qualifies h]; rfl
  have hrejects : o.rejects x =
      ((taggedMatches x).filter (Match.compares (o.thresholdFor x.1))).filter
        (!Match.qualifies (o.thresholdFor x.1) ·) := by
    rw [List.filter_filter, Options.rejects]
    exact List.filter_congr fun m _ => Match.isBelow_eq _ m
  rw [hqualifiers, hrejects]
  exact ((List.filter_append_perm _ _).append_right _).trans (List.filter_append_perm _ _)

/-- The matches of a candidate are measured without failure. -/
theorem partition_tag (o : Options) {type : String} {ms : List Match}
    (h : ScoredOutcome (type, .ok ms)) :
    Match.partition (o.thresholdFor type) (ms.map (Match.tag type)) =
      .ok (o.qualifiers (type, .ok ms), o.rejects (type, .ok ms)) := by
  refine Match.partition_eq_ok _ fun m hm => ?_
  obtain ⟨m', hm', rfl⟩ := List.mem_map.mp hm
  exact (h ms rfl m' hm').tag type

@[simp] theorem mem_qualifiers_iff {x : Outcome} {m : Match} :
    m ∈ o.qualifiers x ↔ m ∈ taggedMatches x ∧ m.qualifies (o.thresholdFor x.1) = true :=
  List.mem_filter

theorem scored_of_mem_taggedMatches {x : Outcome} (hx : ScoredOutcome x) {m : Match}
    (hm : m ∈ taggedMatches x) : m.IsScored := by
  obtain ⟨type, _ | ms⟩ := x
  · exact absurd hm List.not_mem_nil
  · obtain ⟨m', hm', rfl⟩ := List.mem_map.mp hm
    exact (hx ms rfl m' hm').tag type

theorem scored_of_mem_qualifiers {x : Outcome} (hx : ScoredOutcome x) {m : Match}
    (hm : m ∈ o.qualifiers x) : m.IsScored :=
  scored_of_mem_taggedMatches hx (mem_qualifiers_iff.mp hm).1

/-- **The matches that neither qualify nor are rejected** are those that not-a-number comes into. -/
theorem mem_incomparables_iff {x : Outcome} (hx : ScoredOutcome x) {m : Match} :
    m ∈ o.incomparables x ↔ m ∈ taggedMatches x ∧
      (m.score.number? = some (.float .nan) ∨ o.thresholdFor x.1 = .float .nan) := by
  rw [Options.incomparables, List.mem_filter, Bool.not_eq_true']
  exact and_congr_right fun hm => (scored_of_mem_taggedMatches hx hm).compares_eq_false_iff

/-- Where not-a-number does not come in, every match qualifies or is rejected. -/
theorem incomparables_eq_nil {x : Outcome} (hx : ScoredOutcome x)
    (hscores : ∀ m ∈ taggedMatches x, m.score.number? ≠ some (.float .nan))
    (hthreshold : o.thresholdFor x.1 ≠ .float .nan) : o.incomparables x = [] := by
  refine List.eq_nil_iff_forall_not_mem.mpr fun m hm => ?_
  obtain ⟨hm, hscore | hnan⟩ := (mem_incomparables_iff hx).mp hm
  · exact hscores m hm hscore
  · exact hthreshold hnan

/-! ## A searcher that warms up -/

/-- A match with an id and a score. -/
def matchOf (id : String) (score : Int) : Match :=
  (Table.empty.insert Match.idKey (.text id)).insert Match.scoreKey (.int score)

theorem isScored_matchOf (id : String) (score : Int) : (matchOf id score).IsScored :=
  ⟨.int score, .int score, Table.get?_insert_self .., rfl⟩

/-- The first request fails; later ones find one match whose score is the number of the requests
before, and one with a score of two. -/
def catalogue (asked : List Request) (_ : Request) : Except Failure (List Match) :=
  match asked with
  | [] => .error (.backend "RuntimeError" "closed")
  | asked => .ok [matchOf "new" asked.length, matchOf "old" 2]

theorem scored_catalogue : (Searcher.recording catalogue).Scored := by
  intro r asked ms h
  cases asked with
  | nil => exact nomatch h
  | cons first asked =>
    obtain rfl := Except.ok.inj h
    exact List.forall_mem_cons.mpr
      ⟨isScored_matchOf .., List.forall_mem_singleton.mpr (isScored_matchOf ..)⟩

end Search

end EntitySchema
