import EntitySchema.Proofs.Number.Order
import EntitySchema.Proofs.Search.Ordered

/-!
# Proofs/Search/Rank — the best of the matches

    scored matches ──partition──▸ those that qualify ──ranked──▸ best first

Matches with numbers as scores are measured and ranked without failure.  Those that qualify reach a
threshold, so their scores have places and any two of them compare: none of the ranked matches has a
score that exceeds that of one before it (`ranked_eq_ok`).
-/

namespace EntitySchema.Match

/-- Whether the match has a number as its score. -/
def IsScored (m : Match) : Prop := ∃ v n, m.get? scoreKey = some v ∧ v.number? = some n

variable {t : Number} {m : Match} {ms : List Match}

/-! ## Scores -/

theorem IsScored.exists_number (h : m.IsScored) : ∃ n, m.score.number? = some n := by
  obtain ⟨v, n, hv, hn⟩ := h
  exact ⟨n, by rw [score, hv, Option.getD_some, hn]⟩

/-- The type of a match does not touch its score. -/
theorem IsScored.tag (h : m.IsScored) (type : String) : (m.tag type).IsScored := by
  rw [Match.tag]
  split
  · exact h
  · obtain ⟨v, n, hv, hn⟩ := h
    exact ⟨v, n, by rw [Table.get?_insert, if_neg (by decide), hv], hn⟩

theorem checkScores_eq_ok (t : Number) : ∀ {ms : List Match}, (∀ m ∈ ms, m.IsScored) →
    checkScores t ms = .ok ()
  | [], _ => rfl
  | m :: ms, h => by
      obtain ⟨hm, hms⟩ := List.forall_mem_cons.mp h
      obtain ⟨n, hn⟩ := hm.exists_number
      rw [checkScores, isAtLeast_eq_ok_iff.mpr ⟨n, hn, rfl⟩]
      exact checkScores_eq_ok t hms

theorem partition_eq_ok (t : Number) (h : ∀ m ∈ ms, m.IsScored) :
    partition t ms = .ok (ms.filter (qualifies t), ms.filter (isBelow t)) := by
  rw [partition, checkScores_eq_ok t h]
  rfl

theorem scores_eq_ok (h : ∀ m ∈ ms, m.IsScored) : scores ms = .ok (ms.map score) := by
  rw [scores_eq_ok_iff, List.map_map]
  refine List.map_congr_left fun m hm => ?_
  obtain ⟨v, n, hv, -⟩ := h m hm
  rw [Function.comp_apply, score, hv, Option.getD_some]

/-- The greatest score is one of the scores. -/
theorem greatest_mem (best : Value) (vs : List Value) : greatest best vs ∈ best :: vs := by
  induction vs generalizing best with
  | nil => exact List.mem_singleton_self best
  | cons v vs ih =>
    rw [greatest]
    split
    · exact List.cons_subset_cons best (List.subset_cons_self v vs) (ih best)
    · exact List.mem_cons_of_mem best (ih v)

theorem exists_score_eq_greatest (m : Match) (ms : List Match) :
    ∃ m' ∈ m :: ms, greatest m.score (ms.map score) = m'.score := by
  have hmem := greatest_mem m.score (ms.map score)
  rw [← List.map_cons] at hmem
  obtain ⟨m', hm', hscore⟩ := List.mem_map.mp hmem
  exact ⟨m', hm', hscore.symm⟩

/-! ## Ranks -/

theorem ranksBefore_eq_true_iff {a b : Value} {n : Number} (hb : b.number? = some n) :
    ranksBefore a b = true ↔ ∃ m, a.number? = some m ∧ n.le m = true := by
  rw [ranksBefore, hb]
  cases a.number? <;> simp

theorem ranksBefore_trans (a b c : Value) (hab : ranksBefore a b = true)
    (hbc : ranksBefore b c = true) : ranksBefore a c = true := by
  cases hb : b.number? with
  | none =>
    rw [ranksBefore, hb] at hbc
    exact absurd hbc (by simp)
  | some n =>
    obtain ⟨m, hm, hnm⟩ := (ranksBefore_eq_true_iff hb).mp hab
    cases hc : c.number? with
    | none => rw [ranksBefore, hm, hc]
    | some k =>
      obtain ⟨n', hn', hkn⟩ := (ranksBefore_eq_true_iff hc).mp hbc
      obtain rfl := Option.some.inj (hb.symm.trans hn')
      exact (ranksBefore_eq_true_iff hc).mpr ⟨m, hm, Number.le_trans hkn hnm⟩

/-- A match that qualifies has a score with a place. -/
theorem exists_place_of_qualifies (h : m.qualifies t) :
    ∃ n, m.score.number? = some n ∧ n.place? ≠ none := by
  obtain ⟨n, hn, hle⟩ := (Option.any_eq_true ..).mp h
  obtain ⟨-, q, -, hq, -⟩ := Number.le_eq_true_iff.mp hle
  exact ⟨n, hn, by simp [hq]⟩

/-- Scores with places are in a line. -/
theorem ranksBefore_total {a b : Value} (ha : ∃ n, a.number? = some n ∧ n.place? ≠ none)
    (hb : ∃ n, b.number? = some n ∧ n.place? ≠ none) :
    ranksBefore a b = true ∨ ranksBefore b a = true := by
  obtain ⟨m, hm, hplace⟩ := ha
  obtain ⟨n, hn, hplace'⟩ := hb
  rw [ranksBefore_eq_true_iff hn, ranksBefore_eq_true_iff hm]
  exact (Number.le_total hplace' hplace).imp (fun h => ⟨m, hm, h⟩) fun h => ⟨n, hn, h⟩

/-- **No score exceeds the greatest.** -/
theorem greatest_ranksBefore {best : Value} {vs : List Value}
    (h : ∀ v ∈ best :: vs, ∃ n, v.number? = some n ∧ n.place? ≠ none) :
    ∀ v ∈ best :: vs, ranksBefore (greatest best vs) v = true := by
  induction vs generalizing best with
  | nil =>
    have hbest := h best List.mem_cons_self
    exact List.forall_mem_singleton.mpr ((ranksBefore_total hbest hbest).elim id id)
  | cons w vs ih =>
    obtain ⟨hbest, hw, hvs⟩ := List.forall_mem_cons.mp h |>.imp_right List.forall_mem_cons.mp
    rw [greatest, List.forall_mem_cons, List.forall_mem_cons]
    by_cases hbw : ranksBefore best w = true
    · rw [if_pos hbw]
      obtain ⟨htop, hrest⟩ := List.forall_mem_cons.mp (ih (List.forall_mem_cons.mpr ⟨hbest, hvs⟩))
      exact ⟨htop, ranksBefore_trans _ _ _ htop hbw, hrest⟩
    · rw [if_neg hbw]
      obtain ⟨htop, hrest⟩ := List.forall_mem_cons.mp (ih (List.forall_mem_cons.mpr ⟨hw, hvs⟩))
      have hwb := (ranksBefore_total hbest hw).resolve_left hbw
      exact ⟨ranksBefore_trans _ _ _ htop hwb, htop, hrest⟩

theorem greatest_ranksBefore_score {best : Match}
    (hqualify : ∀ m ∈ best :: ms, ∃ t, m.qualifies t) :
    ∀ m ∈ best :: ms, ranksBefore (greatest best.score (ms.map score)) m.score = true := by
  have hplaces : ∀ v ∈ (best :: ms).map score, ∃ n, v.number? = some n ∧ n.place? ≠ none := by
    refine List.forall_mem_map.mpr fun m hm => ?_
    obtain ⟨t, ht⟩ := hqualify m hm
    exact exists_place_of_qualifies ht
  rw [List.map_cons] at hplaces
  have hgreatest := greatest_ranksBefore hplaces
  rw [← List.map_cons, List.forall_mem_map] at hgreatest
  exact hgreatest

/-- Matches that qualify, each for a threshold of its own, are in a line. -/
theorem ranksBefore_total_of_qualify (hqualify : ∀ m ∈ ms, ∃ t, m.qualifies t) :
    ∀ m ∈ ms, ∀ m' ∈ ms,
      ranksBefore m.score m'.score = true ∨ ranksBefore m'.score m.score = true := by
  intro m hm m' hm'
  obtain ⟨t, ht⟩ := hqualify m hm
  obtain ⟨t', ht'⟩ := hqualify m' hm'
  exact ranksBefore_total (exists_place_of_qualifies ht) (exists_place_of_qualifies ht')

/-- Scored matches are ranked without failure. -/
theorem ranked_eq_sorted (hscored : ∀ m ∈ ms, m.IsScored) :
    ranked ms = .ok (sorted (fun a b => ranksBefore a.score b.score) ms) := by
  rw [ranked, scores_eq_ok hscored]
  rfl

/-- **Ranked matches stand in the order of their scores**, if all of them qualify, each for a
threshold of its own. -/
theorem ranked_eq_ok (hscored : ∀ m ∈ ms, m.IsScored) (hqualify : ∀ m ∈ ms, ∃ t, m.qualifies t) :
    ∃ ranks, ranked ms = .ok ranks ∧ ranks.Perm ms ∧
      ranks.Pairwise fun m m' => ranksBefore m.score m'.score :=
  ⟨_, ranked_eq_sorted hscored, perm_sorted _ ms, pairwise_sorted
    (fun a b c => ranksBefore_trans a.score b.score c.score)
    (ranksBefore_total_of_qualify hqualify)⟩

/-- **The first of ranked matches is the best.** -/
theorem exists_le_of_pairwise {top : Match} {rest : List Match}
    (hranked : (top :: rest).Pairwise fun m m' => ranksBefore m.score m'.score)
    (hm : m ∈ top :: rest) (hqualifies : m.qualifies t) :
    ∃ a b, m.score.number? = some a ∧ top.score.number? = some b ∧ a.le b = true := by
  obtain ⟨n, hn, hplace⟩ := exists_place_of_qualifies hqualifies
  obtain rfl | hrest := List.mem_cons.mp hm
  · exact ⟨n, n, hn, hn, (Number.le_total hplace hplace).elim id id⟩
  · have hbefore := (List.pairwise_cons.mp hranked).1 m hrest
    obtain ⟨b, hb, hle⟩ := (ranksBefore_eq_true_iff hn).mp hbefore
    exact ⟨n, b, hn, hb, hle⟩

end EntitySchema.Match
