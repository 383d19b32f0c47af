import EntitySchema.Proofs.Dependency.Batch
import EntitySchema.Proofs.Dependency.Reach
import Mathlib.Order.Bounds.Basic

/-!
# Proofs/Dependency/Layer — the batch in which a type comes

    t ──▸ d₁ ──▸ … ──▸ dᵢ   the longest chain from t   ⟺   t comes in batch i

What is left when the batches are taken are the needed types that lead to a cycle (`mem_left_iff`);
all others come (`mem_flatten_batches_iff`).  After `i` rounds the types remain from which a chain
of `i` dependencies starts (`Deep`), and a round takes those from which no longer one does
(`Deep.mem_free_iff`, `Deep.held`).  So the batch of a type is the length of its longest chain
(`inBatch_iff`).
-/

namespace EntitySchema

namespace Dependency

variable {next : String → List String}

/-! ## Chains of dependencies -/

/-- Whether a chain of `n` dependencies starts at `t`. -/
def HasChain (next : String → List String) (t : String) (n : ℕ) : Prop :=
  ∃ ps, (t :: ps).IsChain (Needs next) ∧ ps.length = n

namespace HasChain

variable {t : String} {n m : ℕ}

theorem zero (next : String → List String) (t : String) : HasChain next t 0 :=
  ⟨[], .singleton t, rfl⟩

theorem succ_iff : HasChain next t (n + 1) ↔ ∃ d ∈ next t, HasChain next d n := by
  constructor
  · rintro ⟨_ | ⟨d, ps⟩, hchain, hlength⟩
    · simp at hlength
    · obtain ⟨hd, hchain⟩ := List.isChain_cons_cons.mp hchain
      exact ⟨d, hd, ps, hchain, Nat.succ.inj hlength⟩
  · rintro ⟨d, hd, ps, hchain, rfl⟩
    exact ⟨d :: ps, .cons_cons hd hchain, rfl⟩

/-- A chain can be cut short. -/
theorem of_le (h : HasChain next t n) (hle : m ≤ n) : HasChain next t m := by
  obtain ⟨ps, hchain, rfl⟩ := h
  exact ⟨ps.take m, hchain.take (m + 1), List.length_take_of_le hle⟩

/-- The longest chain is the last one that cannot be made longer. -/
theorem isGreatest_iff :
    IsGreatest {n | HasChain next t n} n ↔ HasChain next t n ∧ ¬ HasChain next t (n + 1) := by
  refine and_congr_right fun _ => ⟨fun hup h => absurd (hup h) (by simp), fun hnot m hm => ?_⟩
  exact not_lt.mp fun hlt => hnot (hm.of_le hlt)

/-- From a type that leads to a cycle the chains go on and on. -/
theorem of_leadsToCycle (h : LeadsToCycle next t) : HasChain next t n := by
  induction n generalizing t with
  | zero => exact .zero next t
  | succ n ih =>
    obtain ⟨d, hd, hcycle⟩ := leadsToCycle_iff.mp h
    exact succ_iff.mpr ⟨d, hd, ih hcycle⟩

end HasChain

/-! ## The rounds -/

/-- The remaining types are those of `K` from which a chain of `i` dependencies starts. -/
def Deep (next : String → List String) (K : String → Prop) (i : ℕ) (remaining : List String) :
    Prop :=
  ∀ k, k ∈ remaining ↔ K k ∧ HasChain next k i

section

variable {K : String → Prop} {remaining : List String} {i : ℕ}
  (hclosed : ∀ k, K k → ∀ d ∈ next k, K d)
include hclosed

namespace Deep

/-- A type needs one of the remaining types exactly if a longer chain starts at it. -/
theorem exists_mem_iff (h : Deep next K i remaining) {k : String} (hk : K k) :
    (∃ d ∈ next k, d ∈ remaining) ↔ HasChain next k (i + 1) := by
  rw [HasChain.succ_iff]
  refine exists_congr fun d => and_congr_right fun hd => ?_
  rw [h d, and_iff_right (hclosed k hk d hd)]

/-- A round takes the types whose chains are used up… -/
theorem mem_free_iff (h : Deep next K i remaining) {k : String} :
    k ∈ free next remaining ↔ K k ∧ IsGreatest {n | HasChain next k n} i := by
  rw [Dependency.mem_free_iff, h k, HasChain.isGreatest_iff, and_assoc]
  refine and_congr_right fun hk => and_congr_right fun _ => ?_
  rw [← h.exists_mem_iff hclosed hk]
  push Not
  rfl

/-- …and leaves those with longer ones. -/
theorem held (h : Deep next K i remaining) : Deep next K (i + 1) (held next remaining) := by
  intro k
  rw [mem_held_iff, h k, and_assoc]
  refine and_congr_right fun hk => ?_
  rw [h.exists_mem_iff hclosed hk]
  exact and_iff_right_of_imp fun hchain => hchain.of_le (Nat.le_succ i)

end Deep

/-- **After `j` more rounds the chains are longer by `j`.** -/
theorem Peels.mem_batch_iff {left : List String} {batches : List (List String)}
    (h : Peels next remaining batches left) :
    ∀ i, Deep next K i remaining → ∀ j batch, batches[j]? = some batch →
      ∀ k, k ∈ batch ↔ K k ∧ IsGreatest {n | HasChain next k n} (i + j) := by
  induction h with
  | stuck => simp
  | batch _ _ ih =>
    intro i hdeep j batch hbatch k
    cases j with
    | zero =>
      obtain rfl := Option.some.inj hbatch
      exact hdeep.mem_free_iff hclosed
    | succ j =>
      rw [Nat.add_succ, ← Nat.succ_add]
      exact ih (i + 1) (hdeep.held hclosed) j batch (by simpa using hbatch) k

end

/-! ## The batches of a graph -/

namespace Graph

variable {g : Graph} {root t : String} {left : List String} {i : ℕ}

/-- The batches are peeled off the reachable types. -/
theorem exists_peels (hends : ∀ u v, (g.dependents v).count u = (g.hard u).count v)
    (root : String) : ∃ left, Peels g.hard (g.reachable root) (g.batches root) left := by
  obtain ⟨hcounts, hkeys⟩ := g.counts_waiting (g.nodup_reachable root)
  obtain ⟨left, hpeels⟩ :=
    peels_batchesFrom hends (g.reachable root).length hcounts (le_of_eq (congrArg _ hkeys))
  exact ⟨left, hkeys ▸ hpeels⟩

/-- **What is left leads to a cycle**: every type that leads to one needs another one that does. -/
theorem mem_left_iff (h : Peels g.hard (g.reachable root) (g.batches root) left) :
    t ∈ left ↔ Relation.ReflTransGen (Needs g.hard) root t ∧ LeadsToCycle g.hard t := by
  constructor
  · intro ht
    refine ⟨mem_reachable_iff.mp (h.perm.subset (List.mem_append_right _ ht)), ?_⟩
    by_contra hfree
    obtain ⟨order, horder⟩ : ∃ order, g.order t = .ok order := exists_order_iff.mpr hfree
    obtain ⟨hfeasible, hmem⟩ := feasible_of_order_eq_ok horder
    exact hfeasible.notMem_of_free h.free_left t ((hmem t).mpr .refl) ht
  · refine h.mem_left (P := fun k => Relation.ReflTransGen (Needs g.hard) root k ∧
      LeadsToCycle g.hard k) ?_ t
    rintro k ⟨hk, hcycle⟩
    obtain ⟨d, hd, hcycle⟩ := leadsToCycle_iff.mp hcycle
    exact ⟨mem_reachable_iff.mpr hk, d, hd, hk.tail hd, hcycle⟩

theorem nodup_batches_append (h : Peels g.hard (g.reachable root) (g.batches root) left) :
    ((g.batches root).flatten ++ left).Nodup :=
  h.perm.nodup_iff.mpr (g.nodup_reachable root)

theorem nodup_flatten_batches (h : Peels g.hard (g.reachable root) (g.batches root) left) :
    (g.batches root).flatten.Nodup :=
  (List.nodup_append.mp (nodup_batches_append h)).1

/-- **All others come.** -/
theorem mem_flatten_batches_iff (h : Peels g.hard (g.reachable root) (g.batches root) left) :
    t ∈ (g.batches root).flatten ↔
      Relation.ReflTransGen (Needs g.hard) root t ∧ ¬ LeadsToCycle g.hard t := by
  have hsplit := h.perm.mem_iff (a := t)
  rw [List.mem_append, mem_left_iff h, mem_reachable_iff] at hsplit
  have hapart : t ∈ (g.batches root).flatten → t ∉ left := fun hb hl =>
    List.disjoint_of_nodup_append (nodup_batches_append h) hb hl
  rw [mem_left_iff h] at hapart
  tauto

/-- Whether the type `t` comes in the batch `i`, counted from zero. -/
def InBatch (g : Graph) (root : String) (i : ℕ) (t : String) : Prop :=
  ∃ batch, (g.batches root)[i]? = some batch ∧ t ∈ batch

theorem mem_flatten_iff_exists_inBatch :
    t ∈ (g.batches root).flatten ↔ ∃ i, g.InBatch root i t := by
  rw [List.mem_flatten]
  constructor
  · rintro ⟨batch, hbatch, ht⟩
    obtain ⟨i, hi⟩ := List.mem_iff_getElem?.mp hbatch
    exact ⟨i, batch, hi, ht⟩
  · rintro ⟨i, batch, hbatch, ht⟩
    exact ⟨batch, List.mem_of_getElem? hbatch, ht⟩

theorem lt_length_of_inBatch (ht : g.InBatch root i t) : i < (g.batches root).length := by
  obtain ⟨batch, hbatch, -⟩ := ht
  exact (List.getElem?_eq_some_iff.mp hbatch).1

theorem exists_inBatch_iff (h : Peels g.hard (g.reachable root) (g.batches root) left) :
    (∃ i, g.InBatch root i t) ↔
      Relation.ReflTransGen (Needs g.hard) root t ∧ ¬ LeadsToCycle g.hard t := by
  rw [← mem_flatten_iff_exists_inBatch, mem_flatten_batches_iff h]

/-- A type comes when its longest chain is used up. -/
theorem isGreatest_of_inBatch (h : Peels g.hard (g.reachable root) (g.batches root) left)
    (ht : g.InBatch root i t) : Relation.ReflTransGen (Needs g.hard) root t ∧
      IsGreatest {n | HasChain g.hard t n} i := by
  obtain ⟨batch, hbatch, ht⟩ := ht
  have hdeep : Deep g.hard (Relation.ReflTransGen (Needs g.hard) root) 0 (g.reachable root) :=
    fun k => by rw [mem_reachable_iff, and_iff_left (.zero g.hard k)]
  have hmem := h.mem_batch_iff (fun _ hk _ hd => hk.tail hd) 0 hdeep i batch hbatch t
  rwa [hmem, Nat.zero_add] at ht

theorem eq_of_inBatch (h : Peels g.hard (g.reachable root) (g.batches root) left) {j : ℕ}
    (hi : g.InBatch root i t) (hj : g.InBatch root j t) : i = j :=
  (isGreatest_of_inBatch h hi).2.unique (isGreatest_of_inBatch h hj).2

/-- **The batch of a type is the length of its longest chain.** -/
theorem inBatch_iff (h : Peels g.hard (g.reachable root) (g.batches root) left) :
    g.InBatch root i t ↔ Relation.ReflTransGen (Needs g.hard) root t ∧
      IsGreatest {n | HasChain g.hard t n} i := by
  refine ⟨isGreatest_of_inBatch h, fun ⟨hroot, hgreatest⟩ => ?_⟩
  -- a type with a longest chain leads to no cycle, so it comes, and only in this batch
  have hfree : ¬ LeadsToCycle g.hard t := fun hcycle =>
    (HasChain.isGreatest_iff.mp hgreatest).2 (.of_leadsToCycle hcycle)
  obtain ⟨j, hj⟩ := (exists_inBatch_iff h).mpr ⟨hroot, hfree⟩
  rwa [(isGreatest_of_inBatch h hj).2.unique hgreatest] at hj

/-- What a type needs comes before it… -/
theorem exists_inBatch_lt (h : Peels g.hard (g.reachable root) (g.batches root) left)
    (ht : g.InBatch root i t) : ∀ d ∈ g.hard t, ∃ j < i, g.InBatch root j d := by
  intro d hd
  obtain ⟨hroot, hfree⟩ := (exists_inBatch_iff h).mp ⟨i, ht⟩
  have hneeded : ¬ LeadsToCycle g.hard d := fun hcycle =>
    hfree (leadsToCycle_iff.mpr ⟨d, hd, hcycle⟩)
  obtain ⟨j, hj⟩ := (exists_inBatch_iff h).mpr ⟨hroot.tail hd, hneeded⟩
  have hlonger := HasChain.succ_iff.mpr ⟨d, hd, (isGreatest_of_inBatch h hj).2.1⟩
  exact ⟨j, (isGreatest_of_inBatch h ht).2.2 hlonger, hj⟩

/-- …and some of it immediately before. -/
theorem exists_inBatch_pred (h : Peels g.hard (g.reachable root) (g.batches root) left)
    (ht : g.InBatch root (i + 1) t) : ∃ d ∈ g.hard t, g.InBatch root i d := by
  obtain ⟨hroot, hgreatest⟩ := (inBatch_iff h).mp ht
  obtain ⟨d, hd, hchain⟩ := HasChain.succ_iff.mp hgreatest.1
  refine ⟨d, hd, (inBatch_iff h).mpr ⟨hroot.tail hd, HasChain.isGreatest_iff.mpr ⟨hchain, ?_⟩⟩⟩
  exact fun hlonger =>
    (HasChain.isGreatest_iff.mp hgreatest).2 (HasChain.succ_iff.mpr ⟨d, hd, hlonger⟩)

end Graph

end Dependency

namespace Schema

open Dependency

/-- **Batches are layers.**  In the graph of any schema the types that come are those that the root
needs and that lead to no cycle.  Each comes once, in the batch whose index is the length of its
longest chain of dependencies.  All that it needs comes in earlier batches, but it could come in
none of these itself: something that it needs comes there or later. -/
theorem batches_layered (s : Schema) (root : String) :
    (∀ t, (∃ i, s.dependencyGraph.InBatch root i t) ↔
      Relation.ReflTransGen (Needs s.dependencyGraph.hard) root t ∧
        ¬ LeadsToCycle s.dependencyGraph.hard t) ∧
    (s.dependencyGraph.batches root).flatten.Nodup ∧
    ∀ t i, s.dependencyGraph.InBatch root i t →
      IsGreatest {n | HasChain s.dependencyGraph.hard t n} i ∧
      (∀ d ∈ s.dependencyGraph.hard t, ∃ j < i, s.dependencyGraph.InBatch root j d) ∧
      ∀ j < i, ∃ d ∈ s.dependencyGraph.hard t, ∃ k ≥ j, s.dependencyGraph.InBatch root k d := by
  obtain ⟨left, hpeels⟩ := Graph.exists_peels (count_dependents s) root
  refine ⟨fun t => Graph.exists_inBatch_iff hpeels,
    Graph.nodup_flatten_batches hpeels, fun t i ht =>
    ⟨(Graph.isGreatest_of_inBatch hpeels ht).2, Graph.exists_inBatch_lt hpeels ht, fun j hj => ?_⟩⟩
  obtain ⟨i, rfl⟩ := Nat.exists_eq_succ_of_ne_zero (Nat.ne_zero_of_lt hj)
  obtain ⟨d, hd, hbefore⟩ := Graph.exists_inBatch_pred hpeels ht
  exact ⟨d, hd, i, Nat.le_of_lt_succ hj, hbefore⟩

theorem batches_layered_workshop : ∃ s, assemble workshop = .ok s ∧
    s.dependencyGraph.InBatch "Desk" 2 "Desk" ∧
    IsGreatest {n | HasChain s.dependencyGraph.hard "Desk" n} 2 ∧
    (∀ d ∈ s.dependencyGraph.hard "Desk", ∃ j < 2, s.dependencyGraph.InBatch "Desk" j d) ∧
    ∃ d ∈ s.dependencyGraph.hard "Desk", ∃ k ≥ 1, s.dependencyGraph.InBatch "Desk" k d := by
  obtain ⟨s, hs, hfacts⟩ := exists_ok_of_any (x := assemble workshop)
    (p := fun s => decide (s.dependencyGraph.batches "Desk" = [["Wood"], ["Top", "Leg"], ["Desk"]]))
    (by decide +kernel)
  have hdesk : s.dependencyGraph.InBatch "Desk" 2 "Desk" :=
    ⟨["Desk"], by rw [of_decide_eq_true hfacts]; rfl, List.mem_singleton_self _⟩
  obtain ⟨hlongest, hearlier, hlater⟩ := (batches_layered s "Desk").2.2 "Desk" 2 hdesk
  exact ⟨s, hs, hdesk, hlongest, hearlier, hlater 1 (by decide)⟩

end Schema

end EntitySchema
