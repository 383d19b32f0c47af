import EntitySchema.Dependency.Batch
import EntitySchema.Proofs.Dependency.Faithful
import EntitySchema.Proofs.Dependency.Order

/-!
# Proofs/Dependency/Batch — batches, with and without counting

    counts ──ready──▸ batch ──finish──▸ counts        one less for each dependent of a finished type
       ‖                                  ‖
    remaining ──free──▸ batch ──held──▸ remaining     nothing but what needs what

The counts are exact at the start, and finishing a type keeps them so, because a graph notes each
dependency at both ends (`counts_finish`).  Hence the batches are peeled off the needed types layer
by layer (`Peels`).  A set of types each of which needs another one of the set is never touched
(`Peels.mem_left`), while types that have an order are taken until none is left
(`Feasible.notMem_of_free`).
-/

namespace EntitySchema.Dependency

variable {next : String → List String}

/-! ## Counts -/

/-- Every remaining type counts those of its dependencies that remain. -/
def Counts (next : String → List String) (w : Waiting) : Prop :=
  ∀ k n, w.get? k = some n → n = Int.ofNat ((next k).countP w.keys.contains)

/-- The remaining types that need none of them. -/
def free (next : String → List String) (remaining : List String) : List String :=
  remaining.filter fun k => ∀ d ∈ next k, d ∉ remaining

/-- The remaining types that need some of them. -/
def held (next : String → List String) (remaining : List String) : List String :=
  remaining.filter fun k => !decide (∀ d ∈ next k, d ∉ remaining)

@[simp] theorem mem_free_iff {remaining : List String} {k : String} :
    k ∈ free next remaining ↔ k ∈ remaining ∧ ∀ d ∈ next k, d ∉ remaining := by
  rw [free, List.mem_filter, decide_eq_true_iff]

@[simp] theorem mem_held_iff {remaining : List String} {k : String} :
    k ∈ held next remaining ↔ k ∈ remaining ∧ ∃ d ∈ next k, d ∈ remaining := by
  rw [held, List.mem_filter, Bool.not_eq_true', decide_eq_false_iff_not]
  push Not
  rfl

theorem perm_free_held (next : String → List String) (remaining : List String) :
    (free next remaining ++ held next remaining).Perm remaining :=
  List.filter_append_perm _ remaining

namespace Counts

variable {w : Waiting}

/-- What waits for nothing is what needs none of the remaining types. -/
theorem ready_eq (h : Counts next w) : w.ready = free next w.keys := by
  rw [Waiting.ready, free, Table.keys, Table.filter, Table.keys, List.filter_map]
  refine congrArg (List.map Prod.fst) (List.filter_congr fun p hp => ?_)
  have hcount := h p.1 p.2 (Table.get?_eq_some_iff.mpr hp)
  rw [Function.comp_apply, decide_eq_decide, hcount]
  simp [Table.keys]

/-- One of the remaining types less: a dependency is counted once less for each time it is that
type. -/
theorem countP_erase {keys : List String} (hnodup : keys.Nodup) {name : String}
    (hname : name ∈ keys) (ds : List String) :
    ds.countP (keys.erase name).contains + ds.count name = ds.countP keys.contains := by
  induction ds with
  | nil => rfl
  | cons d ds ih =>
    rw [List.countP_cons, List.countP_cons, List.count_cons, ← ih]
    by_cases hd : d = name
    · subst hd
      simp [hnodup.mem_erase_iff, hname]
      omega
    · simp [hnodup.mem_erase_iff, hd]
      omega

end Counts

namespace Graph

@[simp] theorem keys_foldl_release (ds : List String) : ∀ w : Waiting,
    (ds.foldl (fun w d => w.modify d (· - 1)) w).keys = w.keys := by
  induction ds with
  | nil => exact fun _ => rfl
  | cons d ds ih => exact fun w => (ih _).trans (Table.keys_mapValues ..)

theorem get?_foldl_release (ds : List String) (k : String) : ∀ w : Waiting,
    (ds.foldl (fun w d => w.modify d (· - 1)) w).get? k
      = (w.get? k).map (· - Int.ofNat (ds.count k)) := by
  induction ds with
  | nil => intro w; simp
  | cons d ds ih =>
    intro w
    rw [List.foldl_cons, ih, Table.get?_modify, List.count_cons]
    by_cases hk : k = d
    · subst hk
      rw [if_pos rfl, Option.map_map]
      congr 1
      funext n
      simp
      omega
    · simp [hk, Ne.symm hk]

variable {g : Graph} {w : Waiting}

@[simp] theorem keys_finish (g : Graph) (w : Waiting) (name : String) :
    (g.finish w name).keys = w.keys.erase name := by
  simp [finish]

@[simp] theorem keys_foldl_finish (g : Graph) (batch : List String) : ∀ w : Waiting,
    (batch.foldl g.finish w).keys = w.keys.diff batch := by
  induction batch with
  | nil => exact fun w => (List.diff_nil _).symm
  | cons name batch ih =>
    intro w
    rw [List.foldl_cons, ih, keys_finish, List.diff_cons]

/-- **Finishing a type keeps the counts exact**, if both ends of each dependency agree. -/
theorem counts_finish (hends : ∀ u v, (g.dependents v).count u = (g.hard u).count v)
    (h : Counts g.hard w) {name : String} (hname : name ∈ w.keys) :
    Counts g.hard (g.finish w name) := by
  intro k n hget
  rw [keys_finish]
  rw [finish, get?_foldl_release, Table.get?_erase] at hget
  obtain ⟨m, hm, rfl⟩ := Option.map_eq_some_iff.mp hget
  obtain ⟨-, hm⟩ := Option.ite_none_left_eq_some.mp hm
  have hcount := Counts.countP_erase w.nodup_keys hname (g.hard k)
  rw [h k m hm, hends k name, ← hcount]
  simp

theorem counts_foldl_finish (hends : ∀ u v, (g.dependents v).count u = (g.hard u).count v)
    {batch : List String} (hnodup : batch.Nodup) : ∀ {w : Waiting}, Counts g.hard w →
      batch ⊆ w.keys → Counts g.hard (batch.foldl g.finish w) := by
  induction batch with
  | nil => exact fun h _ => h
  | cons name batch ih =>
    intro w h hsub
    obtain ⟨hname, hbatch⟩ := List.cons_subset.mp hsub
    obtain ⟨hnotMem, hnodup⟩ := List.nodup_cons.mp hnodup
    refine ih hnodup (counts_finish hends h hname) fun k hk => ?_
    rw [keys_finish, w.nodup_keys.mem_erase_iff]
    exact ⟨fun heq => hnotMem (heq ▸ hk), hbatch hk⟩

/-- **Finishing a batch** leaves the types that need others, with exact counts. -/
theorem counts_finish_free (hends : ∀ u v, (g.dependents v).count u = (g.hard u).count v)
    (h : Counts g.hard w) : Counts g.hard ((free g.hard w.keys).foldl g.finish w) ∧
      ((free g.hard w.keys).foldl g.finish w).keys = held g.hard w.keys := by
  have hsub : free g.hard w.keys ⊆ w.keys := fun k hk => (mem_free_iff.mp hk).1
  have hnodup : (free g.hard w.keys).Nodup := w.nodup_keys.filter _
  refine ⟨counts_foldl_finish hends hnodup h hsub, ?_⟩
  rw [keys_foldl_finish, w.nodup_keys.sdiff_eq_filter, held]
  refine List.filter_congr fun k hk => ?_
  rw [decide_not]
  exact congrArg not (decide_eq_decide.mpr (mem_free_iff.trans (and_iff_right hk)))

/-- At the start the counts are exact. -/
theorem counts_waiting (g : Graph) {needed : List String} (hnodup : needed.Nodup) :
    Counts g.hard (g.waiting needed) ∧ (g.waiting needed).keys = needed := by
  have hkeys : (needed.map fun name =>
      (name, Int.ofNat ((g.hard name).countP needed.contains))).map Prod.fst = needed := by
    rw [List.map_map]
    exact List.map_id _
  have hentries : (g.waiting needed).entries = needed.map fun name =>
      (name, Int.ofNat ((g.hard name).countP needed.contains)) :=
    Pairs.dedup_of_nodup (by rwa [Pairs.keys, hkeys])
  have hwaiting : (g.waiting needed).keys = needed := by rw [Table.keys, hentries, hkeys]
  refine ⟨fun k n hget => ?_, hwaiting⟩
  have hmem := Table.get?_eq_some_iff.mp hget
  rw [hentries] at hmem
  obtain ⟨name, -, hpair⟩ := List.mem_map.mp hmem
  obtain ⟨rfl, rfl⟩ := Prod.mk.inj hpair
  rw [hwaiting]

end Graph

/-! ## Layers -/

/-- The batches are peeled off the remaining types one by one, until none is free. -/
inductive Peels (next : String → List String) :
    List String → List (List String) → List String → Prop
  | stuck {remaining : List String} (h : free next remaining = []) :
      Peels next remaining [] remaining
  | batch {remaining left : List String} {batches : List (List String)}
      (h : free next remaining ≠ []) (rest : Peels next (held next remaining) batches left) :
      Peels next remaining (free next remaining :: batches) left

/-- **Batches taken by counting are peeled off**, if there is a batch for every type. -/
theorem peels_batchesFrom {g : Graph}
    (hends : ∀ u v, (g.dependents v).count u = (g.hard u).count v) :
    ∀ (fuel : ℕ) {w : Waiting}, Counts g.hard w → w.keys.length ≤ fuel →
      ∃ left, Peels g.hard w.keys (g.batchesFrom fuel w) left
  | 0, w, _, hfuel => by
      have hnil : w.keys = [] := List.length_eq_zero_iff.mp (Nat.le_zero.mp hfuel)
      exact ⟨w.keys, .stuck (by rw [hnil]; rfl)⟩
  | fuel + 1, w, h, hfuel => by
      rw [Graph.batchesFrom, h.ready_eq]
      split_ifs with hnil
      · exact ⟨w.keys, .stuck hnil⟩
      · have hlength := (perm_free_held g.hard w.keys).length_eq
        have hpos := List.length_pos_iff.mpr hnil
        rw [List.length_append] at hlength
        obtain ⟨hcounts, hkeys⟩ := Graph.counts_finish_free hends h
        obtain ⟨left, hleft⟩ := peels_batchesFrom hends fuel hcounts (by
          rw [hkeys]
          omega)
        rw [hkeys] at hleft
        exact ⟨left, .batch hnil hleft⟩

namespace Peels

variable {remaining left : List String} {batches : List (List String)}

/-- Peeling loses nothing and adds nothing. -/
theorem perm (h : Peels next remaining batches left) :
    (batches.flatten ++ left).Perm remaining := by
  induction h with
  | stuck => exact .refl _
  | batch _ _ ih =>
    rw [List.flatten_cons, List.append_assoc]
    exact (ih.append_left _).trans (perm_free_held next _)

/-- In the end every type that is left needs one that is left. -/
theorem free_left (h : Peels next remaining batches left) : free next left = [] := by
  induction h with
  | stuck h => exact h
  | batch _ _ ih => exact ih

/-- **Types that need each other are never taken**: nor is any of a set of remaining types each of
which needs one of the set. -/
theorem mem_left (h : Peels next remaining batches left) {P : String → Prop} :
    (∀ k, P k → k ∈ remaining ∧ ∃ d ∈ next k, P d) → ∀ k, P k → k ∈ left := by
  induction h with
  | stuck => exact fun hP k hk => (hP k hk).1
  | batch _ _ ih =>
    refine fun hP => ih fun k hk => ?_
    obtain ⟨hmem, d, hd, hPd⟩ := hP k hk
    exact ⟨mem_held_iff.mpr ⟨hmem, d, hd, (hP d hPd).1⟩, d, hd, hPd⟩

theorem ne_nil_of_mem (h : Peels next remaining batches left) : ∀ b ∈ batches, b ≠ [] := by
  induction h with
  | stuck => simp
  | batch h _ ih => exact List.forall_mem_cons.mpr ⟨h, ih⟩

end Peels

/-- Where dependencies can come first, types are taken until none is left. -/
theorem Feasible.notMem_of_free {order remaining : List String} (h : Feasible next order)
    (hfree : free next remaining = []) : ∀ v ∈ order, v ∉ remaining := by
  -- every remaining type needs one that stands before it, and so on without end
  have hnone : ∀ i, ∀ v ∈ order, v ∈ remaining → order.idxOf v ≠ i := by
    intro i
    induction i using Nat.strong_induction_on with
    | _ i ih =>
      rintro v hv hvr rfl
      have hnot : v ∉ free next remaining := by rw [hfree]; exact List.not_mem_nil
      obtain ⟨d, hd, hdr⟩ : ∃ d ∈ next v, d ∈ remaining := by simpa [hvr] using hnot
      exact ih _ (h.lt_idxOf hv hd) d (h.ordered v hv d hd).1 hdr rfl
  exact fun v hv hvr => hnone _ v hv hvr rfl

end EntitySchema.Dependency
