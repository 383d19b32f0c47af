import EntitySchema.Proofs.Dependency.Layer
import EntitySchema.Proofs.Schema.Assembly

/-!
# Proofs/Dependency/Agreement — three views of what a root needs

    order             a path that goes back     the needed types, or a cycle
    batches           counts that run down      the needed types that wait for no cycle
    allDependencies   a stack of types          the needed types, without the root

All three are about the types that the root reaches.  If the root has an order, it leads to no
cycle, so all of them come (`mem_flatten_batches_of_order`), and only the root, which none of the
others needs, can be in the last batch (`getLast?_batches`).  If the walk comes to a cycle, the root
waits for it (`notMem_batches_of_order_eq_error`).
-/

namespace EntitySchema

namespace Dependency.Graph

variable {g : Graph} {root : String} {left order : List String}

/-- What a root with an order needs leads to no cycle, so all of it comes. -/
theorem mem_flatten_batches_of_order (h : Peels g.hard (g.reachable root) (g.batches root) left)
    (horder : g.order root = .ok order) {t : String} :
    t ∈ (g.batches root).flatten ↔ Relation.ReflTransGen (Needs g.hard) root t := by
  rw [mem_flatten_batches_iff h]
  exact and_iff_left_of_imp fun hreach hcycle =>
    exists_order_iff.mp ⟨order, horder⟩ (hcycle.of_needed hreach)

/-- **The batches hold what the order holds.** -/
theorem perm_batches (h : Peels g.hard (g.reachable root) (g.batches root) left)
    (horder : g.order root = .ok order) : (g.batches root).flatten.Perm order := by
  obtain ⟨hfeasible, hmem⟩ := feasible_of_order_eq_ok horder
  refine (List.perm_ext_iff_of_nodup (nodup_flatten_batches h) hfeasible.nodup).mpr fun n => ?_
  exact (mem_flatten_batches_of_order h horder).trans (hmem n).symm

/-- Whatever else the root needs is needed by a type that comes in a later batch. -/
theorem lt_length_batches (h : Peels g.hard (g.reachable root) (g.batches root) left)
    (horder : g.order root = .ok order) {i : ℕ} {n : String} (hn : g.InBatch root i n)
    (hne : n ≠ root) : i + 1 < (g.batches root).length := by
  have hreach := (isGreatest_of_inBatch h hn).1
  obtain ⟨m, hm, hmn⟩ := hreach.cases_tail.resolve_left hne
  obtain ⟨k, hk⟩ :=
    mem_flatten_iff_exists_inBatch.mp ((mem_flatten_batches_of_order h horder).mpr hm)
  obtain ⟨j, hj, hnj⟩ := exists_inBatch_lt h hk n hmn
  obtain rfl := eq_of_inBatch h hn hnj
  exact (Nat.succ_le_of_lt hj).trans_lt (lt_length_of_inBatch hk)

/-- **The last batch is the root alone.** -/
theorem getLast?_batches (h : Peels g.hard (g.reachable root) (g.batches root) left)
    (horder : g.order root = .ok order) : (g.batches root).getLast? = some [root] := by
  have hroot := (mem_flatten_batches_of_order h horder).mpr (.refl (a := root))
  have hne : g.batches root ≠ [] := fun hnil => by simp [hnil] at hroot
  have hlast := List.getLast?_eq_some_getLast hne
  have hbatch := List.getLast_mem hne
  generalize (g.batches root).getLast hne = batch at hlast hbatch
  have honly : ∀ n ∈ batch, n = root := by
    intro n hn
    by_contra hother
    rw [List.getLast?_eq_getElem?] at hlast
    have hlt := lt_length_batches h horder ⟨batch, hlast, hn⟩ hother
    omega
  have hnodup := (List.nodup_flatten.mp (nodup_flatten_batches h)).1 batch hbatch
  obtain ⟨n, hn⟩ := List.exists_mem_of_ne_nil _ (h.ne_nil_of_mem batch hbatch)
  rw [hlast, List.perm_singleton.mp ((List.perm_ext_iff_of_nodup hnodup
    (List.nodup_singleton root)).mpr fun k => ?_)]
  rw [List.mem_singleton]
  exact ⟨honly k, fun hk => hk ▸ honly n hn ▸ hn⟩

/-- **A root that comes to a cycle is in no batch.** -/
theorem notMem_batches_of_order_eq_error
    (h : Peels g.hard (g.reachable root) (g.batches root) left) {c : CircularDependency}
    (horder : g.order root = .error c) : ∀ batch ∈ g.batches root, root ∉ batch := by
  intro batch hbatch hroot
  have hmem := (mem_flatten_batches_iff h).mp (List.mem_flatten_of_mem hbatch hroot)
  exact hmem.2 (leadsToCycle_of_order_eq_error horder)

/-- Other than the root, an order holds all its dependencies. -/
theorem mem_order_iff (horder : g.order root = .ok order) :
    (∀ n, n ∈ order ↔ n = root ∨ n ∈ g.allDependencies root) ∧ root ∉ g.allDependencies root := by
  obtain ⟨hfeasible, hmem⟩ := feasible_of_order_eq_ok horder
  refine ⟨fun n => ?_, fun hroot => ?_⟩
  · rw [hmem, mem_allDependencies_iff]
    exact Relation.reflTransGen_iff_eq_or_transGen
  · exact hfeasible.not_transGen ((hmem root).mpr .refl) (mem_allDependencies_iff.mp hroot)

end Dependency.Graph

namespace Schema

open Dependency

/-- **Order, batches and dependencies agree** in the graph of any schema.  A root has an order
exactly if it comes in some batch.  Then the batches hold what the order holds, the last one is the
root alone, and the order is of the root and all its dependencies, none of which is the root.
If there is a cycle in the way, the root is in no batch. -/
theorem order_agrees (s : Schema) (root : String) :
    ((∃ order, s.dependencyGraph.order root = .ok order) ↔
      ∃ batch ∈ s.dependencyGraph.batches root, root ∈ batch) ∧
    (∀ order, s.dependencyGraph.order root = .ok order →
      (s.dependencyGraph.batches root).flatten.Perm order ∧
      (s.dependencyGraph.batches root).getLast? = some [root] ∧
      (∀ n, n ∈ order ↔ n = root ∨ n ∈ s.dependencyGraph.allDependencies root) ∧
      root ∉ s.dependencyGraph.allDependencies root) ∧
    ∀ c, s.dependencyGraph.order root = .error c →
      ∀ batch ∈ s.dependencyGraph.batches root, root ∉ batch := by
  obtain ⟨left, hpeels⟩ := Graph.exists_peels (count_dependents s) root
  refine ⟨⟨?_, ?_⟩, fun order horder => ?_, fun c hc => ?_⟩
  · rintro ⟨order, horder⟩
    have hlast := Graph.getLast?_batches hpeels horder
    exact ⟨[root], List.mem_of_getLast? hlast, List.mem_singleton_self root⟩
  · rintro ⟨batch, hbatch, hroot⟩
    cases h : s.dependencyGraph.order root with
    | ok order => exact ⟨order, rfl⟩
    | error c =>
      exact absurd hroot (Graph.notMem_batches_of_order_eq_error hpeels h batch hbatch)
  · exact ⟨Graph.perm_batches hpeels horder, Graph.getLast?_batches hpeels horder,
      Graph.mem_order_iff horder⟩
  · exact Graph.notMem_batches_of_order_eq_error hpeels hc

/-- Two services share a host; a third one waits for one that waits for itself. -/
def services : Record :=
  ⟨[("App", .map [("db", .text "->Db"), ("log", .text "->Log")]),
    ("Db", .map [("host", .text "->Host")]), ("Log", .map [("host", .text "->Host")]),
    ("Host", .map []), ("Job", .map [("queue", .text "->Queue")]),
    ("Queue", .map [("next", .text "->Queue")])], by decide⟩

theorem order_agrees_services : ∃ s, assemble services = .ok s ∧
    (∃ order, s.dependencyGraph.order "App" = .ok order ∧
      (s.dependencyGraph.batches "App").flatten.Perm order) ∧
    ∃ c, s.dependencyGraph.order "Job" = .error c ∧
      ∀ batch ∈ s.dependencyGraph.batches "Job", "Job" ∉ batch := by
  obtain ⟨s, hs, hfacts⟩ := exists_ok_of_any (x := assemble services)
    (p := fun s => (s.dependencyGraph.order "App").isOk && !(s.dependencyGraph.order "Job").isOk)
    (by decide +kernel)
  refine ⟨s, hs, ?_, ?_⟩
  · obtain ⟨-, hok, -⟩ := order_agrees s "App"
    cases happ : s.dependencyGraph.order "App" with
    | ok order => exact ⟨order, rfl, (hok order happ).1⟩
    | error c => simp [happ, Except.isOk, Except.toBool] at hfacts
  · obtain ⟨-, -, herror⟩ := order_agrees s "Job"
    cases hjob : s.dependencyGraph.order "Job" with
    | ok order => simp [hjob, Except.isOk, Except.toBool] at hfacts
    | error c => exact ⟨c, rfl, herror c hjob⟩

end Schema

end EntitySchema
