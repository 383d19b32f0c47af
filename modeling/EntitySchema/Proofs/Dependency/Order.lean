import EntitySchema.Proofs.Dependency.Cycles

/-!
# Proofs/Dependency/Order — dependencies first

    visit (with a counter) ──foldlM_visit──▸ Visits, Fails (without) ──induction──▸ order or cycle

`Visits` tells a walk that comes to an end step by step, `Fails` one that comes back to its own
path.  A walk that ends lists what it met, each type once and behind all that it needs
(`Visits.feasible`), and a walk that fails has met a cycle (`Fails.isCycle`) of types that the root
needs (`Fails.reached`).  So a root has an order exactly if it leads to no cycle
(`exists_order_iff`).
-/

namespace EntitySchema.Dependency

variable {next : String → List String}

/-! ## Lists with dependencies first -/

/-- A list of distinct types, each behind all that it needs. -/
structure Feasible (next : String → List String) (order : List String) : Prop where
  nodup : order.Nodup
  ordered : Ordered next order
  irrefl : ∀ v ∈ order, v ∉ next v

namespace Feasible

theorem nil : Feasible next [] where
  nodup := .nil
  ordered := by simp [Ordered]
  irrefl := by simp

theorem concat {order : List String} (h : Feasible next order) {name : String}
    (hname : name ∉ order) (hnext : next name ⊆ order) : Feasible next (order ++ [name]) where
  nodup := nodup_concat h.nodup hname
  ordered := h.ordered.concat fun _ hw => .inl (hnext hw)
  irrefl := by
    intro v hv hself
    rcases List.mem_append.mp hv with hv | hv
    · exact h.irrefl v hv hself
    · rw [List.mem_singleton.mp hv] at hself
      exact hname (hnext hself)

theorem lt_idxOf {order : List String} (h : Feasible next order) {v w : String} (hv : v ∈ order)
    (hw : w ∈ next v) : order.idxOf w < order.idxOf v := by
  obtain ⟨hwo, hle⟩ := h.ordered v hv w hw
  refine lt_of_le_of_ne hle fun heq => h.irrefl v hv ?_
  rwa [(List.idxOf_inj hwo).mp heq] at hw

/-- What a type needs through others stands before it, so no type needs itself. -/
theorem not_transGen {order : List String} (h : Feasible next order) {u : String} (hu : u ∈ order) :
    ¬ Relation.TransGen (Needs next) u u := by
  intro huu
  obtain ⟨v, huv, hvu⟩ := Relation.TransGen.head'_iff.mp huu
  obtain ⟨hv, -⟩ := h.ordered u hu v huv
  have hlt := h.lt_idxOf hu huv
  rcases Relation.reflTransGen_iff_eq_or_transGen.mp hvu with rfl | hvu
  · exact absurd hlt (lt_irrefl _)
  · exact absurd (h.ordered.transGen hvu hv).2 (by omega)

end Feasible

/-! ## Steps of a walk -/

/-- The walk finishes the names at the end of the path, and with them all that they need. -/
inductive Visits (next : String → List String) :
    List String → List String → List String → List String → Prop
  | nil {path order : List String} : Visits next path order [] order
  | pass {path order names order' : List String} {name : String} (hv : name ∈ order)
      (rest : Visits next path order names order') : Visits next path order (name :: names) order'
  | enter {path order order₁ names order' : List String} {name : String} (hv : name ∉ order)
      (h : name ∉ path) (inner : Visits next (path ++ [name]) order (next name) order₁)
      (rest : Visits next path (order₁ ++ [name]) names order') :
      Visits next path order (name :: names) order'

/-- The walk comes back to a type on its path before the names are finished. -/
inductive Fails (next : String → List String) :
    List String → List String → List String → CircularDependency → Prop
  | close {path order names : List String} {name : String} (hv : name ∉ order) (h : name ∈ path) :
      Fails next path order (name :: names) ⟨closeCycle path name⟩
  | inner {path order names : List String} {name : String} {c : CircularDependency}
      (hv : name ∉ order) (h : name ∉ path)
      (inner : Fails next (path ++ [name]) order (next name) c) :
      Fails next path order (name :: names) c
  | pass {path order names : List String} {name : String} {c : CircularDependency}
      (hv : name ∈ order) (rest : Fails next path order names c) :
      Fails next path order (name :: names) c
  | enter {path order order₁ names : List String} {name : String} {c : CircularDependency}
      (hv : name ∉ order) (h : name ∉ path)
      (inner : Visits next (path ++ [name]) order (next name) order₁)
      (rest : Fails next path (order₁ ++ [name]) names c) : Fails next path order (name :: names) c

/-- **The counter does not run out** where there is room. -/
theorem foldlM_visit {types : List String} (htypes : ∀ u, next u ≠ [] → u ∈ types) :
    ∀ (fuel : ℕ) {path : List String} (order names : List String), Room types path fuel →
      (∃ order', names.foldlM (visit next fuel path) order = .ok order' ∧
        Visits next path order names order') ∨
      ∃ c, names.foldlM (visit next fuel path) order = .error c ∧ Fails next path order names c
  | 0, _, _, _, hroom => absurd rfl hroom.fuel_ne_zero
  | fuel + 1, path, order, [], _ => .inl ⟨order, rfl, .nil⟩
  | fuel + 1, path, order, name :: names, hroom => by
      rw [List.foldlM_cons, visit]
      simp only [List.contains_iff_mem]
      split_ifs with hv h
      · rcases foldlM_visit htypes (fuel + 1) order names hroom with
          ⟨order', heq, hrest⟩ | ⟨c, heq, hrest⟩
        · exact .inl ⟨order', heq, .pass hv hrest⟩
        · exact .inr ⟨c, heq, .pass hv hrest⟩
      · exact .inr ⟨_, rfl, .close hv h⟩
      · have hinner : (∃ order₁, (next name).foldlM (visit next fuel (path ++ [name])) order
              = .ok order₁ ∧ Visits next (path ++ [name]) order (next name) order₁) ∨
            ∃ c, (next name).foldlM (visit next fuel (path ++ [name])) order = .error c ∧
              Fails next (path ++ [name]) order (next name) c := by
          by_cases hnext : next name = []
          · rw [hnext]
            exact .inl ⟨order, rfl, .nil⟩
          · exact foldlM_visit htypes fuel order (next name) (hroom.enter h (htypes name hnext))
        rcases hinner with ⟨order₁, heq₁, hinner⟩ | ⟨c, heq, hinner⟩
        · rw [heq₁]
          rcases foldlM_visit htypes (fuel + 1) (order₁ ++ [name]) names hroom with
            ⟨order', heq, hrest⟩ | ⟨c, heq, hrest⟩
          · exact .inl ⟨order', heq, .enter hv h hinner hrest⟩
          · exact .inr ⟨c, heq, .enter hv h hinner hrest⟩
        · rw [heq]
          exact .inr ⟨c, rfl, .inner hv h hinner⟩

/-! ## Walks that end -/

namespace Visits

variable {path order names order' : List String}

theorem order_subset (h : Visits next path order names order') : order ⊆ order' := by
  induction h with
  | nil => exact List.Subset.refl _
  | pass _ _ ih => exact ih
  | enter _ _ _ _ ih ih' => exact fun v hv => ih' (List.mem_append_left _ (ih hv))

theorem names_subset (h : Visits next path order names order') : names ⊆ order' := by
  induction h with
  | nil => exact List.nil_subset _
  | pass hv rest ih => exact List.cons_subset.mpr ⟨rest.order_subset hv, ih⟩
  | enter _ _ _ rest _ ih => exact List.cons_subset.mpr ⟨rest.order_subset (by simp), ih⟩

/-- **Each type is listed once and behind all that it needs.**  What is on the path is not
finished. -/
theorem feasible (h : Visits next path order names order') (ho : Feasible next order)
    (hpath : path.Disjoint order) : Feasible next order' ∧ path.Disjoint order' := by
  induction h with
  | nil => exact ⟨ho, hpath⟩
  | pass _ _ ih => exact ih ho hpath
  | @enter path order order₁ names order' name hv h inner rest ih ih' =>
    have hpath' : (path ++ [name]).Disjoint order :=
      List.disjoint_append_left.mpr ⟨hpath, List.singleton_disjoint.mpr hv⟩
    obtain ⟨ho₁, hdisjoint⟩ := ih ho hpath'
    obtain ⟨hpath₁, hname₁⟩ := List.disjoint_append_left.mp hdisjoint
    have hname := List.singleton_disjoint.mp hname₁
    exact ih' (ho₁.concat hname inner.names_subset)
      (List.disjoint_append_right.mpr ⟨hpath₁, List.disjoint_singleton.mpr h⟩)

/-- What is listed was listed before or is needed by one of the names. -/
theorem reached (h : Visits next path order names order') :
    ∀ v ∈ order', v ∈ order ∨ ∃ name ∈ names, Relation.ReflTransGen (Needs next) name v := by
  induction h with
  | nil => exact fun v hv => .inl hv
  | pass _ _ ih =>
    exact fun v hv => (ih v hv).imp_right fun ⟨n, hn, hnv⟩ => ⟨n, List.mem_cons_of_mem _ hn, hnv⟩
  | @enter path order order₁ names order' name _ _ _ _ ih ih' =>
    intro v hv
    rcases ih' v hv with hv | ⟨n, hn, hnv⟩
    · rcases List.mem_append.mp hv with hv | hv
      · refine (ih v hv).imp_right fun ⟨d, hd, hdv⟩ => ⟨name, List.mem_cons_self, .head hd hdv⟩
      · rw [List.mem_singleton.mp hv]
        exact .inr ⟨name, List.mem_cons_self, .refl⟩
    · exact .inr ⟨n, List.mem_cons_of_mem _ hn, hnv⟩

/-- A single name is finished last. -/
theorem getLast?_eq {name : String} (h : Visits next path order [name] order') (hv : name ∉ order) :
    order'.getLast? = some name := by
  cases h with
  | pass hmem _ => exact absurd hmem hv
  | enter _ _ _ rest =>
    cases rest
    exact List.getLast?_concat

end Visits

/-! ## Walks that fail -/

namespace Fails

variable {path order names : List String} {c : CircularDependency}

/-- **A walk that fails has met a cycle**, -/
theorem isCycle (h : Fails next path order names c) (hnodup : path.Nodup)
    (hchain : ∀ name ∈ names, (path ++ [name]).IsChain (Needs next)) : IsCycle next c.path := by
  induction h with
  | close _ h => exact isCycle_closeCycle hnodup (List.forall_mem_cons.mp hchain).1 h
  | inner _ h _ ih =>
    exact ih (nodup_concat hnodup h) (isChain_concat (List.forall_mem_cons.mp hchain).1)
  | pass _ _ ih => exact ih hnodup (List.forall_mem_cons.mp hchain).2
  | enter _ _ _ _ ih => exact ih hnodup (List.forall_mem_cons.mp hchain).2

/-- …and one of the names needs all that is on it. -/
theorem reached (h : Fails next path order names c) (hnodup : path.Nodup)
    (hchain : ∀ name ∈ names, (path ++ [name]).IsChain (Needs next)) :
    ∀ u ∈ c.path, ∃ name ∈ names, Relation.ReflTransGen (Needs next) name u := by
  induction h with
  | close _ h =>
    have hcycle := isCycle_closeCycle hnodup (List.forall_mem_cons.mp hchain).1 h
    intro u hu
    exact ⟨_, List.mem_cons_self, (hcycle.transGen (by simp [closeCycle]) hu).to_reflTransGen⟩
  | inner _ h _ ih =>
    intro u hu
    obtain ⟨d, hd, hdu⟩ :=
      ih (nodup_concat hnodup h) (isChain_concat (List.forall_mem_cons.mp hchain).1) u hu
    exact ⟨_, List.mem_cons_self, .head hd hdu⟩
  | pass _ _ ih =>
    intro u hu
    obtain ⟨n, hn, hnu⟩ := ih hnodup (List.forall_mem_cons.mp hchain).2 u hu
    exact ⟨n, List.mem_cons_of_mem _ hn, hnu⟩
  | enter _ _ _ _ ih =>
    intro u hu
    obtain ⟨n, hn, hnu⟩ := ih hnodup (List.forall_mem_cons.mp hchain).2 u hu
    exact ⟨n, List.mem_cons_of_mem _ hn, hnu⟩

end Fails

/-! ## The order of a graph -/

namespace Graph

variable {g : Graph} {root : String} {skipOptional : Bool}

theorem order_cases (g : Graph) (root : String) (skipOptional : Bool) :
    (∃ order, g.order root skipOptional = .ok order ∧
      Visits (g.dependencies skipOptional) [] [] [root] order) ∨
    ∃ c, g.order root skipOptional = .error c ∧
      Fails (g.dependencies skipOptional) [] [] [root] c := by
  have htypes : ∀ u, g.dependencies skipOptional u ≠ [] → u ∈ g.nodes.keys :=
    fun _ hu => mem_keys_of_dependencies hu
  have hwalk := foldlM_visit htypes g.walkBound [] [root] (.start g)
  rwa [List.foldlM_cons, bind_congr (fun _ => List.foldlM_nil), bind_pure] at hwalk

/-- **An order lists all that the root needs**, dependencies first. -/
theorem feasible_of_order_eq_ok {order : List String} (h : g.order root skipOptional = .ok order) :
    Feasible (g.dependencies skipOptional) order ∧
      ∀ n, n ∈ order ↔ Relation.ReflTransGen (Needs (g.dependencies skipOptional)) root n := by
  rcases g.order_cases root skipOptional with ⟨order', heq, hvisits⟩ | ⟨c, heq, -⟩
  · obtain rfl := Except.ok.inj (h.symm.trans heq)
    have hfeasible := (hvisits.feasible .nil (List.disjoint_nil_left _)).1
    refine ⟨hfeasible, fun n => ⟨fun hn => ?_, fun hn => ?_⟩⟩
    · simpa using hvisits.reached n hn
    · induction hn with
      | refl => exact hvisits.names_subset List.mem_cons_self
      | tail _ hd ih => exact (hfeasible.ordered _ ih _ hd).1
  · exact absurd (h.symm.trans heq) (by simp)

/-- **The root comes last.** -/
theorem getLast?_of_order_eq_ok {order : List String} (h : g.order root skipOptional = .ok order) :
    order.getLast? = some root := by
  rcases g.order_cases root skipOptional with ⟨order', heq, hvisits⟩ | ⟨c, heq, -⟩
  · obtain rfl := Except.ok.inj (h.symm.trans heq)
    exact hvisits.getLast?_eq List.not_mem_nil
  · exact absurd (h.symm.trans heq) (by simp)

/-- **A root without an order needs all that is on the cycle in its way.** -/
theorem isCycle_of_order_eq_error {c : CircularDependency}
    (h : g.order root skipOptional = .error c) : IsCycle (g.dependencies skipOptional) c.path ∧
      ∀ u ∈ c.path, Relation.ReflTransGen (Needs (g.dependencies skipOptional)) root u := by
  rcases g.order_cases root skipOptional with ⟨order, heq, -⟩ | ⟨c', heq, hfails⟩
  · exact absurd (h.symm.trans heq) (by simp)
  · obtain rfl := Except.error.inj (h.symm.trans heq)
    have hchain : ∀ name ∈ [root], ([] ++ [name]).IsChain (Needs (g.dependencies skipOptional)) :=
      fun name _ => .singleton name
    refine ⟨hfails.isCycle .nil hchain, fun u hu => ?_⟩
    simpa using hfails.reached .nil hchain u hu

theorem leadsToCycle_of_order_eq_error {c : CircularDependency}
    (h : g.order root skipOptional = .error c) :
    LeadsToCycle (g.dependencies skipOptional) root := by
  obtain ⟨hcycle, hreached⟩ := isCycle_of_order_eq_error h
  obtain ⟨u, hu⟩ := List.exists_mem_of_ne_nil _ hcycle.ne_nil
  exact ⟨u, hreached u hu, hcycle.transGen hu hu⟩

/-- **A root has an order exactly if it leads to no cycle.** -/
theorem exists_order_iff : (∃ order, g.order root skipOptional = .ok order) ↔
    ¬ LeadsToCycle (g.dependencies skipOptional) root := by
  constructor
  · rintro ⟨order, horder⟩ ⟨u, hu, huu⟩
    obtain ⟨hfeasible, hmem⟩ := feasible_of_order_eq_ok horder
    exact hfeasible.not_transGen ((hmem u).mpr hu) huu
  · intro hfree
    cases h : g.order root skipOptional with
    | ok order => exact ⟨order, rfl⟩
    | error c => exact absurd (leadsToCycle_of_order_eq_error h) hfree

end Graph

end EntitySchema.Dependency
