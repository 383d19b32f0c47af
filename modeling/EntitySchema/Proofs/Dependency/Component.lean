import EntitySchema.Proofs.Dependency.Survey

/-!
# Proofs/Dependency/Component — types that need each other

    long cycles ──IsCycle.sameComponent──▸ components ──exists_long_cycle──▸ long cycles

Types that need each other form a component.  A cycle never leaves its component, and a survey meets
a cycle through two types in every component that has two (`Surveys.exists_long_cycle`): if it meets
none there, the types of the component stand in an order in which each comes after those that it
needs (`exists_order`), and no two types of an order need each other.  What the survey meets
elsewhere, before or in between, does not matter.
-/

namespace EntitySchema.Dependency

variable {next : String → List String}

theorem transGen_of_ne {u v : String} (h : Relation.ReflTransGen (Needs next) u v) (hne : v ≠ u) :
    Relation.TransGen (Needs next) u v :=
  (Relation.reflTransGen_iff_eq_or_transGen.mp h).resolve_left hne

/-- Two types that need each other, through others or not, or one type. -/
def SameComponent (next : String → List String) (u v : String) : Prop :=
  Relation.ReflTransGen (Needs next) u v ∧ Relation.ReflTransGen (Needs next) v u

theorem SameComponent.trans {u v w : String} (h : SameComponent next u v)
    (h' : SameComponent next v w) : SameComponent next u w :=
  ⟨h.1.trans h'.1, h'.2.trans h.2⟩

/-- Whether a type leads to a cycle: it needs, or is, a type that needs itself. -/
def LeadsToCycle (next : String → List String) (u : String) : Prop :=
  ∃ v, Relation.ReflTransGen (Needs next) u v ∧ Relation.TransGen (Needs next) v v

/-- A type that leads to a cycle needs another one that does. -/
theorem leadsToCycle_iff {u : String} :
    LeadsToCycle next u ↔ ∃ d ∈ next u, LeadsToCycle next d := by
  constructor
  · rintro ⟨v, huv, hvv⟩
    obtain ⟨d, hd, hdv⟩ := Relation.TransGen.head'_iff.mp (.trans_right huv hvv)
    exact ⟨d, hd, v, hdv, hvv⟩
  · rintro ⟨d, hd, v, hdv, hvv⟩
    exact ⟨v, .head hd hdv, hvv⟩

theorem LeadsToCycle.of_needed {u v : String} (h : LeadsToCycle next v)
    (huv : Relation.ReflTransGen (Needs next) u v) : LeadsToCycle next u :=
  h.imp fun _ ⟨hvw, hww⟩ => ⟨huv.trans hvw, hww⟩

namespace IsCycle

variable {c : List String} {u v : String}

/-- **The types of a cycle need each other**, and themselves. -/
theorem transGen (h : IsCycle next c) (hu : u ∈ c) (hv : v ∈ c) :
    Relation.TransGen (Needs next) u v := by
  obtain ⟨a, ps, rfl, -, hchain⟩ := h
  have hpairs : (a :: ps ++ [a]).Pairwise (Relation.TransGen (Needs next)) :=
    List.isChain_iff_pairwise.mp (hchain.imp fun _ _ h => .single h)
  have hto : ∀ w ∈ a :: ps, Relation.TransGen (Needs next) w a := fun w hw =>
    (List.pairwise_append.mp hpairs).2.2 w hw a (List.mem_singleton_self a)
  have hfrom : ∀ w ∈ ps ++ [a], Relation.TransGen (Needs next) a w := fun w hw =>
    List.rel_of_pairwise_cons hpairs hw
  exact (hto u (by grind)).trans (hfrom v (by grind))

theorem sameComponent (h : IsCycle next c) (hu : u ∈ c) (hv : v ∈ c) : SameComponent next u v :=
  ⟨(h.transGen hu hv).to_reflTransGen, (h.transGen hv hu).to_reflTransGen⟩

theorem ne_nil (h : IsCycle next c) : c ≠ [] := by
  obtain ⟨a, ps, rfl, -⟩ := h
  exact List.cons_ne_nil _ _

/-- A cycle that is not a single type twice goes through two types. -/
theorem exists_ne (h : IsCycle next c) (hlong : ∀ n, c ≠ [n, n]) : ∃ a ∈ c, ∃ b ∈ c, a ≠ b := by
  obtain ⟨a, ps, rfl, hnodup, -⟩ := h
  obtain ⟨b, hb⟩ := List.exists_mem_of_ne_nil ps fun hnil => hlong a (by rw [hnil]; rfl)
  exact ⟨a, by simp, b, by simp [hb], fun heq => (List.nodup_cons.mp hnodup).1 (heq ▸ hb)⟩

end IsCycle

/-! ## Types in order -/

/-- Each type of the list needs only itself and what stands before it. -/
def Ordered (next : String → List String) (order : List String) : Prop :=
  ∀ v ∈ order, ∀ w ∈ next v, w ∈ order ∧ order.idxOf w ≤ order.idxOf v

namespace Ordered

variable {order : List String} {u v : String}

theorem concat (h : Ordered next order) {name : String}
    (hname : ∀ w ∈ next name, w ∈ order ∨ w = name) : Ordered next (order ++ [name]) := by
  intro v hv w hw
  by_cases hvo : v ∈ order
  · obtain ⟨hwo, hle⟩ := h v hvo w hw
    refine ⟨List.mem_append_left _ hwo, ?_⟩
    rwa [List.idxOf_append_of_mem hwo, List.idxOf_append_of_mem hvo]
  · obtain rfl : v = name := by simpa [hvo] using hv
    rcases hname w hw with hwo | rfl
    · refine ⟨List.mem_append_left _ hwo, ?_⟩
      rw [List.idxOf_append_of_mem hwo, List.idxOf_append_of_notMem hvo]
      exact (List.idxOf_lt_length_of_mem hwo).le.trans (Nat.le_add_right ..)
    · exact ⟨hv, le_refl _⟩

/-- What a type needs through others stands no later. -/
theorem transGen (h : Ordered next order) (huv : Relation.TransGen (Needs next) u v)
    (hu : u ∈ order) : v ∈ order ∧ order.idxOf v ≤ order.idxOf u := by
  induction huv with
  | single hv => exact h u hu _ hv
  | tail _ hw ih =>
    obtain ⟨hvo, hle⟩ := ih
    obtain ⟨hwo, hle'⟩ := h _ hvo _ hw
    exact ⟨hwo, hle'.trans hle⟩

/-- **In an order no two types need each other.** -/
theorem eq_of_transGen (h : Ordered next order) (hu : u ∈ order)
    (huv : Relation.TransGen (Needs next) u v) (hvu : Relation.TransGen (Needs next) v u) :
    u = v := by
  obtain ⟨hv, hle⟩ := h.transGen huv hu
  obtain ⟨-, hle'⟩ := h.transGen hvu hv
  exact (List.idxOf_inj hu).mp (le_antisymm hle' hle)

end Ordered

/-! ## The types of a component in order -/

/-- The types of a set that a type needs. -/
def inside (P : String → Bool) (next : String → List String) (v : String) : List String :=
  (next v).filter P

/-- Types of a component need each other through types of the component. -/
theorem transGen_inside {P : String → Bool} {u v : String}
    (hP : ∀ w, SameComponent next u w → P w) (huv : Relation.TransGen (Needs next) u v) :
    Relation.ReflTransGen (Needs next) v u → Relation.TransGen (Needs (inside P next)) u v := by
  induction huv with
  | single hv => exact fun hback => .single (List.mem_filter.mpr ⟨hv, hP _ ⟨.single hv, hback⟩⟩)
  | tail hv hw ih =>
    intro hback
    have hin := hP _ ⟨(hv.tail hw).to_reflTransGen, hback⟩
    exact (ih (.head hw hback)).tail (List.mem_filter.mpr ⟨hw, hin⟩)

/-- The types of a set in order, in the middle of a walk: what is visited is on the path or listed,
and each type listed needs only itself and what stands before it. -/
structure Arranges (P : String → Bool) (next : String → List String) (path visited : List String)
    (order : List String) : Prop where
  ordered : Ordered (inside P next) order
  visited : ∀ v ∈ visited, v ∈ path ∨ v ∈ order

namespace Arranges

variable {P : String → Bool} {path visited order : List String} {name : String}

theorem enter (h : Arranges P next path visited order) (name : String) :
    Arranges P next (path ++ [name]) (name :: visited) order where
  ordered := h.ordered
  visited := List.forall_mem_cons.mpr ⟨.inl (by simp), fun v hv =>
    (h.visited v hv).imp_left (List.mem_append_left _)⟩

/-- A type that the walk leaves is put behind those of the set that it needs. -/
theorem leave (h : Arranges P next (path ++ [name]) visited order)
    (hnext : ∀ d ∈ next name, P d → d ∈ order ∨ (path ++ [name]).getLast? = some d) :
    Arranges P next path visited (order ++ [name]) where
  ordered := h.ordered.concat fun d hd => by
    obtain ⟨hd, hin⟩ := List.mem_filter.mp hd
    exact (hnext d hd hin).imp_right fun hlast => by simpa using hlast.symm
  visited v hv := by
    have hor := h.visited v hv
    rw [List.mem_append] at hor ⊢
    tauto

end Arranges

/-- **Where no cycle goes through two types of a set, its types have an order.**  Until the walk
leaves a type, it is on the path. -/
theorem exists_order {P : String → Bool} {path names : List String} {s s' : Survey}
    (h : Surveys next path s names s') (hnodup : path.Nodup)
    (hloops : ∀ c ∈ s'.cycles, (∃ n ∈ c, P n) → ∃ n, c = [n, n]) :
    ∀ order, Arranges P next path s.visited order →
      ∃ order', Arranges P next path s'.visited order' ∧ order ⊆ order' ∧
        ∀ name ∈ names, P name → name ∈ order' ∨ path.getLast? = some name := by
  induction h with
  | nil => exact fun order ho => ⟨order, ho, List.Subset.refl _, by simp⟩
  | @close path names name s s' h rest ih =>
    intro order ho
    obtain ⟨order', ho', hsub, hnames⟩ := ih hnodup hloops order ho
    refine ⟨order', ho', hsub, List.forall_mem_cons.mpr ⟨fun hname => ?_, hnames⟩⟩
    have hmem := rest.cycles_prefix.subset (List.mem_append_right _ (List.mem_singleton_self _))
    obtain ⟨n, hn⟩ := hloops _ hmem ⟨name, by simp [closeCycle], hname⟩
    obtain ⟨hlast, rfl⟩ := (closeCycle_eq_pair_iff hnodup h).mp hn
    exact .inr hlast
  | pass h hs _ ih =>
    intro order ho
    obtain ⟨order', ho', hsub, hnames⟩ := ih hnodup hloops order ho
    have hname := (ho.visited _ hs).resolve_left h
    exact ⟨order', ho', hsub, List.forall_mem_cons.mpr ⟨fun _ => .inl (hsub hname), hnames⟩⟩
  | @enter path names name s s₁ s' h _ _ rest ih ih' =>
    intro order ho
    obtain ⟨order₁, ho₁, hsub₁, hnext⟩ := ih (nodup_concat hnodup h)
      (fun c hc => hloops c (rest.cycles_prefix.subset hc)) order (ho.enter name)
    obtain ⟨order', ho', hsub', hnames⟩ := ih' hnodup hloops _ (ho₁.leave hnext)
    refine ⟨order', ho', fun x hx => hsub' (List.mem_append_left _ (hsub₁ hx)), ?_⟩
    exact List.forall_mem_cons.mpr ⟨fun _ => .inl (hsub' (by simp)), hnames⟩

/-- **In a component of two types a long cycle is met.** -/
theorem Surveys.exists_long_cycle {names : List String} {s : Survey} {u v : String}
    (h : Surveys next [] {} names s) (hu : u ∈ names) (huv : Relation.TransGen (Needs next) u v)
    (hvu : Relation.TransGen (Needs next) v u) (hne : u ≠ v) :
    ∃ c ∈ s.cycles, (∀ n ∈ c, SameComponent next u n) ∧ ∀ n, c ≠ [n, n] := by
  classical
  by_contra hno
  push Not at hno
  have hloops : ∀ c ∈ s.cycles, (∃ n ∈ c, decide (SameComponent next u n)) → ∃ n, c = [n, n] := by
    rintro c hc ⟨n, hn, hun⟩
    have hcycle := (cycles_sound h .nil (fun _ _ => .singleton _) c hc).resolve_left (by simp)
    exact hno c hc fun m hm => (of_decide_eq_true hun).trans (hcycle.sameComponent hn hm)
  obtain ⟨order, ⟨horder, -⟩, -, hnames⟩ :=
    exists_order h .nil hloops [] ⟨fun _ h => absurd h List.not_mem_nil, by simp⟩
  have hu : u ∈ order := (hnames u hu (decide_eq_true ⟨.refl, .refl⟩)).resolve_right (by simp)
  have hback : SameComponent next u v := ⟨huv.to_reflTransGen, hvu.to_reflTransGen⟩
  refine hne (horder.eq_of_transGen hu ?_ ?_)
  · exact transGen_inside (fun w hw => decide_eq_true hw) huv hback.2
  · exact transGen_inside (fun w hw => decide_eq_true (hback.trans hw)) hvu hback.1

end EntitySchema.Dependency
