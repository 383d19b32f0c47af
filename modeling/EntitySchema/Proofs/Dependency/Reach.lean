import EntitySchema.Proofs.Dependency.Walk
import Mathlib.Logic.Relation

/-!
# Proofs/Dependency/Reach — the types that a root needs

    explore  ──foldl_explore──▸  Explores  ──▸  reachable        = the root and what it needs
    gather   ──gather_reaches─▸  Reaches   ──▸  allDependencies  = what the root needs

Both walks meet every type that the root needs, through others or not.  The first counts the root
in (`mem_reachable_iff`); the second meets the root only if it needs itself
(`mem_allDependencies_iff`).
-/

namespace EntitySchema.Dependency

variable {next : String → List String}

/-! ## Exploring from the root -/

/-- The walk meets the names, and with each new one all that it needs. -/
inductive Explores (next : String → List String) : List String → List String → List String → Prop
  | nil {met : List String} : Explores next met [] met
  | pass {met names met' : List String} {name : String} (h : name ∈ met)
      (rest : Explores next met names met') : Explores next met (name :: names) met'
  | enter {met met₁ names met' : List String} {name : String} (h : name ∉ met)
      (inner : Explores next (met ++ [name]) (next name) met₁)
      (rest : Explores next met₁ names met') : Explores next met (name :: names) met'

namespace Explores

variable {met names met' : List String}

theorem met_subset (h : Explores next met names met') : met ⊆ met' := by
  induction h with
  | nil => exact List.Subset.refl _
  | pass _ _ ih => exact ih
  | enter _ _ _ ih ih' => exact fun v hv => ih' (ih (List.mem_append_left _ hv))

theorem names_subset (h : Explores next met names met') : names ⊆ met' := by
  induction h with
  | nil => exact List.nil_subset _
  | pass h rest ih => exact List.cons_subset.mpr ⟨rest.met_subset h, ih⟩
  | enter _ inner rest _ ih =>
    exact List.cons_subset.mpr ⟨rest.met_subset (inner.met_subset (by simp)), ih⟩

theorem nodup (h : Explores next met names met') (hmet : met.Nodup) : met'.Nodup := by
  induction h with
  | nil => exact hmet
  | pass _ _ ih => exact ih hmet
  | enter h _ _ ih ih' => exact ih' (ih (nodup_concat hmet h))

/-- What is met was met before or is needed by one of the names. -/
theorem reached (h : Explores next met names met') :
    ∀ v ∈ met', v ∈ met ∨ ∃ name ∈ names, Relation.ReflTransGen (Needs next) name v := by
  induction h with
  | nil => exact fun v hv => .inl hv
  | pass _ _ ih =>
    exact fun v hv => (ih v hv).imp_right fun ⟨n, hn, hnv⟩ => ⟨n, List.mem_cons_of_mem _ hn, hnv⟩
  | @enter met met₁ names met' name _ _ _ ih ih' =>
    intro v hv
    rcases ih' v hv with hv | ⟨n, hn, hnv⟩
    · rcases ih v hv with hv | ⟨d, hd, hdv⟩
      · rcases List.mem_append.mp hv with hv | hv
        · exact .inl hv
        · rw [List.mem_singleton.mp hv]
          exact .inr ⟨name, List.mem_cons_self, .refl⟩
      · exact .inr ⟨name, List.mem_cons_self, .head hd hdv⟩
    · exact .inr ⟨n, List.mem_cons_of_mem _ hn, hnv⟩

/-- With a type that is new, all that it needs is met. -/
theorem closed (h : Explores next met names met') : ∀ v ∈ met', v ∈ met ∨ next v ⊆ met' := by
  induction h with
  | nil => exact fun v hv => .inl hv
  | pass _ _ ih => exact ih
  | @enter met met₁ names met' name _ inner rest ih ih' =>
    intro v hv
    rcases ih' v hv with hv | hv
    · rcases ih v hv with hv | hv
      · rcases List.mem_append.mp hv with hv | hv
        · exact .inl hv
        · rw [List.mem_singleton.mp hv]
          exact .inr fun d hd => rest.met_subset (inner.names_subset hd)
      · exact .inr fun d hd => rest.met_subset (hv hd)
    · exact .inr hv

end Explores

/-- **The counter does not run out** where there is room.  The types on the path are met. -/
theorem foldl_explore {types : List String} (htypes : ∀ u, next u ≠ [] → u ∈ types) :
    ∀ (fuel : ℕ) {path met : List String} (names : List String), Room types path fuel →
      path ⊆ met → Explores next met names (names.foldl (explore next fuel) met)
  | 0, _, _, _, hroom, _ => absurd rfl hroom.fuel_ne_zero
  | fuel + 1, path, met, [], _, _ => .nil
  | fuel + 1, path, met, name :: names, hroom, hpath => by
      rw [List.foldl_cons, explore]
      simp only [List.contains_iff_mem]
      split_ifs with h
      · exact .pass h (foldl_explore htypes (fuel + 1) names hroom hpath)
      · have hinner : Explores next (met ++ [name]) (next name)
            ((next name).foldl (explore next fuel) (met ++ [name])) := by
          by_cases hnext : next name = []
          · rw [hnext]
            exact .nil
          · have hname : name ∉ path := fun hmem => h (hpath hmem)
            refine foldl_explore htypes fuel (next name) (hroom.enter hname (htypes name hnext)) ?_
            exact List.append_subset.mpr ⟨List.subset_append_of_subset_left _ hpath,
              List.subset_append_right _ _⟩
        refine .enter h hinner (foldl_explore htypes (fuel + 1) names hroom ?_)
        exact fun v hv => hinner.met_subset (List.mem_append_left _ (hpath hv))

/-! ## Gathering without a path -/

/-- What a root needs is met or still to come: everything met is needed, and whatever is needed
next by the root or a type that was met is met, unless that type is still to look at. -/
structure Gathering.Reaches (next : String → List String) (root : String) (w : Gathering) :
    Prop where
  nodup : w.met.Nodup
  needed : ∀ v ∈ w.met, Relation.TransGen (Needs next) root v
  pending : ∀ v ∈ w.pending, v = root ∨ v ∈ w.met
  closed : ∀ v, v = root ∨ v ∈ w.met → v ∈ w.pending ∨ next v ⊆ w.met

namespace Gathering

variable {root : String} {w : Gathering}

@[simp] theorem mem_met_meet {name v : String} : v ∈ (w.meet name).met ↔ v ∈ w.met ∨ v = name := by
  rw [meet]
  split_ifs with h
  · rw [List.contains_iff_mem] at h
    exact ⟨.inl, fun hv => hv.elim id fun heq => heq ▸ h⟩
  · simp

@[simp] theorem mem_met_foldl_meet {names : List String} {v : String} :
    v ∈ (names.foldl meet w).met ↔ v ∈ w.met ∨ v ∈ names := by
  induction names generalizing w with
  | nil => simp
  | cons name names ih => simp [ih, or_assoc]

theorem nodup_foldl_meet {names : List String} (h : w.met.Nodup) :
    (names.foldl meet w).met.Nodup := by
  refine List.foldlRecOn (motive := fun w : Gathering => w.met.Nodup) _ _ h fun w hw name _ => ?_
  rw [meet]
  split_ifs with hname
  · exact hw
  · exact nodup_concat hw (by simpa using hname)

@[simp] theorem mem_pending_meet {name v : String} :
    v ∈ (w.meet name).pending ↔ v ∈ w.pending ∨ v = name ∧ v ∉ w.met := by
  rw [meet]
  split_ifs with h
  · rw [List.contains_iff_mem] at h
    refine (or_iff_left ?_).symm
    rintro ⟨rfl, hnot⟩
    exact hnot h
  · rw [List.contains_iff_mem] at h
    rw [List.mem_cons, or_comm]
    refine or_congr_right (and_iff_left_of_imp ?_).symm
    rintro rfl
    exact h

/-- Each type that is new is to look at. -/
@[simp] theorem mem_pending_foldl_meet {names : List String} {v : String} :
    v ∈ (names.foldl meet w).pending ↔ v ∈ w.pending ∨ v ∈ names ∧ v ∉ w.met := by
  induction names generalizing w with
  | nil => simp
  | cons name names ih =>
    rw [List.foldl_cons, ih, mem_pending_meet, mem_met_meet, List.mem_cons]
    tauto

/-- Every type that is new is to look at, so the types to look at and those that are left to meet
are as many as before. -/
theorem length_foldl_meet (names : List String) :
    (names.foldl meet w).pending.length + w.met.length
      = w.pending.length + (names.foldl meet w).met.length := by
  induction names generalizing w with
  | nil => rfl
  | cons name names ih =>
    have hstep : (w.meet name).pending.length + w.met.length
        = w.pending.length + (w.meet name).met.length := by
      rw [meet]
      split
      · rfl
      · simp only [List.length_cons, List.length_append, List.length_nil]
        omega
    have hrest := ih (w := w.meet name)
    rw [List.foldl_cons]
    omega

/-- **Looking at a type** leaves nothing out. -/
theorem Reaches.look {name : String} {pending : List String} (h : w.Reaches next root)
    (hw : w.pending = name :: pending) :
    ((next name).foldl meet { w with pending }).Reaches next root where
  nodup := nodup_foldl_meet h.nodup
  needed := by
    intro v hv
    rcases mem_met_foldl_meet.mp hv with hv | hv
    · exact h.needed v hv
    · rcases h.pending name (hw ▸ List.mem_cons_self) with rfl | hname
      · exact .single hv
      · exact (h.needed name hname).tail hv
  pending := by
    intro v hv
    rcases mem_pending_foldl_meet.mp hv with hv | ⟨hv, -⟩
    · refine (h.pending v (hw ▸ List.mem_cons_of_mem _ hv)).imp_right fun hmet => ?_
      exact mem_met_foldl_meet.mpr (.inl hmet)
    · exact .inr (mem_met_foldl_meet.mpr (.inr hv))
  closed := by
    intro v hv
    by_cases hnew : v ∈ next name ∧ v ∉ w.met
    · exact .inl (mem_pending_foldl_meet.mpr (.inr hnew))
    · have hold : v = root ∨ v ∈ w.met := hv.imp_right fun hmet => by
        rcases mem_met_foldl_meet.mp hmet with hmet | hnext
        · exact hmet
        · exact by_contra fun hnot => hnew ⟨hnext, hnot⟩
      rcases h.closed v hold with hpending | hclosed
      · rw [hw] at hpending
        rcases List.mem_cons.mp hpending with rfl | hpending
        · exact .inr fun d hd => mem_met_foldl_meet.mpr (.inr hd)
        · exact .inl (mem_pending_foldl_meet.mpr (.inl hpending))
      · exact .inr fun d hd => mem_met_foldl_meet.mpr (.inl (hclosed hd))

end Gathering

/-- **Nothing is left to look at**, if the counter allows for the types to look at and for those
that can still be met. -/
theorem gather_reaches {types : List String} {root : String} (htypes : ∀ u, next u ⊆ types) :
    ∀ (fuel : ℕ) {w : Gathering}, w.Reaches next root → w.met ⊆ types →
      w.pending.length + types.length ≤ fuel + w.met.length →
      (gather next fuel w).Reaches next root ∧ (gather next fuel w).pending = []
  | 0, w, h, hsub, hfuel => by
      have hle := (h.nodup.subperm hsub).length_le
      rw [gather]
      exact ⟨h, List.length_eq_zero_iff.mp (by omega)⟩
  | fuel + 1, w, h, hsub, hfuel => by
      rw [gather]
      rcases hcons : w.pending with _ | ⟨name, pending⟩
      · exact ⟨h, hcons⟩
      · refine gather_reaches htypes fuel (h.look hcons) (fun v hv => ?_) ?_
        · exact (Gathering.mem_met_foldl_meet.mp hv).elim (fun hmet => hsub hmet) fun hnext =>
            htypes name hnext
        · have hlength := Gathering.length_foldl_meet (w := { w with pending }) (next name)
          rw [hcons, List.length_cons] at hfuel
          dsimp only at hlength
          omega

/-! ## The types of a graph -/

namespace Graph

variable {g : Graph} {root v : String}

theorem explores_reachable (g : Graph) (root : String) :
    Explores g.hard [] [root] (g.reachable root) := by
  have htypes : ∀ u, g.dependencies false u ≠ [] → u ∈ g.nodes.keys :=
    fun _ hu => mem_keys_of_dependencies hu
  exact foldl_explore htypes g.walkBound [root] (.start g) (List.nil_subset _)

theorem nodup_reachable (g : Graph) (root : String) : (g.reachable root).Nodup :=
  (g.explores_reachable root).nodup .nil

/-- **What is reachable is the root and what it needs.** -/
@[simp] theorem mem_reachable_iff :
    v ∈ g.reachable root ↔ Relation.ReflTransGen (Needs g.hard) root v := by
  have hexplores := g.explores_reachable root
  constructor
  · intro hv
    simpa using hexplores.reached v hv
  · intro hv
    induction hv with
    | refl => exact hexplores.names_subset List.mem_cons_self
    | tail _ hd ih => exact (hexplores.closed _ ih).resolve_left List.not_mem_nil hd

/-- **All dependencies are what the root needs**, through others or not. -/
@[simp] theorem mem_allDependencies_iff :
    v ∈ g.allDependencies root ↔ Relation.TransGen (Needs g.hard) root v := by
  have htypes : ∀ u, g.hard u ⊆ g.nodes.values.flatMap (·.hard) := by
    intro u d hd
    rw [hard] at hd
    cases hget : g.nodes.get? u with
    | none => rw [hget] at hd; exact absurd hd List.not_mem_nil
    | some n =>
      rw [hget] at hd
      exact List.mem_flatMap.mpr
        ⟨n, List.mem_map_of_mem (f := Prod.snd) (Table.get?_eq_some_iff.mp hget), hd⟩
  have hstart : ({ pending := [root] } : Gathering).Reaches g.hard root :=
    { nodup := .nil
      needed := fun _ hv => absurd hv List.not_mem_nil
      pending := fun _ hv => .inl (List.mem_singleton.mp hv)
      closed := fun v hv => .inl (List.mem_singleton.mpr (hv.resolve_right List.not_mem_nil)) }
  obtain ⟨hreaches, hpending⟩ := gather_reaches htypes g.gatherBound hstart (List.nil_subset _)
    (by simp [gatherBound]; omega)
  have hclosed : ∀ u, u = root ∨ u ∈ g.allDependencies root → g.hard u ⊆ g.allDependencies root :=
    fun u hu => (hreaches.closed u hu).resolve_left (by rw [hpending]; exact List.not_mem_nil)
  constructor
  · exact fun hv => hreaches.needed v hv
  · intro hv
    induction hv with
    | single hd => exact hclosed root (.inl rfl) hd
    | tail _ hd ih => exact hclosed _ (.inr ih) hd

end Graph

end EntitySchema.Dependency
