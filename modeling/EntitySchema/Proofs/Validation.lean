import EntitySchema.Proofs.Dependency.Cycles
import EntitySchema.Validation

/-!
# Proofs/Validation — entities that require each other

    dependencyGraph ──cycles──▸ longCycle? ──▸ errors
                          └───▸ ownType?  ──▸ warnings

The errors of a validation are the required cycles through two entities or more, its warnings about
an entity's own type those through a single one.  So there is an error exactly if two entities
require each other, and one warning for each entity that requires itself (`validate_requires`).
-/

namespace EntitySchema

namespace Schema

open Dependency

/-- Whether the type `u` requires the type `v`: an entity of `v` has to exist before one of `u`. -/
def Requires (s : Schema) (u v : String) : Prop := v ∈ s.dependencyGraph.dependencies true u

instance (s : Schema) (u v : String) : Decidable (s.Requires u v) :=
  inferInstanceAs (Decidable (_ ∈ _))

/-! ## Errors -/

theorem longCycle?_eq_some_iff {path : List String} {e : RequiredCycle} :
    longCycle? path = some e ↔ path = e.path ∧ ∀ a b, path ≠ [a, b] := by
  rw [longCycle?.eq_def]
  split
  · simp
  next hne =>
    constructor
    · rintro ⟨⟩
      exact ⟨rfl, hne⟩
    · rintro ⟨rfl, -⟩
      rfl

/-- A cycle of two names is a single type twice. -/
theorem eq_of_isCycle_pair {next : String → List String} {a b : String}
    (h : IsCycle next [a, b]) : a = b := by
  obtain ⟨c, ps, heq, -⟩ := h
  have hps : ps = [] := List.length_eq_zero_iff.mp (by simpa using congrArg List.length heq)
  subst hps
  cases heq
  rfl

/-- The errors are the required cycles through more than a single entity. -/
@[simp] theorem mem_errors_iff {s : Schema} {e : RequiredCycle} :
    e ∈ s.validate.errors ↔ e.path ∈ s.requiredCycles ∧ ∀ n, e.path ≠ [n, n] := by
  rw [validate, List.mem_filterMap]
  constructor
  · rintro ⟨path, hpath, hlong⟩
    obtain ⟨rfl, hne⟩ := longCycle?_eq_some_iff.mp hlong
    exact ⟨hpath, fun n => hne n n⟩
  · rintro ⟨hpath, hne⟩
    refine ⟨e.path, hpath, longCycle?_eq_some_iff.mpr ⟨rfl, fun a b heq => ?_⟩⟩
    have hcycle := Graph.isCycle_of_mem_cycles hpath
    rw [heq] at hcycle
    exact hne a (by rw [heq, eq_of_isCycle_pair hcycle])

/-- An error is a simple cycle through two entities at least. -/
theorem exists_cycle_of_mem_errors {s : Schema} {e : RequiredCycle} (he : e ∈ s.validate.errors) :
    ∃ a b ps, e.path = a :: b :: ps ++ [a] ∧ (a :: b :: ps).Nodup ∧ e.path.IsChain s.Requires := by
  obtain ⟨hpath, hne⟩ := mem_errors_iff.mp he
  obtain ⟨a, ps, heq, hnodup, hchain⟩ := Graph.isCycle_of_mem_cycles hpath
  cases ps with
  | nil => exact absurd heq (hne a)
  | cons b ps => exact ⟨a, b, ps, heq, hnodup, hchain⟩

theorem errors_ne_nil_iff {s : Schema} : s.validate.errors ≠ [] ↔
    ∃ u v, u ≠ v ∧ Relation.TransGen s.Requires u v ∧ Relation.TransGen s.Requires v u := by
  refine Iff.trans ?_ Graph.exists_mem_cycles_iff
  constructor
  · intro hne
    obtain ⟨e, he⟩ := List.exists_mem_of_ne_nil _ hne
    exact ⟨e.path, mem_errors_iff.mp he⟩
  · rintro ⟨c, hc⟩
    exact List.ne_nil_of_mem (mem_errors_iff (e := ⟨c⟩) |>.mpr hc)

/-! ## Warnings -/

/-- Only the warning about its own type says so. -/
theorem message_eq_ownType_iff {w : Warning} {n : String} :
    w.message = "Entity '" ++ n ++ "' requires an entity of its own type." ↔ w = .ownType n := by
  have hhead : w.message = "Entity '" ++ n ++ "' requires an entity of its own type." →
      w.message.toList.head? = some 'E' := fun h => by simp [h]
  constructor
  · intro h
    cases w with
    | ownType entity =>
      unfold Warning.message at h
      have hlist := congrArg String.toList h
      simp only [String.toList_append, List.append_cancel_left_eq, List.append_cancel_right_eq,
        String.toList_inj] at hlist
      rw [hlist]
    | dangling | ignoredThreshold | shadowed =>
      have hne := hhead h
      unfold Warning.message at hne
      simp at hne
  · rintro rfl
    rfl

/-- A check of fields that never speaks of an entity's own type. -/
theorem count_ownType_forFields {s : Schema} {check : Entity → Field → Option Warning} {n : String}
    (h : ∀ e f, check e f ≠ some (.ownType n)) :
    (s.forFields check).count (.ownType n) = 0 := by
  refine List.count_eq_zero_of_not_mem fun hmem => ?_
  obtain ⟨e, -, hmem⟩ := List.mem_flatMap.mp hmem
  obtain ⟨f, -, hf⟩ := List.mem_filterMap.mp hmem
  exact h e f hf

theorem ownType?_eq_some_iff {path : List String} {n : String} :
    ownType? path = some (.ownType n) ↔ ∃ b, path = [n, b] := by
  match path with
  | [] | [_] | [_, _] | _ :: _ :: _ :: _ => simp [ownType?]

/-- A cycle through a single entity is reported by its name. -/
theorem count_ownType_cycles (s : Schema) (n : String) :
    (s.requiredCycles.filterMap ownType?).count (.ownType n) = s.requiredCycles.count [n, n] := by
  rw [List.count, List.countP_filterMap, List.count]
  refine List.countP_congr fun c hc => ?_
  have hiff : ownType? c = some (.ownType n) ↔ c = [n, n] := by
    rw [ownType?_eq_some_iff]
    refine ⟨?_, fun h => ⟨n, h⟩⟩
    rintro ⟨b, rfl⟩
    rw [eq_of_isCycle_pair (Graph.isCycle_of_mem_cycles hc)]
  cases hown : ownType? c with
  | none => simp_all
  | some w => simp_all

theorem count_ownType (s : Schema) (n : String) :
    s.validate.warnings.count (.ownType n) = if s.Requires n n then 1 else 0 := by
  have hdangling : (s.forFields s.dangling?).count (.ownType n) = 0 :=
    count_ownType_forFields fun e f => by simp [dangling?, Option.bind_eq_some_iff]
  have hthreshold : (s.forFields ignoredThreshold?).count (.ownType n) = 0 :=
    count_ownType_forFields fun e f => by simp [ignoredThreshold?, Option.bind_eq_some_iff]
  have hshadowed : (s.forFields s.shadowed?).count (.ownType n) = 0 :=
    count_ownType_forFields fun e f => by simp [shadowed?, Option.bind_eq_some_iff]
  have hdeps : (s.requiredCycles).count [n, n] = _ := Graph.count_cycles n
  rw [validate]
  simp only [List.count_append, hdangling, hthreshold, hshadowed, count_ownType_cycles, hdeps,
    Nat.add_zero]
  exact (Graph.nodup_dependencies s true n).count

/-! ## Both -/

/-- **Validation finds the entities that require each other**: there are errors exactly if two types
reach each other, each error is a simple cycle of requirements through two types at least, and each
type that requires itself gets one warning in these words, other types none. -/
theorem validate_requires (s : Schema) :
    (s.validate.errors ≠ [] ↔
      ∃ u v, u ≠ v ∧ Relation.TransGen s.Requires u v ∧ Relation.TransGen s.Requires v u) ∧
    (∀ e ∈ s.validate.errors, ∃ a b ps, e.path = a :: b :: ps ++ [a] ∧ (a :: b :: ps).Nodup ∧
      e.path.IsChain s.Requires) ∧
    ∀ n, (s.validate.warnings.map Warning.message).count
        ("Entity '" ++ n ++ "' requires an entity of its own type.")
      = if s.Requires n n then 1 else 0 := by
  refine ⟨errors_ne_nil_iff, fun e he => exists_cycle_of_mem_errors he, fun n => ?_⟩
  rw [← count_ownType, List.count, List.countP_map, List.count]
  refine List.countP_congr fun w _ => ?_
  simpa using message_eq_ownType_iff

end Schema

end EntitySchema
