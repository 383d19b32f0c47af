import EntitySchema.Table
import Mathlib.Tactic.SplitIfs

/-!
# Proofs/Table — what a table holds after a change

Writing under a new key adds an entry at the end (`entries_insert`), removing a key leaves the
others as they are (`get?_erase`), and changing the value under a key sees that value only
(`modify_congr`).  A value that is written or changed stands at a place that does not depend on it
(`exists_entries_insert`, `exists_entries_modify`).  What a table holds after many changes is said
at the end.
-/

namespace EntitySchema.Table

variable {κ α : Type} [DecidableEq κ]

omit [DecidableEq κ] in
theorem nodup_keys (t : Table κ α) : t.keys.Nodup := t.nodup

/-- A new key goes to the end. -/
theorem entries_insert {t : Table κ α} {k : κ} (hk : k ∉ t.keys) (a : α) :
    (t.insert k a).entries = t.entries ++ [(k, a)] :=
  Pairs.dedup_append_of_nodup.put_of_not_mem hk

theorem mem_entries_insert {t : Table κ α} {k : κ} {a : α} {p : κ × α}
    (hp : p ∈ (t.insert k a).entries) : p = (k, a) ∨ p ∈ t.entries := by
  have hget : (t.insert k a).get? p.1 = some p.2 := get?_eq_some_iff.mpr hp
  rw [get?_insert] at hget
  split_ifs at hget with hk
  · exact .inl (Prod.ext hk.symm (Option.some.inj hget).symm)
  · exact .inr (get?_eq_some_iff.mp hget)

@[simp] theorem contains_insert (t : Table κ α) (k k' : κ) (a : α) :
    (t.insert k a).contains k' = (decide (k = k') || t.contains k') := by
  rw [contains, contains, get?_insert]
  split <;> simp_all

@[simp] theorem keys_erase (t : Table κ α) (k : κ) : (t.erase k).keys = t.keys.erase k := by
  suffices hdrop : ∀ ps : List (κ × α),
      Pairs.keys (Pairs.drop k ps) = (Pairs.keys ps).erase k from hdrop t.entries
  intro ps
  induction ps with
  | nil => rfl
  | cons p ps ih =>
    by_cases hk : p.1 = k
    · simp [Pairs.drop, hk]
    · simpa [Pairs.drop, hk] using ih

/-- A value that is removed is gone, the others stay. -/
theorem get?_erase (t : Table κ α) (k k' : κ) :
    (t.erase k).get? k' = if k = k' then none else t.get? k' := by
  suffices hdrop : ∀ ps : List (κ × α), (Pairs.keys ps).Nodup →
      Pairs.find? k' (Pairs.drop k ps) = if k = k' then none else Pairs.find? k' ps from
    hdrop t.entries t.nodup
  intro ps hnodup
  induction ps with
  | nil => split <;> rfl
  | cons p ps ih =>
    obtain ⟨k₀, a⟩ := p
    obtain ⟨hnotMem, hnodup⟩ := List.nodup_cons.mp hnodup
    rw [Pairs.drop]
    by_cases hk : k₀ = k
    · subst hk
      rw [if_pos rfl]
      split_ifs with heq
      · subst heq
        exact (Pairs.find?_eq_none_iff _ ps).mpr hnotMem
      · exact (if_neg heq).symm
    · rw [if_neg hk, Pairs.find?, Pairs.find?, ih hnodup]
      by_cases heq : k₀ = k'
      · subst heq
        rw [if_pos rfl, if_neg (Ne.symm hk), if_pos rfl]
      · rw [if_neg heq, if_neg heq]

/-- A table read from pairs holds only these. -/
theorem mem_of_mem_ofList {ps : List (κ × α)} {p : κ × α} (h : p ∈ (ofList ps).entries) :
    p ∈ ps := by
  change p ∈ ps.foldl (fun acc p => Pairs.put p.1 p.2 acc) [] at h
  suffices hfold : ∀ t : Table κ α,
      p ∈ ps.foldl (fun acc p => Pairs.put p.1 p.2 acc) t.entries → p ∈ t.entries ∨ p ∈ ps from
    (hfold empty h).resolve_left List.not_mem_nil
  clear h
  induction ps with
  | nil => exact fun _ h => .inl h
  | cons q ps ih =>
    intro t h
    obtain hmem | hmem := ih (t.insert q.1 q.2) h
    · exact (mem_entries_insert hmem).elim (fun heq => .inr (heq ▸ List.mem_cons_self)) .inl
    · exact .inr (List.mem_cons_of_mem q hmem)

/-! ## What holds of every value -/

section

variable {P : α → Prop}

omit [DecidableEq κ] in
theorem forall_empty : ∀ p ∈ (empty : Table κ α).entries, P p.2 := nofun

theorem forall_insert {t : Table κ α} (h : ∀ p ∈ t.entries, P p.2) (k : κ) {a : α} (ha : P a) :
    ∀ p ∈ (t.insert k a).entries, P p.2 := by
  intro p hp
  obtain rfl | hmem := mem_entries_insert hp
  · exact ha
  · exact h p hmem

theorem forall_ofList {ps : List (κ × α)} (h : ∀ p ∈ ps, P p.2) :
    ∀ p ∈ (ofList ps).entries, P p.2 := fun p hp => h p (mem_of_mem_ofList hp)

theorem forall_modify {t : Table κ α} (h : ∀ p ∈ t.entries, P p.2) (k : κ) {f : α → α}
    (hf : ∀ a, P a → P (f a)) : ∀ p ∈ (t.modify k f).entries, P p.2 := by
  intro p hp
  obtain ⟨q, hq, rfl⟩ := List.mem_map.mp hp
  dsimp only
  split
  · exact hf _ (h q hq)
  · exact h q hq

end

/-! ## Changing a value -/

/-- A change sees only the value it changes. -/
theorem modify_congr {t : Table κ α} {k : κ} {f g : α → α}
    (h : ∀ a, t.get? k = some a → f a = g a) : t.modify k f = t.modify k g := by
  refine Table.ext (List.map_congr_left fun p hp => ?_)
  dsimp only
  split_ifs with hk
  · rw [h p.2 (get?_eq_some_iff.mpr (hk ▸ hp))]
  · rfl

@[simp] theorem modify_id (t : Table κ α) (k : κ) : t.modify k id = t := by
  refine Table.ext (Eq.trans (List.map_congr_left fun p _ => ?_) (List.map_id _))
  dsimp only [id]
  split <;> rfl

/-- A value stands at the same place whatever it is. -/
theorem exists_entries_insert (t : Table κ α) (k : κ) :
    ∃ before after, ∀ a, (t.insert k a).entries = before ++ (k, a) :: after := by
  suffices hput : ∀ ps : List (κ × α),
      ∃ before after, ∀ a, Pairs.put k a ps = before ++ (k, a) :: after from hput t.entries
  intro ps
  induction ps with
  | nil => exact ⟨[], [], fun _ => rfl⟩
  | cons p ps ih =>
    obtain ⟨k', b⟩ := p
    by_cases hk : k' = k
    · subst hk
      exact ⟨[], ps, fun a => if_pos rfl⟩
    · obtain ⟨before, after, hput⟩ := ih
      refine ⟨(k', b) :: before, after, fun a => ?_⟩
      rw [Pairs.put, if_neg hk, hput, List.cons_append]

/-- A changed value stands where the value stood. -/
theorem exists_entries_modify {t : Table κ α} {k : κ} {a : α} (h : t.get? k = some a) :
    ∃ before after, ∀ f, (t.modify k f).entries = before ++ (k, f a) :: after := by
  obtain ⟨before, after, hsplit⟩ := List.append_of_mem (get?_eq_some_iff.mp h)
  have hnodup := t.nodup
  rw [hsplit, List.map_append, List.map_cons, List.perm_middle.nodup_iff, List.nodup_cons,
    ← List.map_append] at hnodup
  have hother : ∀ f : α → α, ∀ p ∈ before ++ after,
      (p.1, if p.1 = k then f p.2 else p.2) = id p := by
    intro f p hp
    rw [if_neg fun hk => hnodup.1 (List.mem_map.mpr ⟨p, hp, hk⟩)]
    rfl
  refine ⟨before, after, fun f => ?_⟩
  obtain ⟨hbefore, hafter⟩ := List.forall_mem_append.mp (hother f)
  rw [modify, mapValues]
  dsimp only
  rw [hsplit, List.map_append, List.map_cons, List.map_congr_left hbefore,
    List.map_congr_left hafter, if_pos rfl, List.map_id, List.map_id]

/-! ## Items one after another -/

section

variable {β : Type} {key : α → κ} {value : α → β}

theorem get?_foldl_insert_of_notMem {k : κ} : ∀ {as : List α} {t : Table κ β},
    k ∉ as.map key → (as.foldl (fun t a => t.insert (key a) (value a)) t).get? k = t.get? k
  | [], _, _ => rfl
  | a :: as, t, h => by
      rw [List.map_cons, List.mem_cons, not_or] at h
      rw [List.foldl_cons, get?_foldl_insert_of_notMem h.2, get?_insert, if_neg (Ne.symm h.1)]

theorem mem_keys_foldl_insert {k : κ} : ∀ {as : List α} {t : Table κ β},
    k ∈ (as.foldl (fun t a => t.insert (key a) (value a)) t).keys ↔ k ∈ t.keys ∨ k ∈ as.map key
  | [], _ => by simp
  | a :: as, t => by
      rw [List.foldl_cons, mem_keys_foldl_insert, keys_insert, List.map_cons, List.mem_cons]
      split_ifs with hmem
      · refine ⟨fun h => h.imp_right .inr, ?_⟩
        rintro (h | rfl | h)
        · exact .inl h
        · exact .inl hmem
        · exact .inr h
      · simp [or_assoc]

/-- **Entries under distinct keys are all kept.** -/
theorem get?_foldl_insert_of_nodup : ∀ {as : List α} {t : Table κ β}, (as.map key).Nodup →
    ∀ a ∈ as, (as.foldl (fun t a => t.insert (key a) (value a)) t).get? (key a) = some (value a)
  | [], _, _ => nofun
  | a :: as, t, h => by
      rw [List.map_cons, List.nodup_cons] at h
      refine List.forall_mem_cons.mpr ⟨?_, fun b hb => get?_foldl_insert_of_nodup h.2 b hb⟩
      rw [List.foldl_cons, get?_foldl_insert_of_notMem h.1, get?_insert_self]

theorem ofList_eq_foldl (ps : List (κ × α)) :
    ofList ps = ps.foldl (fun t p => t.insert p.1 p.2) empty := by
  suffices hfold : ∀ (ps : List (κ × α)) (t : Table κ α),
      (ps.foldl (fun t p => t.insert p.1 p.2) t).entries =
        ps.foldl (fun acc p => Pairs.put p.1 p.2 acc) t.entries from
    Table.ext (hfold ps empty).symm
  intro ps
  induction ps with
  | nil => exact fun _ => rfl
  | cons p ps ih => exact fun t => ih (t.insert p.1 p.2)

omit [DecidableEq κ] in
/-- A key that occurs occurs for a last time. -/
theorem exists_eq_append_cons_last {k : κ} : ∀ {ps : List (κ × α)}, k ∈ ps.map Prod.fst →
    ∃ before a after, ps = before ++ (k, a) :: after ∧ k ∉ after.map Prod.fst
  | p :: ps, h => by
      by_cases hk : k ∈ ps.map Prod.fst
      · obtain ⟨before, a, after, rfl, hafter⟩ := exists_eq_append_cons_last hk
        exact ⟨p :: before, a, after, rfl, hafter⟩
      · obtain rfl := (List.mem_cons.mp h).resolve_right hk
        exact ⟨[], p.2, ps, rfl, hk⟩

/-- **Of the pairs with one key the last counts.** -/
theorem get?_ofList_eq_some_iff {ps : List (κ × α)} {k : κ} {a : α} :
    (ofList ps).get? k = some a ↔
      ∃ before after, ps = before ++ (k, a) :: after ∧ k ∉ after.map Prod.fst := by
  have hlast : ∀ {before after : List (κ × α)} {b : α}, k ∉ after.map Prod.fst →
      (ofList (before ++ (k, b) :: after)).get? k = some b := by
    intro before after b hafter
    rw [ofList_eq_foldl, List.foldl_append, List.foldl_cons, get?_foldl_insert_of_notMem hafter,
      get?_insert_self]
  constructor
  · intro h
    have hk : k ∈ ps.map Prod.fst := Classical.byContradiction fun hk => by
      rw [ofList_eq_foldl, get?_foldl_insert_of_notMem hk] at h
      exact absurd h (by simp [get?, empty, Pairs.find?])
    obtain ⟨before, b, after, rfl, hafter⟩ := exists_eq_append_cons_last hk
    obtain rfl := Option.some.inj ((hlast hafter).symm.trans h)
    exact ⟨before, after, rfl, hafter⟩
  · rintro ⟨before, after, rfl, hafter⟩
    exact hlast hafter

/-- Removing the keys of items removes exactly these. -/
theorem get?_foldl_erase {k : κ} : ∀ {as : List α} {t : Table κ β},
    (as.foldl (fun t a => t.erase (key a)) t).get? k = if k ∈ as.map key then none else t.get? k
  | [], _ => (if_neg List.not_mem_nil).symm
  | a :: as, t => by
      rw [List.foldl_cons, get?_foldl_erase, get?_erase, List.map_cons]
      by_cases hmem : k ∈ as.map key
      · rw [if_pos hmem, if_pos (List.mem_cons_of_mem _ hmem)]
      · rw [if_neg hmem]
        refine ite_congr ?_ (fun _ => rfl) fun _ => rfl
        rw [List.mem_cons, or_iff_left hmem]
        exact propext eq_comm

end

end EntitySchema.Table
