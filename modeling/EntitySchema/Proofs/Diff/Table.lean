import EntitySchema.Diff.Schema
import EntitySchema.Proofs.Table

/-!
# Proofs/Diff/Table — two tables compared key by key

    old   a b c d
    new     b c d e      ▸  came  e     went  a     changed  c     kept  b d

Entities are compared by the names of their fields, schemas by the names of their entities.  Either
way a name has come, has gone, stands for values that a relation tells apart, or stands for related
values.  A comparison lists the first three, each name once (`Compares`); the two tables match if
there is nothing to list (`Compares.matches_iff`).
-/

namespace EntitySchema

variable {κ α β γ : Type}

/-! ## Lists of what has a property -/

/-- The list holds what has the property, each once. -/
def Lists (xs : List α) (P : α → Prop) : Prop := xs.Nodup ∧ ∀ a, a ∈ xs ↔ P a

namespace Lists

variable {P Q : α → Prop} {xs ys : List α}

theorem congr (h : Lists xs P) (hiff : ∀ a, P a ↔ Q a) : Lists xs Q :=
  ⟨h.1, fun a => (h.2 a).trans (hiff a)⟩

theorem eq_nil_iff (h : Lists xs P) : xs = [] ↔ ∀ a, ¬ P a :=
  List.eq_nil_iff_forall_not_mem.trans (forall_congr' fun a => not_congr (h.2 a))

/-- What has one of two properties that exclude each other. -/
theorem append (hxs : Lists xs P) (hys : Lists ys Q) (hapart : ∀ a, P a → ¬ Q a) :
    Lists (xs ++ ys) fun a => P a ∨ Q a := by
  refine ⟨List.nodup_append.mpr ⟨hxs.1, hys.1, fun a ha b hb heq => ?_⟩, fun a => ?_⟩
  · exact hapart a ((hxs.2 a).mp ha) ((hys.2 a).mp (heq ▸ hb))
  · rw [List.mem_append, hxs.2, hys.2]

end Lists

/-! ## Keys of two tables -/

namespace Table

variable [DecidableEq κ] {R : α → β → Prop} {t : Table κ α} {t' : Table κ β} {k : κ}

/-- The tables have the same keys, and `R` relates the values under each. -/
def Matches (R : α → β → Prop) (t : Table κ α) (t' : Table κ β) : Prop :=
  ∀ k, Option.Rel R (t.get? k) (t'.get? k)

/-- Both tables have the key `k`, and `R` relates the values. -/
def Relates (R : α → β → Prop) (t : Table κ α) (t' : Table κ β) (k : κ) : Prop :=
  ∃ a b, t.get? k = some a ∧ t'.get? k = some b ∧ R a b

theorem isSome_eq_of_rel {x : Option α} {y : Option β} (h : Option.Rel R x y) :
    x.isSome = y.isSome := by
  cases h with
  | none => rfl
  | some _ => rfl

/-- Under a key the tables match if it is missing in none and its values are not told apart. -/
theorem rel_get?_iff : Option.Rel R (t.get? k) (t'.get? k) ↔
    ¬ (k ∈ t'.keys ∧ k ∉ t.keys) ∧ ¬ (k ∈ t.keys ∧ k ∉ t'.keys) ∧
      ¬ t.Relates (¬ R · ·) t' k := by
  simp only [← contains_iff, contains]
  constructor
  · intro h
    refine ⟨fun hk => hk.2 ((isSome_eq_of_rel h).trans hk.1),
      fun hk => hk.2 ((isSome_eq_of_rel h).symm.trans hk.1), ?_⟩
    rintro ⟨a, b, ha, hb, hne⟩
    rw [ha, hb] at h
    cases h with
    | some hab => exact hne hab
  · rintro ⟨hcame, hwent, hchanged⟩
    cases ha : t.get? k with
    | none =>
      cases hb : t'.get? k with
      | none => exact .none
      | some b => exact absurd ⟨by simp [hb], by simp [ha]⟩ hcame
    | some a =>
      cases hb : t'.get? k with
      | none => exact absurd ⟨by simp [ha], by simp [hb]⟩ hwent
      | some b => exact .some (Classical.not_not.mp fun hne => hchanged ⟨a, b, ha, hb, hne⟩)

theorem Relates.mem_keys (h : t.Relates R t' k) : k ∈ t.keys ∧ k ∈ t'.keys := by
  obtain ⟨a, b, ha, hb, -⟩ := h
  exact ⟨contains_iff.mp (Option.isSome_of_eq_some ha),
    contains_iff.mp (Option.isSome_of_eq_some hb)⟩

/-- The values under a key of both tables are related or not. -/
theorem relates_or (R : α → β → Prop) (hk : k ∈ t.keys) (hk' : k ∈ t'.keys) :
    t.Relates (¬ R · ·) t' k ∨ t.Relates R t' k := by
  obtain ⟨a, ha⟩ := Option.isSome_iff_exists.mp (contains_iff.mpr hk)
  obtain ⟨b, hb⟩ := Option.isSome_iff_exists.mp (contains_iff.mpr hk')
  by_cases hab : R a b
  · exact .inr ⟨a, b, ha, hb, hab⟩
  · exact .inl ⟨a, b, ha, hb, hab⟩

theorem not_relates (h : t.Relates (¬ R · ·) t' k) : ¬ t.Relates R t' k := by
  obtain ⟨a, b, ha, hb, hne⟩ := h
  rintro ⟨a', b', ha', hb', hab⟩
  obtain rfl := Option.some.inj (ha.symm.trans ha')
  obtain rfl := Option.some.inj (hb.symm.trans hb')
  exact hne hab

/-! ## What a comparison lists -/

@[simp] theorem mem_without_iff {t : Table String α} {t' : Table String β} {p : String × α} :
    p ∈ t.without t' ↔ t.get? p.1 = some p.2 ∧ p.1 ∉ t'.keys := by
  rw [without, List.mem_filter, get?_eq_some_iff, Bool.not_eq_true', ← Bool.not_eq_true,
    contains_iff]

theorem lists_without (t : Table String α) (t' : Table String β) :
    Lists ((t.without t').map (·.1)) fun k => k ∈ t.keys ∧ k ∉ t'.keys := by
  have hfilter : (t.without t').map (·.1) = t.keys.filter fun k => !t'.contains k := by
    rw [keys, List.filter_map]
    rfl
  rw [hfilter]
  refine ⟨t.nodup_keys.sublist List.filter_sublist, fun k => ?_⟩
  rw [List.mem_filter, Bool.not_eq_true', ← Bool.not_eq_true, contains_iff]

/-- The values of both tables under the keys of `t`, in its order, that `f` makes something of. -/
def pairUp (f : κ → α → β → Option γ) (t : Table κ α) (t' : Table κ β) : List γ :=
  t.entries.filterMap fun p => (t'.get? p.1).bind (f p.1 p.2)

variable {f : κ → α → β → Option γ} {name : γ → κ}

@[simp] theorem mem_pairUp_iff {c : γ} : c ∈ pairUp f t t' ↔
    ∃ k a b, t.get? k = some a ∧ t'.get? k = some b ∧ f k a b = some c := by
  rw [pairUp, List.mem_filterMap]
  constructor
  · rintro ⟨p, hp, h⟩
    obtain ⟨b, hb, hc⟩ := Option.bind_eq_some_iff.mp h
    exact ⟨p.1, p.2, b, get?_eq_some_iff.mpr hp, hb, hc⟩
  · rintro ⟨k, a, b, ha, hb, hc⟩
    exact ⟨(k, a), get?_eq_some_iff.mp ha, Option.bind_eq_some_iff.mpr ⟨b, hb, hc⟩⟩

/-- What is made is in the order of the keys, if it is named after them. -/
theorem pairUp_sublist (hname : ∀ k a b c, t'.get? k = some b → f k a b = some c → name c = k) :
    ((pairUp f t t').map name).Sublist t.keys := by
  suffices hsub : ∀ ps : List (κ × α),
      ((ps.filterMap fun p => (t'.get? p.1).bind (f p.1 p.2)).map name).Sublist
        (ps.map Prod.fst) from
    hsub t.entries
  intro ps
  induction ps with
  | nil => exact .slnil
  | cons p ps ih =>
    rw [List.filterMap_cons]
    cases hc : (t'.get? p.1).bind (f p.1 p.2) with
    | none => exact ih.cons _
    | some c =>
      obtain ⟨b, hb, hc⟩ := Option.bind_eq_some_iff.mp hc
      rw [List.map_cons, List.map_cons, hname p.1 p.2 b c hb hc]
      exact ih.cons_cons _

/-- **If `f` makes something of related values only, the names list the keys of these.** -/
theorem lists_pairUp (hname : ∀ k a b c, t'.get? k = some b → f k a b = some c → name c = k)
    (hsome : ∀ k a b, t.get? k = some a → t'.get? k = some b → ((f k a b).isSome ↔ R a b)) :
    Lists ((pairUp f t t').map name) (t.Relates R t') := by
  refine ⟨t.nodup_keys.sublist (pairUp_sublist hname), fun k => ?_⟩
  rw [List.mem_map]
  constructor
  · rintro ⟨c, hc, rfl⟩
    obtain ⟨k, a, b, ha, hb, hc⟩ := mem_pairUp_iff.mp hc
    rw [hname k a b c hb hc]
    exact ⟨a, b, ha, hb, (hsome k a b ha hb).mp (Option.isSome_of_eq_some hc)⟩
  · rintro ⟨a, b, ha, hb, hab⟩
    obtain ⟨c, hc⟩ := Option.isSome_iff_exists.mp ((hsome k a b ha hb).mpr hab)
    exact ⟨c, mem_pairUp_iff.mpr ⟨k, a, b, ha, hb, hc⟩, hname k a b c hb hc⟩

end Table

/-- The names of two tables, compared: those that came, those that went, and those whose values are
not related. -/
structure Compares [DecidableEq κ] (R : α → β → Prop) (t : Table κ α) (t' : Table κ β)
    (came went changed : List κ) : Prop where
  /-- Names of the new table only. -/
  came : Lists came fun k => k ∈ t'.keys ∧ k ∉ t.keys
  /-- Names of the old table only. -/
  went : Lists went fun k => k ∈ t.keys ∧ k ∉ t'.keys
  /-- Names of both, whose values are not related. -/
  changed : Lists changed (t.Relates (¬ R · ·) t')

namespace Compares

variable [DecidableEq κ] {R : α → β → Prop} {t : Table κ α} {t' : Table κ β}
  {came went changed kept : List κ}

/-- **Tables match if a comparison lists nothing.** -/
theorem matches_iff (h : Compares R t t' came went changed) :
    t.Matches R t' ↔ came = [] ∧ went = [] ∧ changed = [] := by
  rw [h.came.eq_nil_iff, h.went.eq_nil_iff, h.changed.eq_nil_iff, ← forall_and, ← forall_and]
  exact forall_congr' fun k => Table.rel_get?_iff

/-- **Every name has come, has gone, is changed or is kept**, and only one of these. -/
theorem parts (h : Compares R t t' came went changed) (hkept : Lists kept (t.Relates R t')) :
    Lists (came ++ went ++ changed ++ kept) fun k => k ∈ t.keys ∨ k ∈ t'.keys := by
  have hone := h.came.append h.went fun k hk hk' => hk.2 hk'.1
  have hboth := h.changed.append hkept fun k => Table.not_relates
  rw [List.append_assoc (came ++ went)]
  refine (hone.append hboth fun k hk hk' => ?_).congr fun k => ?_
  · have hmem := hk'.elim Table.Relates.mem_keys Table.Relates.mem_keys
    exact hk.elim (fun hk => hk.2 hmem.1) fun hk => hk.2 hmem.2
  · constructor
    · rintro ((hk | hk) | hk)
      · exact .inr hk.1
      · exact .inl hk.1
      · exact .inl (hk.elim Table.Relates.mem_keys Table.Relates.mem_keys).1
    · intro hk
      by_cases hold : k ∈ t.keys
      · by_cases hnew : k ∈ t'.keys
        · exact .inr (Table.relates_or R hold hnew)
        · exact .inl (.inr ⟨hold, hnew⟩)
      · exact .inl (.inl ⟨hk.resolve_left hold, hold⟩)

end Compares

end EntitySchema
