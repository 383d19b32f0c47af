/-!
# Table — values under distinct keys, in order of arrival

A table lists its keys in the order in which they first arrived.  Writing to a key that is present
keeps its place, so a table read from a list of pairs keeps, of pairs with equal keys, the last
value at the first place.  Main statements: `keys_insert`, `get?_insert`, `get?_erase`.
-/

namespace EntitySchema

/-! ## Lists of pairs -/

namespace Pairs

variable {κ α β : Type} [DecidableEq κ]

/-- The value of the first pair with key `k`. -/
def find? (k : κ) : List (κ × α) → Option α
  | [] => none
  | (k', a) :: ps => if k' = k then some a else find? k ps

/-- Writes `a` under `k`: in place if `k` occurs, at the end otherwise. -/
def put (k : κ) (a : α) : List (κ × α) → List (κ × α)
  | [] => [(k, a)]
  | (k', b) :: ps => if k' = k then (k', a) :: ps else (k', b) :: put k a ps

/-- Drops the first pair with key `k`. -/
def drop (k : κ) : List (κ × α) → List (κ × α)
  | [] => []
  | (k', b) :: ps => if k' = k then ps else (k', b) :: drop k ps

/-- Writes the pairs one after another into an empty list. -/
def dedup (ps : List (κ × α)) : List (κ × α) :=
  ps.foldl (fun acc p => put p.1 p.2 acc) []

/-- The keys of the pairs, in order. -/
abbrev keys (ps : List (κ × α)) : List κ := ps.map Prod.fst

theorem keys_put_of_mem (k : κ) (a : α) :
    ∀ {ps : List (κ × α)}, k ∈ keys ps → keys (put k a ps) = keys ps
  | (k', b) :: ps, h => by
      by_cases hk : k' = k
      · simp [put, hk]
      · have h' : k ∈ keys ps := by simpa [Ne.symm hk] using h
        simpa [put, hk] using keys_put_of_mem k a h'

theorem keys_put_of_not_mem (k : κ) (a : α) :
    ∀ {ps : List (κ × α)}, k ∉ keys ps → keys (put k a ps) = keys ps ++ [k]
  | [], _ => rfl
  | (k', b) :: ps, h => by
      have hk : ¬ k' = k := fun e => h (by simp [e])
      have h' : k ∉ keys ps := fun e =>
        h (by simp only [keys, List.map_cons, List.mem_cons]; exact .inr e)
      simpa [put, hk] using keys_put_of_not_mem k a h'

theorem nodup_keys_put (k : κ) (a : α) {ps : List (κ × α)} (h : (keys ps).Nodup) :
    (keys (put k a ps)).Nodup := by
  by_cases hk : k ∈ keys ps
  · rwa [keys_put_of_mem k a hk]
  · rw [keys_put_of_not_mem k a hk, List.nodup_append]
    refine ⟨h, by simp, ?_⟩
    intro x hx y hy e
    obtain rfl := List.mem_singleton.mp hy
    exact hk (e ▸ hx)

theorem keys_drop_sublist (k : κ) : ∀ (ps : List (κ × α)), (keys (drop k ps)).Sublist (keys ps)
  | [] => .slnil
  | (k', b) :: ps => by
      by_cases hk : k' = k
      · simp [drop, hk]
      · simpa [drop, hk] using keys_drop_sublist k ps

theorem nodup_keys_drop (k : κ) {ps : List (κ × α)} (h : (keys ps).Nodup) :
    (keys (drop k ps)).Nodup :=
  h.sublist (keys_drop_sublist k ps)

theorem nodup_keys_foldl_put : ∀ (ps acc : List (κ × α)), (keys acc).Nodup →
    (keys (ps.foldl (fun acc p => put p.1 p.2 acc) acc)).Nodup
  | [], _, h => h
  | p :: ps, acc, h => nodup_keys_foldl_put ps (put p.1 p.2 acc) (nodup_keys_put p.1 p.2 h)

theorem nodup_keys_dedup (ps : List (κ × α)) : (keys (dedup ps)).Nodup :=
  nodup_keys_foldl_put ps [] .nil

theorem find?_put (k : κ) (a : α) (k' : κ) : ∀ (ps : List (κ × α)),
    find? k' (put k a ps) = if k = k' then some a else find? k' ps
  | [] => rfl
  | (k₀, b) :: ps => by
      by_cases hk : k₀ = k
      · subst hk
        by_cases h : k₀ = k' <;> simp [put, find?, h]
      · by_cases h : k = k'
        · subst h
          simpa [put, find?, hk] using find?_put k a k ps
        · by_cases h₀ : k₀ = k'
          · subst h₀
            simp [put, find?, hk, h]
          · simpa [put, find?, hk, h, h₀] using find?_put k a k' ps

theorem find?_map (f : κ → α → β) (k : κ) : ∀ (ps : List (κ × α)),
    find? k (ps.map fun p => (p.1, f p.1 p.2)) = (find? k ps).map (f k)
  | [] => rfl
  | (k', a) :: ps => by
      by_cases hk : k' = k
      · subst hk
        simp [find?]
      · simpa [find?, hk] using find?_map f k ps

theorem find?_eq_none_iff (k : κ) : ∀ (ps : List (κ × α)), find? k ps = none ↔ k ∉ keys ps
  | [] => by simp [find?]
  | (k', b) :: ps => by
      by_cases hk : k' = k
      · simp [find?, hk]
      · simp [find?, hk, Ne.symm hk, find?_eq_none_iff k ps]

theorem mem_of_find?_eq_some {k : κ} {a : α} :
    ∀ {ps : List (κ × α)}, find? k ps = some a → (k, a) ∈ ps
  | (k', b) :: ps, h => by
      by_cases hk : k' = k
      · simp_all [find?]
      · exact .tail _ (mem_of_find?_eq_some (by simpa [find?, hk] using h))

theorem find?_eq_some_of_mem {k : κ} {a : α} :
    ∀ {ps : List (κ × α)}, (keys ps).Nodup → (k, a) ∈ ps → find? k ps = some a
  | (k', b) :: ps, hn, h => by
      obtain ⟨hk', hn'⟩ := List.nodup_cons.mp hn
      rcases List.mem_cons.mp h with e | h
      · obtain ⟨rfl, rfl⟩ := Prod.mk.inj e
        simp [find?]
      · have hk : ¬ k' = k := fun e => hk' (e ▸ List.mem_map.mpr ⟨(k, a), h, rfl⟩)
        simpa [find?, hk] using find?_eq_some_of_mem hn' h

theorem dedup_append_of_nodup : ∀ (ps acc : List (κ × α)), (keys (acc ++ ps)).Nodup →
    ps.foldl (fun acc p => put p.1 p.2 acc) acc = acc ++ ps
  | [], acc, _ => by simp
  | (k, a) :: ps, acc, h => by
      have hk : k ∉ keys acc := by
        intro hk
        rw [keys, List.map_append, List.nodup_append] at h
        exact h.2.2 k hk k (by simp) rfl
      have hput : put k a acc = acc ++ [(k, a)] := put_of_not_mem hk
      rw [List.foldl_cons, hput, dedup_append_of_nodup ps (acc ++ [(k, a)]) (by simpa using h)]
      simp
where
  put_of_not_mem {k : κ} {a : α} : ∀ {ps : List (κ × α)}, k ∉ keys ps → put k a ps = ps ++ [(k, a)]
    | [], _ => rfl
    | (k', b) :: ps, h => by
        have hk : ¬ k' = k := fun e => h (by simp [e])
        have h' : k ∉ keys ps := fun e =>
        h (by simp only [keys, List.map_cons, List.mem_cons]; exact .inr e)
        simp [put, hk, put_of_not_mem h']

/-- **Pairs with distinct keys are kept as they are.** -/
theorem dedup_of_nodup {ps : List (κ × α)} (h : (keys ps).Nodup) : dedup ps = ps := by
  simpa [dedup] using dedup_append_of_nodup ps [] (by simpa using h)

end Pairs

/-! ## Tables -/

/-- Values under distinct keys, in order of arrival. -/
@[ext] structure Table (κ α : Type) where
  /-- The keys with their values, in order of arrival. -/
  entries : List (κ × α)
  /-- No key occurs twice. -/
  nodup : (entries.map Prod.fst).Nodup

namespace Table

variable {κ α β : Type}

instance [DecidableEq κ] [DecidableEq α] : DecidableEq (Table κ α) := fun s t =>
  decidable_of_iff (s.entries = t.entries) ⟨Table.ext, congrArg entries⟩

/-- The table without entries. -/
def empty : Table κ α := ⟨[], .nil⟩

instance : Inhabited (Table κ α) := ⟨empty⟩

/-- The keys, in order of arrival. -/
def keys (t : Table κ α) : List κ := t.entries.map Prod.fst

/-- The values, in order of their keys' arrival. -/
def values (t : Table κ α) : List α := t.entries.map Prod.snd

/-- The number of entries. -/
def size (t : Table κ α) : Nat := t.entries.length

/-- Applies `f` to every value. -/
def mapValues (f : κ → α → β) (t : Table κ α) : Table κ β :=
  ⟨t.entries.map fun p => (p.1, f p.1 p.2), by simpa [Function.comp_def] using t.nodup⟩

/-- Keeps the entries that pass `p`. -/
def filter (p : κ → α → Bool) (t : Table κ α) : Table κ α :=
  ⟨t.entries.filter fun e => p e.1 e.2, t.nodup.sublist (List.filter_sublist.map _)⟩

section

variable [DecidableEq κ]

/-- The value under `k`. -/
def get? (t : Table κ α) (k : κ) : Option α := Pairs.find? k t.entries

/-- Whether `k` is a key. -/
def contains (t : Table κ α) (k : κ) : Bool := (t.get? k).isSome

/-- Writes `a` under `k`: in place if `k` is a key, at the end otherwise. -/
def insert (t : Table κ α) (k : κ) (a : α) : Table κ α :=
  ⟨Pairs.put k a t.entries, Pairs.nodup_keys_put k a t.nodup⟩

/-- Removes `k` and its value. -/
def erase (t : Table κ α) (k : κ) : Table κ α :=
  ⟨Pairs.drop k t.entries, Pairs.nodup_keys_drop k t.nodup⟩

/-- The table that writing the pairs one after another gives. -/
def ofList (ps : List (κ × α)) : Table κ α :=
  ⟨Pairs.dedup ps, Pairs.nodup_keys_dedup ps⟩

/-- Changes the value under `k`, if there is one. -/
def modify (t : Table κ α) (k : κ) (f : α → α) : Table κ α :=
  t.mapValues fun k' a => if k' = k then f a else a

theorem get?_insert (t : Table κ α) (k k' : κ) (a : α) :
    (t.insert k a).get? k' = if k = k' then some a else t.get? k' :=
  Pairs.find?_put k a k' t.entries

@[simp] theorem get?_insert_self (t : Table κ α) (k : κ) (a : α) :
    (t.insert k a).get? k = some a := by simp [get?_insert]

@[simp] theorem get?_mapValues (f : κ → α → β) (t : Table κ α) (k : κ) :
    (t.mapValues f).get? k = (t.get? k).map (f k) :=
  Pairs.find?_map f k t.entries

theorem get?_modify (t : Table κ α) (k k' : κ) (f : α → α) :
    (t.modify k f).get? k' = if k' = k then (t.get? k').map f else t.get? k' := by
  rw [modify, get?_mapValues]
  split
  · rfl
  · exact Option.map_id'

theorem get?_eq_none_iff {t : Table κ α} {k : κ} : t.get? k = none ↔ k ∉ t.keys :=
  Pairs.find?_eq_none_iff k t.entries

theorem contains_iff {t : Table κ α} {k : κ} : t.contains k = true ↔ k ∈ t.keys := by
  rw [contains, Option.isSome_iff_ne_none, ne_eq, get?_eq_none_iff, Classical.not_not]

theorem get?_eq_some_iff {t : Table κ α} {k : κ} {a : α} :
    t.get? k = some a ↔ (k, a) ∈ t.entries :=
  ⟨Pairs.mem_of_find?_eq_some, Pairs.find?_eq_some_of_mem t.nodup⟩

/-- **A key that is present keeps its place, a new key goes to the end.** -/
theorem keys_insert (t : Table κ α) (k : κ) (a : α) :
    (t.insert k a).keys = if k ∈ t.keys then t.keys else t.keys ++ [k] := by
  split
  · exact Pairs.keys_put_of_mem k a ‹_›
  · exact Pairs.keys_put_of_not_mem k a ‹_›

@[simp] theorem ofList_entries (t : Table κ α) : ofList t.entries = t :=
  Table.ext (Pairs.dedup_of_nodup t.nodup)

end

@[simp] theorem keys_empty : (empty : Table κ α).keys = [] := rfl

@[simp] theorem keys_mapValues (f : κ → α → β) (t : Table κ α) : (t.mapValues f).keys = t.keys := by
  simp [keys, mapValues, Function.comp_def]

end Table

end EntitySchema
