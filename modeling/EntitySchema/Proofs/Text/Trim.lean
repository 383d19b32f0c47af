import EntitySchema.Text.Split
import Mathlib.Data.List.DropRight
import Mathlib.Data.List.Infix

/-!
# Proofs/Text/Trim — what trimming keeps

A text stays as it is if it neither starts nor ends with a blank (`trim_eq_self_iff`), and blanks
put around a text are taken off again (`trim_blank_append`, `trim_append_blank`).  What is trimmed
once is trimmed (`trim_trim`), and trimming stops at any other character (`trim_append_cons`).
-/

namespace EntitySchema.Text

variable {cs bs : List Char}

theorem trimStart_blank_append (h : ∀ c ∈ bs, isBlank c) (cs : List Char) :
    trimStart (bs ++ cs) = trimStart cs :=
  List.dropWhile_append_of_pos h

theorem trimEnd_append_blank (cs : List Char) (h : ∀ c ∈ bs, isBlank c) :
    trimEnd (cs ++ bs) = trimEnd cs := by
  rw [trimEnd, List.reverse_append,
    List.dropWhile_append_of_pos fun c hc => h c (by simpa using hc)]
  rfl

theorem trimStart_eq_nil (h : ∀ c ∈ cs, isBlank c) : trimStart cs = [] :=
  List.dropWhile_eq_nil_iff.mpr h

@[simp] theorem trimStart_eq_self_iff : trimStart cs = cs ↔ ∀ c ∈ cs.head?, isBlank c = false := by
  rw [trimStart, List.dropWhile_eq_self_iff]
  cases cs <;> simp

@[simp] theorem trimEnd_eq_self_iff : trimEnd cs = cs ↔ ∀ c ∈ cs.getLast?, isBlank c = false := by
  rw [trimEnd, List.reverse_eq_iff, ← List.head?_reverse]
  exact trimStart_eq_self_iff

theorem trimEnd_append (cs : List Char) {ds : List Char} (hne : ds ≠ [])
    (h : ∀ c ∈ ds.getLast?, isBlank c = false) : trimEnd (cs ++ ds) = cs ++ ds := by
  refine trimEnd_eq_self_iff.mpr ?_
  rwa [List.getLast?_append_of_ne_nil _ hne]

/-- The end of a text that does not end with a blank does not either. -/
theorem trimEnd_of_suffix {ds : List Char} (hsuffix : ds <:+ cs) (h : trimEnd cs = cs) :
    trimEnd ds = ds := by
  obtain ⟨front, rfl⟩ := hsuffix
  rw [trimEnd_eq_self_iff] at h ⊢
  intro c hc
  have hne : ds ≠ [] := by
    rintro rfl
    exact absurd hc (by simp)
  exact h c (by rwa [List.getLast?_append_of_ne_nil _ hne])

@[simp] theorem trim_eq_self_iff : trim cs = cs ↔
    (∀ c ∈ cs.head?, isBlank c = false) ∧ ∀ c ∈ cs.getLast?, isBlank c = false := by
  rw [← trimStart_eq_self_iff, ← trimEnd_eq_self_iff]
  constructor
  · intro h
    -- Neither end grows back, so a text that comes back whole lost nothing at either.
    have hstart : trimStart cs = cs := by
      refine (List.dropWhile_suffix isBlank).eq_of_length_le ?_
      have hle : (trimEnd (trimStart cs)).length ≤ (trimStart cs).length := by
        rw [trimEnd, List.length_reverse]
        exact (List.dropWhile_suffix isBlank).length_le.trans (by rw [List.length_reverse])
      rwa [← trim, h] at hle
    refine ⟨hstart, ?_⟩
    rwa [trim, hstart] at h
  · rintro ⟨hstart, hend⟩
    rw [trim, hstart, hend]

theorem trim_blank_append (h : ∀ c ∈ bs, isBlank c) (cs : List Char) :
    trim (bs ++ cs) = trim cs := by
  rw [trim, trimStart_blank_append h, trim]

theorem trim_append_blank (cs : List Char) (h : ∀ c ∈ bs, isBlank c) :
    trim (cs ++ bs) = trim cs := by
  rw [trim, trim, trimStart, List.dropWhile_append]
  split_ifs with hnil
  · rw [List.isEmpty_iff] at hnil
    rw [trimStart, hnil, ← trimStart, trimStart_eq_nil h]
  · exact trimEnd_append_blank _ h

/-- **What is not blank at either end may be put behind a text before or after trimming.** -/
theorem trim_append {ds : List Char} (hcs : trimEnd cs = cs) (hds : trim ds = ds) :
    trim (cs ++ ds) = trim cs ++ ds := by
  obtain rfl | hne := eq_or_ne ds []
  · rw [List.append_nil, List.append_nil]
  obtain ⟨hhead, hlast⟩ := trim_eq_self_iff.mp hds
  have hstart : trimStart (cs ++ ds) = trimStart cs ++ ds := by
    rw [trimStart, List.dropWhile_append]
    split_ifs with hnil
    · rw [List.isEmpty_iff] at hnil
      rw [trimStart, hnil, List.nil_append]
      exact trimStart_eq_self_iff.mpr hhead
    · rfl
  have hkeep : trimEnd (trimStart cs) = trimStart cs :=
    trimEnd_of_suffix (List.dropWhile_suffix isBlank) hcs
  rw [trim, hstart, trimEnd_append _ hne hlast, trim, hkeep]

theorem trim_append_of_trim {ds : List Char} (hcs : trim cs = cs) (hds : trim ds = ds) :
    trim (cs ++ ds) = cs ++ ds := by
  rw [trim_append (trimEnd_eq_self_iff.mpr (trim_eq_self_iff.mp hcs).2) hds, hcs]

theorem trimEnd_isPrefix (cs : List Char) : trimEnd cs <+: cs := by
  rw [trimEnd, ← List.reverse_suffix, List.reverse_reverse]
  exact List.dropWhile_suffix isBlank

theorem trim_subset (cs : List Char) : trim cs ⊆ cs :=
  List.Subset.trans (trimEnd_isPrefix _).subset (List.dropWhile_suffix isBlank).subset

@[simp] theorem trim_trimStart (cs : List Char) : trim (trimStart cs) = trim cs :=
  congrArg trimEnd (List.dropWhile_idempotent isBlank cs)

/-- **A trimmed text is trimmed.** -/
@[simp] theorem trim_trim (cs : List Char) : trim (trim cs) = trim cs := by
  refine trim_eq_self_iff.mpr ⟨fun c hc => ?_, trimEnd_eq_self_iff.mp ?_⟩
  · have hstart : trimStart (trimStart cs) = trimStart cs := List.dropWhile_idempotent isBlank _
    obtain ⟨rest, hrest⟩ := trimEnd_isPrefix (trimStart cs)
    refine trimStart_eq_self_iff.mp hstart c ?_
    rw [← hrest, List.head?_append, ← trim, Option.mem_def.mp hc]
    rfl
  · rw [trim, trimEnd, trimEnd, List.reverse_reverse, List.dropWhile_idempotent]

/-! ## Around a character -/

/-- What is left at the end, and the blanks that were in front of it. -/
theorem exists_eq_append_trimStart (cs : List Char) :
    ∃ lead, (∀ c ∈ lead, isBlank c) ∧ cs = lead ++ trimStart cs :=
  ⟨cs.takeWhile isBlank, fun _ hc => List.mem_takeWhile_imp hc,
    List.takeWhile_append_dropWhile.symm⟩

/-- What is trimmed, and the blanks that were around it. -/
theorem exists_eq_append_trim (cs : List Char) : ∃ lead tail, (∀ c ∈ lead, isBlank c) ∧
    (∀ c ∈ tail, isBlank c) ∧ cs = lead ++ (trim cs ++ tail) := by
  refine ⟨cs.takeWhile isBlank, ((trimStart cs).reverse.takeWhile isBlank).reverse,
    fun c hc => List.mem_takeWhile_imp hc,
    fun c hc => List.mem_takeWhile_imp (List.mem_reverse.mp hc), ?_⟩
  rw [trim, trimEnd, ← List.reverse_append, List.takeWhile_append_dropWhile, List.reverse_reverse,
    trimStart, List.takeWhile_append_dropWhile]

section

variable {c : Char}

theorem trimStart_append_cons (hc : isBlank c = false) (cs ds : List Char) :
    trimStart (cs ++ c :: ds) = trimStart cs ++ c :: ds := by
  rw [trimStart, List.dropWhile_append, List.dropWhile_cons_of_neg (by simp [hc])]
  split_ifs with hnil
  · rw [List.isEmpty_iff] at hnil
    rw [trimStart, hnil, List.nil_append]
  · rfl

theorem trimEnd_append_cons (hc : isBlank c = false) (cs ds : List Char) :
    trimEnd (cs ++ c :: ds) = cs ++ c :: trimEnd ds := by
  have hreverse : (cs ++ c :: ds).reverse = ds.reverse ++ c :: cs.reverse := by simp
  rw [trimEnd, hreverse, ← trimStart, trimStart_append_cons hc]
  simp [trimEnd, trimStart]

/-- **Trimming stops at a character that is not blank.** -/
theorem trim_append_cons (hc : isBlank c = false) (cs ds : List Char) :
    trim (cs ++ c :: ds) = trimStart cs ++ c :: trimEnd ds := by
  rw [trim, trimStart_append_cons hc, trimEnd_append_cons hc]

/-- Behind a text that does not end with a blank only blanks at the end are lost. -/
theorem trim_append_of_getLast {cs : List Char} (hne : cs ≠ [])
    (h : ∀ c ∈ cs.getLast?, isBlank c = false) (ds : List Char) :
    trim (cs ++ ds) = trim cs ++ trimEnd ds := by
  obtain ⟨front, c, rfl⟩ := (List.eq_nil_or_concat' cs).resolve_left hne
  have hc : isBlank c = false := h c (by simp)
  rw [List.append_assoc, List.singleton_append, trim_append_cons hc, trim_append_cons hc]
  simp [trimEnd]

theorem mem_trim_iff (hc : isBlank c = false) {cs : List Char} : c ∈ trim cs ↔ c ∈ cs := by
  refine ⟨fun h => trim_subset cs h, fun h => ?_⟩
  obtain ⟨before, after, rfl⟩ := List.append_of_mem h
  rw [trim_append_cons hc]
  simp

end

end EntitySchema.Text
