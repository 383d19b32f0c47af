import EntitySchema.Text.Split
import Mathlib.Data.List.Infix
import Mathlib.Data.List.TakeWhile

/-!
# Proofs/Text/Search — texts cut at their first match

Cutting a text at a pattern gives it back when it is put together again
(`splitFirst?_eq_some`).  The first match is where no earlier one begins
(`splitFirst?_append_pattern`), and text behind it that has no character of the pattern changes
nothing (`splitFirst?_append`).
-/

namespace EntitySchema.Text

variable {pat cs ds rest : List Char}

/-- A character that is not in the text behind was in front of it. -/
theorem exists_of_append_eq_append_cons {c : Char} {before after : List Char} (hc : c ∉ ds)
    (h : cs ++ ds = before ++ c :: after) :
    ∃ zs, cs = before ++ c :: zs ∧ after = zs ++ ds := by
  obtain ⟨gap, rfl, rfl⟩ | ⟨gap, rfl, hgap⟩ := List.append_eq_append_iff.mp h
  · exact absurd (by simp) hc
  · match gap with
    | [] =>
      rw [List.nil_append] at hgap
      exact absurd (hgap ▸ List.mem_cons_self) hc
    | d :: zs =>
      obtain ⟨rfl, rfl⟩ := List.cons.inj hgap
      exact ⟨zs, rfl, rfl⟩

/-- A match that would end in the text behind ends before it. -/
theorem infix_of_infix_append (hne : pat ≠ []) (hds : pat.getLast hne ∉ ds)
    (h : pat <:+: cs ++ ds) : pat <:+: cs := by
  obtain ⟨before, after, heq⟩ := h
  have hcut (rest : List Char) :
      before ++ pat ++ rest = (before ++ pat.dropLast) ++ pat.getLast hne :: rest := by
    conv_lhs => rw [← List.dropLast_append_getLast hne]
    simp
  obtain ⟨rest, rfl, -⟩ := exists_of_append_eq_append_cons hds (heq.symm.trans (hcut after))
  exact ⟨before, rest, hcut rest⟩

/-! ## The longest start -/

section

variable {p : Char → Bool}

theorem span_append_cons {d : Char} (h : ∀ c ∈ cs, p c) (hd : p d = false) (ds : List Char) :
    (cs ++ d :: ds).span p = (cs, d :: ds) := by
  rw [List.span_eq_takeWhile_dropWhile, List.takeWhile_append_of_pos h,
    List.dropWhile_append_of_pos h, List.takeWhile_cons_of_neg (by simp [hd]),
    List.dropWhile_cons_of_neg (by simp [hd]), List.append_nil]

theorem span_of_all (h : ∀ c ∈ cs, p c) : cs.span p = (cs, []) := by
  rw [List.span_eq_takeWhile_dropWhile, List.takeWhile_eq_self_iff.mpr h,
    List.dropWhile_eq_nil_iff.mpr h]

/-- The longest start and what stands behind it are the text. -/
theorem eq_of_span {before after : List Char} (h : cs.span p = (before, after)) :
    cs = before ++ after ∧ ∀ c ∈ before, p c := by
  rw [List.span_eq_takeWhile_dropWhile] at h
  obtain ⟨rfl, rfl⟩ := Prod.mk.inj h
  exact ⟨List.takeWhile_append_dropWhile.symm, fun c hc => List.mem_takeWhile_imp hc⟩

/-- A text is all of one kind, or its first character of another kind cuts it. -/
theorem exists_span_eq (p : Char → Bool) (cs : List Char) :
    ((∀ c ∈ cs, p c) ∧ cs.span p = (cs, [])) ∨
      ∃ before d after, cs = before ++ d :: after ∧ (∀ c ∈ before, p c) ∧ p d = false ∧
        cs.span p = (before, d :: after) := by
  induction cs with
  | nil => exact .inl ⟨by simp, rfl⟩
  | cons c cs ih =>
    by_cases hc : p c
    · obtain ⟨hall, -⟩ | ⟨before, d, after, rfl, hbefore, hd, -⟩ := ih
      · have hall' : ∀ x ∈ c :: cs, p x := List.forall_mem_cons.mpr ⟨hc, hall⟩
        exact .inl ⟨hall', span_of_all hall'⟩
      · have hbefore' : ∀ x ∈ c :: before, p x := List.forall_mem_cons.mpr ⟨hc, hbefore⟩
        exact .inr ⟨c :: before, d, after, rfl, hbefore', hd, span_append_cons hbefore' hd after⟩
    · have hc' : p c = false := by simpa using hc
      exact .inr ⟨[], c, cs, rfl, by simp, hc', span_append_cons (List.forall_mem_nil _) hc' cs⟩

end

/-! ## Up to a character -/

section

variable {d : Char}

theorem forall_ne_iff_notMem : (∀ c ∈ cs, decide (c ≠ d) = true) ↔ d ∉ cs := by
  refine ⟨fun h hmem => absurd (h d hmem) (by simp), fun h c hc => decide_eq_true ?_⟩
  rintro rfl
  exact h hc

theorem span_ne_append_cons (h : d ∉ cs) (ds : List Char) :
    (cs ++ d :: ds).span (· ≠ d) = (cs, d :: ds) :=
  span_append_cons (forall_ne_iff_notMem.mpr h) (by simp) ds

theorem span_ne_of_notMem (h : d ∉ cs) : cs.span (· ≠ d) = (cs, []) :=
  span_of_all (forall_ne_iff_notMem.mpr h)

/-- A text is cut where a character stands first, if it has that character. -/
theorem exists_span_ne_eq (d : Char) (cs : List Char) :
    (d ∉ cs ∧ cs.span (· ≠ d) = (cs, [])) ∨
      ∃ before after, cs = before ++ d :: after ∧ d ∉ before ∧
        cs.span (· ≠ d) = (before, d :: after) := by
  obtain ⟨hall, hspan⟩ | ⟨before, e, after, rfl, hbefore, he, hspan⟩ := exists_span_eq (· ≠ d) cs
  · exact .inl ⟨forall_ne_iff_notMem.mp hall, hspan⟩
  · obtain rfl : e = d := by simpa using he
    exact .inr ⟨before, after, rfl, forall_ne_iff_notMem.mp hbefore, hspan⟩

end

/-! ## A pattern at the start -/

@[simp] theorem dropLead?_eq_some_iff : ∀ {pat cs : List Char},
    dropLead? pat cs = some rest ↔ cs = pat ++ rest
  | [], cs => by simp [dropLead?]
  | _ :: _, [] => by simp [dropLead?]
  | p :: pat, c :: cs => by
      rw [dropLead?]
      split_ifs with hpc
      · rw [dropLead?_eq_some_iff, hpc, List.cons_append, List.cons.injEq, eq_self, true_and]
      · simp [Ne.symm hpc]

@[simp] theorem dropLead?_eq_none_iff : dropLead? pat cs = none ↔ ¬ pat <+: cs := by
  rw [← not_iff_not, ← ne_eq, Option.ne_none_iff_exists', not_not]
  exact exists_congr fun rest => dropLead?_eq_some_iff.trans eq_comm

@[simp] theorem dropLead?_append_cons (cs : List Char) (c : Char) (rest : List Char) :
    dropLead? (cs ++ [c]) (cs ++ c :: rest) = some rest :=
  dropLead?_eq_some_iff.mpr (List.append_cons cs c rest)

@[simp] theorem dropTail?_append (pat cs : List Char) : dropTail? pat (cs ++ pat) = some cs := by
  rw [dropTail?, List.reverse_append, dropLead?_eq_some_iff.mpr rfl, Option.map_some,
    List.reverse_reverse]

/-- Behind the end of a text a pattern goes on only with its own characters. -/
theorem dropLead?_append (hds : ∀ c ∈ ds.head?, c ∉ pat) :
    dropLead? pat (cs ++ ds) = (dropLead? pat cs).map (· ++ ds) := by
  induction pat generalizing cs with
  | nil => rfl
  | cons p pat ih =>
    match cs with
    | [] =>
      match ds with
      | [] => rfl
      | d :: ds =>
        have hpd : ¬ p = d := by
          rintro rfl
          exact hds p rfl List.mem_cons_self
        exact if_neg hpd
    | c :: cs =>
      rw [List.cons_append, dropLead?, dropLead?]
      split
      · exact ih fun c hc hmem => hds c hc (List.mem_cons_of_mem _ hmem)
      · rfl

/-! ## A pattern anywhere -/

theorem splitFirst?_eq_some : ∀ {cs before after : List Char},
    splitFirst? pat cs = some (before, after) → cs = before ++ pat ++ after
  | [], before, after, h => by
      rw [splitFirst?] at h
      obtain ⟨hpat, hparts⟩ := Option.ite_none_right_eq_some.mp h
      obtain ⟨rfl, rfl⟩ := Prod.mk.inj (Option.some.inj hparts)
      simp [hpat]
  | c :: cs, before, after, h => by
      rw [splitFirst?] at h
      rcases hlead : dropLead? pat (c :: cs) with _ | rest <;> rw [hlead] at h
      · obtain ⟨⟨b, a⟩, hsplit, heq⟩ := Option.map_eq_some_iff.mp h
        obtain ⟨rfl, rfl⟩ := Prod.mk.inj heq
        rw [splitFirst?_eq_some hsplit]
        rfl
      · obtain ⟨rfl, rfl⟩ := Prod.mk.inj (Option.some.inj h)
        exact dropLead?_eq_some_iff.mp hlead

theorem splitFirst?_eq_none (h : ¬ pat <:+: cs) : splitFirst? pat cs = none := by
  match hsplit : splitFirst? pat cs with
  | none => rfl
  | some (before, after) => exact absurd ⟨before, after, (splitFirst?_eq_some hsplit).symm⟩ h

/-- **The first match is where no earlier one begins.** -/
theorem splitFirst?_append_pattern {after : List Char} (hpat : pat ≠ []) :
    ∀ {before : List Char}, ¬ pat <:+: before ++ pat.dropLast →
      splitFirst? pat (before ++ (pat ++ after)) = some (before, after)
  | [], _ => by
      obtain ⟨p, ps, rfl⟩ := List.exists_cons_of_ne_nil hpat
      have hlead : dropLead? (p :: ps) (p :: ps ++ after) = some after :=
        dropLead?_eq_some_iff.mpr rfl
      rw [List.nil_append, List.cons_append, splitFirst?, ← List.cons_append, hlead]
  | c :: before, h => by
      have hlead : dropLead? pat (c :: before ++ (pat ++ after)) = none := by
        refine dropLead?_eq_none_iff.mpr fun hstart => h ?_
        -- A match at the head is over before the last character of the pattern behind it.
        have hle : pat.length ≤ (c :: before ++ pat.dropLast).length := by
          simp only [List.length_append, List.length_cons, List.length_dropLast]
          omega
        have hcut : c :: before ++ pat.dropLast <+: c :: before ++ (pat ++ after) :=
          (List.prefix_append_right_inj _).mpr
            ((List.dropLast_prefix pat).trans (List.prefix_append _ _))
        exact (List.prefix_of_prefix_length_le hstart hcut hle).isInfix
      have htail : ¬ pat <:+: before ++ pat.dropLast := fun hfound =>
        h (hfound.trans (List.suffix_cons c _).isInfix)
      rw [List.cons_append, splitFirst?, ← List.cons_append, hlead]
      rw [splitFirst?_append_pattern hpat htail]
      rfl

/-- **Text without a character of the pattern changes nothing behind a text.** -/
theorem splitFirst?_append (hpat : pat ≠ []) (hds : ∀ c ∈ ds, c ∉ pat) : ∀ cs : List Char,
    splitFirst? pat (cs ++ ds) =
      (splitFirst? pat cs).map fun (before, after) => (before, after ++ ds)
  | [] => by
      have hnone : ¬ pat <:+: ds := fun hfound => by
        obtain ⟨p, hp⟩ := List.exists_mem_of_ne_nil _ hpat
        exact hds p (hfound.subset hp) hp
      rw [List.nil_append, splitFirst?_eq_none hnone, splitFirst?, if_neg hpat]
      rfl
  | c :: cs => by
      have hlead : dropLead? pat (c :: cs ++ ds) = _ :=
        dropLead?_append fun d hd => hds d (List.mem_of_mem_head? hd)
      rw [List.cons_append, splitFirst?, splitFirst?, ← List.cons_append, hlead]
      cases dropLead? pat (c :: cs) with
      | some rest => rfl
      | none =>
        rw [splitFirst?_append hpat hds cs, Option.map_none, Option.map_map, Option.map_map]
        rfl

end EntitySchema.Text
