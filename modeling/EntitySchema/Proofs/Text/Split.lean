import EntitySchema.Text.Split
import Mathlib.Data.List.Basic

/-!
# Proofs/Text/Split — pieces joined and cut again

What is joined with a character is cut at that character into the same pieces, if none of these has
the character (`splitAll_intercalate`).  What is put in front of a text or behind it gets into its
first or last piece (`splitAll_append_left`, `splitAll_append_right`).
-/

namespace EntitySchema.Text

variable {sep : Char}

theorem splitAll_of_notMem : ∀ {p : List Char}, sep ∉ p → splitAll sep p = [p]
  | [], _ => rfl
  | c :: cs, h => by
      rw [List.mem_cons, not_or] at h
      rw [splitAll, if_neg (Ne.symm h.1), splitAll_of_notMem h.2]

theorem splitAll_append (rest : List Char) : ∀ {p : List Char}, sep ∉ p →
    splitAll sep (p ++ sep :: rest) = p :: splitAll sep rest
  | [], _ => by rw [List.nil_append, splitAll, if_pos rfl]
  | c :: cs, h => by
      rw [List.mem_cons, not_or] at h
      rw [List.cons_append, splitAll, if_neg (Ne.symm h.1), splitAll_append rest h.2]

theorem splitAll_ne_nil (cs : List Char) : splitAll sep cs ≠ [] := by
  cases cs with
  | nil => simp [splitAll]
  | cons c cs =>
    rw [splitAll]
    split
    · simp
    · split <;> simp

/-- No piece has the character. -/
theorem notMem_of_mem_splitAll : ∀ {cs p : List Char}, p ∈ splitAll sep cs → sep ∉ p
  | [], p, h => by
      obtain rfl := List.mem_singleton.mp h
      exact List.not_mem_nil
  | c :: cs, p, h => by
      rw [splitAll] at h
      split_ifs at h with hc
      · obtain rfl | h := List.mem_cons.mp h
        · exact List.not_mem_nil
        · exact notMem_of_mem_splitAll h
      · rcases hsplit : splitAll sep cs with _ | ⟨q, qs⟩ <;> rw [hsplit] at h
        · obtain rfl := List.mem_singleton.mp h
          simpa using Ne.symm hc
        · obtain rfl | h := List.mem_cons.mp h
          · have hq : sep ∉ q := notMem_of_mem_splitAll (hsplit ▸ List.mem_cons_self)
            simp [Ne.symm hc, hq]
          · exact notMem_of_mem_splitAll (hsplit ▸ List.mem_cons_of_mem q h)

/-- **The pieces that were joined come back.** -/
theorem splitAll_intercalate : ∀ {ps : List (List Char)}, ps ≠ [] → (∀ p ∈ ps, sep ∉ p) →
    splitAll sep ([sep].intercalate ps) = ps
  | [], h, _ => absurd rfl h
  | [p], _, h => by
      rw [List.intercalate_singleton]
      exact splitAll_of_notMem (h p (List.mem_singleton_self p))
  | p :: q :: ps, _, h => by
      rw [List.forall_mem_cons] at h
      rw [List.intercalate_cons_cons, List.append_assoc, List.singleton_append,
        splitAll_append _ h.1, splitAll_intercalate (List.cons_ne_nil q ps) h.2]

/-- A character of the joined text is one of the separator or of a piece. -/
theorem mem_intercalate {c : Char} {sep : List Char} : ∀ {ls : List (List Char)},
    c ∈ sep.intercalate ls → c ∈ sep ∨ ∃ l ∈ ls, c ∈ l
  | [], h => by cases h
  | [l], h => by
      rw [List.intercalate_singleton] at h
      exact .inr ⟨l, List.mem_singleton_self l, h⟩
  | l :: m :: ls, h => by
      rw [List.intercalate_cons_cons, List.append_assoc, List.mem_append, List.mem_append] at h
      rcases h with h | h | h
      · exact .inr ⟨l, List.mem_cons_self .., h⟩
      · exact .inl h
      · exact (mem_intercalate h).imp_right fun ⟨n, hn, hc⟩ => ⟨n, List.mem_cons_of_mem l hn, hc⟩

theorem intercalate_cons (sep p : List Char) (qs : List (List Char)) :
    sep.intercalate (p :: qs) = p ++ qs.flatMap (sep ++ ·) := by
  induction qs generalizing p with
  | nil => rw [List.intercalate_singleton, List.flatMap_nil, List.append_nil]
  | cons q qs ih =>
    rw [List.intercalate_cons_cons, ih q, List.flatMap_cons, List.append_assoc, List.append_assoc]

/-- A piece with all that stands in front of it and behind it. -/
theorem intercalate_append_cons : ∀ (ps : List (List Char)) (p : List Char) (qs : List (List Char)),
    [sep].intercalate (ps ++ p :: qs) = ps.flatMap (· ++ [sep]) ++ (p ++ qs.flatMap (sep :: ·))
  | [], p, qs => intercalate_cons [sep] p qs
  | r :: ps, p, qs => by
      have hne : ps ++ p :: qs ≠ [] := by simp
      obtain ⟨r', rs, hrs⟩ := List.exists_cons_of_ne_nil hne
      rw [List.cons_append, hrs, List.intercalate_cons_cons, ← hrs, intercalate_append_cons ps p qs,
        List.flatMap_cons, List.append_assoc (r ++ [sep])]

/-- What is put in front of a text without the character gets into the first piece. -/
theorem splitAll_append_left (cs : List Char) : ∀ {p : List Char}, sep ∉ p →
    ∃ q qs, splitAll sep cs = q :: qs ∧ splitAll sep (p ++ cs) = (p ++ q) :: qs
  | [], _ => by
      cases hsplit : splitAll sep cs with
      | nil => exact absurd hsplit (splitAll_ne_nil cs)
      | cons q qs => exact ⟨q, qs, rfl, hsplit⟩
  | c :: p, h => by
      rw [List.mem_cons, not_or] at h
      obtain ⟨q, qs, hcs, hpcs⟩ := splitAll_append_left cs h.2
      refine ⟨q, qs, hcs, ?_⟩
      rw [List.cons_append, splitAll, if_neg (Ne.symm h.1), hpcs]
      rfl

/-- What is put behind a text without the character gets into the last piece. -/
theorem splitAll_append_right {p : List Char} (hp : sep ∉ p) : ∀ cs : List Char,
    ∃ qs q, splitAll sep cs = qs ++ [q] ∧ splitAll sep (cs ++ p) = qs ++ [q ++ p]
  | [] => ⟨[], [], rfl, splitAll_of_notMem hp⟩
  | c :: cs => by
      obtain ⟨qs, q, hcs, hcsp⟩ := splitAll_append_right hp cs
      rw [List.cons_append, splitAll, splitAll, hcs, hcsp]
      split
      · exact ⟨[] :: qs, q, rfl, rfl⟩
      · cases qs with
        | nil => exact ⟨[], c :: q, rfl, rfl⟩
        | cons r qs => exact ⟨(c :: r) :: qs, q, rfl, rfl⟩

end EntitySchema.Text
