import EntitySchema.Grammar.Union
import EntitySchema.Proofs.Grammar.Relation

/-!
# Proofs/Grammar/Bars — texts with bars, points and parentheses

    A (0.8) | B.x (1)
      └─┬─┘ │  │ └─ behind every point: no inverse field
        │   └──── between bars: blanks around a part do not count
        └──────── at the end of a part: dropped

What the parts of a union need to be read: a threshold at the end of a part is dropped
(`dropThreshold_append`), blanks around a text get lost between its bars (`barParts_trim`), and a
text in which a parenthesis is closed behind every point names no inverse field
(`PointsClosed.splitBackref`).
-/

namespace EntitySchema.Grammar

/-! ## Thresholds at the end of a text -/

theorem isBlank_of_isThresholdChar {d : Char} (h : isThresholdChar d) : Text.isBlank d = false := by
  rw [isThresholdChar, Bool.or_eq_true, decide_eq_true_iff] at h
  obtain h | rfl := h
  · exact isBlank_of_isIdentifierChar (by simp [isIdentifierChar, h])
  · decide

theorem dropThreshold_of_notMem {cs : List Char} (h : ')' ∉ cs) : dropThreshold cs = cs := by
  rw [dropThreshold]
  split
  next rest hcs =>
    have hmem : ')' ∈ cs.reverse := by
      rw [hcs]
      exact List.mem_cons_self
    exact absurd (List.mem_reverse.mp hmem) h
  · rfl

theorem dropThreshold_append (cs : List Char) {inner : List Char} (hne : inner ≠ [])
    (h : ∀ d ∈ inner, isThresholdChar d) :
    dropThreshold (cs ++ '(' :: (inner ++ [')'])) = cs := by
  have hreverse : (cs ++ '(' :: (inner ++ [')'])).reverse =
      ')' :: (inner.reverse ++ '(' :: cs.reverse) := by simp
  obtain ⟨d, digits, hdigits⟩ := List.exists_cons_of_ne_nil (List.reverse_ne_nil_iff.mpr hne)
  have hinner : ∀ e ∈ d :: digits, isThresholdChar e := fun e he =>
    h e (List.mem_reverse.mp (hdigits ▸ he))
  have hblank : ∀ e ∈ (d :: digits ++ '(' :: cs.reverse).head?, Text.isBlank e = false := by
    intro e he
    obtain rfl := Option.some.inj he
    exact isBlank_of_isThresholdChar (hinner d List.mem_cons_self)
  have hopen : Text.trimStart ('(' :: cs.reverse) = '(' :: cs.reverse :=
    Text.trimStart_eq_self_iff.mpr (by simpa using by decide)
  have hspan : (d :: digits ++ '(' :: cs.reverse).span isThresholdChar =
      (d :: digits, '(' :: cs.reverse) := Text.span_append_cons hinner (by decide) _
  rw [dropThreshold, hreverse, hdigits]
  simp only [Text.trimStart_eq_self_iff.mpr hblank, hspan, hopen, List.reverse_reverse]

theorem isIdentifierChar_of_unaliased {cs : List Char} (h : isIdentifier (unaliased cs)) :
    ∀ d ∈ cs, isIdentifierChar d := by
  rw [unaliased] at h
  split_ifs at h with hbool
  · rw [hbool]
    decide
  · exact isIdentifierChar_of_isIdentifier h

/-! ## Blanks around a text between bars -/

theorem barParts_blank_append {blanks : List Char} (h : ∀ d ∈ blanks, Text.isBlank d)
    (cs : List Char) : barParts (blanks ++ cs) = barParts cs := by
  have hbar : '|' ∉ blanks := fun hmem => absurd (h _ hmem) (by decide)
  obtain ⟨p, ps, hcs, happend⟩ := Text.splitAll_append_left cs hbar
  rw [barParts, barParts, hcs, happend, List.map_cons, List.map_cons, Text.trim_blank_append h]

theorem barParts_append_blank {blanks : List Char} (h : ∀ d ∈ blanks, Text.isBlank d)
    (cs : List Char) : barParts (cs ++ blanks) = barParts cs := by
  have hbar : '|' ∉ blanks := fun hmem => absurd (h _ hmem) (by decide)
  obtain ⟨ps, p, hcs, happend⟩ := Text.splitAll_append_right hbar cs
  rw [barParts, barParts, hcs, happend, List.map_append, List.map_append, List.map_singleton,
    List.map_singleton, Text.trim_append_blank p h]

@[simp] theorem barParts_trim (cs : List Char) : barParts (Text.trim cs) = barParts cs := by
  obtain ⟨lead, tail, hlead, htail, hcs⟩ := Text.exists_eq_append_trim cs
  conv_rhs => rw [hcs, barParts_blank_append hlead, barParts_append_blank htail]

/-! ## Points inside parentheses -/

/-- Every point has a closing parenthesis behind it. -/
def PointsClosed (cs : List Char) : Prop :=
  ∀ before after, cs = before ++ '.' :: after → ')' ∈ after

theorem pointsClosed_of_notMem {cs : List Char} (h : '.' ∉ cs) : PointsClosed cs := by
  rintro before after rfl
  simp at h

theorem PointsClosed.append {cs ds : List Char} (hcs : PointsClosed cs) (hds : PointsClosed ds) :
    PointsClosed (cs ++ ds) := by
  intro before after heq
  obtain ⟨gap, rfl, rfl⟩ | ⟨gap, rfl, hgap⟩ := List.append_eq_append_iff.mp heq
  · exact hds gap after rfl
  · match gap with
    | [] => exact hds [] after hgap.symm
    | d :: gap =>
      obtain ⟨rfl, rfl⟩ := List.cons.inj hgap
      exact List.mem_append_left ds (hcs before gap rfl)

theorem pointsClosed_concat (cs : List Char) : PointsClosed (cs ++ [')']) := by
  intro before after heq
  obtain ⟨zs, -, rfl⟩ := Text.exists_of_append_eq_append_cons (by decide) heq
  exact List.mem_append_right zs (List.mem_singleton_self ')')

theorem PointsClosed.intercalate {sep : Char} (hsep : '.' ≠ sep) : ∀ {ts : List (List Char)},
    (∀ t ∈ ts, PointsClosed t) → PointsClosed ([sep].intercalate ts)
  | [], _ => pointsClosed_of_notMem List.not_mem_nil
  | [t], h => by
      rw [List.intercalate_singleton]
      exact h t (List.mem_singleton_self t)
  | t :: u :: ts, h => by
      rw [List.forall_mem_cons] at h
      rw [List.intercalate_cons_cons]
      have hbar : PointsClosed [sep] := pointsClosed_of_notMem (by simpa using hsep)
      exact (h.1.append hbar).append (intercalate hsep h.2)

theorem PointsClosed.trim {cs : List Char} (h : PointsClosed cs) : PointsClosed (Text.trim cs) := by
  intro before after heq
  obtain ⟨lead, tail, -, htail, hcs⟩ := Text.exists_eq_append_trim cs
  have hmem : ')' ∈ after ++ tail := h (lead ++ before) (after ++ tail) (by rw [hcs, heq]; simp)
  exact (List.mem_append.mp hmem).resolve_right fun hblank => absurd (htail _ hblank) (by decide)

/-- Such a text names no inverse field. -/
theorem PointsClosed.splitBackref {cs : List Char} (h : PointsClosed cs) :
    splitBackref cs = (cs, none) := by
  match hsplit : Grammar.splitBackref cs with
  | (type, some backref) =>
    obtain ⟨-, heq, -, -, hident⟩ := splitBackref_eq_some_iff.mp hsplit
    exact absurd (isIdentifierChar_of_isIdentifier hident _ (h _ _ heq)) (by decide)
  | (type, none) => rw [eq_of_splitBackref_eq_none hsplit]

/-! ## Closing parentheses -/

/-- A threshold can be taken out of the text, and no other is left: behind a closing parenthesis
stands neither another one nor the end of a line. -/
def ClosesOnce (cs : List Char) : Prop :=
  ∀ before after, cs = before ++ ')' :: after → ')' ∉ after ∧ '\n' ∉ after

theorem closesOnce_of_notMem {cs : List Char} (h : ')' ∉ cs) : ClosesOnce cs := by
  rintro before after rfl
  simp at h

theorem closesOnce_append_cons {cs ds : List Char} (h : ')' ∉ cs) :
    ClosesOnce (cs ++ ')' :: ds) ↔ ')' ∉ ds ∧ '\n' ∉ ds := by
  refine ⟨fun hcloses => hcloses cs ds rfl, fun hds before after heq => ?_⟩
  obtain ⟨gap, rfl, hgap⟩ | ⟨gap, rfl, hgap⟩ := List.append_eq_append_iff.mp heq
  · match gap with
    | [] => rwa [← (List.cons.inj hgap).2]
    | d :: gap => exact absurd ((List.cons.inj hgap).2 ▸ by simp) hds.1
  · match gap with
    | [] => rwa [(List.cons.inj hgap).2]
    | d :: gap =>
      obtain ⟨rfl, -⟩ := List.cons.inj hgap
      exact absurd (by simp) h

end EntitySchema.Grammar
