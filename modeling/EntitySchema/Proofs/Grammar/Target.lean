import EntitySchema.Grammar.Definition
import EntitySchema.Proofs.Text.Search

/-!
# Proofs/Grammar/Target — the parts of a target

A target is cut at its first point if an identifier stands behind it and a name before it
(`splitBackref_eq_some_iff`).  So a field that names an inverse field gives it a name and a target
(`Field.backref_parse`).
-/

namespace EntitySchema

theorem ofList_ne_empty {cs : List Char} (h : cs ≠ []) : String.ofList cs ≠ "" := fun heq =>
  h (String.ofList_injective heq)

namespace Grammar

/-- A text without a point has no inverse field. -/
theorem splitBackref_of_notMem {cs : List Char} (h : '.' ∉ cs) : splitBackref cs = (cs, none) := by
  rw [splitBackref]
  split
  · rfl
  · rw [Text.span_ne_of_notMem h]
    cases cs <;> rfl

/-- **A name, a point and an identifier, unless it is a web address.** -/
theorem splitBackref_eq_some_iff {cs type backref : List Char} :
    splitBackref cs = (type, some backref) ↔ isAddress cs = false ∧ cs = type ++ '.' :: backref ∧
      type ≠ [] ∧ '.' ∉ type ∧ isIdentifier backref := by
  constructor
  · intro h
    rw [splitBackref] at h
    split_ifs at h with haddress
    · exact absurd (Prod.mk.inj h).2 (by simp)
    · obtain ⟨-, hspan⟩ | ⟨before, after, rfl, hbefore, hspan⟩ := Text.exists_span_ne_eq '.' cs
      · rw [hspan] at h
        cases cs <;> exact absurd (Prod.mk.inj h).2 (by simp)
      · rw [hspan] at h
        cases before with
        | nil => exact absurd (Prod.mk.inj h).2 (by simp)
        | cons c before =>
          change (if isIdentifier after = true then (c :: before, some after) else _) = _ at h
          split_ifs at h with hident
          · obtain ⟨rfl, hsome⟩ := Prod.mk.inj h
            obtain rfl := Option.some.inj hsome
            exact ⟨by simpa using haddress, rfl, by simp, hbefore, hident⟩
          · exact absurd (Prod.mk.inj h).2 (by simp)
  · rintro ⟨haddress, rfl, hne, hnot, hident⟩
    obtain ⟨c, type, rfl⟩ := List.exists_cons_of_ne_nil hne
    rw [splitBackref, haddress, if_neg (by simp), Text.span_ne_append_cons hnot]
    exact if_pos hident

/-- Without an inverse field nothing is cut off. -/
theorem eq_of_splitBackref_eq_none {cs type : List Char} (h : splitBackref cs = (type, none)) :
    type = cs := by
  rw [splitBackref] at h
  split at h
  · exact (Prod.mk.inj h).1.symm
  · split at h
    · split at h
      · exact absurd (Prod.mk.inj h).2 (by simp)
      · exact (Prod.mk.inj h).1.symm
    · exact (Prod.mk.inj h).1.symm

theorem ne_nil_of_isIdentifier {cs : List Char} (h : isIdentifier cs) : cs ≠ [] := by
  rintro rfl
  exact absurd h (by simp [isIdentifier])

theorem unaliased_ne_nil {cs : List Char} (h : cs ≠ []) : unaliased cs ≠ [] := by
  rw [unaliased]
  split
  · simp
  · exact h

theorem ne_nil_of_mem_barParts {cs part : List Char} (h : part ∈ barParts cs) : part ≠ [] := by
  simpa using (List.mem_filter.mp h).2

/-- A union has candidates. -/
theorem candidates?_ne_nil (cs : List Char) : candidates? cs ≠ some [] := by
  intro h
  obtain ⟨hlength, hparts⟩ := Option.ite_none_right_eq_some.mp h
  rw [List.map_eq_nil_iff.mp (Option.some.inj hparts)] at hlength
  exact absurd hlength (by decide)

/-- The first of several candidates has a name. -/
theorem ne_empty_of_candidates? {cs : List Char} {type : String} {types : List String}
    (h : candidates? cs = some (type :: types)) : type ≠ "" := by
  obtain ⟨-, hparts⟩ := Option.ite_none_right_eq_some.mp h
  have hmem : type ∈ (barParts (splitBackref (stripModifiers cs).1).1).map String.ofList := by
    rw [Option.some.inj hparts]
    exact List.mem_cons_self
  obtain ⟨part, hpart, rfl⟩ := List.mem_map.mp hmem
  exact ofList_ne_empty (ne_nil_of_mem_barParts hpart)

end Grammar

open Grammar

theorem Arrow.parse?_eq (definition : String) : Arrow.parse? definition =
    (findOperator? definition.toList).map fun p =>
      { operator := p.1
        target := .ofList (takeThreshold (Text.trim p.2.2)).1
        unionTypes := candidates? (takeThreshold (Text.trim p.2.2)).1
        threshold := (takeThreshold (Text.trim p.2.2)).2
        prompt := nonempty? (Text.trim p.2.1) } := rfl

/-- **An inverse field that is asked for has a name, and so has its target.** -/
def Relation.BackrefNamed (r : Relation) : Prop :=
  ∀ backref, r.backref = some backref → backref ≠ "" ∧ r.relatedType ≠ ""

namespace Field

theorem backrefNamed_relationField {name : String} {arrow : Arrow}
    (harrow : ∀ type types, arrow.unionTypes = some (type :: types) → type ≠ "") {r : Relation}
    (hr : (relationField name arrow).relation? = some r) : r.BackrefNamed := by
  simp only [relationField, relation?, Shape.relation?, Option.some.injEq] at hr
  -- The parts stay a variable: their computation is not to be unfolded.
  generalize hparts : splitBackref (stripModifiers arrow.target.toList).1 = parts at hr
  obtain ⟨before, behind⟩ := parts
  subst hr
  intro backref hbackref
  obtain ⟨b, rfl, rfl⟩ := Option.map_eq_some_iff.mp hbackref
  obtain ⟨-, -, htype, -, hident⟩ := splitBackref_eq_some_iff.mp hparts
  refine ⟨ofList_ne_empty (ne_nil_of_isIdentifier hident), ?_⟩
  dsimp only
  rcases hunion : arrow.unionTypes with _ | _ | ⟨type, types⟩
  · exact ofList_ne_empty (unaliased_ne_nil htype)
  · exact ofList_ne_empty (unaliased_ne_nil htype)
  · exact harrow type types hunion

theorem backrefNamed_plainField {name : String} {text : List Char} {r : Relation}
    (hr : (plainField name text).relation? = some r) : r.BackrefNamed := by
  intro backref hbackref
  rw [plainField.eq_def] at hr
  dsimp only at hr
  split at hr
  · exact absurd hr (by simp [relation?, Shape.relation?])
  · split at hr
    · exact absurd hr (by simp [relation?, Shape.relation?])
    · split at hr
      · exact absurd hr (by simp [relation?, Shape.relation?])
      · rw [namedShape.eq_def] at hr
        split at hr
        next type b hsplit =>
          obtain ⟨-, -, htype, -, hident⟩ := splitBackref_eq_some_iff.mp hsplit
          obtain rfl := Option.some.inj hr
          obtain rfl := Option.some.inj hbackref
          exact ⟨ofList_ne_empty (ne_nil_of_isIdentifier hident), ofList_ne_empty htype⟩
        · dsimp only at hr
          split at hr
          · obtain rfl := Option.some.inj hr
            exact absurd hbackref (by simp)
          · exact absurd hr (by simp [relation?, Shape.relation?])

theorem backrefNamed_parse {name definition : String} {r : Relation}
    (hr : (parse name definition).relation? = some r) : r.BackrefNamed := by
  rw [parse] at hr
  cases harrow : Arrow.parse? definition with
  | none =>
    rw [harrow] at hr
    exact backrefNamed_plainField hr
  | some arrow =>
    rw [harrow] at hr
    refine backrefNamed_relationField (fun type types hunion => ?_) hr
    rw [Arrow.parse?_eq] at harrow
    obtain ⟨p, -, rfl⟩ := Option.map_eq_some_iff.mp harrow
    dsimp only at hunion
    exact ne_empty_of_candidates? hunion

theorem backrefNamed_of_ofValue {name : String} {v : Value} {f : Field}
    (h : ofValue name v = .ok f) {r : Relation} (hr : f.relation? = some r) : r.BackrefNamed := by
  unfold ofValue at h
  split at h
  · obtain rfl := Except.ok.inj h
    exact backrefNamed_parse hr
  · obtain rfl := Except.ok.inj h
    exact backrefNamed_parse hr
  · exact absurd h (by simp)
  · exact absurd h (by simp)

end Field

end EntitySchema
