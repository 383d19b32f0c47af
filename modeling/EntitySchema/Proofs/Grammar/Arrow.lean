import EntitySchema.Grammar.Arrow
import EntitySchema.Proofs.Text.Search

/-!
# Proofs/Grammar/Arrow — which operator a definition has

    before ++ symbol ++ rest ──scanOrder──▸ the operator, before, rest

An operator is found where it was written, if no operator that is looked for as early or earlier is
in the text before it, and no character of an operator behind it
(`findOperator?_append_symbol`).  No such operator begins before the symbol and ends in it: the
second character of one that is looked for no later is never the first character of the other.
-/

namespace EntitySchema.Grammar

/-! ## Symbols -/

@[simp] theorem length_symbol (o : Operator) : o.symbol.toList.length = 2 := by cases o <;> decide

theorem symbol_ne_nil (o : Operator) : o.symbol.toList ≠ [] := by cases o <;> decide

theorem symbol_injective {o o' : Operator} (h : o.symbol.toList = o'.symbol.toList) : o = o' := by
  revert h
  cases o <;> cases o' <;> decide

theorem mem_scanOrder (o : Operator) : o ∈ scanOrder := by cases o <;> decide

/-- No symbol ends where one that is looked for no earlier begins. -/
theorem notMem_dropLast_symbol {o o' : Operator} (h : scanOrder.idxOf o ≤ scanOrder.idxOf o') :
    o.symbol.toList.getLast (symbol_ne_nil o) ∉ o'.symbol.toList.dropLast := by
  revert h
  cases o <;> cases o' <;> decide

/-! ## The search -/

/-- What is found are the parts of the text. -/
theorem eq_of_findOperator? {cs before after : List Char} {o : Operator}
    (h : findOperator? cs = some (o, before, after)) : cs = before ++ o.symbol.toList ++ after := by
  obtain ⟨o', -, hsplit⟩ := List.exists_of_findSome?_eq_some h
  obtain ⟨p, hp, heq⟩ := Option.map_eq_some_iff.mp hsplit
  obtain ⟨rfl, rfl⟩ := Prod.mk.inj heq
  exact Text.splitFirst?_eq_some hp

/-- Where there is no operator, none is found. -/
theorem findOperator?_eq_none {cs : List Char} (h : ∀ o : Operator, ¬ o.symbol.toList <:+: cs) :
    findOperator? cs = none := by
  refine List.findSome?_eq_none_iff.mpr fun o _ => ?_
  rw [Text.splitFirst?_eq_none (h o)]
  rfl

/-- An operator is found when those before it in the order are not. -/
theorem findOperator?_eq_some {cs before after : List Char} {o : Operator}
    (h : Text.splitFirst? o.symbol.toList cs = some (before, after))
    (hearlier : ∀ o', scanOrder.idxOf o' < scanOrder.idxOf o →
      Text.splitFirst? o'.symbol.toList cs = none) :
    findOperator? cs = some (o, before, after) := by
  obtain ⟨os, os', hscan, hnot⟩ := List.eq_append_cons_of_mem (mem_scanOrder o)
  refine List.findSome?_eq_some_iff.mpr ⟨os, o, os', hscan, by rw [h]; rfl, fun o' ho' => ?_⟩
  have hlt : scanOrder.idxOf o' < scanOrder.idxOf o := by
    rw [hscan, List.idxOf_append_of_mem ho', List.idxOf_append_of_notMem hnot, List.idxOf_cons_self,
      Nat.add_zero]
    exact List.idxOf_lt_length_of_mem ho'
  rw [hearlier o' hlt]
  rfl

/-- **An operator is found where it was written.** -/
theorem findOperator?_append_symbol {o : Operator} {before rest : List Char}
    (hbefore : ∀ o', scanOrder.idxOf o' ≤ scanOrder.idxOf o → ¬ o'.symbol.toList <:+: before)
    (hrest : ∀ o' : Operator, ∀ c ∈ rest, c ∉ o'.symbol.toList) :
    findOperator? (before ++ (o.symbol.toList ++ rest)) = some (o, before, rest) := by
  have hfirst : ∀ o', scanOrder.idxOf o' ≤ scanOrder.idxOf o →
      ¬ o'.symbol.toList <:+: before ++ o.symbol.toList.dropLast := fun o' hle hfound =>
    hbefore o' hle
      (Text.infix_of_infix_append (symbol_ne_nil o') (notMem_dropLast_symbol hle) hfound)
  refine findOperator?_eq_some (Text.splitFirst?_append_pattern (symbol_ne_nil o) (hfirst o le_rfl))
    fun o' hlt => Text.splitFirst?_eq_none fun hfound => ?_
  rw [← List.append_assoc] at hfound
  have hfound := Text.infix_of_infix_append (symbol_ne_nil o')
    (fun hmem => hrest o' _ hmem (List.getLast_mem _)) hfound
  -- The other symbol would be this one, or be over before its last character.
  have hsymbol := List.dropLast_append_getLast (symbol_ne_nil o)
  rw [← hsymbol, ← List.append_assoc, List.infix_concat_iff] at hfound
  obtain hsuffix | hfound := hfound
  · rw [List.append_assoc, hsymbol] at hsuffix
    have heq := (List.suffix_of_suffix_length_le hsuffix (List.suffix_append before _)
      (by simp)).eq_of_length (by simp)
    rw [symbol_injective heq] at hlt
    exact lt_irrefl _ hlt
  · exact hfirst o' hlt.le hfound

end EntitySchema.Grammar
