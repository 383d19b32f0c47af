import EntitySchema.Proofs.Grammar.Arrow
import EntitySchema.Proofs.Grammar.Modifier
import EntitySchema.Proofs.Grammar.Target
import EntitySchema.Proofs.Grammar.Threshold

/-!
# Proofs/Grammar/Suffix — definitions with modifiers behind them

    definition ++ spelled ws ──operator, threshold, candidates──▸ the same, with ws still behind
                             ──stripModifiers──▸ the same, with the flags of ws

No part of the grammar but the last one looks at modifiers: operators, thresholds and brackets are
written with other characters.  So a word of modifiers behind a definition only adds its flags
(`Field.parse_append`), unless the definition is free text, where it is part of the text.
-/

namespace EntitySchema

open Modifier

namespace Grammar

variable {ws : List Modifier}

/-! ## Operators -/

theorem notMem_symbol_of_mem_modifierChars (o : Operator) :
    ∀ c ∈ modifierChars, c ∉ o.symbol.toList := by
  cases o <;> decide

/-- The operator stays where it is, and the modifiers are behind it. -/
@[simp] theorem findOperator?_append (cs : List Char) (ws : List Modifier) :
    findOperator? (cs ++ spelled ws) =
      (findOperator? cs).map fun p => (p.1, p.2.1, p.2.2 ++ spelled ws) := by
  rw [findOperator?, findOperator?, List.map_findSome?]
  refine congrArg (fun f => scanOrder.findSome? f) (funext fun o => ?_)
  rw [Function.comp_apply, Text.splitFirst?_append (symbol_ne_nil o) fun c hc =>
    notMem_symbol_of_mem_modifierChars o c (mem_modifierChars hc), Option.map_map, Option.map_map]
  rfl

/-! ## Thresholds -/

/-- A threshold is closed before the modifiers begin. -/
@[simp] theorem splitThreshold?_append (cs : List Char) (ws : List Modifier) :
    splitThreshold? (cs ++ spelled ws) =
      (splitThreshold? cs).map fun p => (p.1, p.2.1, p.2.2 ++ spelled ws) := by
  have hclose : ∀ {c : Char}, c ∈ spelled ws → c ≠ ')' ∧ c ≠ '\n' := fun {c} hc =>
    (by decide : ∀ c ∈ modifierChars, c ≠ ')' ∧ c ≠ '\n') c (mem_modifierChars hc)
  refine Option.ext fun ⟨before, inner, behind⟩ => ?_
  rw [splitThreshold?_eq_some_iff, Option.map_eq_some_iff]
  constructor
  · rintro ⟨heq, hne, hnot, hinner, hdigits, hline⟩
    rw [← List.cons_append, ← List.append_assoc] at heq
    obtain ⟨after, rfl, rfl⟩ :=
      Text.exists_of_append_eq_append_cons (fun hmem => (hclose hmem).1 rfl) heq
    refine ⟨(before, inner, after), splitThreshold?_eq_some_iff.mpr
      ⟨by simp, hne, hnot, hinner, hdigits, fun hmem => hline (List.mem_append_left _ hmem)⟩, rfl⟩
  · rintro ⟨⟨b, i, after⟩, hsplit, hparts⟩
    obtain ⟨hb, hbehind⟩ := Prod.mk.inj hparts
    obtain ⟨hi, rfl⟩ := Prod.mk.inj hbehind
    subst hb hi
    obtain ⟨rfl, hne, hnot, hinner, hdigits, hline⟩ := splitThreshold?_eq_some_iff.mp hsplit
    refine ⟨by simp, hne, hnot, hinner, hdigits, ?_⟩
    rw [List.mem_append, not_or]
    exact ⟨hline, fun hmem => (hclose hmem).2 rfl⟩

@[simp] theorem takeThreshold_append (cs : List Char) (ws : List Modifier) :
    takeThreshold (cs ++ spelled ws) =
      ((takeThreshold cs).1 ++ spelled ws, (takeThreshold cs).2) := by
  rw [takeThreshold, takeThreshold, splitThreshold?_append]
  match splitThreshold? cs with
  | none => rfl
  | some (before, inner, after) =>
    dsimp only [Option.map_some]
    match threshold? inner with
    | none => rfl
    | some t => simp only [List.append_assoc]

@[simp] theorem candidates?_append (cs : List Char) (ws : List Modifier) :
    candidates? (cs ++ spelled ws) = candidates? cs := by
  rw [candidates?, candidates?, stripModifiers_append]

end Grammar

open Grammar

/-- A definition that does not end with a blank keeps its parts, and its target gets the
modifiers. -/
theorem Arrow.parse?_append {definition : String}
    (h : Text.trimEnd definition.toList = definition.toList) (ws : List Modifier) :
    Arrow.parse? (definition ++ .ofList (spelled ws)) = (Arrow.parse? definition).map fun a =>
      { a with target := a.target ++ .ofList (spelled ws) } := by
  rw [parse?_eq, parse?_eq, String.toList_append, String.toList_ofList, findOperator?_append]
  match hfind : findOperator? definition.toList with
  | none => rfl
  | some (o, before, after) =>
    have hafter : Text.trimEnd after = after :=
      Text.trimEnd_of_suffix ⟨_, (eq_of_findOperator? hfind).symm⟩ h
    have htrim := Text.trim_append hafter (trim_spelled ws)
    simp only [Option.map_some, htrim, takeThreshold_append, candidates?_append,
      String.ofList_append]

namespace Field

/-- The field with the flags of the word `ws`. -/
def modified (f : Field) (ws : List Modifier) : Field :=
  { f with modifiers := f.modifiers.addAll ws }

theorem relationField_append (name : String) (a : Arrow) (ws : List Modifier) :
    relationField name { a with target := a.target ++ .ofList (spelled ws) } =
      (relationField name a).modified ws := by
  rw [relationField, relationField]
  dsimp only
  rw [String.toList_append, String.toList_ofList, stripModifiers_append]
  rfl

theorem plainField_append {name : String} {text : List Char}
    (h : ' ' ∉ text ∨ (∃ sizes, (plainField name text).shape = .parametric sizes) ∨
      ∃ arguments, (plainField name text).shape = .generic arguments) (ws : List Modifier) :
    plainField name (text ++ spelled ws) = (plainField name text).modified ws := by
  have hspace : (text ++ spelled ws).contains ' ' = text.contains ' ' := by
    have hnot : ' ' ∉ spelled ws := fun hmem => by
      exact absurd (mem_modifierChars hmem) (by decide)
    simp [List.contains_eq_mem, hnot]
  rw [plainField.eq_def] at h ⊢
  rw [plainField.eq_def name text, stripModifiers_append, hspace]
  dsimp only at h ⊢
  cases hparametric : parametric? (stripModifiers text).1 with
  | some p => rfl
  | none =>
    cases hgeneric : generic? (stripModifiers text).1 with
    | some p => rfl
    | none =>
      rw [hparametric, hgeneric] at h
      dsimp only at h ⊢
      split_ifs with hfree
      · rw [if_pos hfree] at h
        simp [List.contains_iff_mem.mp hfree] at h
      · rfl

/-- **A word of modifiers behind a definition adds its flags and nothing else**, if the definition
is no free text: it has an operator, or no space, or is a parametric or a generic type.  So neither
the order of modifiers nor their number matters, and a list of a definition is the definition with
the modifier of an array. -/
theorem parse_append {name definition : String}
    (htrim : Text.trim definition.toList = definition.toList)
    (h : (Arrow.parse? definition).isSome ∨ ' ' ∉ definition.toList ∨
      (∃ sizes, (parse name definition).shape = .parametric sizes) ∨
      ∃ arguments, (parse name definition).shape = .generic arguments) :
    (∀ ws, parse name (definition ++ .ofList (spelled ws)) =
      { parse name definition with modifiers := (parse name definition).modifiers.addAll ws }) ∧
    (∀ ws ws', (∀ w, w ∈ ws ↔ w ∈ ws') → parse name (definition ++ .ofList (spelled ws)) =
      parse name (definition ++ .ofList (spelled ws'))) ∧
    ofValue name (.list [.text definition]) = ofValue name (.text (definition ++ "[]")) := by
  have hend : Text.trimEnd definition.toList = definition.toList :=
    Text.trimEnd_eq_self_iff.mpr (Text.trim_eq_self_iff.mp htrim).2
  have hparse : ∀ ws, parse name (definition ++ .ofList (spelled ws)) =
      (parse name definition).modified ws := by
    intro ws
    rw [parse] at h
    rw [parse, parse, Arrow.parse?_append hend]
    cases harrow : Arrow.parse? definition with
    | some a => exact relationField_append name a ws
    | none =>
      rw [harrow] at h
      dsimp only [Option.map_none]
      rw [String.toList_append, String.toList_ofList, Text.trim_append hend (trim_spelled ws),
        htrim]
      rw [htrim] at h
      exact plainField_append (h.resolve_left (by simp)) ws
  refine ⟨hparse, fun ws ws' hsame => ?_, ?_⟩
  · rw [hparse, hparse, modified, modified, Modifiers.addAll_congr hsame]
  · have harray : definition ++ "[]" = definition ++ .ofList (spelled [.array]) := rfl
    rw [ofValue, ofValue, harray, hparse]
    simp [modified, asArray, Modifiers.addAll]

theorem parse_append_decimal :
    Text.trim "decimal(10, 2)?".toList = "decimal(10, 2)?".toList ∧
    (∃ sizes, (parse "price" "decimal(10, 2)?").shape = .parametric sizes) ∧
    parse "price" ("decimal(10, 2)?" ++ "!#!") =
      { name := "price", type := "decimal"
        modifiers := { optional := true, required := true, unique := true, indexed := true }
        shape := .parametric { precision := some 10, scale := some 2 } } ∧
    ofValue "price" (.list [.text "decimal(10, 2)?"]) =
      ofValue "price" (.text "decimal(10, 2)?[]") := by
  have htrim : Text.trim "decimal(10, 2)?".toList = "decimal(10, 2)?".toList := by decide +kernel
  have hparse : parse "price" "decimal(10, 2)?" =
      { name := "price", type := "decimal", modifiers := { optional := true }
        shape := .parametric { precision := some 10, scale := some 2 } } := by
    decide +kernel
  have hsizes : ∃ sizes, (parse "price" "decimal(10, 2)?").shape = .parametric sizes :=
    ⟨_, congrArg Field.shape hparse⟩
  obtain ⟨hadd, -, hlist⟩ := parse_append htrim (.inr (.inr (.inl hsizes)))
  refine ⟨htrim, hsizes, (hadd [.required, .indexed, .required]).trans ?_, hlist⟩
  rw [hparse]
  rfl

end Field

end EntitySchema
