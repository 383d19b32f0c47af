import EntitySchema.Grammar.Plain
import Mathlib.Tactic.SplitIfs

/-!
# Proofs/Grammar/Plain — the four kinds of plain definitions

    decimal(10, 2)?     parametric    name and sizes, modifiers
    map<int, Post>[]    generic       name and arguments, modifiers
    who wrote it?       free text     the whole text
    Author.posts#       a name        the name, what it names, modifiers

A definition without an operator is of one kind, and each kind makes its field of other parts of the
text (`plainField_cases`).  A name alone is a relation with an inverse field, a relation without
one, or a primitive (`namedShape_cases`).
-/

namespace EntitySchema.Grammar

theorem parametric?_eq_some {cs : List Char} {type : String} {sizes : Parametric}
    (h : parametric? cs = some (type, sizes)) :
    type ∈ parametricNames ∧ ∃ first second, sizes = sizesOf type first second := by
  rw [parametric?] at h
  obtain ⟨name, hname, h⟩ := List.exists_of_findSome?_eq_some h
  obtain ⟨rest, -, h⟩ := Option.bind_eq_some_iff.mp h
  obtain ⟨⟨first, second⟩, -, h⟩ := Option.bind_eq_some_iff.mp h
  obtain ⟨rfl, rfl⟩ := Prod.mk.inj (Option.some.inj h)
  exact ⟨hname, first, second, rfl⟩

theorem generic?_eq_some {cs : List Char} {type : String} {arguments : Generic}
    (h : generic? cs = some (type, arguments)) :
    type ∈ genericNames ∧ ∃ inner, argumentsOf? type inner = some arguments := by
  rw [generic?] at h
  obtain ⟨name, hname, h⟩ := List.exists_of_findSome?_eq_some h
  obtain ⟨inner, -, h⟩ := Option.bind_eq_some_iff.mp h
  obtain ⟨arguments', harguments, h⟩ := Option.bind_eq_some_iff.mp h
  obtain ⟨rfl, rfl⟩ := Prod.mk.inj (Option.some.inj h)
  exact ⟨hname, _, harguments⟩

/-- **A name is a relation with an inverse field, a relation without one, or a primitive.** -/
theorem namedShape_cases (base : List Char) :
    (∃ type backref, splitBackref base = (type, some backref) ∧
      namedShape base = (type, .relation
        { relatedType := .ofList type, backref := some (.ofList backref) })) ∨
    (startsUppercase base = true ∧
      namedShape base = (base, .relation { relatedType := .ofList base })) ∨
    namedShape base = (base, .scalar) := by
  rw [namedShape.eq_def]
  rcases splitBackref base with ⟨type, _ | backref⟩
  · cases startsUppercase base with
    | true => exact .inr (.inl ⟨rfl, rfl⟩)
    | false => exact .inr (.inr rfl)
  · exact .inl ⟨type, backref, rfl, rfl⟩

/-- **A plain definition is a parametric type, a generic type, free text or a name.** -/
theorem plainField_cases (name : String) (text : List Char) :
    (∃ type sizes, parametric? (stripModifiers text).1 = some (type, sizes) ∧
      plainField name text =
        { name, type, modifiers := (stripModifiers text).2, shape := .parametric sizes }) ∨
    (∃ type arguments, generic? (stripModifiers text).1 = some (type, arguments) ∧
      plainField name text =
        { name, type, modifiers := (stripModifiers text).2, shape := .generic arguments }) ∨
    (' ' ∈ text ∧ plainField name text = { name, type := .ofList text }) ∨
    (' ' ∉ text ∧ plainField name text =
      { name
        type := .ofList (namedShape (unaliased (stripModifiers text).1)).1
        modifiers := (stripModifiers text).2
        shape := (namedShape (unaliased (stripModifiers text).1)).2 }) := by
  rw [plainField.eq_def]
  dsimp only
  rcases parametric? (stripModifiers text).1 with _ | ⟨type, sizes⟩
  · rcases generic? (stripModifiers text).1 with _ | ⟨type, arguments⟩
    · dsimp only
      split_ifs with hspace
      · exact .inr (.inr (.inl ⟨List.contains_iff_mem.mp hspace, rfl⟩))
      · exact .inr (.inr (.inr ⟨fun hmem => hspace (List.contains_iff_mem.mpr hmem), rfl⟩))
    · exact .inr (.inl ⟨type, arguments, rfl, rfl⟩)
  · exact .inl ⟨type, sizes, rfl, rfl⟩

end EntitySchema.Grammar
