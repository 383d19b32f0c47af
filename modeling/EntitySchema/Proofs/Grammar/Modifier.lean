import EntitySchema.Grammar.Modifier
import EntitySchema.Proofs.Text.Trim

/-!
# Proofs/Grammar/Modifier — modifiers behind a text

    text ++ spelled ws ──stripModifiers──▸ text, flags of the text and of ws

Modifiers are taken off one by one, and what one says does not depend on the others.  So a word of
modifiers behind a text adds its flags to those of the text and leaves the rest
(`stripModifiers_append`), whatever its order and its repetitions (`Modifiers.addAll_congr`).
-/

namespace EntitySchema

/-- Modifiers as they are written, one behind the other. -/
def Modifier.spelled (ws : List Modifier) : List Char := ws.flatMap token

namespace Modifiers

variable {m : Modifiers} {ws : List Modifier}

/-- The modifiers and those of the word `ws`. -/
def addAll (m : Modifiers) (ws : List Modifier) : Modifiers :=
  { array := m.array || ws.contains .array
    optional := m.optional || ws.contains .optional
    required := m.required || ws.contains .required
    unique := m.unique || ws.contains .required
    indexed := m.indexed || ws.contains .indexed }

@[simp] theorem addAll_nil : m.addAll [] = m := by simp [addAll]

@[simp] theorem addAll_cons (w : Modifier) : m.addAll (w :: ws) = w.addTo (m.addAll ws) := by
  cases w <;> simp [addAll, Modifier.addTo]

/-- What a modifier says does not depend on the others. -/
theorem addAll_addTo (w : Modifier) : (w.addTo m).addAll ws = w.addTo (m.addAll ws) := by
  cases w <;> simp [addAll, Modifier.addTo]

/-- **Neither order nor repetition matters.** -/
theorem addAll_congr {ws' : List Modifier} (h : ∀ w, w ∈ ws ↔ w ∈ ws') :
    m.addAll ws = m.addAll ws' := by
  have hcontains : ∀ w, ws.contains w = ws'.contains w := fun w => by simp [h w]
  simp only [addAll, hcontains]

end Modifiers

namespace Grammar

open Modifier

/-! ## The characters of modifiers -/

/-- What is said of the characters of a text is decided on these, not on all characters. -/
instance (priority := 2000) decidableForallMem {p : Char → Prop} [DecidablePred p]
    (cs : List Char) : Decidable (∀ c ∈ cs, p c) := List.decidableBAll p cs

/-- The characters that modifiers are written with. -/
def modifierChars : List Char := ['?', '[', ']', '!', '#']

theorem mem_modifierChars_of_mem_token (w : Modifier) : ∀ c ∈ w.token, c ∈ modifierChars := by
  cases w <;> decide

theorem mem_modifierChars {ws : List Modifier} {c : Char} (h : c ∈ spelled ws) :
    c ∈ modifierChars := by
  obtain ⟨w, -, hc⟩ := List.mem_flatMap.mp h
  exact mem_modifierChars_of_mem_token w c hc

theorem isBlank_of_mem_modifierChars : ∀ c ∈ modifierChars, Text.isBlank c = false := by decide

@[simp] theorem trim_spelled (ws : List Modifier) : Text.trim (spelled ws) = spelled ws :=
  Text.trim_eq_self_iff.mpr
    ⟨fun c hc => isBlank_of_mem_modifierChars c (mem_modifierChars (List.mem_of_mem_head? hc)),
      fun c hc => isBlank_of_mem_modifierChars c (mem_modifierChars (List.mem_of_mem_getLast? hc))⟩

/-! ## Taking modifiers off -/

@[simp] theorem stripReversed_token (w : Modifier) (cs : List Char) (m : Modifiers) :
    stripReversed (w.token.reverse ++ cs) m = stripReversed cs (w.addTo m) := by
  cases w <;> rfl

/-- A word of modifiers is taken off from its end, and its flags are added. -/
@[simp] theorem stripReversed_spelled (cs : List Char) (m : Modifiers) : ∀ ws : List Modifier,
    stripReversed ((spelled ws).reverse ++ cs) m = stripReversed cs (m.addAll ws)
  | [] => by simp [spelled]
  | w :: ws => by
      have hspelled : (spelled (w :: ws)).reverse ++ cs =
          (spelled ws).reverse ++ (w.token.reverse ++ cs) := by
        rw [spelled, List.flatMap_cons, List.reverse_append, List.append_assoc, spelled]
      rw [hspelled, stripReversed_spelled _ m ws, stripReversed_token, Modifiers.addAll_cons]

/-- Flags that were there before stay beside those that are found. -/
theorem stripReversed_addAll (cs : List Char) (m : Modifiers) (ws : List Modifier) :
    stripReversed cs (m.addAll ws) =
      ((stripReversed cs m).1, (stripReversed cs m).2.addAll ws) := by
  fun_induction stripReversed cs m with
  | case1 cs m ih | case2 cs m ih | case3 cs m ih | case4 cs m ih =>
    rw [stripReversed, ← Modifiers.addAll_addTo]
    exact ih
  | case5 cs m => simp only [stripReversed]

/-- **A word of modifiers adds its flags and leaves the rest.** -/
@[simp] theorem stripModifiers_append (cs : List Char) (ws : List Modifier) :
    stripModifiers (cs ++ spelled ws) =
      ((stripModifiers cs).1, (stripModifiers cs).2.addAll ws) := by
  rw [stripModifiers, List.reverse_append, stripReversed_spelled, stripReversed_addAll]
  rfl

theorem stripReversed_suffix (cs : List Char) (m : Modifiers) : (stripReversed cs m).1 <:+ cs := by
  fun_induction stripReversed cs m with
  | case1 cs m ih | case3 cs m ih | case4 cs m ih => exact ih.trans (List.suffix_cons ..)
  | case2 cs m ih => exact ih.trans ((List.suffix_cons ..).trans (List.suffix_cons ..))
  | case5 cs m => exact List.suffix_refl cs

/-- What is left of a text is part of it. -/
theorem stripModifiers_subset (cs : List Char) : (stripModifiers cs).1 ⊆ cs := by
  refine List.Subset.trans (Text.trim_subset _) ?_
  have hsuffix := (stripReversed_suffix cs.reverse {}).subset
  exact fun c hc => List.mem_reverse.mp (hsuffix (List.mem_reverse.mp hc))

/-- A modifier that makes a field required makes it unique, and no other does either. -/
theorem stripReversed_required_eq_unique {cs : List Char} {m : Modifiers}
    (h : m.required = m.unique) :
    (stripReversed cs m).2.required = (stripReversed cs m).2.unique := by
  fun_induction stripReversed cs m with
  | case1 cs m ih | case2 cs m ih | case4 cs m ih => exact ih h
  | case3 cs m ih => exact ih rfl
  | case5 cs m => exact h

theorem stripModifiers_required_eq_unique (cs : List Char) :
    (stripModifiers cs).2.required = (stripModifiers cs).2.unique :=
  stripReversed_required_eq_unique rfl

/-- A text that does not end like a modifier has none. -/
theorem stripModifiers_of_getLast {cs : List Char} (h : ∀ c ∈ cs.getLast?, c ∉ modifierChars) :
    stripModifiers cs = (Text.trim cs, {}) := by
  have hstrip : stripReversed cs.reverse {} = (cs.reverse, {}) := by
    rw [← List.head?_reverse] at h
    match hcs : cs.reverse with
    | [] => rfl
    | c :: ds =>
      rw [hcs] at h
      have hc := h c rfl
      simp only [modifierChars, List.mem_cons, List.not_mem_nil, or_false, not_or] at hc
      rw [stripReversed] <;> simp_all
  rw [stripModifiers, hstrip]
  dsimp only
  rw [List.reverse_reverse]

end Grammar

end EntitySchema
