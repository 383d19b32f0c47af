import EntitySchema.Proofs.Grammar.Suffix

/-!
# Proofs/Grammar/Stripped — what is left without modifiers

    Tag ?[]#        Tag? []#
       └──┴─ taken off  └─┴─ taken off: a blank stands behind `?`, so `Tag?` is left

Modifiers are taken off as long as the text ends with one, and blanks are trimmed once, at the end.
So what is left never has blanks around it, but may end with a modifier again: exactly if blanks
part it from those that were taken off (`Grammar.stripped`).  Behind an operator that is the only
way in which a modifier gets into the name of a type (`Field.stripped_parse`).
-/

namespace EntitySchema

open Modifier

/-- The text ends with a modifier. -/
def EndsWithModifier (cs : List Char) : Prop := ∃ w : Modifier, w.token <:+ cs

/-- Blanks stand behind a modifier, and behind them nothing but modifiers. -/
def PartsModifiers (cs : List Char) : Prop :=
  ∃ before w blanks ws, cs = before ++ token w ++ blanks ++ spelled ws ∧ blanks ≠ [] ∧
    ∀ c ∈ blanks, Text.isBlank c

namespace Grammar

/-! ## Where taking off stops -/

@[simp] theorem spelled_concat (ws : List Modifier) (w : Modifier) :
    spelled (ws ++ [w]) = spelled ws ++ w.token := by
  simp [spelled]

theorem addAll_concat (m : Modifiers) (ws : List Modifier) (w : Modifier) :
    m.addAll (ws ++ [w]) = (w.addTo m).addAll ws := by
  rw [Modifiers.addAll_addTo, ← Modifiers.addAll_cons]
  exact Modifiers.addAll_congr fun w' => by simp [or_comm]

/-- What is taken off is a word of modifiers. -/
theorem exists_stripReversed_eq (cs : List Char) (m : Modifiers) :
    ∃ ws, cs = (spelled ws).reverse ++ (stripReversed cs m).1 ∧
      (stripReversed cs m).2 = m.addAll ws := by
  -- One more modifier in front of a reversed text is one more at the end of the word.
  have hstep : ∀ {cs : List Char} {m : Modifiers} (w : Modifier),
      (∃ ws, cs = (spelled ws).reverse ++ (stripReversed cs (w.addTo m)).1 ∧
        (stripReversed cs (w.addTo m)).2 = (w.addTo m).addAll ws) →
      ∃ ws, w.token.reverse ++ cs = (spelled ws).reverse ++ (stripReversed cs (w.addTo m)).1 ∧
        (stripReversed cs (w.addTo m)).2 = m.addAll ws := by
    rintro cs m w ⟨ws, hcs, hflags⟩
    refine ⟨ws ++ [w], ?_, by rw [hflags, addAll_concat]⟩
    rw [spelled_concat, List.reverse_append, List.append_assoc, ← hcs]
  fun_induction stripReversed cs m with
  | case1 cs m ih => exact hstep .optional ih
  | case2 cs m ih => exact hstep .array ih
  | case3 cs m ih => exact hstep .required ih
  | case4 cs m ih => exact hstep .indexed ih
  | case5 cs m => exact ⟨[], rfl, Modifiers.addAll_nil.symm⟩

/-- Taking off goes on as long as there is a modifier. -/
theorem not_prefix_stripReversed (cs : List Char) (m : Modifiers) (w : Modifier) :
    ¬ w.token.reverse <+: (stripReversed cs m).1 := by
  fun_induction stripReversed cs m with
  | case1 cs m ih | case2 cs m ih | case3 cs m ih | case4 cs m ih => exact ih
  | case5 cs m hoptional harray hrequired hindexed =>
    rintro ⟨rest, hrest⟩
    cases w with
    | optional => exact hoptional rest hrest.symm
    | array => exact harray rest hrest.symm
    | required => exact hrequired rest hrest.symm
    | indexed => exact hindexed rest hrest.symm

/-- **A text is one that does not end with a modifier, and a word of modifiers.** -/
theorem exists_stripModifiers_eq (cs : List Char) :
    ∃ rest ws, cs = rest ++ spelled ws ∧ ¬ EndsWithModifier rest ∧
      stripModifiers cs = (Text.trim rest, ({} : Modifiers).addAll ws) := by
  obtain ⟨ws, hcs, hflags⟩ := exists_stripReversed_eq cs.reverse {}
  refine ⟨(stripReversed cs.reverse {}).1.reverse, ws, ?_, ?_, ?_⟩
  · rw [← List.reverse_reverse cs]
    conv_lhs => rw [hcs, List.reverse_append, List.reverse_reverse]
    rw [List.reverse_reverse]
  · rintro ⟨w, hw⟩
    refine not_prefix_stripReversed cs.reverse {} w ?_
    rwa [← List.reverse_suffix, List.reverse_reverse]
  · rw [stripModifiers, ← hflags]

/-! ## What is left -/

variable {cs : List Char}

theorem endsWithModifier_append_spelled (cs : List Char) {ws : List Modifier} (h : ws ≠ []) :
    EndsWithModifier (cs ++ spelled ws) := by
  obtain ⟨front, w, rfl⟩ := (List.eq_nil_or_concat' ws).resolve_left h
  rw [spelled_concat, ← List.append_assoc]
  exact ⟨w, List.suffix_append _ _⟩

/-- A text that does not end with a modifier is only trimmed. -/
theorem stripModifiers_of_not_endsWithModifier (h : ¬ EndsWithModifier cs) :
    stripModifiers cs = (Text.trim cs, {}) := by
  obtain ⟨rest, ws, rfl, -, hstrip⟩ := exists_stripModifiers_eq cs
  obtain rfl : ws = [] := by
    by_contra hne
    exact h (endsWithModifier_append_spelled rest hne)
  rw [hstrip, Modifiers.addAll_nil, spelled, List.flatMap_nil, List.append_nil]

/-- A modifier that is taken off leaves its flag. -/
theorem flags_ne_of_endsWithModifier (h : EndsWithModifier cs) : (stripModifiers cs).2 ≠ {} := by
  obtain ⟨w, front, rfl⟩ := h
  have hspelled : w.token = spelled [w] := by simp [spelled]
  rw [hspelled, stripModifiers_append]
  cases w <;> simp [Modifiers.addAll]

theorem trim_append_token (cs : List Char) (w : Modifier) :
    Text.trim (cs ++ w.token) = Text.trimStart cs ++ w.token := by
  cases w with
  | optional | array | required | indexed => exact Text.trim_append_cons (by decide) cs _

/-- **Blanks between modifiers leave those in front of them.** -/
theorem endsWithModifier_stripModifiers_iff (cs : List Char) :
    EndsWithModifier (stripModifiers cs).1 ↔ PartsModifiers cs := by
  constructor
  · obtain ⟨rest, ws, rfl, hrest, hstrip⟩ := exists_stripModifiers_eq cs
    rw [hstrip]
    rintro ⟨w, front, hfront : front ++ w.token = Text.trim rest⟩
    obtain ⟨lead, tail, -, htail, htrim⟩ := Text.exists_eq_append_trim rest
    rw [← hfront, ← List.append_assoc, ← List.append_assoc] at htrim
    refine ⟨lead ++ front, w, tail, ws, by rw [← htrim], ?_, htail⟩
    rintro rfl
    refine hrest ⟨w, ?_⟩
    rw [htrim, List.append_nil]
    exact List.suffix_append _ _
  · rintro ⟨before, w, blanks, ws, rfl, hne, hblank⟩
    have hlast : ∀ c ∈ (before ++ w.token ++ blanks).getLast?, c ∉ modifierChars := by
      rw [List.getLast?_append_of_ne_nil _ hne]
      intro c hc hmem
      have htrue := hblank c (List.mem_of_mem_getLast? hc)
      rw [isBlank_of_mem_modifierChars c hmem] at htrue
      exact absurd htrue (by simp)
    rw [stripModifiers_append, stripModifiers_of_getLast hlast, Text.trim_append_blank _ hblank,
      trim_append_token]
    exact ⟨w, List.suffix_append _ _⟩

/-- What is left of a text, and what it says about the text. -/
structure Stripped (cs : List Char) : Prop where
  /-- There are no blanks around it. -/
  trimmed : Text.trim (stripModifiers cs).1 = (stripModifiers cs).1
  /-- Only blanks and the modifiers that set the flags are gone. -/
  parts : ∃ lead tail ws, (∀ c ∈ lead, Text.isBlank c) ∧ (∀ c ∈ tail, Text.isBlank c) ∧
    cs = lead ++ ((stripModifiers cs).1 ++ tail) ++ spelled ws ∧
    (stripModifiers cs).2 = ({} : Modifiers).addAll ws
  /-- It ends with a modifier exactly if blanks part modifiers. -/
  endsWith_iff : EndsWithModifier (stripModifiers cs).1 ↔ PartsModifiers cs
  /-- Otherwise there is nothing more to take off. -/
  again_iff : stripModifiers (stripModifiers cs).1 = ((stripModifiers cs).1, {}) ↔
    ¬ PartsModifiers cs

theorem stripped (cs : List Char) : Stripped cs := by
  obtain ⟨rest, ws, hcs, -, hstrip⟩ := exists_stripModifiers_eq cs
  have htrimmed : Text.trim (stripModifiers cs).1 = (stripModifiers cs).1 := by
    rw [hstrip]
    exact Text.trim_trim rest
  refine ⟨htrimmed, ?_, endsWithModifier_stripModifiers_iff cs, ?_⟩
  · obtain ⟨lead, tail, hlead, htail, hrest⟩ := Text.exists_eq_append_trim rest
    refine ⟨lead, tail, ws, hlead, htail, ?_, by rw [hstrip]⟩
    rw [hstrip, ← hrest]
    exact hcs
  · rw [← endsWithModifier_stripModifiers_iff]
    constructor
    · intro hagain hends
      exact flags_ne_of_endsWithModifier hends (congrArg Prod.snd hagain)
    · intro hnot
      rw [stripModifiers_of_not_endsWithModifier hnot, htrimmed]

/-! ## Behind an operator -/

/-- A threshold that is taken out leaves no blank at the end. -/
theorem trimEnd_takeThreshold {target : List Char} (h : Text.trimEnd target = target) :
    Text.trimEnd (takeThreshold target).1 = (takeThreshold target).1 := by
  rw [takeThreshold]
  cases hsplit : splitThreshold? target with
  | none => exact h
  | some parts =>
    obtain ⟨before, inner, after⟩ := parts
    dsimp only
    cases threshold? inner with
    | none => exact h
    | some t =>
      dsimp only
      obtain ⟨rfl, -⟩ := splitThreshold?_eq_some_iff.mp hsplit
      obtain rfl | hne := eq_or_ne after []
      · rw [List.append_nil]
        exact Text.trimEnd_eq_self_iff.mpr (Text.trim_eq_self_iff.mp (Text.trim_trim before)).2
      · have hsuffix : after <:+ before ++ '(' :: (inner ++ ')' :: after) :=
          ⟨before ++ '(' :: (inner ++ [')']), by simp⟩
        exact Text.trimEnd_append _ hne
          (Text.trimEnd_eq_self_iff.mp (Text.trimEnd_of_suffix hsuffix h))

theorem trimEnd_target {definition : String} {arrow : Arrow}
    (h : Arrow.parse? definition = some arrow) :
    Text.trimEnd arrow.target.toList = arrow.target.toList := by
  rw [Arrow.parse?_eq] at h
  obtain ⟨⟨o, before, after⟩, -, rfl⟩ := Option.map_eq_some_iff.mp h
  dsimp only
  rw [String.toList_ofList]
  exact trimEnd_takeThreshold
    (Text.trimEnd_eq_self_iff.mpr (Text.trim_eq_self_iff.mp (Text.trim_trim after)).2)

/-- The one alias ends like the name it stands for: not with a modifier. -/
@[simp] theorem endsWithModifier_unaliased_iff :
    EndsWithModifier (unaliased cs) ↔ EndsWithModifier cs := by
  rw [unaliased]
  split_ifs with heq
  · subst heq
    refine iff_of_false (not_exists.mpr fun w => ?_) (not_exists.mpr fun w => ?_) <;>
      cases w <;> decide
  · rfl

end Grammar

open Grammar

namespace Field

/-- **What is left without modifiers**: no blanks around it, and a modifier at its end exactly if
blanks part modifiers.  The target behind an operator does not end with a blank, so there more
modifiers stand behind the blanks; they set their flags, the others stay in the name of the type. -/
theorem stripped_parse (cs : List Char) : Stripped cs ∧
    ∀ (name definition : String) (arrow : Arrow), Arrow.parse? definition = some arrow →
      arrow.target.toList = cs → Text.trimEnd cs = cs ∧
        (parse name definition).modifiers = (stripModifiers cs).2 ∧
        (arrow.unionTypes = none → (splitBackref (stripModifiers cs).1).2 = none →
          (EndsWithModifier (parse name definition).type.toList ↔ PartsModifiers cs)) := by
  refine ⟨stripped cs, ?_⟩
  rintro name definition arrow harrow rfl
  refine ⟨trimEnd_target harrow, ?_, fun hunion hbackref => ?_⟩
  · rw [parse, harrow]
    rfl
  · have hbase : (splitBackref (stripModifiers arrow.target.toList).1).1 =
        (stripModifiers arrow.target.toList).1 :=
      eq_of_splitBackref_eq_none (Prod.ext rfl hbackref)
    rw [parse, harrow]
    simp only [relationField, hunion, String.toList_ofList]
    rw [endsWithModifier_unaliased_iff, hbase, endsWithModifier_stripModifiers_iff]

/-- A list of optional tags, with a blank between the two modifiers: it is not optional. -/
theorem stripped_parse_tags :
    Arrow.parse? "->Tag? []" = some
      { operator := .forwardExact, target := "Tag? []", unionTypes := none, threshold := none
        prompt := none } ∧
    (parse "tags" "->Tag? []").type = "Tag?" ∧
    (parse "tags" "->Tag? []").modifiers = { array := true } ∧
    EndsWithModifier (parse "tags" "->Tag? []").type.toList := by
  have harrow : Arrow.parse? "->Tag? []" = some
      { operator := .forwardExact, target := "Tag? []", unionTypes := none, threshold := none
        prompt := none } := by decide +kernel
  obtain ⟨-, hflags, htype⟩ := (stripped_parse _).2 "tags" _ _ harrow rfl
  refine ⟨harrow, by decide +kernel, hflags.trans (by decide), (htype rfl (by decide)).mpr ?_⟩
  exact ⟨"Tag".toList, .optional, [' '], [.array], by decide, by decide, by decide⟩

end Field

end EntitySchema
