import EntitySchema.Grammar.Union
import EntitySchema.Proofs.Grammar.Bars
import EntitySchema.Proofs.Table

/-!
# Proofs/Grammar/UnionThreshold — whose threshold it is

    A (0.8.5) | B | A(0.9) | A(7) | 2A(0.1) | A( 0.2 )
    └──┬────┘       └─┬──┘   └─── none ───┬──────────┘
       └ overwritten  └ the threshold of A

The thresholds of a union are read by a pattern of their own: a candidate must be an identifier, and
no blanks may stand inside the parentheses (`annotated?_eq_some_iff`).  What has that form is also
what `unionTypes` drops a threshold from, so every threshold has a name that is a candidate of the
union; of several for one name the last part wins (`unionThresholds_eq_some_iff`).
-/

namespace EntitySchema

open Grammar

/-- A candidate with a threshold as it is written. -/
structure ScoredName where
  /-- The name of the candidate. -/
  name : List Char
  /-- The blanks behind it. -/
  gap : List Char
  /-- The digits and points in the parentheses. -/
  score : Score

namespace ScoredName

/-- The candidate, the blanks and the threshold in parentheses. -/
def text (a : ScoredName) : List Char := a.name ++ a.gap ++ '(' :: (a.score.text ++ [')'])

/-- The parts are what they are called. -/
structure WellFormed (a : ScoredName) : Prop where
  /-- The name is an identifier … -/
  name : isIdentifier a.name
  /-- … that starts with a letter. -/
  letter : ∀ c ∈ a.name.head?, isLetter c
  /-- Blanks stand behind it. -/
  gap : ∀ c ∈ a.gap, Text.isBlank c
  /-- The threshold starts with a number … -/
  score : a.score.Numeric
  /-- … that is one at most, as a double. -/
  le_one : a.score.magnitude.le .one

end ScoredName

namespace Grammar

variable {part : List Char} {name : String} {x : Binary64}

/-- The part gives the candidate `name` the threshold `x`. -/
def Annotates (part : List Char) (name : String) (x : Binary64) : Prop :=
  ∃ a : ScoredName, a.WellFormed ∧ Text.trim part = a.text ∧ .ofList a.name = name ∧
    a.score.value = x

/-- What stands behind an identifier before a parenthesis is told apart from it. -/
theorem span_isIdentifierChar_append {word gap rest : List Char}
    (hword : ∀ c ∈ word, isIdentifierChar c) (hgap : ∀ c ∈ gap, Text.isBlank c) :
    (word ++ gap ++ '(' :: rest).span isIdentifierChar = (word, gap ++ '(' :: rest) := by
  match gap with
  | [] =>
    rw [List.append_nil]
    exact Text.span_append_cons hword (by decide) rest
  | c :: gap =>
    have hc : isIdentifierChar c = false := by
      by_contra hident
      have hblank := isBlank_of_isIdentifierChar (Bool.not_eq_false _ ▸ hident)
      exact absurd (hgap c List.mem_cons_self) (by simp [hblank])
    rw [List.append_assoc]
    exact Text.span_append_cons hword hc _

theorem annotated?_text {a : ScoredName} (h : a.WellFormed) :
    annotated? a.text = some (.ofList a.name, a.score.value) := by
  have hwords := isIdentifierChar_of_isIdentifier h.name
  obtain ⟨c, word, hname⟩ := List.exists_cons_of_ne_nil (ne_nil_of_isIdentifier h.name)
  have hletter : isLetter c := h.letter c (by rw [hname]; rfl)
  have hopen : Text.trimStart (a.gap ++ '(' :: (a.score.text ++ [')'])) =
      '(' :: (a.score.text ++ [')']) := by
    rw [Text.trimStart_blank_append h.gap]
    rfl
  have hscore : threshold? a.score.text = some a.score.value := by
    rw [threshold?, Score.leadingNumber?_text h.score]
    exact if_pos h.le_one
  rw [annotated?, ScoredName.text, span_isIdentifierChar_append hwords h.gap, hname]
  simp only [hopen, Text.span_append_cons (Score.isThresholdChar_of_mem_text h.score)
    (by decide : isThresholdChar ')' = false), if_pos hletter, hscore, Option.map_some]

/-- **A name, blanks and a threshold in parentheses, with nothing around them.** -/
theorem annotated?_eq_some_iff : annotated? part = some (name, x) ↔
    ∃ a : ScoredName, a.WellFormed ∧ part = a.text ∧ .ofList a.name = name ∧
      a.score.value = x := by
  constructor
  · intro h
    rw [annotated?] at h
    split at h
    next c word behind hword =>
      split at h
      next rest hopen =>
        split at h
        next inner hclose =>
          obtain ⟨hletter, hpair⟩ := Option.ite_none_right_eq_some.mp h
          obtain ⟨t, ht, hparts⟩ := Option.map_eq_some_iff.mp hpair
          obtain ⟨rfl, rfl⟩ := Prod.mk.inj hparts
          obtain ⟨rfl, hname⟩ := Text.eq_of_span hword
          obtain ⟨gap, hgap, rfl⟩ :
              ∃ gap, (∀ d ∈ gap, Text.isBlank d) ∧ behind = gap ++ '(' :: rest :=
            hopen ▸ Text.exists_eq_append_trimStart behind
          obtain ⟨rfl, hdigits⟩ := Text.eq_of_span hclose
          obtain ⟨s, hs, hone, rfl, rfl⟩ := (Score.threshold?_eq_some_iff hdigits).mp ht
          have hident : isIdentifier (c :: word) := by
            rw [isIdentifier, hletter, Bool.true_or, Bool.true_and, List.all_eq_true]
            exact (List.forall_mem_cons.mp hname).2
          refine ⟨⟨c :: word, gap, s⟩, ⟨hident, fun d hd => ?_, hgap, hs, hone⟩, ?_, rfl, rfl⟩
          · exact Option.some.inj hd ▸ hletter
          · rw [ScoredName.text, List.append_assoc]
        · exact absurd h (by simp)
      · exact absurd h (by simp)
    · exact absurd h (by simp)
  · rintro ⟨a, ha, rfl, rfl, rfl⟩
    exact annotated?_text ha

theorem annotates_iff : Annotates part name x ↔ annotated? (Text.trim part) = some (name, x) :=
  annotated?_eq_some_iff.symm

/-! ## Thresholds of candidates -/

/-- What has a threshold has a threshold to drop. -/
theorem trim_dropThreshold_text {a : ScoredName} (h : a.WellFormed) :
    Text.trim (dropThreshold a.text) = a.name := by
  rw [ScoredName.text, dropThreshold_append _ (Score.text_ne_nil h.score)
    (Score.isThresholdChar_of_mem_text h.score), Text.trim_append_blank _ h.gap,
    trim_of_isIdentifier h.name]

theorem Annotates.mem_unionTypes {spec : String} (h : Annotates part name x)
    (hpart : part ∈ Text.splitAll '|' spec.toList) : name ∈ unionTypes spec := by
  obtain ⟨a, ha, htext, rfl, -⟩ := h
  refine List.mem_map_of_mem (List.mem_filter.mpr ⟨List.mem_map.mpr ⟨part, hpart, ?_⟩, ?_⟩)
  · rw [htext, trim_dropThreshold_text ha]
  · exact decide_eq_true (ne_nil_of_isIdentifier ha.name)

theorem Annotates.mem_unit (h : Annotates part name x) :
    Binary64.zero.le x = true ∧ x.le (.ofMagnitude .one) = true := by
  obtain ⟨a, ha, -, -, rfl⟩ := h
  exact ⟨Binary64.ofMagnitude_le (decide_eq_true (Nat.zero_le _)),
    Binary64.ofMagnitude_le ha.le_one⟩

/-- **The thresholds of a union are those of its candidates**, and of several for one candidate the
last one counts. -/
theorem unionThresholds_eq_some_iff (spec name : String) (x : Binary64) :
    (unionThresholds spec).get? name = some x ↔
      name ∈ unionTypes spec ∧ (Binary64.zero.le x = true ∧ x.le (.ofMagnitude .one) = true) ∧
        ∃ before part after, Text.splitAll '|' spec.toList = before ++ part :: after ∧
          Annotates part name x ∧ ∀ p ∈ after, ∀ y, ¬ Annotates p name y := by
  rw [unionThresholds, Table.get?_ofList_eq_some_iff]
  constructor
  · rintro ⟨earlier, later, hread, hlater⟩
    obtain ⟨before, rest, hsplit, -, hrest⟩ := List.filterMap_eq_append_iff.mp hread
    obtain ⟨skipped, part, after, rfl, -, hpart, hafter⟩ := List.filterMap_eq_cons_iff.mp hrest
    have hannotates : Annotates part name x := annotates_iff.mpr hpart
    refine ⟨hannotates.mem_unionTypes (by simp [hsplit]), hannotates.mem_unit,
      before ++ skipped, part, after, by rw [hsplit, List.append_assoc], hannotates, ?_⟩
    intro p hp y hy
    have hmem : (name, y) ∈ later :=
      hafter ▸ List.mem_filterMap.mpr ⟨p, hp, annotates_iff.mp hy⟩
    exact hlater (List.mem_map_of_mem hmem)
  · rintro ⟨-, -, before, part, after, hsplit, hpart, hafter⟩
    have hread : annotated? (Text.trim part) = some (name, x) := annotates_iff.mp hpart
    refine ⟨_, _, by rw [hsplit, List.filterMap_append, List.filterMap_cons, hread], fun hmem => ?_⟩
    obtain ⟨⟨name', y⟩, hy, rfl⟩ := List.mem_map.mp hmem
    obtain ⟨p, hp, hy⟩ := List.mem_filterMap.mp hy
    exact hafter p hp y (annotates_iff.mpr hy)

example : (unionThresholds "A (0.8.5)|B|A(0.9)|A(7)|2A(0.1)|A( 0.2 )").entries =
    [("A", .ofDecimal false 9 (-1))] := by
  decide +kernel

end Grammar

end EntitySchema
