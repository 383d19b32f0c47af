import EntitySchema.Grammar.Threshold
import EntitySchema.Proofs.Number.Order
import EntitySchema.Proofs.Text.Numeral
import EntitySchema.Proofs.Text.Search

/-!
# Proofs/Grammar/Threshold — a threshold behind a type

    type(score)rest ──splitThreshold?──▸ score ──leadingNumber?──▸ its number ──le one──▸ threshold

A text is cut at its first parenthesis if digits and points stand up to the next one and the rest
is one line (`splitThreshold?_eq_some_iff`).  What stands there is a threshold if it starts with a
number of one at most, whatever follows the number (`threshold?_text`).
-/

namespace EntitySchema.Grammar

/-- Without a parenthesis there is no threshold. -/
theorem splitThreshold?_of_notMem {cs : List Char} (h : '(' ∉ cs) : splitThreshold? cs = none := by
  rw [splitThreshold?, Text.span_ne_of_notMem h]
  cases cs <;> rfl

/-- What stands before the first parenthesis, and how the text behind it goes on. -/
theorem splitThreshold?_append_cons {before : List Char} (hne : before ≠ []) (hnot : '(' ∉ before)
    (rest : List Char) : splitThreshold? (before ++ '(' :: rest) =
      match rest.span isThresholdChar with
      | ([], _) => none
      | (inner, ')' :: after) => if after.contains '\n' then none else some (before, inner, after)
      | _ => none := by
  obtain ⟨c, before, rfl⟩ := List.exists_cons_of_ne_nil hne
  rw [splitThreshold?, Text.span_ne_append_cons hnot]
  rfl

/-- Digits and points in parentheses are found, unless a line ends behind them. -/
theorem splitThreshold?_append_inner {before inner : List Char} (hne : before ≠ [])
    (hnot : '(' ∉ before) (hinner : inner ≠ []) (hdigits : ∀ c ∈ inner, isThresholdChar c)
    (after : List Char) : splitThreshold? (before ++ '(' :: (inner ++ ')' :: after)) =
      if after.contains '\n' then none else some (before, inner, after) := by
  obtain ⟨i, inner, rfl⟩ := List.exists_cons_of_ne_nil hinner
  rw [splitThreshold?_append_cons hne hnot, Text.span_append_cons hdigits (by decide)]
  rfl

/-- **A text, digits and points in parentheses, and the rest of the line.** -/
theorem splitThreshold?_eq_some_iff {cs before inner after : List Char} :
    splitThreshold? cs = some (before, inner, after) ↔
      cs = before ++ '(' :: (inner ++ ')' :: after) ∧ before ≠ [] ∧ '(' ∉ before ∧ inner ≠ [] ∧
        (∀ c ∈ inner, isThresholdChar c) ∧ '\n' ∉ after := by
  constructor
  · intro h
    obtain ⟨hnot, -⟩ | ⟨head, rest, rfl, hhead, hspan⟩ := Text.exists_span_ne_eq '(' cs
    · rw [splitThreshold?_of_notMem hnot] at h
      exact absurd h (by simp)
    · have hne : head ≠ [] := by
        rintro rfl
        rw [splitThreshold?, hspan] at h
        exact absurd h (by simp)
      rw [splitThreshold?_append_cons hne hhead] at h
      split at h
      · exact absurd h (by simp)
      next digits tail hinner heq =>
        obtain ⟨hline, hparts⟩ := Option.ite_none_left_eq_some.mp h
        obtain ⟨rfl, hbehind⟩ := Prod.mk.inj (Option.some.inj hparts)
        obtain ⟨rfl, rfl⟩ := Prod.mk.inj hbehind
        obtain ⟨rfl, hdigits⟩ := Text.eq_of_span heq
        exact ⟨rfl, hne, hhead, hinner, hdigits, by simpa using hline⟩
      · exact absurd h (by simp)
  · rintro ⟨rfl, hne, hnot, hinner, hdigits, hline⟩
    rw [splitThreshold?_append_inner hne hnot hinner hdigits]
    exact if_neg (by simpa using hline)

/-- **A threshold lies between zero and one.** -/
theorem threshold?_mem_unit {cs : List Char} {t : Binary64} (h : threshold? cs = some t) :
    Binary64.zero.le t = true ∧ t.le (.ofMagnitude .one) = true := by
  rw [threshold?] at h
  cases hm : leadingNumber? cs with
  | none =>
    rw [hm] at h
    cases h
  | some m =>
    rw [hm] at h
    obtain ⟨hone, ht⟩ := Option.ite_none_right_eq_some.mp h
    obtain rfl := Option.some.inj ht
    exact ⟨Binary64.ofMagnitude_le (decide_eq_true (Nat.zero_le m.rank)),
      Binary64.ofMagnitude_le hone⟩

/-! ## Scores -/

/-- A threshold as it is written: the digits of a number and the text behind it. -/
structure Score where
  /-- The digits in front of the point. -/
  whole : List ℕ
  /-- The digits behind the point, if there is a point. -/
  decimals : Option (List ℕ)
  /-- The text behind the number. -/
  rest : List Char

namespace Score

/-- The digits of the number. -/
def digits (s : Score) : List ℕ := s.whole ++ s.decimals.getD []

/-- How many digits stand behind the point. -/
def places (s : Score) : ℕ := (s.decimals.getD []).length

/-- The text in the parentheses. -/
def text (s : Score) : List Char :=
  match s.decimals with
  | none => s.whole.map Text.digitChar ++ s.rest
  | some ds => s.whole.map Text.digitChar ++ '.' :: (ds.map Text.digitChar ++ s.rest)

/-- The double nearest to the number. -/
def value (s : Score) : Binary64 := .ofDecimal false (Text.numeral s.digits) (-s.places)

/-- The same double, known to have no sign. -/
def magnitude (s : Score) : Magnitude := .ofDecimal (Text.numeral s.digits) (-s.places)

/-- A number of any size at the start of a text of digits and points. -/
structure Numeric (s : Score) : Prop where
  /-- Digits are decimal. -/
  digits_lt : ∀ d ∈ s.digits, d < 10
  /-- There is a digit. -/
  digits_ne_nil : s.digits ≠ []
  /-- Digits and points follow. -/
  rest_chars : ∀ c ∈ s.rest, isThresholdChar c
  /-- The number ends where its digits end. -/
  rest_digit : ¬ Text.StartsWithDigit s.rest
  /-- A number without a point is all there is. -/
  rest_eq_nil : s.decimals = none → s.rest = []

/-- A number between zero and one at the start of a text of digits and points. -/
structure WellFormed (s : Score) : Prop extends s.Numeric where
  /-- The number is one at most. -/
  le_one : Text.numeral s.digits ≤ 10 ^ s.places

variable {s : Score}

theorem isThresholdChar_digitChar : ∀ {d : ℕ}, d < 10 → isThresholdChar (Text.digitChar d) := by
  decide

theorem isThresholdChar_of_mem_map {ds : List ℕ} (h : ∀ d ∈ ds, d < 10) :
    ∀ c ∈ ds.map Text.digitChar, isThresholdChar c := by
  intro c hc
  obtain ⟨d, hd, rfl⟩ := List.mem_map.mp hc
  exact isThresholdChar_digitChar (h d hd)

theorem isThresholdChar_of_mem_text (h : s.Numeric) : ∀ c ∈ s.text, isThresholdChar c := by
  obtain ⟨whole, decimals, rest⟩ := s
  obtain ⟨hwhole, hdecimals⟩ := List.forall_mem_append.mp h.digits_lt
  match decimals with
  | none => exact List.forall_mem_append.mpr ⟨isThresholdChar_of_mem_map hwhole, h.rest_chars⟩
  | some ds =>
    refine List.forall_mem_append.mpr ⟨isThresholdChar_of_mem_map hwhole, ?_⟩
    refine List.forall_mem_cons.mpr ⟨by decide, ?_⟩
    exact List.forall_mem_append.mpr ⟨isThresholdChar_of_mem_map hdecimals, h.rest_chars⟩

theorem text_ne_nil (h : s.Numeric) : s.text ≠ [] := by
  obtain ⟨whole, decimals, rest⟩ := s
  have hne := h.digits_ne_nil
  match decimals with
  | none =>
    have hwhole : whole ≠ [] := by simpa [digits] using hne
    simp [text, hwhole]
  | some ds => simp [text]

theorem not_startsWithDigit_point (cs : List Char) : ¬ Text.StartsWithDigit ('.' :: cs) := by
  rintro ⟨c, hc, hdigit⟩
  obtain rfl := Option.some.inj hc
  exact absurd hdigit (by decide)

/-- **The number of a score is read to its end.** -/
theorem leadingNumber?_text (h : s.Numeric) : leadingNumber? s.text = some s.magnitude := by
  obtain ⟨whole, decimals, rest⟩ := s
  obtain ⟨hwhole, hdecimals⟩ := List.forall_mem_append.mp h.digits_lt
  have hne := h.digits_ne_nil
  match decimals with
  | none =>
    obtain rfl : rest = [] := h.rest_eq_nil rfl
    have hread := Text.readDigits_map_append h.rest_digit hwhole
    rw [leadingNumber?, text, hread]
    match whole with
    | [] => exact absurd rfl hne
    | d :: whole => simp [magnitude, digits, places]
  | some ds =>
    have hread : Text.readDigits (ds.map Text.digitChar ++ rest) = (ds, rest) :=
      Text.readDigits_map_append h.rest_digit hdecimals
    rw [leadingNumber?, text,
      Text.readDigits_map_append (not_startsWithDigit_point _) hwhole]
    match whole with
    | [] =>
      simp only [hread]
      match ds with
      | [] => exact absurd rfl hne
      | d :: ds => rfl
    | d :: whole =>
      simp only [hread]
      rfl

theorem threshold?_text (h : s.WellFormed) : threshold? s.text = some s.value := by
  rw [threshold?, leadingNumber?_text h.toNumeric]
  exact if_pos (Magnitude.ofDecimal_le_one h.le_one)

/-- A character that may stand in a threshold is a point or a digit. -/
theorem eq_nil_of_not_startsWithDigit {cs : List Char} (hchars : ∀ c ∈ cs, isThresholdChar c)
    (hdigit : ¬ Text.StartsWithDigit cs) (hpoint : ∀ rest, cs ≠ '.' :: rest) : cs = [] := by
  match cs with
  | [] => rfl
  | c :: cs =>
    have hc := hchars c List.mem_cons_self
    rw [isThresholdChar, Bool.or_eq_true, Bool.and_eq_true] at hc
    simp only [decide_eq_true_iff] at hc
    obtain hc | rfl := hc
    · exact absurd ⟨c, rfl, by simp [Text.asciiDigit?, hc]⟩ hdigit
    · exact absurd rfl (hpoint cs)

/-- **Digits and points that start with a number are a score.** -/
theorem exists_text_eq {cs : List Char} (hchars : ∀ c ∈ cs, isThresholdChar c) {m : Magnitude}
    (h : leadingNumber? cs = some m) : ∃ s : Score, s.Numeric ∧ s.text = cs ∧ s.magnitude = m := by
  obtain ⟨whole, behind, hread⟩ : ∃ whole behind, Text.readDigits cs = (whole, behind) :=
    ⟨_, _, rfl⟩
  obtain ⟨hcs, hwhole, hbehind⟩ := Text.eq_of_readDigits hread
  obtain ⟨-, hchars⟩ := List.forall_mem_append.mp (hcs ▸ hchars)
  rw [leadingNumber?, hread] at h
  by_cases hpoint : ∃ rest, behind = '.' :: rest
  · obtain ⟨rest, rfl⟩ := hpoint
    obtain ⟨ds, rest', hread'⟩ : ∃ ds rest', Text.readDigits rest = (ds, rest') := ⟨_, _, rfl⟩
    obtain ⟨rfl, hds, hrest⟩ := Text.eq_of_readDigits hread'
    obtain ⟨-, hchars⟩ := List.forall_mem_append.mp (List.forall_mem_cons.mp hchars).2
    have hnumeric (hne : whole ++ ds ≠ []) : Numeric ⟨whole, some ds, rest'⟩ :=
      ⟨List.forall_mem_append.mpr ⟨hwhole, hds⟩, hne, hchars, hrest, nofun⟩
    match whole, ds with
    | [], [] => simp only [hread', reduceCtorEq] at h
    | [], d :: ds =>
      simp only [hread'] at h
      exact ⟨_, hnumeric (List.cons_ne_nil d ds), hcs.symm, Option.some.inj h⟩
    | d :: whole, ds =>
      simp only [hread'] at h
      exact ⟨_, hnumeric (List.cons_ne_nil d _), hcs.symm, Option.some.inj h⟩
  · obtain rfl := eq_nil_of_not_startsWithDigit hchars hbehind fun rest hrest =>
      hpoint ⟨rest, hrest⟩
    match whole with
    | [] => simp only [reduceCtorEq] at h
    | d :: whole =>
      have hnumeric : Numeric ⟨d :: whole, none, []⟩ :=
        ⟨by simpa [digits] using hwhole, by simp [digits], hchars, hbehind, fun _ => rfl⟩
      refine ⟨_, hnumeric, hcs.symm, ?_⟩
      simpa [magnitude, digits, places] using h

theorem threshold?_eq_some_iff {cs : List Char} (hchars : ∀ c ∈ cs, isThresholdChar c)
    {t : Binary64} : threshold? cs = some t ↔
      ∃ s : Score, s.Numeric ∧ s.magnitude.le .one ∧ s.text = cs ∧ s.value = t := by
  rw [threshold?]
  constructor
  · intro h
    cases hm : leadingNumber? cs with
    | none =>
      rw [hm] at h
      cases h
    | some m =>
      rw [hm] at h
      obtain ⟨hone, ht⟩ := Option.ite_none_right_eq_some.mp h
      obtain ⟨s, hs, htext, rfl⟩ := exists_text_eq hchars hm
      exact ⟨s, hs, hone, htext, Option.some.inj ht⟩
  · rintro ⟨s, hs, hone, rfl, rfl⟩
    rw [leadingNumber?_text hs]
    exact if_pos hone

end Score

end EntitySchema.Grammar
