import EntitySchema.Proofs.Field
import EntitySchema.Proofs.Grammar.Bars

/-!
# Proofs/Grammar/Union — two readers of a union

                       ┌── unionTypes ──▸ every candidate without its threshold
    part | part | part ┤
                       └── parse behind an operator ──▸ one threshold taken out, then the parts

A union is written as parts between bars, each of them blank or a candidate with or without a
threshold (`UnionPart`).  Read on its own it lists its candidates (`unionTypes_joined`).  Behind an
operator only the first threshold is taken out (`takeThreshold_joined`), and a single part keeps the
bars around it; so the two agree on exactly those unions that have no second threshold, no end of a
line behind a threshold, and no bar beside a single candidate (`Field.candidates_parse_iff`).
-/

namespace EntitySchema

open Grammar

/-! ## Unions as they are written -/

/-- A candidate as it is written. -/
structure Candidate where
  /-- The blanks in front of it. -/
  left : List Char
  /-- Its name. -/
  name : List Char
  /-- Its threshold, and the blanks in front of that. -/
  score : Option (List Char × Score)
  /-- The blanks behind it. -/
  right : List Char

namespace Candidate

/-- The threshold as it is written. -/
def scoreText (c : Candidate) : List Char :=
  (c.score.map fun (gap, score) => gap ++ '(' :: (score.text ++ [')'])).getD []

/-- The name and the threshold. -/
def label (c : Candidate) : List Char := c.name ++ c.scoreText

/-- The same candidate without a threshold. -/
def bare (c : Candidate) : Candidate := { c with score := none }

/-- The parts are what they are called. -/
structure WellFormed (c : Candidate) : Prop where
  /-- Blanks stand in front of the candidate … -/
  left : ∀ d ∈ c.left, Text.isBlank d
  /-- … and behind it. -/
  right : ∀ d ∈ c.right, Text.isBlank d
  /-- It is an identifier. -/
  name : isIdentifier c.name
  /-- The threshold starts with a number between zero and one, and blanks stand in front of it. -/
  score : ∀ s ∈ c.score, (∀ d ∈ s.1, Text.isBlank d) ∧ s.2.WellFormed

end Candidate

/-- What stands between two bars. -/
inductive UnionPart where
  /-- Blanks, or nothing. -/
  | blank (blanks : List Char)
  /-- A candidate. -/
  | candidate (c : Candidate)

namespace UnionPart

/-- The part as it is written. -/
def text : UnionPart → List Char
  | blank blanks => blanks
  | candidate c => c.left ++ (c.label ++ c.right)

/-- The candidate. -/
def candidate? : UnionPart → Option Candidate
  | blank _ => none
  | candidate c => some c

/-- The part is what it is called. -/
def WellFormed : UnionPart → Prop
  | blank blanks => ∀ d ∈ blanks, Text.isBlank d
  | candidate c => c.WellFormed

/-- The names of the candidates. -/
def names (ps : List UnionPart) : List (List Char) :=
  ps.filterMap fun p => p.candidate?.map (·.name)

/-- The candidates with the thresholds that are written behind them. -/
def labels (ps : List UnionPart) : List (List Char) :=
  ps.filterMap fun p => p.candidate?.map (·.label)

/-- No candidate has a threshold. -/
def Unscored (ps : List UnionPart) : Prop := ∀ p ∈ ps, ∀ c ∈ p.candidate?, c.score = none

/-- The parts with bars between them. -/
def joined (ps : List UnionPart) : List Char := ['|'].intercalate (ps.map text)

end UnionPart

namespace Candidate

variable {c : Candidate}

/-! ## Candidates -/

theorem label_of_none (h : c.score = none) : c.label = c.name := by
  rw [label, scoreText, h, Option.map_none, Option.getD_none, List.append_nil]

theorem label_of_some {gap : List Char} {score : Score} (h : c.score = some (gap, score)) :
    c.label = c.name ++ gap ++ '(' :: (score.text ++ [')']) := by
  rw [label, scoreText, h, List.append_assoc]
  rfl

@[simp] theorem label_eq_name_iff : c.label = c.name ↔ c.score = none := by
  refine ⟨fun heq => ?_, label_of_none⟩
  match hscore : c.score with
  | none => rfl
  | some (gap, score) =>
    rw [label_of_some hscore, List.append_assoc, List.append_right_eq_self] at heq
    exact absurd heq (by simp)

theorem mem_label (h : c.WellFormed) {d : Char} (hd : d ∈ c.label) :
    isIdentifierChar d ∨ Text.isBlank d ∨ isThresholdChar d ∨
      c.score ≠ none ∧ (d = '(' ∨ d = ')') := by
  have hname := isIdentifierChar_of_isIdentifier h.name
  match hscore : c.score with
  | none =>
    rw [label_of_none hscore] at hd
    exact .inl (hname d hd)
  | some (gap, score) =>
    obtain ⟨hgap, hvalid⟩ := h.score _ hscore
    rw [label_of_some hscore] at hd
    simp only [List.mem_append, List.mem_cons, List.not_mem_nil, or_false] at hd
    obtain (hd | hd) | rfl | hd | rfl := hd
    · exact .inl (hname d hd)
    · exact .inr (.inl (hgap d hd))
    · exact .inr (.inr (.inr ⟨Option.some_ne_none _, .inl rfl⟩))
    · exact .inr (.inr (.inl (Score.isThresholdChar_of_mem_text hvalid.toNumeric d hd)))
    · exact .inr (.inr (.inr ⟨Option.some_ne_none _, .inr rfl⟩))

theorem trim_label (h : c.WellFormed) : Text.trim c.label = c.label := by
  have hname := trim_of_isIdentifier h.name
  match hscore : c.score with
  | none => rwa [label_of_none hscore]
  | some (gap, score) =>
    have hstart : Text.trimStart (c.name ++ gap) = c.name ++ gap := by
      refine Text.trimStart_eq_self_iff.mpr fun d hd => ?_
      rw [List.head?_append_of_ne_nil _ (ne_nil_of_isIdentifier h.name)] at hd
      exact (Text.trim_eq_self_iff.mp hname).1 d hd
    rw [label_of_some hscore, Text.trim_append_cons (by decide), hstart,
      Text.trimEnd_append_cons (by decide)]
    rfl

theorem label_ne_nil (h : c.WellFormed) : c.label ≠ [] := by
  simp [label, ne_nil_of_isIdentifier h.name]

/-- The threshold is dropped. -/
theorem trim_dropThreshold_label (h : c.WellFormed) :
    Text.trim (dropThreshold c.label) = c.name := by
  have hname := trim_of_isIdentifier h.name
  match hscore : c.score with
  | none =>
    have hclose : ')' ∉ c.name := fun hmem =>
      absurd (isIdentifierChar_of_isIdentifier h.name _ hmem) (by decide)
    rw [label_of_none hscore, dropThreshold_of_notMem hclose, hname]
  | some (gap, score) =>
    obtain ⟨hgap, hvalid⟩ := h.score _ hscore
    rw [label_of_some hscore, dropThreshold_append _ (Score.text_ne_nil hvalid.toNumeric)
      (Score.isThresholdChar_of_mem_text hvalid.toNumeric), Text.trim_append_blank _ hgap, hname]

theorem WellFormed.bare (h : c.WellFormed) : c.bare.WellFormed := ⟨h.left, h.right, h.name, nofun⟩

end Candidate

namespace UnionPart

variable {p : UnionPart} {ps : List UnionPart}

/-! ## Parts between bars -/

theorem trim_text (h : p.WellFormed) : Text.trim p.text = (p.candidate?.map (·.label)).getD [] := by
  cases p with
  | blank blanks =>
    have hblank := Text.trim_append_blank [] h
    rwa [List.nil_append] at hblank
  | candidate c =>
    have hc : c.WellFormed := h
    rw [text, Text.trim_blank_append hc.left, Text.trim_append_blank _ hc.right,
      Candidate.trim_label hc]
    rfl

theorem eq_candidate {c : Candidate} (h : c ∈ p.candidate?) : p = candidate c := by
  cases p with
  | blank blanks => exact absurd h (by simp [candidate?])
  | candidate c' => exact congrArg candidate (Option.some.inj h)

theorem mem_text (h : p.WellFormed) {d : Char} (hd : d ∈ p.text) :
    isIdentifierChar d ∨ Text.isBlank d ∨ isThresholdChar d ∨
      (∃ c ∈ p.candidate?, c.score ≠ none) ∧ (d = '(' ∨ d = ')') := by
  cases p with
  | blank blanks => exact .inr (.inl (h d hd))
  | candidate c =>
    have hc : c.WellFormed := h
    rw [text, List.mem_append, List.mem_append] at hd
    obtain hd | hd | hd := hd
    · exact .inr (.inl (hc.left d hd))
    · obtain hd | hd | hd | ⟨hscore, hd⟩ := Candidate.mem_label hc hd
      · exact .inl hd
      · exact .inr (.inl hd)
      · exact .inr (.inr (.inl hd))
      · exact .inr (.inr (.inr ⟨⟨c, rfl, hscore⟩, hd⟩))
    · exact .inr (.inl (hc.right d hd))

theorem bar_notMem_text (h : p.WellFormed) : '|' ∉ p.text := fun hmem => by
  obtain hd | hd | hd | ⟨-, hd⟩ := mem_text h hmem <;> exact absurd hd (by decide)

/-- A list of texts, some of them empty, without the empty ones. -/
theorem filter_map_eq_filterMap {f : UnionPart → List Char} {g : UnionPart → Option (List Char)}
    (h : ∀ p ∈ ps, f p = (g p).getD [] ∧ g p ≠ some []) :
    (ps.map f).filter (· ≠ []) = ps.filterMap g := by
  rw [← List.filterMap_eq_filter, List.filterMap_map]
  refine List.filterMap_congr fun p hp => ?_
  obtain ⟨hf, hg⟩ := h p hp
  rw [Function.comp_apply, hf]
  match hgp : g p with
  | none => rfl
  | some [] => exact absurd hgp hg
  | some (d :: ds) => rfl

theorem joined_append_cons (before : List UnionPart) (p : UnionPart) (after : List UnionPart) :
    joined (before ++ p :: after) =
      before.flatMap (·.text ++ ['|']) ++ (p.text ++ after.flatMap ('|' :: ·.text)) := by
  rw [joined, List.map_append, List.map_cons, Text.intercalate_append_cons, List.flatMap_map,
    List.flatMap_map]

theorem pointsClosed_text (h : p.WellFormed) : PointsClosed p.text := by
  have hblank : ∀ {ds : List Char}, (∀ d ∈ ds, Text.isBlank d) → PointsClosed ds := fun h =>
    pointsClosed_of_notMem fun hmem => absurd (h _ hmem) (by decide)
  cases p with
  | blank blanks => exact hblank h
  | candidate c =>
    have hc : c.WellFormed := h
    have hname : PointsClosed c.name := pointsClosed_of_notMem fun hmem =>
      absurd (isIdentifierChar_of_isIdentifier hc.name _ hmem) (by decide)
    refine (hblank hc.left).append (PointsClosed.append ?_ (hblank hc.right))
    match hscore : c.score with
    | none => rwa [Candidate.label_of_none hscore]
    | some (gap, score) =>
      obtain ⟨hgap, -⟩ := hc.score _ hscore
      rw [Candidate.label_of_some hscore]
      refine (hname.append (hblank hgap)).append ?_
      rw [← List.cons_append]
      exact pointsClosed_concat _

theorem mem_joined {d : Char} (hd : d ∈ joined ps) : d = '|' ∨ ∃ p ∈ ps, d ∈ p.text := by
  obtain hd | ⟨t, ht, hd⟩ := Text.mem_intercalate hd
  · exact .inl (List.mem_singleton.mp hd)
  · obtain ⟨p, hp, rfl⟩ := List.mem_map.mp ht
    exact .inr ⟨p, hp, hd⟩

theorem text_subset_joined (hp : p ∈ ps) : p.text ⊆ joined ps := by
  obtain ⟨before, after, rfl⟩ := List.append_of_mem hp
  rw [joined_append_cons]
  exact fun d hd => List.mem_append_right _ (List.mem_append_left _ hd)

variable (hps : ∀ p ∈ ps, p.WellFormed)

include hps

theorem splitAll_joined (hne : ps ≠ []) : Text.splitAll '|' (joined ps) = ps.map text := by
  refine Text.splitAll_intercalate (by simpa using hne) fun t ht => ?_
  obtain ⟨p, hp, rfl⟩ := List.mem_map.mp ht
  exact bar_notMem_text (hps p hp)

/-- **Read on its own, a union lists its candidates.** -/
theorem unionTypes_joined (hne : ps ≠ []) :
    unionTypes (.ofList (joined ps)) = (names ps).map .ofList := by
  rw [unionTypes, String.toList_ofList, splitAll_joined hps hne, List.map_map]
  refine congrArg (List.map String.ofList) (filter_map_eq_filterMap fun p hp => ?_)
  have hp := hps p hp
  rw [Function.comp_apply, trim_text hp]
  cases p with
  | blank blanks => exact ⟨rfl, (Option.some_ne_none []).symm⟩
  | candidate c =>
    exact ⟨Candidate.trim_dropThreshold_label hp, fun heq =>
      ne_nil_of_isIdentifier hp.name (Option.some.inj heq)⟩

theorem barParts_joined (hne : ps ≠ []) : barParts (joined ps) = labels ps := by
  rw [barParts, splitAll_joined hps hne, List.map_map]
  refine filter_map_eq_filterMap fun p hp => ⟨trim_text (hps p hp), ?_⟩
  cases p with
  | blank blanks => exact (Option.some_ne_none []).symm
  | candidate c => exact fun heq => Candidate.label_ne_nil (hps _ hp) (Option.some.inj heq)

/-! ## Characters of a union -/

theorem bar_mem_joined : '|' ∈ joined ps ↔ 2 ≤ ps.length := by
  match ps with
  | [] => simp [joined]
  | [p] => simpa [joined] using bar_notMem_text (hps p List.mem_cons_self)
  | p :: q :: ps => simp [joined]

/-- Parentheses stand in a union for a threshold. -/
theorem parenthesis_mem_joined {d : Char} (hd : d = '(' ∨ d = ')') :
    d ∈ joined ps ↔ ¬ Unscored ps := by
  constructor
  · intro hmem hnone
    obtain rfl | ⟨p, hp, hdp⟩ := mem_joined hmem
    · exact absurd hd (by decide)
    · obtain hdp | hdp | hdp | ⟨⟨c, hc, hscore⟩, -⟩ := mem_text (hps p hp) hdp
      · obtain rfl | rfl := hd <;> exact absurd hdp (by decide)
      · obtain rfl | rfl := hd <;> exact absurd hdp (by decide)
      · obtain rfl | rfl := hd <;> exact absurd hdp (by decide)
      · exact hscore (hnone p hp c hc)
  · intro hsome
    simp only [Unscored, not_forall] at hsome
    obtain ⟨p, hp, c, hc, hscore⟩ := hsome
    obtain rfl := eq_candidate hc
    obtain ⟨⟨gap, score⟩, hscore⟩ := Option.ne_none_iff_exists'.mp hscore
    refine text_subset_joined hp ?_
    rw [text, Candidate.label_of_some hscore]
    obtain rfl | rfl := hd <;> simp

/-- Other signs stand nowhere in a union. -/
theorem notMem_joined {d : Char} (hsign : d ∈ signChars) (hbar : d ≠ '|') (hopen : d ≠ '(')
    (hclose : d ≠ ')') (hdigit : isThresholdChar d = false) : d ∉ joined ps := by
  intro hmem
  obtain rfl | ⟨p, hp, hdp⟩ := mem_joined hmem
  · exact hbar rfl
  · obtain hdp | hdp | hdp | ⟨-, hdp⟩ := mem_text (hps p hp) hdp
    · exact notMem_signChars_of_isIdentifierChar hdp hsign
    · exact notMem_signChars_of_isBlank hdp hsign
    · exact absurd (hdigit.symm.trans hdp) (by simp)
    · exact hdp.elim hopen hclose

theorem pointsClosed_joined : PointsClosed (joined ps) := by
  refine .intercalate (by decide) fun t ht => ?_
  obtain ⟨p, hp, rfl⟩ := List.mem_map.mp ht
  exact pointsClosed_text (hps p hp)

end UnionPart

namespace UnionPart

variable {ps : List UnionPart}

/-- All that stands in front of the threshold of a candidate, but the blanks. -/
def front (before : List UnionPart) (c : Candidate) : List Char :=
  before.flatMap (·.text ++ ['|']) ++ (c.left ++ c.name)

/-- All that stands behind the threshold of a candidate. -/
def behind (c : Candidate) (after : List UnionPart) : List Char :=
  c.right ++ after.flatMap ('|' :: ·.text)

/-- No candidate has a threshold, or there is a first one that has. -/
theorem unscored_or_exists : ∀ ps : List UnionPart, Unscored ps ∨
    ∃ before c after, ps = before ++ candidate c :: after ∧ Unscored before ∧ c.score ≠ none
  | [] => .inl (List.forall_mem_nil _)
  | p :: ps => by
      by_cases hp : ∀ c ∈ p.candidate?, c.score = none
      · obtain hps | ⟨before, c, after, rfl, hbefore, hscore⟩ := unscored_or_exists ps
        · exact .inl (List.forall_mem_cons.mpr ⟨hp, hps⟩)
        · exact .inr ⟨p :: before, c, after, rfl, List.forall_mem_cons.mpr ⟨hp, hbefore⟩, hscore⟩
      · simp only [not_forall] at hp
        obtain ⟨c, hc, hscore⟩ := hp
        obtain rfl := eq_candidate hc
        exact .inr ⟨[], c, ps, rfl, List.forall_mem_nil _, hscore⟩

section

variable {before after : List UnionPart} {c : Candidate}

theorem joined_bare : joined (before ++ candidate c.bare :: after) =
    front before c ++ behind c after := by
  rw [joined_append_cons, text, Candidate.label_of_none rfl, front, behind]
  simp [Candidate.bare]

theorem joined_scored {gap : List Char} {score : Score} (hscore : c.score = some (gap, score)) :
    joined (before ++ candidate c :: after) =
      front before c ++ gap ++ '(' :: (score.text ++ ')' :: behind c after) := by
  rw [joined_append_cons, text, Candidate.label_of_some hscore, front, behind]
  simp

theorem endsWithWord_front (before : List UnionPart) (hc : c.WellFormed) :
    EndsWithWord (front before c) :=
  ((endsWithWord_of_isIdentifier hc.name).append c.left).append _

theorem trim_joined_bare (hc : c.WellFormed) :
    Text.trim (joined (before ++ candidate c.bare :: after)) =
      Text.trim (front before c) ++ Text.trimEnd (behind c after) := by
  obtain ⟨d, hd, hword⟩ := endsWithWord_front before hc
  rw [joined_bare]
  refine Text.trim_append_of_getLast ?_ (fun e he => ?_) _
  · rintro hnil
    rw [hnil] at hd
    exact absurd hd (by simp)
  · obtain rfl := Option.mem_unique he hd
    exact isBlank_of_isIdentifierChar hword

theorem trim_joined_scored {gap : List Char} {score : Score}
    (hscore : c.score = some (gap, score)) :
    Text.trim (joined (before ++ candidate c :: after)) =
      Text.trimStart (front before c ++ gap) ++
        '(' :: (score.text ++ ')' :: Text.trimEnd (behind c after)) := by
  rw [joined_scored hscore, Text.trim_append_cons (by decide), Text.trimEnd_append_cons (by decide)]

theorem unscored_bare_iff : Unscored (before ++ candidate c.bare :: after) ↔
    Unscored before ∧ Unscored after := by
  rw [Unscored, List.forall_mem_append, List.forall_mem_cons]
  exact and_congr_right fun _ => and_iff_right fun d hd => by rw [← Option.some.inj hd]; rfl

theorem parenthesis_notMem_front (hbefore : ∀ p ∈ before, p.WellFormed) (hc : c.WellFormed)
    (hnone : Unscored before) {d : Char} (hd : d = '(' ∨ d = ')') : d ∉ front before c := by
  have hps : ∀ p ∈ before ++ candidate c.bare :: [], p.WellFormed :=
    List.forall_mem_append.mpr ⟨hbefore, List.forall_mem_singleton.mpr hc.bare⟩
  intro hmem
  refine (parenthesis_mem_joined hps hd).mp ?_
    (unscored_bare_iff.mpr ⟨hnone, List.forall_mem_nil _⟩)
  rw [joined_bare]
  exact List.mem_append_left _ hmem

variable {gap : List Char} {score : Score}

theorem parenthesis_notMem_trimStart (hbefore : ∀ p ∈ before, p.WellFormed) (hc : c.WellFormed)
    (hnone : Unscored before) (hscore : c.score = some (gap, score)) {d : Char}
    (hd : d = '(' ∨ d = ')') : d ∉ Text.trimStart (front before c ++ gap) := by
  obtain ⟨hgap, -⟩ := hc.score _ hscore
  intro hmem
  obtain hmem | hmem := List.mem_append.mp ((List.dropWhile_suffix Text.isBlank).subset hmem)
  · exact parenthesis_notMem_front hbefore hc hnone hd hmem
  · obtain rfl | rfl := hd <;> exact absurd (hgap _ hmem) (by decide)

/-- **The first threshold is taken out, if no line ends behind it.** -/
theorem takeThreshold_joined (hbefore : ∀ p ∈ before, p.WellFormed) (hc : c.WellFormed)
    (hnone : Unscored before) (hscore : c.score = some (gap, score)) :
    (takeThreshold (Text.trim (joined (before ++ candidate c :: after)))).1 =
      if '\n' ∈ Text.trimEnd (behind c after) then
        Text.trim (joined (before ++ candidate c :: after))
      else Text.trim (joined (before ++ candidate c.bare :: after)) := by
  obtain ⟨hgap, hvalid⟩ := hc.score _ hscore
  have hopen : '(' ∉ Text.trimStart (front before c ++ gap) :=
    parenthesis_notMem_trimStart hbefore hc hnone hscore (.inl rfl)
  have htrim : Text.trim (Text.trimStart (front before c ++ gap)) = Text.trim (front before c) := by
    rw [Text.trim_trimStart, Text.trim_append_blank _ hgap]
  have hne : Text.trimStart (front before c ++ gap) ≠ [] := fun hnil => by
    obtain ⟨d, hd, hword⟩ := endsWithWord_front before hc
    have hmem := (Text.mem_trim_iff (isBlank_of_isIdentifierChar hword)).mpr
      (List.mem_of_mem_getLast? hd)
    rw [← htrim, hnil] at hmem
    exact absurd hmem List.not_mem_nil
  rw [trim_joined_scored hscore, takeThreshold,
    splitThreshold?_append_inner hne hopen (Score.text_ne_nil hvalid.toNumeric)
      (Score.isThresholdChar_of_mem_text hvalid.toNumeric), List.contains_eq_mem]
  by_cases hline : '\n' ∈ Text.trimEnd (behind c after)
  · rw [if_pos (decide_eq_true hline), if_pos hline]
  · rw [if_neg (by simpa using hline), if_neg hline]
    dsimp only
    rw [Score.threshold?_text hvalid, trim_joined_bare hc]
    exact congrArg (· ++ Text.trimEnd (behind c after)) htrim

/-- A threshold can be taken out, and no other is left. -/
theorem closesOnce_trim_joined (hbefore : ∀ p ∈ before, p.WellFormed) (hc : c.WellFormed)
    (hafter : ∀ p ∈ after, p.WellFormed) (hnone : Unscored before)
    (hscore : c.score = some (gap, score)) :
    ClosesOnce (Text.trim (joined (before ++ candidate c :: after))) ↔
      Unscored after ∧ '\n' ∉ Text.trimEnd (behind c after) := by
  have hbare : ∀ p ∈ before ++ candidate c.bare :: after, p.WellFormed :=
    List.forall_mem_append.mpr ⟨hbefore, List.forall_mem_cons.mpr ⟨hc.bare, hafter⟩⟩
  obtain ⟨-, hvalid⟩ := hc.score _ hscore
  have hfront : ')' ∉ front before c := parenthesis_notMem_front hbefore hc hnone (.inr rfl)
  -- The same text without the threshold has its parentheses behind the threshold.
  have hbehind := (Text.mem_trim_iff (by decide)).trans (parenthesis_mem_joined hbare (.inr rfl))
  rw [trim_joined_bare hc, List.mem_append,
    or_iff_right fun hmem => hfront (Text.trim_subset _ hmem), unscored_bare_iff,
    and_iff_right hnone] at hbehind
  have hclose : ')' ∉ Text.trimStart (front before c ++ gap) ++ '(' :: score.text := by
    simp only [List.mem_append, List.mem_cons, not_or]
    refine ⟨parenthesis_notMem_trimStart hbefore hc hnone hscore (.inr rfl), by decide, ?_⟩
    exact fun hmem => absurd (Score.isThresholdChar_of_mem_text hvalid.toNumeric _ hmem) (by decide)
  rw [trim_joined_scored hscore, ← List.cons_append, ← List.append_assoc,
    closesOnce_append_cons hclose, hbehind, not_not]

end

/-! ## The candidates that are read -/

@[simp] theorem length_labels (ps : List UnionPart) : (labels ps).length = (names ps).length := by
  rw [labels, names, List.length_filterMap_eq_countP, List.length_filterMap_eq_countP]
  simp only [Option.isSome_map]

theorem labels_eq_names_iff : ∀ {ps : List UnionPart}, labels ps = names ps ↔ Unscored ps
  | [] => ⟨fun _ => List.forall_mem_nil _, fun _ => rfl⟩
  | blank blanks :: ps => by
      change labels ps = names ps ↔ _
      rw [labels_eq_names_iff, Unscored, Unscored, List.forall_mem_cons]
      exact (and_iff_right nofun).symm
  | candidate c :: ps => by
      change c.label :: labels ps = c.name :: names ps ↔ _
      rw [List.cons.injEq, Candidate.label_eq_name_iff, labels_eq_names_iff, Unscored, Unscored,
        List.forall_mem_cons]
      exact and_congr_left fun _ => ⟨fun h d hd => Option.some.inj hd ▸ h, fun h => h c rfl⟩

section

variable (hps : ∀ p ∈ ps, p.WellFormed)

include hps

@[simp] theorem stripModifiers_trim_joined :
    stripModifiers (Text.trim (joined ps)) = (Text.trim (joined ps), {}) := by
  rw [stripModifiers_of_getLast fun d hd hmodifier => ?_, Text.trim_trim]
  obtain ⟨hbar, hopen, hclose, hdigit⟩ : d ≠ '|' ∧ d ≠ '(' ∧ d ≠ ')' ∧ isThresholdChar d = false :=
    (by decide : ∀ d ∈ modifierChars, d ≠ '|' ∧ d ≠ '(' ∧ d ≠ ')' ∧ isThresholdChar d = false)
      d hmodifier
  exact notMem_joined hps (List.mem_append_right _ hmodifier) hbar hopen hclose hdigit
    (Text.trim_subset _ (List.mem_of_mem_getLast? hd))

theorem candidates?_trim_joined (hne : ps ≠ []) : candidates? (Text.trim (joined ps)) =
    if 2 ≤ (names ps).length then some ((labels ps).map .ofList) else none := by
  rw [candidates?, stripModifiers_trim_joined hps]
  dsimp only
  rw [(pointsClosed_joined hps).trim.splitBackref, barParts_trim, barParts_joined hps hne,
    length_labels]

/-- A single candidate is read if it has no threshold and no bar beside it. -/
theorem unaliased_trim_joined_iff {n : List Char} (hnames : names ps = [n])
    (hbool : n ≠ "bool".toList) :
    unaliased (Text.trim (joined ps)) = n ↔ Unscored ps ∧ ps.length = 1 := by
  have hmem : n ∈ names ps := hnames ▸ List.mem_cons_self
  obtain ⟨p, hp, hpn⟩ := List.mem_filterMap.mp hmem
  obtain ⟨c, hpc, rfl⟩ := Option.map_eq_some_iff.mp hpn
  obtain rfl := eq_candidate hpc
  have hc : c.WellFormed := hps _ hp
  constructor
  · intro heq
    have hword := isIdentifierChar_of_unaliased (heq ▸ hc.name)
    refine ⟨by_contra fun hscored => ?_, ?_⟩
    · have hclose := (parenthesis_mem_joined hps (.inr rfl)).mpr hscored
      exact absurd (hword _ ((Text.mem_trim_iff (by decide)).mpr hclose)) (by decide)
    · have hbar : ¬ 2 ≤ ps.length := fun hlength => by
        have hbar := (bar_mem_joined hps).mpr hlength
        exact absurd (hword _ ((Text.mem_trim_iff (by decide)).mpr hbar)) (by decide)
      have hpos := List.length_pos_of_mem hp
      omega
  · rintro ⟨hnone, hlength⟩
    obtain ⟨q, rfl⟩ := List.length_eq_one_iff.mp hlength
    obtain rfl := List.mem_singleton.mp hp
    rw [joined, List.map_singleton, List.intercalate_singleton, trim_text (hps _ hp), hpc,
      Option.map_some, Option.getD_some, Candidate.label_of_none (hnone _ hp c hpc)]
    exact if_neg hbool

end

/-- **What is left when a threshold is taken out of a union is a union of the same candidates**, and
none of them has a threshold exactly if it was the only one and could be taken out. -/
theorem exists_takeThreshold_joined (hps : ∀ p ∈ ps, p.WellFormed) :
    ∃ qs, (∀ q ∈ qs, q.WellFormed) ∧ names qs = names ps ∧ qs.length = ps.length ∧
      (takeThreshold (Text.trim (joined ps))).1 = Text.trim (joined qs) ∧
      (Unscored qs ↔ ClosesOnce (Text.trim (joined ps))) := by
  obtain hnone | ⟨before, c, after, rfl, hnone, hscore⟩ := unscored_or_exists ps
  · have hparenthesis : ∀ {d : Char}, d = '(' ∨ d = ')' → d ∉ Text.trim (joined ps) :=
      fun hd hmem => (parenthesis_mem_joined hps hd).mp (Text.trim_subset _ hmem) hnone
    refine ⟨ps, hps, rfl, rfl, ?_,
      iff_of_true hnone (closesOnce_of_notMem (hparenthesis (.inr rfl)))⟩
    rw [takeThreshold, splitThreshold?_of_notMem (hparenthesis (.inl rfl))]
  · obtain ⟨⟨gap, score⟩, hscore⟩ := Option.ne_none_iff_exists'.mp hscore
    obtain ⟨hbefore, hrest⟩ := List.forall_mem_append.mp hps
    obtain ⟨hc, hafter⟩ := List.forall_mem_cons.mp hrest
    rw [takeThreshold_joined hbefore hc hnone hscore,
      closesOnce_trim_joined hbefore hc hafter hnone hscore]
    split_ifs with hline
    · refine ⟨_, hps, rfl, rfl, rfl, iff_of_false (fun hqs => ?_) fun h => h.2 hline⟩
      have hcandidate := hqs (candidate c) (List.mem_append_right _ List.mem_cons_self) c rfl
      exact Option.some_ne_none _ (hscore.symm.trans hcandidate)
    · refine ⟨before ++ candidate c.bare :: after,
        List.forall_mem_append.mpr ⟨hbefore, List.forall_mem_cons.mpr ⟨hc.bare, hafter⟩⟩, ?_, ?_,
        rfl, ?_⟩
      · rw [names, names, List.filterMap_append, List.filterMap_append]
        rfl
      · simp
      · rw [unscored_bare_iff, and_iff_right hnone, and_iff_left hline]

end UnionPart

namespace Field

open UnionPart

theorem candidates_relationField (name : String) {arrow : Arrow}
    (harrow : arrow.unionTypes ≠ some []) :
    (relationField name arrow).candidates = arrow.unionTypes.getD
      [.ofList (unaliased (splitBackref (stripModifiers arrow.target.toList).1).1)] := by
  rw [relationField]
  dsimp only
  -- The target stays a variable: its computation is not to be unfolded.
  generalize unaliased (splitBackref (stripModifiers arrow.target.toList).1).1 = type
  cases hunion : arrow.unionTypes with
  | none => rfl
  | some ts =>
    cases ts with
    | nil => exact absurd hunion harrow
    | cons t ts => rfl

/-- The candidates behind an operator are those of the text that is left without a threshold. -/
theorem candidates_parse_joined {ps : List UnionPart} (hps : ∀ p ∈ ps, p.WellFormed)
    {target : List Char} (htarget : (takeThreshold (Text.trim (joined ps))).1 = target)
    (name : String) (o : Operator) :
    (parse name (o.symbol ++ .ofList (joined ps))).candidates = (candidates? target).getD
      [.ofList (unaliased (splitBackref (stripModifiers target).1).1)] := by
  have hsigns : ∀ o' : Operator, ∀ d ∈ joined ps, d ∉ o'.symbol.toList := by
    intro o' d hd hmem
    obtain ⟨hsign, hbar, -, hopen, hclose, hdigit, -⟩ := mem_symbol o' d hmem
    exact notMem_joined hps hsign hbar hopen hclose hdigit hd
  have hfind : findOperator? (o.symbol ++ .ofList (joined ps)).toList =
      some (o, [], joined ps) := by
    rw [String.toList_append, String.toList_ofList, ← List.nil_append (o.symbol.toList ++ _)]
    exact findOperator?_append_symbol
      (fun o' _ hfound => symbol_ne_nil o' (List.infix_nil.mp hfound)) hsigns
  have harrow : Arrow.parse? (o.symbol ++ .ofList (joined ps)) = some
      { operator := o
        target := .ofList target
        unionTypes := candidates? target
        threshold := (takeThreshold (Text.trim (joined ps))).2
        prompt := none } := by
    rw [Arrow.parse?_eq, hfind, Option.map_some, ← htarget]
    rfl
  rw [parse, harrow]
  dsimp only
  rw [candidates_relationField, String.toList_ofList]
  dsimp only
  exact candidates?_ne_nil target

/-- **The two readers of a union agree** exactly if there is no second threshold and no end of a
line behind the one there is, and no bar beside a single candidate.  They always find equally many
candidates, and the one that reads a union on its own finds those that are written. -/
theorem candidates_parse_iff {ps : List UnionPart} (hps : ∀ p ∈ ps, p.WellFormed)
    (hnames : names ps ≠ []) (hbool : names ps ≠ ["bool".toList]) {u : String}
    (hu : u = .ofList (joined ps)) (name : String) (o : Operator) :
    unionTypes u = (names ps).map .ofList ∧
    (parse name (o.symbol ++ u)).candidates.length = (unionTypes u).length ∧
    ((parse name (o.symbol ++ u)).candidates = unionTypes u ↔
      ClosesOnce (Text.trim u.toList) ∧ ((unionTypes u).length = 1 → '|' ∉ u.toList)) := by
  subst hu
  obtain ⟨qs, hqs, hsame, hlength, htarget, hcloses⟩ := exists_takeThreshold_joined hps
  have hne : ps ≠ [] := by
    rintro rfl
    exact hnames rfl
  have hqne : qs ≠ [] := by
    rwa [← List.length_pos_iff, hlength, List.length_pos_iff]
  rw [unionTypes_joined hps hne, candidates_parse_joined hps htarget, String.toList_ofList,
    stripModifiers_trim_joined hqs, (pointsClosed_joined hqs).trim.splitBackref, ← hcloses,
    bar_mem_joined hps, ← hlength, List.length_map, candidates?_trim_joined hqs hqne]
  rw [← hsame] at hnames hbool ⊢
  have hpos := List.length_pos_iff.mpr hnames
  have hinjective : Function.Injective String.ofList := fun _ _ => String.ofList_injective
  refine ⟨rfl, ?_⟩
  split_ifs with htwo
  -- Of several candidates the labels are read, of a single one the whole text.
  · rw [Option.getD_some, (List.map_injective_iff.mpr hinjective).eq_iff,
      labels_eq_names_iff, List.length_map, length_labels]
    exact ⟨rfl, (and_iff_left fun hone => by omega).symm⟩
  · obtain ⟨n, hn⟩ := List.length_eq_one_iff.mp (by omega : (names qs).length = 1)
    have hqpos := List.length_pos_iff.mpr hqne
    have hsingle : ([n].length = 1 → ¬ 2 ≤ qs.length) ↔ qs.length = 1 := by
      simp only [List.length_singleton, forall_const]
      omega
    rw [hn, Option.getD_none, List.map_singleton, List.cons.injEq, hinjective.eq_iff,
      unaliased_trim_joined_iff hqs hn (fun heq => hbool (by rw [hn, heq])), hsingle]
    exact ⟨rfl, and_iff_left rfl⟩

/-- Two candidates with blanks between them, the first of them with a threshold. -/
def rivals (score : Option (List Char × Score)) : List UnionPart :=
  [.candidate ⟨[], "A".toList, some ([' '], ⟨[0], some [8], []⟩), []⟩, .blank [' '],
    .candidate ⟨[], "B".toList, score, []⟩]

theorem wellFormed_rivals {score : Option (List Char × Score)}
    (h : ∀ s ∈ score, (∀ d ∈ s.1, Text.isBlank d) ∧ s.2.WellFormed) :
    ∀ p ∈ rivals score, p.WellFormed := by
  have hscore : Score.WellFormed ⟨[0], some [8], []⟩ :=
    ⟨⟨by decide, by decide, by decide, nofun, by decide⟩, by decide⟩
  simp only [rivals, List.forall_mem_cons]
  refine ⟨⟨by decide, by decide, by decide, ?_⟩, (by decide : ∀ d ∈ [' '], Text.isBlank d),
    ⟨nofun, nofun, rfl, h⟩, List.forall_mem_nil _⟩
  rintro s ⟨⟩
  exact ⟨by decide, hscore⟩

theorem candidates_parse_iff_rivals :
    (∀ p ∈ rivals none, p.WellFormed) ∧ (∀ p ∈ rivals (some ([], ⟨[1], none, []⟩)), p.WellFormed) ∧
    (parse "owner" "->A (0.8)| |B").candidates = ["A", "B"] ∧
    (parse "owner" "->A (0.8)| |B(1)").candidates ≠ unionTypes "A (0.8)| |B(1)" := by
  have hone : ∀ s ∈ some (([] : List Char), (⟨[1], none, []⟩ : Score)),
      (∀ d ∈ s.1, Text.isBlank d) ∧ s.2.WellFormed := by
    rintro s ⟨⟩
    exact ⟨by decide, ⟨by decide, by decide, by decide, nofun, by decide⟩, by decide⟩
  have hps : ∀ p ∈ rivals none, p.WellFormed := wellFormed_rivals nofun
  have hqs := wellFormed_rivals hone
  obtain ⟨hlist, -, hagree⟩ := candidates_parse_iff hps (by decide) (by decide)
    (u := "A (0.8)| |B") rfl "owner" .forwardExact
  obtain ⟨hlist', -, hagree'⟩ := candidates_parse_iff hqs (by decide) (by decide)
    (u := "A (0.8)| |B(1)") rfl "owner" .forwardExact
  have hcloses : ClosesOnce ("A (0.8".toList ++ ')' :: "| |B".toList) :=
    (closesOnce_append_cons (by decide)).mpr (by decide)
  refine ⟨hps, hqs, (hagree.mpr ⟨hcloses, fun h => ?_⟩).trans hlist, fun heq => ?_⟩
  · rw [hlist] at h
    exact absurd h (by decide)
  · have hclose := ((hagree'.mp heq).1 "A (0.8".toList "| |B(1)".toList rfl).1
    exact absurd hclose (by decide)

end Field

end EntitySchema
