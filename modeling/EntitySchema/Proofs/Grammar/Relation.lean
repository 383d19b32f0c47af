import EntitySchema.Proofs.Grammar.Arrow
import EntitySchema.Proofs.Grammar.Modifier
import EntitySchema.Proofs.Grammar.Target
import EntitySchema.Proofs.Grammar.Threshold
import EntitySchema.Proofs.Text.Split

/-!
# Proofs/Grammar/Relation — a relation is read as it was written

    prompt ── operator ── candidates ── .backref ── (score) ── modifiers
      │          │            │            │           │           │
      └──────────┴────────────┴─── parse ──┴───────────┴───────────┘

A `Spelling` lists the parts of a relation definition with the blanks between them.  Each part ends
before a character that the next one begins with and that no part before has, so cutting the text
at the operator, the parenthesis, the point and the bars finds them again (`Field.parse_spelling`).
-/

namespace EntitySchema

open Modifier Grammar

/-- A candidate behind the first one, and the blanks on both sides of the bar before it. -/
structure Further where
  /-- The blanks in front of the bar. -/
  left : List Char
  /-- The blanks behind the bar. -/
  right : List Char
  /-- The candidate. -/
  name : List Char

/-- The bar and the candidate. -/
def Further.text (f : Further) : List Char := f.left ++ '|' :: (f.right ++ f.name)

/-- A relation as it is written. -/
structure Spelling where
  /-- The text in front of the operator. -/
  prompt : List Char
  /-- The blanks in front of the operator. -/
  left : List Char
  /-- The operator. -/
  operator : Operator
  /-- The blanks behind the operator. -/
  right : List Char
  /-- The first candidate. -/
  first : List Char
  /-- The other candidates. -/
  others : List Further
  /-- The inverse field. -/
  backref : Option (List Char)
  /-- The threshold. -/
  score : Option Score
  /-- The modifiers. -/
  modifiers : List Modifier

namespace Spelling

/-- The candidates. -/
def names (s : Spelling) : List (List Char) := s.first :: s.others.map (·.name)

/-- The candidates as they are written. -/
def candidates (s : Spelling) : List Char := s.first ++ s.others.flatMap Further.text

/-- The candidates and the inverse field. -/
def base (s : Spelling) : List Char := s.candidates ++ (s.backref.map ('.' :: ·)).getD []

/-- The threshold as it is written. -/
def scoreText (s : Spelling) : List Char :=
  (s.score.map fun score => '(' :: (score.text ++ [')'])).getD []

/-- All that stands behind the operator. -/
def target (s : Spelling) : List Char := s.base ++ (s.scoreText ++ spelled s.modifiers)

/-- The definition. -/
def text (s : Spelling) : List Char :=
  s.prompt ++ s.left ++ (s.operator.symbol.toList ++ (s.right ++ s.target))

/-- The parts are what they are called. -/
structure WellFormed (s : Spelling) : Prop where
  /-- The prompt has no operator that is looked for as early as that of the relation. -/
  prompt : ∀ o, scanOrder.idxOf o ≤ scanOrder.idxOf s.operator → ¬ o.symbol.toList <:+: s.prompt
  /-- Blanks stand in front of the operator … -/
  left : ∀ c ∈ s.left, Text.isBlank c
  /-- … and behind it. -/
  right : ∀ c ∈ s.right, Text.isBlank c
  /-- Candidates are identifiers, and no web addresses. -/
  names : ∀ name ∈ s.names, isIdentifier name ∧ ¬ "http".toList <+: name
  /-- The one alias does not stand alone. -/
  names_ne : s.names ≠ ["bool".toList]
  /-- Blanks stand around the bars. -/
  others : ∀ f ∈ s.others, (∀ c ∈ f.left, Text.isBlank c) ∧ ∀ c ∈ f.right, Text.isBlank c
  /-- The inverse field is an identifier. -/
  backref : ∀ b ∈ s.backref, isIdentifier b
  /-- The threshold starts with a number between zero and one. -/
  score : ∀ score ∈ s.score, score.WellFormed

end Spelling

namespace Grammar

/-! ## Characters -/

/-- The characters that operators, bars, points, parentheses and modifiers are written with. -/
def signChars : List Char := ['~', '<', '>', '-', '|', '.', '(', ')'] ++ modifierChars

theorem notMem_signChars_of_isIdentifierChar {c : Char} (h : isIdentifierChar c) :
    c ∉ signChars := fun hmem =>
  absurd h ((by decide : ∀ c ∈ signChars, ¬ isIdentifierChar c) c hmem)

theorem notMem_signChars_of_isBlank {c : Char} (h : Text.isBlank c) : c ∉ signChars := fun hmem =>
  absurd h ((by decide : ∀ c ∈ signChars, ¬ Text.isBlank c) c hmem)

/-- The signs that operators are written with are those of nothing else. -/
theorem mem_symbol (o : Operator) : ∀ c ∈ o.symbol.toList, c ∈ signChars ∧ c ≠ '|' ∧ c ≠ '.' ∧
    c ≠ '(' ∧ c ≠ ')' ∧ isThresholdChar c = false ∧ c ∉ modifierChars := by
  cases o <;> decide

theorem isBlank_of_isIdentifierChar {c : Char} (h : isIdentifierChar c) :
    Text.isBlank c = false := by
  have hle : ∀ {c d : Char}, c ≤ d → c.toNat ≤ d.toNat := fun hcd => hcd
  have hrange : 0x30 ≤ c.toNat ∧ c.toNat ≤ 0x7A := by
    simp only [isIdentifierChar, isLetter, Bool.or_eq_true, Bool.and_eq_true,
      decide_eq_true_iff] at h
    obtain ((⟨hfrom, hto⟩ | ⟨hfrom, hto⟩) | ⟨hfrom, hto⟩) | rfl := h
    · exact ⟨(by decide : 0x30 ≤ 'a'.toNat).trans (hle hfrom), hle hto⟩
    · exact ⟨(by decide : 0x30 ≤ 'A'.toNat).trans (hle hfrom), (hle hto).trans (by decide)⟩
    · exact ⟨hle hfrom, (hle hto).trans (by decide)⟩
    · decide
  simp only [Text.isBlank, Text.blankRanges, List.any_cons, List.any_nil, Bool.or_false,
    Bool.or_eq_false_iff, Bool.and_eq_false_iff, decide_eq_false_iff_not]
  omega

/-! ## Words -/

/-- Whether the text ends with a character of an identifier. -/
def EndsWithWord (cs : List Char) : Prop := ∃ c ∈ cs.getLast?, isIdentifierChar c

theorem isIdentifierChar_of_isIdentifier {cs : List Char} (h : isIdentifier cs) :
    ∀ c ∈ cs, isIdentifierChar c := by
  match cs with
  | [] => exact absurd h (by simp [isIdentifier])
  | c :: cs =>
    rw [isIdentifier, Bool.and_eq_true, Bool.or_eq_true, decide_eq_true_iff, List.all_eq_true] at h
    refine List.forall_mem_cons.mpr ⟨?_, h.2⟩
    obtain hc | rfl := h.1
    · simp [isIdentifierChar, hc]
    · decide

theorem EndsWithWord.append (cs : List Char) {ds : List Char} (h : EndsWithWord ds) :
    EndsWithWord (cs ++ ds) := by
  obtain ⟨c, hc, hident⟩ := h
  refine ⟨c, ?_, hident⟩
  rw [List.getLast?_append, Option.mem_def.mp hc]
  rfl

theorem endsWithWord_of_isIdentifier {cs : List Char} (h : isIdentifier cs) : EndsWithWord cs :=
  ⟨cs.getLast (ne_nil_of_isIdentifier h), List.getLast?_eq_some_getLast _,
    isIdentifierChar_of_isIdentifier h _ (List.getLast_mem _)⟩

/-! ## Candidates behind bars -/

section

variable {fs : List Further} {cs : List Char}

theorem trim_of_isIdentifier (h : isIdentifier cs) : Text.trim cs = cs :=
  Text.trim_eq_self_iff.mpr
    ⟨fun c hc => isBlank_of_isIdentifierChar (isIdentifierChar_of_isIdentifier h c
        (List.mem_of_mem_head? hc)),
      fun c hc => isBlank_of_isIdentifierChar (isIdentifierChar_of_isIdentifier h c
        (List.mem_of_mem_getLast? hc))⟩

theorem endsWithWord_append_flatMap : ∀ {fs : List Further} {cs : List Char},
    (∀ f ∈ fs, isIdentifier f.name) → EndsWithWord cs → EndsWithWord (cs ++ fs.flatMap Further.text)
  | [], cs, _, hcs => by rwa [List.flatMap_nil, List.append_nil]
  | f :: fs, cs, hfs, _ => by
      rw [List.forall_mem_cons] at hfs
      have hf : EndsWithWord f.text := by
        rw [Further.text, ← List.cons_append, ← List.append_assoc]
        exact (endsWithWord_of_isIdentifier hfs.1).append _
      rw [List.flatMap_cons, ← List.append_assoc]
      exact endsWithWord_append_flatMap hfs.2 (hf.append cs)

/-- **Between the bars stand the candidates and blanks around them.** -/
theorem map_trim_splitAll : ∀ {fs : List Further} {cs : List Char},
    (∀ f ∈ fs, ((∀ c ∈ f.left, Text.isBlank c) ∧ ∀ c ∈ f.right, Text.isBlank c) ∧
      isIdentifier f.name) → '|' ∉ cs →
    (Text.splitAll '|' (cs ++ fs.flatMap Further.text)).map Text.trim =
      Text.trim cs :: fs.map (·.name)
  | [], cs, _, hcs => by
      rw [List.flatMap_nil, List.append_nil, Text.splitAll_of_notMem hcs]
      rfl
  | f :: fs, cs, hfs, hcs => by
      rw [List.forall_mem_cons] at hfs
      obtain ⟨⟨⟨hleft, hright⟩, hname⟩, hfs⟩ := hfs
      have hbar : ∀ {ds : List Char}, (∀ c ∈ ds, c ∉ signChars) → '|' ∉ ds := fun h hmem =>
        h _ hmem (by decide)
      have hleft' : '|' ∉ f.left := hbar fun c hc => notMem_signChars_of_isBlank (hleft c hc)
      have hright' : '|' ∉ f.right := hbar fun c hc => notMem_signChars_of_isBlank (hright c hc)
      have hname' : '|' ∉ f.name := hbar fun c hc =>
        notMem_signChars_of_isIdentifierChar (isIdentifierChar_of_isIdentifier hname c hc)
      have hcut : cs ++ (f :: fs).flatMap Further.text =
          (cs ++ f.left) ++ '|' :: ((f.right ++ f.name) ++ fs.flatMap Further.text) := by
        simp [Further.text]
      rw [hcut, Text.splitAll_append _ (by simp [hcs, hleft']), List.map_cons,
        map_trim_splitAll hfs (by simp [hright', hname']), Text.trim_append_blank _ hleft,
        Text.trim_blank_append hright, trim_of_isIdentifier hname]
      rfl

end

end Grammar

namespace Spelling

variable {s : Spelling}

/-! ## The parts behind the operator -/

theorem isIdentifier_first (h : s.WellFormed) : isIdentifier s.first :=
  (h.names _ List.mem_cons_self).1

theorem isIdentifier_of_mem_others (h : s.WellFormed) : ∀ f ∈ s.others, isIdentifier f.name :=
  fun _ hf => (h.names _ (List.mem_cons_of_mem _ (List.mem_map_of_mem hf))).1

theorem mem_candidates (h : s.WellFormed) :
    ∀ c ∈ s.candidates, isIdentifierChar c ∨ Text.isBlank c ∨ c = '|' := by
  rw [candidates, List.forall_mem_append]
  refine ⟨fun c hc => .inl (isIdentifierChar_of_isIdentifier (isIdentifier_first h) c hc), ?_⟩
  intro c hc
  obtain ⟨f, hf, hc⟩ := List.mem_flatMap.mp hc
  rw [Further.text, List.mem_append, List.mem_cons, List.mem_append] at hc
  obtain hc | rfl | hc | hc := hc
  · exact .inr (.inl ((h.others f hf).1 c hc))
  · exact .inr (.inr rfl)
  · exact .inr (.inl ((h.others f hf).2 c hc))
  · exact .inl (isIdentifierChar_of_isIdentifier (isIdentifier_of_mem_others h f hf) c hc)

/-- No sign but the bar stands among the candidates. -/
theorem notMem_candidates (h : s.WellFormed) {c : Char} (hc : c ∈ signChars) (hbar : c ≠ '|') :
    c ∉ s.candidates := by
  intro hmem
  obtain hident | hblank | rfl := mem_candidates h c hmem
  · exact notMem_signChars_of_isIdentifierChar hident hc
  · exact notMem_signChars_of_isBlank hblank hc
  · exact hbar rfl

theorem endsWithWord_base (h : s.WellFormed) : EndsWithWord s.base := by
  have hcandidates : EndsWithWord s.candidates :=
    endsWithWord_append_flatMap (isIdentifier_of_mem_others h)
      (endsWithWord_of_isIdentifier (isIdentifier_first h))
  rw [base]
  match hb : s.backref with
  | none => rwa [Option.map_none, Option.getD_none, List.append_nil]
  | some b =>
    have hword := endsWithWord_of_isIdentifier (h.backref b hb)
    exact (hword.append ['.']).append s.candidates

/-- No sign but the bar and the point stands in front of the threshold. -/
theorem notMem_base (h : s.WellFormed) {c : Char} (hc : c ∈ signChars) (hbar : c ≠ '|')
    (hpoint : c ≠ '.') : c ∉ s.base := by
  rw [base, List.mem_append, not_or]
  refine ⟨notMem_candidates h hc hbar, fun hmem => ?_⟩
  match hb : s.backref with
  | none =>
    rw [hb] at hmem
    exact absurd hmem List.not_mem_nil
  | some b =>
    rw [hb] at hmem
    obtain rfl | hmem := List.mem_cons.mp hmem
    · exact hpoint rfl
    · exact notMem_signChars_of_isIdentifierChar
        (isIdentifierChar_of_isIdentifier (h.backref b hb) c hmem) hc

theorem trim_base (h : s.WellFormed) : Text.trim s.base = s.base := by
  obtain ⟨d, hd, hword⟩ := endsWithWord_base h
  obtain ⟨e, first, hfirst⟩ := List.exists_cons_of_ne_nil
    (ne_nil_of_isIdentifier (isIdentifier_first h))
  have he : isIdentifierChar e :=
    isIdentifierChar_of_isIdentifier (isIdentifier_first h) e (by simp [hfirst])
  refine Text.trim_eq_self_iff.mpr ⟨fun c hc => ?_, fun c hc => ?_⟩
  · simp only [base, candidates, hfirst, List.cons_append, List.head?_cons, Option.mem_def,
      Option.some.injEq] at hc
    exact hc ▸ isBlank_of_isIdentifierChar he
  · obtain rfl := Option.mem_unique hc hd
    exact isBlank_of_isIdentifierChar hword

/-- Behind the first candidate comes a blank, a bar, a point or nothing. -/
theorem head_rest (h : s.WellFormed) {c : Char} (hc : c ∈ (s.others.flatMap Further.text ++
    (s.backref.map ('.' :: ·)).getD []).head?) : Text.isBlank c ∨ c = '|' ∨ c = '.' := by
  match hothers : s.others with
  | [] =>
    rw [hothers, List.flatMap_nil, List.nil_append] at hc
    match hb : s.backref with
    | none =>
      rw [hb] at hc
      exact absurd hc (by simp)
    | some b =>
      rw [hb] at hc
      exact .inr (.inr (Option.some.inj hc).symm)
  | f :: fs =>
    rw [hothers, List.flatMap_cons, Further.text] at hc
    match hleft : f.left with
    | [] =>
      rw [hleft] at hc
      exact .inr (.inl (Option.some.inj hc).symm)
    | d :: left =>
      rw [hleft] at hc
      obtain rfl := Option.some.inj hc
      exact .inl ((h.others f (by simp [hothers])).1 d (by simp [hleft]))

/-- The first candidate is no web address, and what follows does not make it one. -/
theorem isAddress_base (h : s.WellFormed) : isAddress s.base = false := by
  have hrest : ∀ c ∈ (s.others.flatMap Further.text ++ (s.backref.map ('.' :: ·)).getD []).head?,
      c ∉ ['h', 't', 't', 'p'] := by
    intro c hc hmem
    obtain hblank | rfl | rfl := head_rest h hc
    · exact absurd hblank ((by decide : ∀ c ∈ ['h', 't', 't', 'p'], ¬ Text.isBlank c) c hmem)
    · exact absurd hmem (by decide)
    · exact absurd hmem (by decide)
  have hfirst : Text.dropLead? ['h', 't', 't', 'p'] s.first = none :=
    Text.dropLead?_eq_none_iff.mpr (h.names _ List.mem_cons_self).2
  rw [isAddress, base, candidates, List.append_assoc, Text.dropLead?_append hrest, hfirst]
  rfl

/-- The inverse field is cut off. -/
theorem splitBackref_base (h : s.WellFormed) : splitBackref s.base = (s.candidates, s.backref) := by
  have hpoint : '.' ∉ s.candidates := notMem_candidates h (by decide) (by decide)
  match hb : s.backref with
  | none =>
    have hbase : s.base = s.candidates := by
      rw [base, hb, Option.map_none, Option.getD_none, List.append_nil]
    rw [hbase, splitBackref_of_notMem hpoint]
  | some b =>
    have hne : s.candidates ≠ [] := by
      simp [candidates, ne_nil_of_isIdentifier (isIdentifier_first h)]
    have hbase : s.base = s.candidates ++ '.' :: b := by rw [base, hb]; rfl
    exact splitBackref_eq_some_iff.mpr ⟨isAddress_base h, hbase, hne, hpoint, h.backref b hb⟩

/-- The modifiers are taken off. -/
theorem stripModifiers_base (h : s.WellFormed) (ws : List Modifier) :
    stripModifiers (s.base ++ spelled ws) = (s.base, ({} : Modifiers).addAll ws) := by
  have hlast : ∀ c ∈ s.base.getLast?, c ∉ modifierChars := by
    intro c hc hmem
    obtain ⟨d, hd, hword⟩ := endsWithWord_base h
    obtain rfl := Option.mem_unique hc hd
    exact notMem_signChars_of_isIdentifierChar hword (List.mem_append_right _ hmem)
  rw [stripModifiers_append, stripModifiers_of_getLast hlast, trim_base h]

theorem barParts_candidates (h : s.WellFormed) : barParts s.candidates = s.names := by
  have hfirst := isIdentifier_first h
  have hbar : '|' ∉ s.first := fun hmem => notMem_signChars_of_isIdentifierChar
    (isIdentifierChar_of_isIdentifier hfirst _ hmem) (by decide)
  rw [barParts, candidates, map_trim_splitAll
    (fun f hf => ⟨h.others f hf, isIdentifier_of_mem_others h f hf⟩) hbar,
    trim_of_isIdentifier hfirst]
  refine List.filter_eq_self.mpr fun name hname => ?_
  simpa using ne_nil_of_isIdentifier (h.names name hname).1

theorem candidates?_base (h : s.WellFormed) (ws : List Modifier) :
    candidates? (s.base ++ spelled ws) =
      if s.others = [] then none else some (s.names.map .ofList) := by
  rw [candidates?, stripModifiers_base h, splitBackref_base h, barParts_candidates h, names]
  cases s.others with
  | nil => rfl
  | cons f fs => simp

/-- The threshold is taken out. -/
theorem takeThreshold_target (h : s.WellFormed) :
    takeThreshold s.target = (s.base ++ spelled s.modifiers, s.score.map Score.value) := by
  have hopen : '(' ∉ s.base := notMem_base h (by decide) (by decide) (by decide)
  have hmodifiers : ∀ c ∈ spelled s.modifiers, c ≠ '(' ∧ c ≠ '\n' := fun c hc =>
    (by decide : ∀ c ∈ modifierChars, c ≠ '(' ∧ c ≠ '\n') c (mem_modifierChars hc)
  match hscore : s.score with
  | none =>
    have htarget : s.target = s.base ++ spelled s.modifiers := by
      rw [target, scoreText, hscore]
      rfl
    have hnot : '(' ∉ s.base ++ spelled s.modifiers := by
      rw [List.mem_append, not_or]
      exact ⟨hopen, fun hmem => (hmodifiers _ hmem).1 rfl⟩
    rw [takeThreshold, htarget, splitThreshold?_of_notMem hnot]
    rfl
  | some score =>
    have hvalid := h.score score hscore
    have htarget : s.target = s.base ++ '(' :: (score.text ++ ')' :: spelled s.modifiers) := by
      rw [target, scoreText, hscore]
      simp
    have hne : s.base ≠ [] := by
      simp [base, candidates, ne_nil_of_isIdentifier (isIdentifier_first h)]
    have hsplit : splitThreshold? s.target = some (s.base, score.text, spelled s.modifiers) :=
      splitThreshold?_eq_some_iff.mpr ⟨htarget, hne, hopen, Score.text_ne_nil hvalid.toNumeric,
        Score.isThresholdChar_of_mem_text hvalid.toNumeric, fun hmem => (hmodifiers _ hmem).2 rfl⟩
    rw [takeThreshold, hsplit]
    dsimp only
    rw [Score.threshold?_text hvalid, trim_base h]
    rfl

/-! ## The whole definition -/

@[simp] theorem trim_scoreText : Text.trim s.scoreText = s.scoreText := by
  rw [scoreText]
  match s.score with
  | none => rfl
  | some score =>
    refine Text.trim_eq_self_iff.mpr ⟨fun c hc => ?_, fun c hc => ?_⟩
    · obtain rfl := Option.some.inj hc
      decide
    · rw [Option.map_some, Option.getD_some, ← List.cons_append, List.getLast?_concat] at hc
      obtain rfl := Option.some.inj hc
      decide

theorem trim_target (h : s.WellFormed) : Text.trim (s.right ++ s.target) = s.target := by
  rw [Text.trim_blank_append h.right]
  exact Text.trim_append_of_trim (trim_base h)
    (Text.trim_append_of_trim trim_scoreText (trim_spelled _))

/-- No sign of an operator stands behind the operator. -/
theorem notMem_symbol (h : s.WellFormed) (o : Operator) :
    ∀ c ∈ s.right ++ s.target, c ∉ o.symbol.toList := by
  intro c hc hmem
  obtain ⟨hsign, hbar, hpoint, hopen, hclose, hdigit, hmodifier⟩ := mem_symbol o c hmem
  simp only [target, List.mem_append] at hc
  obtain hc | hc | hc | hc := hc
  · exact notMem_signChars_of_isBlank (h.right c hc) hsign
  · exact notMem_base h hsign hbar hpoint hc
  · rw [scoreText] at hc
    match hscore : s.score with
    | none =>
      rw [hscore] at hc
      exact absurd hc List.not_mem_nil
    | some score =>
      rw [hscore] at hc
      obtain rfl | hc := List.mem_cons.mp hc
      · exact hopen rfl
      · obtain hc | hc := List.mem_append.mp hc
        · have htrue := Score.isThresholdChar_of_mem_text (h.score score hscore).toNumeric c hc
          exact absurd (hdigit.symm.trans htrue) (by simp)
        · exact hclose (List.mem_singleton.mp hc)
  · exact hmodifier (mem_modifierChars hc)

theorem findOperator?_text (h : s.WellFormed) :
    findOperator? s.text = some (s.operator, s.prompt ++ s.left, s.right ++ s.target) := by
  refine findOperator?_append_symbol (fun o hle hfound => h.prompt o hle ?_)
    (fun o => notMem_symbol h o)
  refine Text.infix_of_infix_append (symbol_ne_nil o) (fun hmem => ?_) hfound
  exact notMem_signChars_of_isBlank (h.left _ hmem) (mem_symbol o _ (List.getLast_mem _)).1

/-- The parts of the definition around its operator. -/
theorem parse?_text (h : s.WellFormed) : Arrow.parse? (.ofList s.text) = some
    { operator := s.operator
      target := .ofList (s.base ++ spelled s.modifiers)
      unionTypes := if s.others = [] then none else some (s.names.map .ofList)
      threshold := s.score.map Score.value
      prompt := nonempty? (Text.trim s.prompt) } := by
  rw [Arrow.parse?_eq, String.toList_ofList, findOperator?_text h, Option.map_some]
  dsimp only
  rw [trim_target h, takeThreshold_target h, candidates?_base h, Text.trim_append_blank _ h.left]

end Spelling

namespace Field

/-- **A relation is read as it was written.** -/
theorem ofValue_spelling {s : Spelling} (h : s.WellFormed) (name : String) :
    ofValue name (.text (.ofList s.text)) = .ok
      { name
        type := .ofList s.first
        modifiers := ({} : Modifiers).addAll s.modifiers
        shape := .relation
          { relatedType := .ofList s.first
            backref := s.backref.map .ofList
            operator := some s.operator
            threshold := s.score.map Score.value
            unionTypes := if s.others = [] then none else some (s.names.map .ofList)
            prompt :=
              if Text.trim s.prompt = [] then none
              else some (.ofList (Text.trim s.prompt)) } } := by
  rw [ofValue, parse, Spelling.parse?_text h]
  simp only [relationField, String.toList_ofList, Spelling.stripModifiers_base h,
    Spelling.splitBackref_base h]
  cases hothers : s.others with
  | nil =>
    have hfirst : s.candidates = s.first := by simp [Spelling.candidates, hothers]
    have hfull : unaliased s.first = s.first :=
      if_neg fun heq => h.names_ne (by simp [Spelling.names, hothers, heq])
    rw [if_pos rfl, hfirst]
    simp only [hfull]
    rfl
  | cons f fs => rfl

/-- A prompt with an operator that is looked for later, and with a sign of one next to the operator
of the relation; a second candidate on a line of its own; and a threshold with two points. -/
def review : Spelling where
  prompt := "reads <- or <".toList
  left := []
  operator := .forwardExact
  right := [' ']
  first := "User".toList
  others := [⟨['\n'], [' '], "Team".toList⟩]
  backref := some "reviews".toList
  score := some ⟨[0], some [9], ".1".toList⟩
  modifiers := [.optional, .array, .optional]

theorem wellFormed_review : review.WellFormed where
  prompt := by
    intro o
    cases o <;> decide
  left := by decide
  right := by decide
  names := by decide
  names_ne := by decide
  others := by decide
  backref := by decide
  score := by
    rintro score ⟨⟩
    exact ⟨⟨by decide, by decide, by decide, Score.not_startsWithDigit_point _, by decide⟩,
      by decide⟩

theorem ofValue_spelling_review : review.WellFormed ∧
    ofValue "reviewer" (.text "reads <- or <-> User\n| Team.reviews(0.9.1)?[]?") = .ok
      { name := "reviewer", type := "User", modifiers := { array := true, optional := true }
        shape := .relation
          { relatedType := "User", backref := some "reviews", operator := some .forwardExact
            threshold := some (.ofDecimal false 9 (-1)), unionTypes := some ["User", "Team"]
            prompt := some "reads <- or <" } } :=
  ⟨wellFormed_review, ofValue_spelling wellFormed_review "reviewer"⟩

end Field

end EntitySchema
