import EntitySchema.Grammar.Definition
import EntitySchema.Proofs.Grammar.Arrow
import EntitySchema.Proofs.Grammar.Modifier
import EntitySchema.Proofs.Text.Numeral

/-!
# Proofs/Grammar/Bracketed — types with brackets are read as they were written

    decimal( 10, 2 )?[]       map<Pair<int, int> , string?>#
             └┴──┴─ sizes         └──── key ───┘   └─value┘

A `Bracketed` type has sizes in parentheses, or types in angle brackets.  Its name is known by its
first letter, its last bracket is where the modifiers behind it end, and the key of a map ends at
the first comma at which as many brackets are closed as were opened (`splitTopComma?_append`).  What
stands inside is kept as it is, modifiers, commas and blanks included (`Field.parse_bracketed`).
-/

namespace EntitySchema

open Modifier

/-- Something that is written between blanks. -/
structure Padded (α : Type) where
  /-- What is written in front of it. -/
  left : List Char
  /-- What is written. -/
  value : α
  /-- What is written behind it. -/
  right : List Char

namespace Padded

variable {α : Type}

/-- The text, where `spell` writes the value. -/
def text (spell : α → List Char) (p : Padded α) : List Char := p.left ++ (spell p.value ++ p.right)

/-- Only blanks are written around the value. -/
structure Blank (p : Padded α) : Prop where
  /-- Blanks in front of it … -/
  left : ∀ c ∈ p.left, Text.isBlank c
  /-- … and behind it. -/
  right : ∀ c ∈ p.right, Text.isBlank c

/-- The blanks around the value do not break the line. -/
def OneLine (p : Padded α) : Prop := '\n' ∉ p.left ∧ '\n' ∉ p.right

end Padded

/-- The types with a length. -/
inductive Sized where
  /-- `varchar(length)` -/
  | varchar
  /-- `char(length)` -/
  | char
  /-- `fixed(length)` -/
  | fixed

/-- The types with one argument. -/
inductive Container where
  /-- `list<element>` -/
  | list
  /-- `struct<name>` -/
  | struct
  /-- `enum<name>` -/
  | enum
  /-- `ref<target>` -/
  | ref

/-- A type with sizes or arguments in brackets. -/
inductive Bracketed where
  /-- `decimal(precision)` or `decimal(precision, scale)` -/
  | decimal (precision : Padded ℕ) (scale : Option (Padded ℕ))
  /-- A type with a length. -/
  | sized (base : Sized) (length : Padded ℕ)
  /-- A type with one argument. -/
  | container (base : Container) (argument : Padded (List Char))
  /-- `map<key, value>` -/
  | map (key value : Padded (List Char))

/-- What a character adds to the number of open brackets. -/
def bracketStep (c : Char) : ℤ :=
  if c = '<' ∨ c = '(' then 1 else if c = '>' ∨ c = ')' then -1 else 0

/-- How many more brackets a text opens than it closes. -/
def bracketDepth (cs : List Char) : ℤ := (cs.map bracketStep).sum

/-- All brackets are closed at the end of the text, but at none of its commas. -/
structure Undivided (cs : List Char) : Prop where
  /-- At the end. -/
  closed : bracketDepth cs = 0
  /-- At the commas. -/
  comma : ∀ before after, cs = before ++ ',' :: after → bracketDepth before ≠ 0

/-- A text that may stand in angle brackets: on one line, not empty, no blanks around it. -/
structure IsArgument (cs : List Char) : Prop where
  /-- It is not empty. -/
  ne : cs ≠ []
  /-- It has no blanks around it. -/
  trimmed : Text.trim cs = cs
  /-- It is on one line. -/
  line : '\n' ∉ cs

/-- The name of a type with a length. -/
def Sized.name : Sized → String
  | .varchar => "varchar"
  | .char => "char"
  | .fixed => "fixed"

namespace Container

/-- The name of a type with one argument. -/
def name : Container → String
  | .list => "list"
  | .struct => "struct"
  | .enum => "enum"
  | .ref => "ref"

/-- What the argument is. -/
def arguments : Container → String → Generic
  | .list, t => { elementType := some t }
  | .struct, t => { structName := some t }
  | .enum, t => { enumName := some t }
  | .ref, t => { refTarget := some t }

end Container

namespace Bracketed

/-- The name in front of the brackets. -/
def name : Bracketed → String
  | .decimal .. => "decimal"
  | .sized base _ => base.name
  | .container base _ => base.name
  | .map .. => "map"

/-- What stands between the brackets. -/
def inner : Bracketed → List Char
  | .decimal precision none => precision.text Text.ofNat
  | .decimal precision (some scale) => precision.text Text.ofNat ++ ',' :: scale.text Text.ofNat
  | .sized _ length => length.text Text.ofNat
  | .container _ argument => argument.text id
  | .map key value => key.text id ++ ',' :: value.text id

/-- The brackets. -/
def brackets : Bracketed → Char × Char
  | .decimal .. | .sized .. => ('(', ')')
  | .container .. | .map .. => ('<', '>')

/-- The type as it is written. -/
def text (t : Bracketed) : List Char :=
  t.name.toList ++ t.brackets.1 :: (t.inner ++ [t.brackets.2])

/-- What the type says about a field. -/
def shape : Bracketed → Shape
  | .decimal precision scale =>
      .parametric { precision := some precision.value, scale := scale.map fun s => (s.value : ℤ) }
  | .sized _ length => .parametric { length := some length.value }
  | .container base argument => .generic (base.arguments (.ofList argument.value))
  | .map key value =>
      .generic { keyType := some (.ofList key.value), valueType := some (.ofList value.value) }

/-- The parts are what they are called. -/
def WellFormed : Bracketed → Prop
  | .decimal precision scale => precision.Blank ∧ ∀ s ∈ scale, s.Blank
  | .sized _ length => length.Blank
  | .container _ argument => argument.Blank ∧ IsArgument argument.value
  | .map key value => (key.Blank ∧ IsArgument key.value) ∧ (value.Blank ∧ IsArgument value.value) ∧
      Undivided key.value

/-- The angle brackets are closed on the line on which they are opened. -/
def OneLine : Bracketed → Prop
  | .decimal .. | .sized .. => True
  | .container _ argument => argument.OneLine
  | .map key value => key.OneLine ∧ value.OneLine

end Bracketed

namespace Grammar

/-! ## Names -/

/-- The names in front of brackets start with different letters. -/
theorem head?_ne_of_ne : ∀ name ∈ parametricNames ++ genericNames,
    ∀ other ∈ parametricNames ++ genericNames, other ≠ name →
      other.toList.head? ≠ name.toList.head? := by
  decide

/-- So a text that starts with one of them starts with no other. -/
theorem dropLead?_of_ne {name other : String} (hname : name ∈ parametricNames ++ genericNames)
    (hother : other ∈ parametricNames ++ genericNames) (hne : other ≠ name) (pat rest : List Char) :
    Text.dropLead? (other.toList ++ pat) (name.toList ++ rest) = none := by
  have hnil : ∀ name ∈ parametricNames ++ genericNames, name.toList ≠ [] := by decide
  have hhead := head?_ne_of_ne name hname other hother hne
  obtain ⟨c, cs, hc⟩ := List.exists_cons_of_ne_nil (hnil name hname)
  obtain ⟨d, ds, hd⟩ := List.exists_cons_of_ne_nil (hnil other hother)
  rw [hc, hd] at hhead ⊢
  rw [List.cons_append, List.cons_append, Text.dropLead?, if_neg]
  rintro rfl
  exact hhead rfl

/-- A search with at most one success finds it. -/
theorem findSome?_of_forall_ne {α β : Type} {f : α → Option β} {a : α} : ∀ {l : List α}, a ∈ l →
    (∀ b ∈ l, b ≠ a → f b = none) → l.findSome? f = f a
  | [], ha, _ => absurd ha List.not_mem_nil
  | b :: l, ha, h => by
      rw [List.forall_mem_cons] at h
      rw [List.findSome?_cons]
      by_cases hb : b = a
      · subst hb
        match hfb : f b with
        | some _ => rfl
        | none =>
          refine List.findSome?_eq_none_iff.mpr fun x hx => ?_
          by_cases hxb : x = b
          · rw [hxb, hfb]
          · exact h.2 x hx hxb
      · rw [h.1 hb]
        exact findSome?_of_forall_ne (List.mem_of_ne_of_mem (Ne.symm hb) ha) h.2

/-! ## Sizes -/

theorem digit?_of_isBlank {c : Char} (h : Text.isBlank c) : Text.digit? c = none := by
  have hapart : ∀ r ∈ Text.blankRanges, ∀ z ∈ Text.digitZeros, r.2 < z ∨ z + 10 ≤ r.1 := by decide
  obtain ⟨r, hr, hc⟩ := List.any_eq_true.mp h
  rw [Bool.and_eq_true, decide_eq_true_iff, decide_eq_true_iff] at hc
  rw [Text.digit?, Option.map_eq_none_iff, List.find?_eq_none]
  intro z hz hzc
  rw [Bool.and_eq_true, decide_eq_true_iff, decide_eq_true_iff] at hzc
  have := hapart r hr z hz
  omega

theorem readSize?_ofNat (n : ℕ) {rest : List Char} (hne : rest ≠ [])
    (h : ∀ c ∈ rest.head?, Text.digit? c = none) :
    readSize? (Text.ofNat n ++ rest) = some (n, rest) := by
  obtain ⟨c, cs, rfl⟩ := List.exists_cons_of_ne_nil hne
  rw [readSize?, Text.span_append_cons (fun _ hd => Text.isSome_digit?_of_mem_ofNat hd)
    (by rw [h c rfl]; rfl)]
  dsimp only
  rw [Text.numeral?_ofNat]
  rfl

/-- A size is read with the blanks around it, up to the sign behind them. -/
theorem readSize?_text {p : Padded ℕ} (hp : p.Blank) {c : Char} (hc : Text.isBlank c = false)
    (hdigit : Text.digit? c = none) (cs : List Char) :
    ∃ rest, readSize? (Text.trimStart (p.text Text.ofNat ++ c :: cs)) = some (p.value, rest) ∧
      Text.trimStart rest = c :: cs := by
  have hnumeral : ∀ d ∈ (Text.ofNat p.value ++ (p.right ++ c :: cs)).head?,
      Text.isBlank d = false := by
    rw [List.head?_append_of_ne_nil _ (Text.ofNat_ne_nil _)]
    intro d hd
    rw [Bool.eq_false_iff]
    intro hblank
    have hsome := Text.isSome_digit?_of_mem_ofNat (List.mem_of_mem_head? hd)
    rw [digit?_of_isBlank hblank] at hsome
    exact absurd hsome (by simp)
  have hbehind : ∀ d ∈ (p.right ++ c :: cs).head?, Text.digit? d = none := by
    match hright : p.right with
    | [] => simpa using hdigit
    | e :: es =>
      have he : Text.isBlank e := hp.right e (by rw [hright]; exact List.mem_cons_self)
      simpa using digit?_of_isBlank he
  refine ⟨p.right ++ c :: cs, ?_, ?_⟩
  · rw [Padded.text, List.append_assoc, List.append_assoc, Text.trimStart_blank_append hp.left,
      Text.trimStart_eq_self_iff.mpr hnumeral, readSize?_ofNat _ (by simp) hbehind]
  · rw [Text.trimStart_blank_append hp.right]
    exact Text.trimStart_eq_self_iff.mpr (by simpa using hc)

theorem readSizes?_one {p : Padded ℕ} (hp : p.Blank) :
    readSizes? (p.text Text.ofNat ++ [')']) = some (p.value, none) := by
  obtain ⟨rest, hread, hrest⟩ := readSize?_text hp (c := ')') (by decide) (by decide) []
  rw [readSizes?, hread, Option.bind_eq_bind, Option.bind_some]
  dsimp only
  rw [hrest]
  rfl

theorem readSizes?_two {p q : Padded ℕ} (hp : p.Blank) (hq : q.Blank) :
    readSizes? (p.text Text.ofNat ++ ',' :: (q.text Text.ofNat ++ [')'])) =
      some (p.value, some q.value) := by
  obtain ⟨rest, hread, hrest⟩ := readSize?_text hp (c := ',') (by decide) (by decide)
    (q.text Text.ofNat ++ [')'])
  obtain ⟨rest', hread', hrest'⟩ := readSize?_text hq (c := ')') (by decide) (by decide) []
  rw [readSizes?, hread, Option.bind_eq_bind, Option.bind_some]
  dsimp only
  rw [hrest]
  change (readSize? (Text.trimStart (q.text Text.ofNat ++ [')'])) >>= _) = _
  rw [hread', Option.bind_eq_bind, Option.bind_some]
  dsimp only
  rw [hrest']
  rfl

/-- **Parentheses behind a name are read as its sizes.** -/
theorem parametric?_append {name : String} (hname : name ∈ parametricNames) (rest : List Char) :
    parametric? (name.toList ++ '(' :: rest) =
      (readSizes? rest).map fun sizes => (name, sizesOf name sizes.1 sizes.2) := by
  have hmem : ∀ other ∈ parametricNames, other ∈ parametricNames ++ genericNames := fun _ =>
    List.mem_append_left _
  rw [parametric?, findSome?_of_forall_ne hname]
  · rw [Text.dropLead?_append_cons, Option.bind_eq_bind, Option.bind_some]
    cases readSizes? rest <;> rfl
  · intro other hother hne
    rw [dropLead?_of_ne (hmem name hname) (hmem other hother) hne]
    rfl

/-! ## Arguments -/

theorem parametric?_of_mem_genericNames {name : String} (hname : name ∈ genericNames)
    (rest : List Char) : parametric? (name.toList ++ rest) = none := by
  have hapart : ∀ name ∈ genericNames, ∀ other ∈ parametricNames, other ≠ name := by decide
  refine List.findSome?_eq_none_iff.mpr fun other hother => ?_
  rw [dropLead?_of_ne (List.mem_append_right _ hname) (List.mem_append_left _ hother)
    (hapart name hname other hother)]
  rfl

/-- **Angle brackets behind a name are read as its arguments**, up to the last bracket. -/
theorem generic?_append {name : String} (hname : name ∈ genericNames) {inner : List Char}
    (hne : inner ≠ []) (hline : '\n' ∉ inner) :
    generic? (name.toList ++ '<' :: (inner ++ ['>'])) =
      (argumentsOf? name (Text.trim inner)).map fun arguments => (name, arguments) := by
  have hmem : ∀ other ∈ genericNames, other ∈ parametricNames ++ genericNames := fun _ =>
    List.mem_append_right _
  rw [generic?, findSome?_of_forall_ne hname]
  · have hinner : bracketed? name (name.toList ++ '<' :: (inner ++ ['>'])) = some inner := by
      rw [bracketed?, Text.dropLead?_append_cons, Option.bind_eq_bind, Option.bind_some,
        Text.dropTail?_append, Option.bind_some]
      exact if_neg (by simp [hne, hline])
    rw [hinner, Option.bind_eq_bind, Option.bind_some]
    cases argumentsOf? name (Text.trim inner) <;> rfl
  · intro other hother hne
    rw [bracketed?, dropLead?_of_ne (hmem name hname) (hmem other hother) hne]
    rfl

end Grammar

namespace Padded

variable {p : Padded (List Char)}

theorem trim_text (hp : p.Blank) : Text.trim (p.text id) = Text.trim p.value := by
  rw [text, Text.trim_blank_append hp.left, id, Text.trim_append_blank _ hp.right]

theorem text_ne_nil (h : IsArgument p.value) : p.text id ≠ [] := by simp [text, h.ne]

theorem notMem_text (h : IsArgument p.value) (hline : p.OneLine) : '\n' ∉ p.text id := by
  simp [text, h.line, hline.1, hline.2]

theorem trimStart_text (hp : p.Blank) (h : IsArgument p.value) :
    Text.trimStart (p.text id) = p.value ++ p.right := by
  rw [text, id, Text.trimStart_blank_append hp.left, Text.trimStart_eq_self_iff,
    List.head?_append_of_ne_nil _ h.ne]
  exact (Text.trim_eq_self_iff.mp h.trimmed).1

theorem trimEnd_text (hp : p.Blank) (h : IsArgument p.value) :
    Text.trimEnd (p.text id) = p.left ++ p.value := by
  rw [text, ← List.append_assoc, Text.trimEnd_append_blank _ hp.right, id]
  exact Text.trimEnd_append _ h.ne (Text.trim_eq_self_iff.mp h.trimmed).2

end Padded

namespace Grammar

/-! ## The comma of a map -/

@[simp] theorem bracketDepth_nil : bracketDepth [] = 0 := rfl

@[simp] theorem bracketDepth_cons (c : Char) (cs : List Char) :
    bracketDepth (c :: cs) = bracketStep c + bracketDepth cs := by
  simp [bracketDepth]

/-- Blanks open and close nothing. -/
theorem bracketDepth_of_blank :
    ∀ {bs : List Char}, (∀ c ∈ bs, Text.isBlank c) → bracketDepth bs = 0
  | [], _ => rfl
  | c :: bs, h => by
      rw [List.forall_mem_cons] at h
      have hstep : bracketStep c = 0 := by
        rw [bracketStep, if_neg, if_neg] <;> rintro (rfl | rfl) <;> exact absurd h.1 (by decide)
      rw [bracketDepth_cons, hstep, bracketDepth_of_blank h.2, add_zero]

theorem undivided_iff {cs : List Char} : Undivided cs ↔
    bracketDepth cs = 0 ∧ ∀ n < cs.length, cs[n]? = some ',' → bracketDepth (cs.take n) ≠ 0 := by
  constructor
  · intro h
    refine ⟨h.closed, fun n hn hcomma => h.comma _ (cs.drop (n + 1)) ?_⟩
    obtain ⟨_, hn'⟩ := List.getElem?_eq_some_iff.mp hcomma
    rw [← hn', ← List.drop_eq_getElem_cons hn, List.take_append_drop]
  · rintro ⟨hclosed, hcomma⟩
    refine ⟨hclosed, ?_⟩
    rintro before after rfl
    have hne := hcomma before.length (by simp) (by simp)
    rwa [List.take_left] at hne

instance (cs : List Char) : Decidable (Undivided cs) := decidable_of_iff _ undivided_iff.symm

/-- **A text without a comma outside all brackets is passed over.** -/
theorem splitTopComma?_append {cs : List Char} (ds : List Char) : ∀ {d : ℤ},
    (∀ before after, cs = before ++ ',' :: after → d + bracketDepth before ≠ 0) →
    splitTopComma? d (cs ++ ds) =
      (splitTopComma? (d + bracketDepth cs) ds).map fun p => (cs ++ p.1, p.2) := by
  induction cs with
  | nil =>
    intro d _
    rw [bracketDepth_nil, add_zero, List.nil_append]
    cases splitTopComma? d ds <;> rfl
  | cons c cs ih =>
    intro d h
    have hc : ¬ (c = ',' ∧ d = 0) := by
      rintro ⟨rfl, rfl⟩
      exact h [] cs rfl rfl
    have hstep : (if c = '<' ∨ c = '(' then d + 1 else if c = '>' ∨ c = ')' then d - 1 else d) =
        d + bracketStep c := by
      rw [bracketStep]
      split_ifs <;> omega
    have htail : ∀ before after, cs = before ++ ',' :: after →
        d + bracketStep c + bracketDepth before ≠ 0 := by
      rintro before after rfl
      have hne := h (c :: before) after rfl
      rwa [bracketDepth_cons, ← add_assoc] at hne
    rw [List.cons_append, splitTopComma?, if_neg hc]
    dsimp only
    rw [hstep, ih htail, Option.map_map, bracketDepth_cons, add_assoc]
    rfl

/-- **A map is divided between its key and its value.** -/
theorem mapTypes?_text {key value : Padded (List Char)} (hkey : key.Blank)
    (hkey' : IsArgument key.value) (hvalue : value.Blank) (hvalue' : IsArgument value.value)
    (hdepth : Undivided key.value) :
    mapTypes? (Text.trim (key.text id ++ ',' :: value.text id)) =
      some (key.value, value.value) := by
  have hblank : ∀ before after, key.right = before ++ ',' :: after → 0 + bracketDepth before ≠ 0 :=
    fun before after heq => absurd (hkey.right ',' (by simp [heq])) (by decide)
  have hsplit : splitTopComma? 0 (key.value ++ (key.right ++ ',' :: (value.left ++ value.value))) =
      some (key.value ++ key.right, value.left ++ value.value) := by
    rw [splitTopComma?_append _ (by simpa using hdepth.comma), hdepth.closed, zero_add,
      splitTopComma?_append _ hblank, bracketDepth_of_blank hkey.right, splitTopComma?,
      if_pos (by simp)]
    simp
  rw [Text.trim_append_cons (by decide), Padded.trimStart_text hkey hkey',
    Padded.trimEnd_text hvalue hvalue', mapTypes?, List.append_assoc, hsplit, Option.bind_eq_bind,
    Option.bind_some]
  dsimp only
  rw [Text.trim_append_blank _ hkey.right, Text.trim_blank_append hvalue.left, hkey'.trimmed,
    hvalue'.trimmed, if_neg (by simp [hkey'.ne, hvalue'.ne])]
  rfl

end Grammar

open Grammar

theorem Sized.name_mem (base : Sized) : base.name ∈ parametricNames := by cases base <;> decide

@[simp] theorem Sized.sizesOf_name (base : Sized) (n : ℕ) :
    sizesOf base.name n none = { length := some n } := by
  cases base <;> rfl

theorem Container.name_mem (base : Container) : base.name ∈ genericNames := by cases base <;> decide

@[simp] theorem Container.argumentsOf?_name (base : Container) (cs : List Char) :
    argumentsOf? base.name cs = some (base.arguments (.ofList cs)) := by
  cases base <;> rfl

namespace Bracketed

variable {t : Bracketed}

/-! ## The whole definition -/

theorem name_mem (t : Bracketed) : t.name ∈ parametricNames ++ genericNames :=
  match t with
  | .decimal .. => (by decide : "decimal" ∈ parametricNames ++ genericNames)
  | .sized base _ => List.mem_append_left _ base.name_mem
  | .container base _ => List.mem_append_right _ base.name_mem
  | .map .. => (by decide : "map" ∈ parametricNames ++ genericNames)

/-- The sizes or the arguments are read. -/
theorem parametric?_or_generic? (h : t.WellFormed) (hline : t.OneLine) :
    (∃ sizes, parametric? t.text = some (t.name, sizes) ∧ t.shape = .parametric sizes) ∨
    (parametric? t.text = none ∧
      ∃ arguments, generic? t.text = some (t.name, arguments) ∧ t.shape = .generic arguments) := by
  cases t with
  | decimal p scale =>
    refine .inl ⟨_, ?_, rfl⟩
    rw [text, name, brackets, parametric?_append (by decide)]
    match scale, h with
    | none, ⟨hp, _⟩ =>
      rw [inner, readSizes?_one hp]
      rfl
    | some s, ⟨hp, hs⟩ =>
      rw [inner, List.append_assoc, List.cons_append, readSizes?_two hp (hs s rfl)]
      rfl
  | sized base n =>
    refine .inl ⟨_, ?_, rfl⟩
    rw [text, name, brackets, inner, parametric?_append base.name_mem, readSizes?_one h]
    exact congrArg (fun sizes => some (base.name, sizes)) (base.sizesOf_name n.value)
  | container base p =>
    refine .inr ⟨parametric?_of_mem_genericNames base.name_mem _, _, ?_, rfl⟩
    rw [text, name, brackets, inner, generic?_append base.name_mem (Padded.text_ne_nil h.2)
      (Padded.notMem_text h.2 hline), Padded.trim_text h.1, h.2.trimmed, base.argumentsOf?_name]
    rfl
  | map key value =>
    obtain ⟨⟨hkey, hkey'⟩, ⟨hvalue, hvalue'⟩, hdepth⟩ := h
    have hinner : '\n' ∉ key.text id ++ ',' :: value.text id := by
      simp [Padded.notMem_text hkey' hline.1, Padded.notMem_text hvalue' hline.2]
    have hname : "map" ∈ genericNames := by decide
    refine .inr ⟨parametric?_of_mem_genericNames hname _, _, ?_, rfl⟩
    rw [text, name, brackets, inner, generic?_append hname (by simp) hinner, argumentsOf?,
      if_pos rfl, mapTypes?_text hkey hkey' hvalue hvalue' hdepth]
    rfl

/-- The brackets are around the text, so there are no blanks and no modifiers. -/
theorem stripModifiers_text (t : Bracketed) :
    Text.trim t.text = t.text ∧ stripModifiers t.text = (t.text, {}) := by
  have hopen : Text.isBlank t.brackets.1 = false := by
    cases t <;> simp only [brackets] <;> decide
  have hclose : Text.isBlank t.brackets.2 = false ∧ t.brackets.2 ∉ modifierChars := by
    cases t <;> simp only [brackets] <;> decide
  have hname : Text.trimStart t.name.toList = t.name.toList :=
    (by decide : ∀ name ∈ parametricNames ++ genericNames, Text.trimStart name.toList = name.toList)
      t.name t.name_mem
  have htrim : Text.trim t.text = t.text := by
    rw [text, Text.trim_append_cons hopen, hname,
      Text.trimEnd_append _ (by simp) (by simpa using hclose.1)]
  refine ⟨htrim, ?_⟩
  rw [stripModifiers_of_getLast, htrim]
  intro c hc
  rw [text, ← List.cons_append, ← List.append_assoc, List.getLast?_concat] at hc
  obtain rfl := Option.some.inj hc
  exact hclose.2

end Bracketed

namespace Field

/-- **A type with brackets is read as it was written.** -/
theorem parse_bracketed {t : Bracketed} (h : t.WellFormed) (hline : t.OneLine) (ws : List Modifier)
    (hop : ∀ o : Operator, ¬ o.symbol.toList <:+: t.text ++ spelled ws) (name : String) :
    parse name (.ofList (t.text ++ spelled ws)) =
      { name, type := t.name, modifiers := ({} : Modifiers).addAll ws, shape := t.shape } := by
  obtain ⟨htrim, hstrip⟩ := Bracketed.stripModifiers_text t
  rw [parse, Arrow.parse?, String.toList_ofList, findOperator?_eq_none hop]
  dsimp only [Option.map_none]
  rw [Text.trim_append_of_trim htrim (trim_spelled ws), plainField,
    stripModifiers_append, hstrip]
  dsimp only
  obtain ⟨sizes, hsizes, hshape⟩ | ⟨hnone, arguments, harguments, hshape⟩ :=
    Bracketed.parametric?_or_generic? h hline
  · rw [hsizes, hshape]
  · rw [hnone, harguments, hshape]

/-- A map from arrays of pairs to lists of optional texts, with blanks around the key, and modifiers
and commas inside. -/
def pairs : Bracketed :=
  .map ⟨[' '], "Pair<int, int>[]".toList, ['\t']⟩ ⟨[], "list<string?>!".toList, []⟩

theorem wellFormed_pairs : pairs.WellFormed :=
  ⟨⟨⟨by decide, by decide⟩, ⟨by decide, by decide, by decide⟩⟩,
    ⟨⟨by decide, by decide⟩, ⟨by decide, by decide, by decide⟩⟩, by decide⟩

theorem parse_bracketed_pairs : pairs.WellFormed ∧ pairs.OneLine ∧
    parse "seen" "map< Pair<int, int>[]\t,list<string?>!>#?#" =
      { name := "seen", type := "map", modifiers := { optional := true, indexed := true }
        shape := .generic
          { keyType := some "Pair<int, int>[]", valueType := some "list<string?>!" } } := by
  have hline : pairs.OneLine := ⟨⟨by decide, by decide⟩, ⟨by decide, by decide⟩⟩
  have hop : ∀ o : Operator,
      ¬ o.symbol.toList <:+: pairs.text ++ spelled [.indexed, .optional, .indexed] := by
    intro o
    cases o <;> decide
  exact ⟨wellFormed_pairs, hline, parse_bracketed wellFormed_pairs hline _ hop "seen"⟩

/-- A map whose value is on a line of its own. -/
def twoLines : Bracketed := .map ⟨[], "string".toList, []⟩ ⟨['\n'], "int".toList, []⟩

/-- Angle brackets that are not closed on their line are no brackets: the text is a name. -/
theorem parse_twoLines : twoLines.WellFormed ∧
    (∀ o : Operator, ¬ o.symbol.toList <:+: twoLines.text ++ spelled []) ∧
    parse "m" (.ofList (twoLines.text ++ spelled [])) =
      { name := "m", type := "map<string,\nint>" } ∧
    parse "m" (.ofList (twoLines.text ++ spelled [])) ≠
      { name := "m", type := twoLines.name, modifiers := ({} : Modifiers).addAll []
        shape := twoLines.shape } := by
  have hparse : parse "m" (.ofList (twoLines.text ++ spelled [])) =
      { name := "m", type := "map<string,\nint>" } := by
    decide +kernel
  refine ⟨⟨⟨⟨by decide, by decide⟩, ⟨by decide, by decide, by decide⟩⟩,
    ⟨⟨by decide, by decide⟩, ⟨by decide, by decide, by decide⟩⟩, by decide⟩, ?_, hparse, ?_⟩
  · intro o
    cases o <;> decide
  · rw [hparse]
    exact fun h => absurd (congrArg Field.type h) (by decide)

end Field

end EntitySchema
