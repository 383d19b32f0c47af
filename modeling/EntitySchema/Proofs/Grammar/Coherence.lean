import EntitySchema.Proofs.Grammar.Modifier
import EntitySchema.Proofs.Grammar.Plain
import EntitySchema.Proofs.Grammar.Target
import EntitySchema.Proofs.Grammar.Threshold
import EntitySchema.Proofs.Text.Split

/-!
# Proofs/Grammar/Coherence — what every text declares

    any text ──parse──▸ a field whose shape fits its type and its modifiers

A text that is no sensible definition declares a field as well, and what is said of fields elsewhere
has to hold of it.  `Field.Coherent` collects what always does: the parts of a shape are those that
belong to the type, a relation points at its own type, and thresholds, prompts, candidates and
inverse fields are of the form that the grammar promises.  No text declares anything else
(`Field.coherent_parse`).
-/

namespace EntitySchema

open Grammar

/-! ## Coherent fields -/

/-- A decimal has a precision, perhaps a scale, and no length; other types with sizes have a length
only. -/
def Parametric.Fits (p : Parametric) (type : String) : Prop :=
  (type = "decimal" ∧ p.precision ≠ none ∧ p.length = none) ∨
    (type ∈ ["varchar", "char", "fixed"] ∧ p.length ≠ none ∧ p.precision = none ∧ p.scale = none)

/-- The arguments are those that belong to the type. -/
structure Generic.Fits (g : Generic) (type : String) : Prop where
  /-- The type is one with arguments. -/
  named : type ∈ genericNames
  /-- A map has a type of keys … -/
  keyType : g.keyType ≠ none ↔ type = "map"
  /-- … and one of values. -/
  valueType : g.valueType ≠ none ↔ type = "map"
  /-- A list has a type of elements. -/
  elementType : g.elementType ≠ none ↔ type = "list"
  /-- A structure has a name. -/
  structName : g.structName ≠ none ↔ type = "struct"
  /-- An enumeration has a name. -/
  enumName : g.enumName ≠ none ↔ type = "enum"
  /-- A reference has a target. -/
  refTarget : g.refTarget ≠ none ↔ type = "ref"

/-- A text as it stands between bars. -/
structure BetweenBars (t : String) : Prop where
  /-- There is something between the bars. -/
  ne_empty : t ≠ ""
  /-- The blanks around it are gone. -/
  trimmed : Text.trim t.toList = t.toList
  /-- There is no bar in it. -/
  bar : '|' ∉ t.toList

/-- The parts of a relation are of the form that the grammar promises. -/
structure Relation.Coherent (r : Relation) : Prop where
  /-- What only an operator brings is missing without one, and then the target is a word. -/
  implicit : r.operator = none → r.threshold = none ∧ r.prompt = none ∧ r.unionTypes = none ∧
    r.relatedType ≠ "" ∧ ' ' ∉ r.relatedType.toList
  /-- A union has at least two candidates, and the first of them is the target. -/
  union : ∀ ts, r.unionTypes = some ts →
    2 ≤ ts.length ∧ (∀ t ∈ ts, BetweenBars t) ∧ ts.head? = some r.relatedType
  /-- A threshold lies between zero and one. -/
  threshold : ∀ t, r.threshold = some t →
    Binary64.zero.le t = true ∧ t.le (.ofMagnitude .one) = true
  /-- A prompt has a text, without blanks around it. -/
  prompt : ∀ p, r.prompt = some p → p ≠ "" ∧ Text.trim p.toList = p.toList
  /-- An inverse field has the name of an identifier. -/
  backref : ∀ b, r.backref = some b → isIdentifier b.toList

/-- The shape fits the type and the modifiers: free text has no modifiers, sizes and arguments are
those of the type, and a relation points at the type. -/
def Shape.Fits (type : String) (modifiers : Modifiers) : Shape → Prop
  | .scalar => ' ' ∈ type.toList → modifiers = {}
  | .parametric p => p.Fits type
  | .generic g => g.Fits type
  | .relation r => r.relatedType = type ∧ r.Coherent

/-- What is said in a field belongs together. -/
structure Field.Coherent (f : Field) : Prop where
  /-- One modifier makes a field required and unique. -/
  required_eq_unique : f.modifiers.required = f.modifiers.unique
  /-- The shape belongs to the type. -/
  shape : f.shape.Fits f.type f.modifiers

/-! ## Parts of definitions -/

namespace Grammar

theorem fits_sizesOf {name : String} (hname : name ∈ parametricNames) (first : ℕ)
    (second : Option ℕ) : (sizesOf name first second).Fits name := by
  rw [sizesOf]
  split_ifs with hdecimal
  · exact .inl ⟨hdecimal, Option.some_ne_none _, rfl⟩
  · exact .inr ⟨(List.mem_cons.mp hname).resolve_left hdecimal, Option.some_ne_none _, rfl, rfl⟩

theorem fits_of_argumentsOf? {name : String} {inner : List Char} {g : Generic}
    (hname : name ∈ genericNames) (h : argumentsOf? name inner = some g) : g.Fits name := by
  simp only [genericNames, List.mem_cons, List.not_mem_nil, or_false] at hname
  rw [argumentsOf?] at h
  obtain rfl | rfl | rfl | rfl | rfl := hname
  · obtain ⟨types, -, rfl⟩ := Option.map_eq_some_iff.mp h
    constructor <;> simp [genericNames]
  -- The others have one argument each.
  all_goals
    obtain rfl := Option.some.inj h
    constructor <;> simp [genericNames]

theorem betweenBars_of_mem_barParts {cs part : List Char} (h : part ∈ barParts cs) :
    BetweenBars (.ofList part) := by
  obtain ⟨hpart, -⟩ := List.mem_filter.mp h
  obtain ⟨piece, hpiece, rfl⟩ := List.mem_map.mp hpart
  refine ⟨ofList_ne_empty (ne_nil_of_mem_barParts h), ?_, ?_⟩
  · simp
  · rw [String.toList_ofList]
    exact fun hmem => Text.notMem_of_mem_splitAll hpiece (Text.trim_subset _ hmem)

theorem candidates?_eq_some {cs : List Char} {ts : List String} (h : candidates? cs = some ts) :
    2 ≤ ts.length ∧ ∀ t ∈ ts, BetweenBars t := by
  obtain ⟨hlength, hts⟩ := Option.ite_none_right_eq_some.mp h
  obtain rfl := Option.some.inj hts
  refine ⟨by rwa [List.length_map], fun t ht => ?_⟩
  obtain ⟨part, hpart, rfl⟩ := List.mem_map.mp ht
  exact betweenBars_of_mem_barParts hpart

theorem takeThreshold_mem_unit {cs : List Char} {t : Binary64}
    (h : (takeThreshold cs).2 = some t) :
    Binary64.zero.le t = true ∧ t.le (.ofMagnitude .one) = true := by
  rw [takeThreshold] at h
  rcases hsplit : splitThreshold? cs with _ | ⟨before, inner, after⟩
  · rw [hsplit] at h
    cases h
  · rw [hsplit] at h
    dsimp only at h
    cases hthreshold : threshold? inner with
    | none =>
      rw [hthreshold] at h
      cases h
    | some t' =>
      rw [hthreshold] at h
      cases h
      exact threshold?_mem_unit hthreshold

theorem nonempty?_eq_some {cs : List Char} {p : String} (h : nonempty? (Text.trim cs) = some p) :
    p ≠ "" ∧ Text.trim p.toList = p.toList := by
  obtain ⟨hne, hp⟩ := Option.ite_none_left_eq_some.mp h
  obtain rfl := Option.some.inj hp
  exact ⟨ofList_ne_empty hne, by simp⟩

theorem isIdentifier_of_splitBackref {cs type : List Char} {backref : Option (List Char)}
    (h : splitBackref cs = (type, backref)) {b : String} (hb : backref.map .ofList = some b) :
    isIdentifier b.toList := by
  obtain ⟨cs', rfl, rfl⟩ := Option.map_eq_some_iff.mp hb
  rw [String.toList_ofList]
  exact (splitBackref_eq_some_iff.mp h).2.2.2.2

/-- A word without spaces may be the target of a relation without an operator. -/
theorem coherent_implicit {type : List Char} (hne : type ≠ []) (hspace : ' ' ∉ type)
    {backref : Option String} (hbackref : ∀ b, backref = some b → isIdentifier b.toList) :
    Relation.Coherent { relatedType := .ofList type, backref } where
  implicit _ := ⟨rfl, rfl, rfl, ofList_ne_empty hne, by rwa [String.toList_ofList]⟩
  union _ h := absurd h (by simp)
  threshold _ h := absurd h (by simp)
  prompt _ h := absurd h (by simp)
  backref := hbackref

end Grammar

/-! ## Definitions -/

namespace Field

/-- A definition with an operator declares a relation with that operator. -/
theorem coherent_relationField {definition : String} {arrow : Arrow}
    (harrow : Arrow.parse? definition = some arrow) (name : String) :
    (relationField name arrow).Coherent ∧
      (relationField name arrow).operator? = some arrow.operator := by
  rw [Arrow.parse?_eq] at harrow
  obtain ⟨p, -, rfl⟩ := Option.map_eq_some_iff.mp harrow
  rw [relationField]
  dsimp only
  -- The parts stay variables: their computation is not to be unfolded.
  generalize (takeThreshold (Text.trim p.2.2)).1 = target
  generalize hthreshold : (takeThreshold (Text.trim p.2.2)).2 = threshold
  generalize hunion : candidates? target = union
  generalize hparts : splitBackref (stripModifiers (String.ofList target).toList).1 = parts
  obtain ⟨type, backref⟩ := parts
  refine ⟨⟨stripModifiers_required_eq_unique _, rfl, ?_⟩, rfl⟩
  refine ⟨fun hnone => absurd hnone (by simp), fun ts hts => ?_, fun t ht => ?_,
    fun p hp => nonempty?_eq_some hp, fun b hb => isIdentifier_of_splitBackref hparts hb⟩
  · dsimp only at hts ⊢
    subst hts
    obtain ⟨hlength, hbars⟩ := candidates?_eq_some hunion
    refine ⟨hlength, hbars, ?_⟩
    cases ts with
    | nil => exact absurd hlength (by simp)
    | cons t ts => rfl
  · exact takeThreshold_mem_unit (hthreshold.trans ht)

/-- A definition without an operator declares no operator. -/
theorem coherent_plainField (name : String) (text : List Char) :
    (plainField name text).Coherent ∧ (plainField name text).operator? = none := by
  have hflags := stripModifiers_required_eq_unique text
  obtain ⟨type, sizes, hread, heq⟩ | ⟨type, arguments, hread, heq⟩ | ⟨-, heq⟩ | ⟨hspace, heq⟩ :=
    plainField_cases name text
  · obtain ⟨hname, first, second, rfl⟩ := parametric?_eq_some hread
    rw [heq]
    exact ⟨⟨hflags, fits_sizesOf hname first second⟩, rfl⟩
  · obtain ⟨hname, inner, harguments⟩ := generic?_eq_some hread
    rw [heq]
    exact ⟨⟨hflags, fits_of_argumentsOf? hname harguments⟩, rfl⟩
  · rw [heq]
    exact ⟨⟨rfl, fun _ => rfl⟩, rfl⟩
  · have hbase : ' ' ∉ unaliased (stripModifiers text).1 := by
      rw [unaliased]
      split
      · decide
      · exact fun hmem => hspace (stripModifiers_subset text hmem)
    rw [heq]
    obtain ⟨type, backref, hsplit, hshape⟩ | ⟨hupper, hshape⟩ | hshape :=
      namedShape_cases (unaliased (stripModifiers text).1)
    · obtain ⟨-, htext, hne, -, hident⟩ := splitBackref_eq_some_iff.mp hsplit
      rw [hshape]
      refine ⟨⟨hflags, rfl, coherent_implicit hne (fun hmem => hbase ?_) fun b hb => ?_⟩, rfl⟩
      · rw [htext]
        exact List.mem_append_left _ hmem
      · obtain rfl := Option.some.inj hb
        rwa [String.toList_ofList]
    · have hne : unaliased (stripModifiers text).1 ≠ [] := fun hnil => by
        rw [hnil] at hupper
        exact absurd hupper (by simp [startsUppercase])
      rw [hshape]
      exact ⟨⟨hflags, rfl, coherent_implicit hne hbase fun _ hb => absurd hb (by simp)⟩, rfl⟩
    · rw [hshape]
      refine ⟨⟨hflags, fun hmem => absurd hmem ?_⟩, rfl⟩
      rwa [String.toList_ofList]

/-- **Whatever the text, the field it declares is coherent.**  It has the operator that stands in
the text, if one does, and then it is a relation. -/
theorem coherent_parse (name definition : String) :
    (parse name definition).Coherent ∧
      (parse name definition).operator? = (Arrow.parse? definition).map (·.operator) ∧
      ((Arrow.parse? definition).isSome → (parse name definition).isRelation) := by
  rw [parse]
  cases harrow : Arrow.parse? definition with
  | some arrow =>
    obtain ⟨hcoherent, hoperator⟩ := coherent_relationField harrow name
    exact ⟨hcoherent, hoperator, fun _ => rfl⟩
  | none =>
    obtain ⟨hcoherent, hoperator⟩ := coherent_plainField name (Text.trim definition.toList)
    exact ⟨hcoherent, hoperator, fun h => absurd h (by simp)⟩

end Field

end EntitySchema
