import EntitySchema.Diff.Field

/-!
# Proofs/Diff/Field — what a change of a field says

    type  optional  array  relation  operator
     =       =        =       =         =          no change
     =       =        ≠       =         =          one change, of the kind `array`
     ≠       =        =       ≠         ≠          one change, of the kind `multiple`

Two fields that agree along all axes are alike.  A field that is replaced by one under the same name
has a change exactly if the two are not alike (`change?_eq`), and its kind names the axis, or says
that there are several (`FieldChange.exact_of_axes`).
-/

namespace EntitySchema

/-! ## Axes -/

/-- Two fields agree along every axis. -/
structure Field.Alike (f g : Field) : Prop where
  /-- They have the same type. -/
  type : f.type = g.type
  /-- Both may be left unset, or none. -/
  optional : f.modifiers.optional = g.modifiers.optional
  /-- Both hold a list, or none. -/
  array : f.modifiers.array = g.modifiers.array
  /-- Both are relations, or none. -/
  relation : f.isRelation = g.isRelation
  /-- They have the same operator. -/
  operator : f.operator? = g.operator?

theorem Field.Alike.refl (f : Field) : f.Alike f := ⟨rfl, rfl, rfl, rfl, rfl⟩

namespace Axis

/-- The fields differ along an axis. -/
def Differs (f g : Field) (a : Axis) : Prop := a.agrees f g = false

theorem mem_all (a : Axis) : a ∈ all := by cases a <;> decide

theorem word_ne_multiple (a : Axis) : a.word ≠ "multiple" := by cases a <;> decide

end Axis

namespace Field

variable {f g : Field} {key : String}

theorem alike_iff : f.Alike g ↔ ∀ a, ¬ Axis.Differs f g a := by
  simp only [Axis.Differs, Bool.not_eq_false]
  constructor
  · intro h a
    cases a with
    | type => exact decide_eq_true h.type
    | optional => exact decide_eq_true h.optional
    | array => exact decide_eq_true h.array
    | relation => exact decide_eq_true h.relation
    | operator => exact decide_eq_true h.operator
  · exact fun h => ⟨of_decide_eq_true (h .type), of_decide_eq_true (h .optional),
      of_decide_eq_true (h .array), of_decide_eq_true (h .relation),
      of_decide_eq_true (h .operator)⟩

@[simp] theorem mem_changedAxes_iff {a : Axis} : a ∈ changedAxes f g ↔ Axis.Differs f g a := by
  rw [changedAxes, List.mem_filter, and_iff_right (Axis.mem_all a), Axis.Differs,
    Bool.not_eq_true']

theorem nodup_changedAxes (f g : Field) : (changedAxes f g).Nodup :=
  List.Nodup.sublist List.filter_sublist (by decide)

@[simp] theorem changedAxes_eq_nil_iff : changedAxes f g = [] ↔ f.Alike g := by
  rw [List.eq_nil_iff_forall_not_mem, alike_iff]
  exact forall_congr' fun a => not_congr mem_changedAxes_iff

instance (f g : Field) : Decidable (f.Alike g) := decidable_of_iff _ changedAxes_eq_nil_iff

/-! ## Changes -/

/-- **A field that is replaced has one change, or none if the two are alike.** -/
theorem change?_eq (hname : g.name = key) : change? key f g =
    if f.Alike g then none else some ⟨key, changedAxes f g, f, g⟩ := by
  rw [change?, hname]
  rcases haxes : changedAxes f g with _ | ⟨a, _ | ⟨b, axes⟩⟩
  · rw [if_pos (changedAxes_eq_nil_iff.mp haxes)]
  · rw [if_neg fun h => List.cons_ne_nil a [] (haxes.symm.trans (changedAxes_eq_nil_iff.mpr h))]
  · rw [if_neg fun h => List.cons_ne_nil a _ (haxes.symm.trans (changedAxes_eq_nil_iff.mpr h))]

theorem change?_eq_some_iff (hname : g.name = key) {c : FieldChange} :
    change? key f g = some c ↔ ¬ f.Alike g ∧ c = ⟨key, changedAxes f g, f, g⟩ := by
  rw [change?_eq hname, Option.ite_none_left_eq_some, Option.some.injEq]
  exact and_congr_right' eq_comm

end Field

/-- The kind of a change says along how many axes the field changed, and along which if it is
one. -/
structure FieldChange.Exact (c : FieldChange) : Prop where
  /-- The axes are those along which the two versions differ, each once. -/
  axes : c.axes.Nodup ∧ ∀ a, a ∈ c.axes ↔ Axis.Differs c.old c.new a
  /-- The kind is `multiple` if there are at least two. -/
  multiple_iff : c.kind = "multiple" ↔
    ∃ a b, a ≠ b ∧ Axis.Differs c.old c.new a ∧ Axis.Differs c.old c.new b
  /-- Otherwise it is the word for the only one. -/
  kind_eq : c.kind ≠ "multiple" →
    ∃ a, c.kind = a.word ∧ ∀ b, Axis.Differs c.old c.new b ↔ b = a

/-- **A change along the axes on which two fields differ is told by its kind.** -/
theorem FieldChange.exact_of_axes {c : FieldChange} (haxes : c.axes = Field.changedAxes c.old c.new)
    (hdiffers : ¬ c.old.Alike c.new) : c.Exact := by
  have hmem : ∀ a, a ∈ c.axes ↔ Axis.Differs c.old c.new a := fun a => by
    rw [haxes, Field.mem_changedAxes_iff]
  have hnodup : c.axes.Nodup := haxes ▸ Field.nodup_changedAxes c.old c.new
  obtain ⟨name, axes, old, new⟩ := c
  cases axes with
  | nil => exact absurd (Field.changedAxes_eq_nil_iff.mp haxes.symm) hdiffers
  | cons a axes =>
    cases axes with
    | nil =>
      have honly : ∀ b, Axis.Differs old new b ↔ b = a := fun b =>
        (hmem b).symm.trans List.mem_singleton
      refine ⟨⟨hnodup, hmem⟩, ⟨fun h => absurd h a.word_ne_multiple, ?_⟩, fun _ => ⟨a, rfl, honly⟩⟩
      rintro ⟨b, b', hne, hb, hb'⟩
      exact absurd (((honly b).mp hb).trans ((honly b').mp hb').symm) hne
    | cons b axes =>
      refine ⟨⟨hnodup, hmem⟩, ⟨fun _ => ⟨a, b, ?_, ?_, ?_⟩, fun _ => rfl⟩, fun h => absurd rfl h⟩
      · exact fun heq => (List.nodup_cons.mp hnodup).1 (heq ▸ List.mem_cons_self)
      · exact (hmem a).mp List.mem_cons_self
      · exact (hmem b).mp (List.mem_cons_of_mem a List.mem_cons_self)

end EntitySchema
