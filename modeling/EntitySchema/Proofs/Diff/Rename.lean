import EntitySchema.Diff.Rename
import EntitySchema.Proofs.Sorted
import Mathlib.Algebra.GroupWithZero.Nat
import Mathlib.Data.List.FinRange
import Mathlib.Data.List.ProdSigma
import Mathlib.Data.List.Sublists

/-!
# Proofs/Diff/Rename — which renames are proposed

                added    b     c     d
    removed  a          50    75   100     ▸   a–d 1.0   a–c 0.75   b–c 0.75   a–b 0.5
             b           ·    75    40

What two fields have in common counts in hundredths (`Field.shared`).  The sums of these are few,
and rounding after each addition leaves them all where they belong (`Rename.totalWeight_eq`), so a
pair reaches a half exactly if it has the same type or all else in common (`Rename.resembles_iff`).
The pairs of places come row by row, and sorting keeps that order among ties
(`Rename.exists_ranking_proposals`).
-/

namespace EntitySchema

/-! ## What fields have in common -/

/-- Something that two fields may have in common. -/
structure Feature where
  /-- Whether they have it in common. -/
  same : Bool
  /-- How much it counts, in hundredths. -/
  hundredths : ℕ
  /-- How it is named. -/
  words : String

namespace Field

/-- All that two fields may have in common. -/
def features (old new : Field) : List Feature :=
  [⟨old.type = new.type, 50, "same type"⟩,
    ⟨old.isRelation = new.isRelation, 15, "same relation status"⟩,
    ⟨old.modifiers.array = new.modifiers.array, 15, "same array status"⟩,
    ⟨old.modifiers.optional = new.modifiers.optional, 10, "same optional status"⟩,
    ⟨old.operator? = new.operator?, 10, "same operator"⟩]

/-- What two fields have in common. -/
def shared (old new : Field) : List Feature := (features old new).filter (·.same)

/-- The fields have different names, and they have the same type or all else in common. -/
def Resembles (old new : Field) : Prop :=
  old.name ≠ new.name ∧ (old.type = new.type ∨
    old.isRelation = new.isRelation ∧ old.modifiers.array = new.modifiers.array ∧
      old.modifiers.optional = new.modifiers.optional ∧ old.operator? = new.operator?)

instance (old new : Field) : Decidable (old.Resembles new) := by
  unfold Resembles
  infer_instance

end Field

/-- The weight of an axis, in hundredths. -/
def Axis.hundredths : Axis → ℕ
  | .type => 50
  | .relation | .array => 15
  | .optional | .operator => 10

namespace Rename

variable {old new : Field}

theorem shared_eq (old new : Field) : old.shared new = (agreedAxes old new).map fun a =>
    ⟨a.agrees old new, a.hundredths, a.agreement⟩ := by
  have hfeatures : old.features new = Axis.byWeight.map fun a =>
      ⟨a.agrees old new, a.hundredths, a.agreement⟩ := rfl
  rw [Field.shared, hfeatures, List.filter_map]
  rfl

@[simp] theorem mem_agreedAxes_iff {a : Axis} :
    a ∈ agreedAxes old new ↔ a.agrees old new = true := by
  rw [agreedAxes, List.mem_filter]
  exact and_iff_right (by cases a <;> decide)

/-! ## Confidence -/

/-- **No sum of weights suffers from rounding**: it is the double nearest to the exact sum, and on
the same side of a half. -/
theorem totalWeight_eq : ∀ axes ∈ Axis.byWeight.sublists,
    totalWeight axes = .ofRatio (axes.map Axis.hundredths).sum 100 ∧
      (leastConfidence.le (totalWeight axes) = true ↔ 50 ≤ (axes.map Axis.hundredths).sum) := by
  decide +kernel

/-- A half is reached with the type or with all else. -/
theorem half_le_sum_iff : ∀ axes ∈ Axis.byWeight.sublists,
    50 ≤ (axes.map Axis.hundredths).sum ↔ .type ∈ axes ∨
      .relation ∈ axes ∧ .array ∈ axes ∧ .optional ∈ axes ∧ .operator ∈ axes := by
  decide

theorem agreedAxes_mem_sublists (old new : Field) :
    agreedAxes old new ∈ Axis.byWeight.sublists :=
  List.mem_sublists.mpr List.filter_sublist

theorem map_hundredths_shared (old new : Field) :
    (old.shared new).map (·.hundredths) = (agreedAxes old new).map Axis.hundredths := by
  rw [shared_eq, List.map_map]
  rfl

theorem confidence_eq (old new : Field) : totalWeight (agreedAxes old new) =
    .ofRatio ((old.shared new).map (·.hundredths)).sum 100 := by
  rw [(totalWeight_eq _ (agreedAxes_mem_sublists old new)).1, map_hundredths_shared]

theorem leastConfidence_le_iff (old new : Field) :
    leastConfidence.le (totalWeight (agreedAxes old new)) = true ↔
      50 ≤ ((old.shared new).map (·.hundredths)).sum := by
  rw [(totalWeight_eq _ (agreedAxes_mem_sublists old new)).2, map_hundredths_shared]

/-- **Fields resemble each other if their names differ and what they have in common counts a half or
more.** -/
theorem resembles_iff (old new : Field) : old.Resembles new ↔
    old.name ≠ new.name ∧ 50 ≤ ((old.shared new).map (·.hundredths)).sum := by
  rw [map_hundredths_shared, half_le_sum_iff _ (agreedAxes_mem_sublists old new)]
  simp only [mem_agreedAxes_iff, Axis.agrees, decide_eq_true_iff, Field.Resembles]

/-! ## One pair of fields -/

/-- The rename says what the two fields are called and what they have in common. -/
structure Describes (old new : Field) (r : Rename) : Prop where
  /-- It leads from the name of the one field to that of the other. -/
  names : r.old = old.name ∧ r.new = new.name
  /-- Its confidence is the double nearest to the sum of what the fields have in common … -/
  confidence : r.confidence = .ofRatio ((old.shared new).map (·.hundredths)).sum 100
  /-- … and a half at least. -/
  least : leastConfidence.le r.confidence = true
  /-- The reason names what they have in common, and nothing else. -/
  reason : r.reason = ", ".intercalate ((old.shared new).map (·.words))

/-- The rename of one field to another, whatever speaks for it. -/
def ofFields (old new : Field) : Rename :=
  ⟨old.name, new.name, totalWeight (agreedAxes old new), agreedAxes old new⟩

/-- **A pair is proposed exactly if the fields resemble each other.** -/
theorem between?_eq (old new : Field) :
    between? old new = if old.Resembles new then some (ofFields old new) else none := by
  rw [between?]
  refine ite_congr (propext ?_) (fun _ => rfl) fun _ => rfl
  rw [resembles_iff, ← leastConfidence_le_iff]

theorem describes_ofFields (h : old.Resembles new) : Describes old new (ofFields old new) where
  names := ⟨rfl, rfl⟩
  confidence := confidence_eq old new
  least := (leastConfidence_le_iff old new).mpr ((resembles_iff old new).mp h).2
  reason := by
    rw [shared_eq, List.map_map]
    rfl

/-! ## All pairs of fields -/

section

variable (removed added : List Field)

/-- A place in either list. -/
abbrev Places : Type := Fin removed.length × Fin added.length

/-- The places of fields that resemble each other, row by row. -/
def resembling : List (Places removed added) :=
  (List.finRange removed.length ×ˢ List.finRange added.length).filter fun p =>
    removed[p.1].Resembles added[p.2]

/-- The rename of the fields at two places. -/
def atPlaces (p : Places removed added) : Rename := ofFields removed[p.1] added[p.2]

variable {removed added}

@[simp] theorem mem_resembling_iff {p : Places removed added} :
    p ∈ resembling removed added ↔ removed[p.1].Resembles added[p.2] := by
  rw [resembling, List.mem_filter, decide_eq_true_iff]
  exact and_iff_right (List.mem_product.mpr ⟨List.mem_finRange p.1, List.mem_finRange p.2⟩)

theorem nodup_resembling : (resembling removed added).Nodup :=
  ((List.nodup_finRange _).product (List.nodup_finRange _)).filter _

/-- The pairs come row by row. -/
theorem pairwise_resembling : (resembling removed added).Pairwise fun p q =>
    p.1 < q.1 ∨ p.1 = q.1 ∧ p.2 < q.2 := by
  refine List.Pairwise.filter _ (List.pairwise_flatMap.mpr ⟨fun i _ => ?_, ?_⟩)
  · refine List.pairwise_map.mpr ((List.pairwise_lt_finRange _).imp fun hlt => ?_)
    exact .inr ⟨rfl, hlt⟩
  · refine (List.pairwise_lt_finRange _).imp fun hlt p hp q hq => .inl ?_
    obtain ⟨j, -, rfl⟩ := List.mem_map.mp hp
    obtain ⟨k, -, rfl⟩ := List.mem_map.mp hq
    exact hlt

/-- Going through the fields is going through their places. -/
theorem flatMap_filterMap_between? :
    (removed.flatMap fun old => added.filterMap fun new => between? old new) =
      (resembling removed added).map (atPlaces removed added) := by
  have hrow : ∀ old, added.filterMap (between? old) =
      (List.finRange added.length).filterMap fun j => between? old added[j] := by
    intro old
    conv_lhs => rw [← List.map_getElem_finRange added, List.filterMap_map]
    rfl
  conv_lhs => rw [← List.map_getElem_finRange removed, List.flatMap_map]
  rw [resembling, ← List.filterMap_eq_map, List.filterMap_filter]
  refine Eq.trans ?_ List.filterMap_flatMap.symm
  refine congrArg (fun f => (List.finRange removed.length).flatMap f) (funext fun i => ?_)
  rw [hrow, List.filterMap_map]
  refine List.filterMap_congr fun j _ => ?_
  rw [between?_eq, Function.comp_apply]
  exact ite_congr (propext decide_eq_true_iff.symm) (fun _ => rfl) fun _ => rfl

end

/-! ## Confidence first -/

theorem mayPrecede_trans (r s t : Rename) (hrs : mayPrecede r s) (hst : mayPrecede s t) :
    mayPrecede r t :=
  decide_eq_true ((of_decide_eq_true hst).trans (of_decide_eq_true hrs))

theorem mayPrecede_total (r s : Rename) : mayPrecede r s ∨ mayPrecede s r :=
  (Nat.le_total s.confidence.rank r.confidence.rank).imp decide_eq_true decide_eq_true

/-- Of two renames either may precede the other only if their confidence is the same. -/
theorem confidence_eq_of_mayPrecede {r s : Rename} (hrs : mayPrecede r s) (hsr : mayPrecede s r) :
    r.confidence = s.confidence :=
  Magnitude.ext (Nat.le_antisymm (of_decide_eq_true hsr) (of_decide_eq_true hrs))

/-- The renames are those of the pairs of places, the most likely first. -/
structure Ranking (removed added : List Field) (renames : List Rename)
    (ps : List (Places removed added)) (entry : Places removed added → Rename) : Prop where
  /-- There is one entry for each pair, and no other. -/
  renames_eq : renames = ps.map entry
  /-- No pair comes twice. -/
  nodup : ps.Nodup
  /-- The pairs are those of fields that resemble each other. -/
  mem_iff : ∀ i j, (i, j) ∈ ps ↔ removed[i].Resembles added[j]
  /-- Rounding drops none of those whose exact sum reaches a half. -/
  half_iff : ∀ i j, (i, j) ∈ ps ↔ removed[i].name ≠ added[j].name ∧
    50 ≤ ((removed[i].shared added[j]).map (·.hundredths)).sum
  /-- The entry of a pair says what speaks for it. -/
  describes : ∀ p ∈ ps, Describes removed[p.1] added[p.2] (entry p)
  /-- The confidence descends, and ties are in the order of the removed field, then of the added
  one. -/
  ordered : ps.Pairwise fun p q => (entry p).confidence.le (entry q).confidence = false ∨
    (entry p).confidence = (entry q).confidence ∧ (p.1 < q.1 ∨ p.1 = q.1 ∧ p.2 < q.2)

/-- **Every two fields that resemble each other are proposed once, the most likely first.** -/
theorem exists_ranking_proposals (removed added : List Field) :
    ∃ ps entry, Ranking removed added (proposals removed added) ps entry := by
  -- What is sorted are pairs of places: there, unlike among renames, none is listed twice.
  let mayCome (p q : Places removed added) : Bool :=
    mayPrecede (atPlaces removed added p) (atPlaces removed added q)
  have htrans : ∀ p q r, mayCome p q → mayCome q r → mayCome p r := fun p q r =>
    mayPrecede_trans _ _ _
  have hmem : ∀ p, p ∈ sorted mayCome (resembling removed added) ↔
      removed[p.1].Resembles added[p.2] := fun p =>
    mem_sorted.trans mem_resembling_iff
  refine ⟨sorted mayCome (resembling removed added), atPlaces removed added, ?_, ?_, ?_, ?_, ?_, ?_⟩
  · rw [proposals, flatMap_filterMap_between?, sorted_map]
  · exact (perm_sorted _ _).nodup_iff.mpr nodup_resembling
  · exact fun i j => hmem (i, j)
  · exact fun i j => (hmem (i, j)).trans (resembles_iff _ _)
  · exact fun p hp => describes_ofFields ((hmem p).mp hp)
  · refine (pairwise_sorted_of_pairwise htrans (fun p _ q _ => mayPrecede_total _ _)
      pairwise_resembling).imp fun {p q} hpq => ?_
    by_cases hqp : mayCome q p
    · exact .inr ⟨confidence_eq_of_mayPrecede hpq.1 hqp, hpq.2 hqp⟩
    · exact .inl (Bool.eq_false_iff.mpr hqp)

/-- The same type counts as much as all else together, and then the added fields keep their
order. -/
example : (proposals [{ name := "a", type := "int" }]
      [{ name := "b", type := "int", modifiers := { array := true, optional := true }
         shape := .relation { relatedType := "int", operator := some .forwardExact } },
       { name := "c", type := "string" }]).map (fun r => (r.new, r.confidence, r.reason)) =
    [("b", leastConfidence, "same type"),
     ("c", leastConfidence,
      "same relation status, same array status, same optional status, same operator")] := by
  decide +kernel

end Rename

end EntitySchema
