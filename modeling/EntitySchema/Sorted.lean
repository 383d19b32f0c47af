/-!
# Sorted — stable sorting by insertion

A list is sorted by inserting its items one after another from the end.  An item goes in front of
the first one that may follow it, so items of equal rank keep their order.
-/

namespace EntitySchema

variable {α : Type}

/-- Puts `a` in front of the first item that may follow it. -/
def insertSorted (mayPrecede : α → α → Bool) (a : α) : List α → List α
  | [] => [a]
  | b :: bs => if mayPrecede a b then a :: b :: bs else b :: insertSorted mayPrecede a bs

/-- The items in order; those of equal rank keep the order they came in. -/
def sorted (mayPrecede : α → α → Bool) : List α → List α
  | [] => []
  | a :: as => insertSorted mayPrecede a (sorted mayPrecede as)

theorem perm_insertSorted (mayPrecede : α → α → Bool) (a : α) :
    ∀ bs : List α, (insertSorted mayPrecede a bs).Perm (a :: bs)
  | [] => .refl _
  | b :: bs => by
      rw [insertSorted]
      split
      · exact .refl _
      · exact ((perm_insertSorted mayPrecede a bs).cons b).trans (.swap a b bs)

/-- **Sorting loses nothing and adds nothing.** -/
theorem perm_sorted (mayPrecede : α → α → Bool) : ∀ as : List α, (sorted mayPrecede as).Perm as
  | [] => .refl _
  | a :: as =>
      (perm_insertSorted mayPrecede a _).trans ((perm_sorted mayPrecede as).cons a)

theorem mem_sorted {mayPrecede : α → α → Bool} {as : List α} {a : α} :
    a ∈ sorted mayPrecede as ↔ a ∈ as :=
  (perm_sorted mayPrecede as).mem_iff

section

variable {mayPrecede : α → α → Bool}
  (htrans : ∀ a b c, mayPrecede a b → mayPrecede b c → mayPrecede a c)
include htrans

theorem pairwise_insertSorted {a : α} : ∀ {bs : List α},
    (∀ b ∈ bs, mayPrecede a b ∨ mayPrecede b a) → bs.Pairwise (fun b c => mayPrecede b c) →
      (insertSorted mayPrecede a bs).Pairwise fun b c => mayPrecede b c
  | [], _, _ => List.pairwise_singleton ..
  | b :: bs, htotal, hbs => by
      obtain ⟨hb, hbs⟩ := List.pairwise_cons.mp hbs
      obtain ⟨hab, htotal⟩ := List.forall_mem_cons.mp htotal
      rw [insertSorted]
      by_cases hfirst : mayPrecede a b
      · rw [if_pos hfirst]
        refine List.pairwise_cons.mpr ⟨fun c hc => ?_, List.pairwise_cons.mpr ⟨hb, hbs⟩⟩
        obtain rfl | hc := List.mem_cons.mp hc
        · exact hfirst
        · exact htrans a b c hfirst (hb c hc)
      · rw [if_neg hfirst]
        refine List.pairwise_cons.mpr ⟨fun c hc => ?_, pairwise_insertSorted htotal hbs⟩
        obtain rfl | hc := List.mem_cons.mp ((perm_insertSorted mayPrecede a bs).mem_iff.mp hc)
        · exact hab.resolve_left hfirst
        · exact hb c hc

/-- **What is sorted is in order**, if any two of the items can be compared. -/
theorem pairwise_sorted : ∀ {as : List α},
    (∀ a ∈ as, ∀ b ∈ as, mayPrecede a b ∨ mayPrecede b a) →
      (sorted mayPrecede as).Pairwise fun b c => mayPrecede b c
  | [], _ => .nil
  | a :: as, htotal => by
      have hrest : ∀ b ∈ as, ∀ c ∈ as, mayPrecede b c ∨ mayPrecede c b := fun b hb c hc =>
        htotal b (List.mem_cons_of_mem a hb) c (List.mem_cons_of_mem a hc)
      rw [sorted]
      refine pairwise_insertSorted htrans (fun b hb => ?_) (pairwise_sorted hrest)
      exact htotal a List.mem_cons_self b (List.mem_cons_of_mem a (mem_sorted.mp hb))

end

end EntitySchema
