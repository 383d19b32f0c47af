import EntitySchema.Sorted
import Mathlib.Tactic.SplitIfs

/-!
# Proofs/Sorted — sorting keeps what it does not order

    as ──filter p──▸ as'
    │                │
    sorted           sorted
    ▾                ▾
    bs ──filter p──▸ bs'

A stable sort commutes with every filter (`filter_sorted`), and it leaves items alone that all tie.
Together: items that tie stay in the order they came in (`filter_sorted_of_ties`), whatever that
order is (`pairwise_sorted_of_pairwise`).
-/

namespace EntitySchema

variable {α : Type} {mayPrecede : α → α → Bool}

/-- An item that may precede all others goes to their front. -/
theorem insertSorted_of_precedes {a : α} {bs : List α} (h : ∀ b ∈ bs, mayPrecede a b) :
    insertSorted mayPrecede a bs = a :: bs := by
  cases bs with
  | nil => rfl
  | cons b bs => rw [insertSorted, if_pos (h b List.mem_cons_self)]

/-- Sorting sees of the items only what they are compared by. -/
theorem sorted_map {β : Type} (f : β → α) : ∀ bs : List β,
    sorted mayPrecede (bs.map f) = (sorted (fun b c => mayPrecede (f b) (f c)) bs).map f
  | [] => rfl
  | b :: bs => by
      rw [List.map_cons, sorted, sorted_map f bs, sorted]
      exact insertSorted_map _
where
  insertSorted_map {b : β} : ∀ cs : List β, insertSorted mayPrecede (f b) (cs.map f) =
      (insertSorted (fun b c => mayPrecede (f b) (f c)) b cs).map f
    | [] => rfl
    | c :: cs => by
        rw [List.map_cons, insertSorted, insertSorted]
        split
        · rfl
        · rw [insertSorted_map cs, List.map_cons]

/-- Items that all tie stay as they are. -/
theorem sorted_of_ties : ∀ {as : List α}, (∀ a ∈ as, ∀ b ∈ as, mayPrecede a b) →
    sorted mayPrecede as = as
  | [], _ => rfl
  | a :: as, h => by
      have hrest : ∀ b ∈ as, ∀ c ∈ as, mayPrecede b c := fun b hb c hc =>
        h b (List.mem_cons_of_mem a hb) c (List.mem_cons_of_mem a hc)
      rw [sorted, sorted_of_ties hrest]
      exact insertSorted_of_precedes fun b hb =>
        h a List.mem_cons_self b (List.mem_cons_of_mem a hb)

section

variable (htrans : ∀ a b c, mayPrecede a b → mayPrecede b c → mayPrecede a c) (p : α → Bool)
include htrans

/-- An item that is dropped leaves no trace, one that is kept finds its place among those kept. -/
theorem filter_insertSorted (a : α) : ∀ {bs : List α},
    bs.Pairwise (fun b c => mayPrecede b c) →
      (insertSorted mayPrecede a bs).filter p =
        if p a then insertSorted mayPrecede a (bs.filter p) else bs.filter p
  | [], _ => by
      rw [insertSorted, List.filter_cons]
      split <;> rfl
  | b :: bs, hbs => by
      obtain ⟨hb, hrest⟩ := List.pairwise_cons.mp hbs
      rw [insertSorted]
      by_cases hab : mayPrecede a b
      · rw [if_pos hab]
        -- `a` may precede all of `b :: bs`, so also those of them that are kept.
        have hfront : ∀ c ∈ (b :: bs).filter p, mayPrecede a c := by
          intro c hc
          obtain rfl | hc := List.mem_cons.mp (List.mem_filter.mp hc).1
          · exact hab
          · exact htrans a b c hab (hb c hc)
        rw [insertSorted_of_precedes hfront, List.filter_cons]
      · rw [if_neg hab]
        rw [List.filter_cons, List.filter_cons, filter_insertSorted a hrest]
        by_cases hpb : p b
        · rw [if_pos hpb, if_pos hpb, insertSorted, if_neg hab]
          split <;> rfl
        · rw [if_neg hpb, if_neg hpb]

/-- **Sorting and filtering commute**, if any two of the items can be compared. -/
theorem filter_sorted : ∀ {as : List α}, (∀ a ∈ as, ∀ b ∈ as, mayPrecede a b ∨ mayPrecede b a) →
    (sorted mayPrecede as).filter p = sorted mayPrecede (as.filter p)
  | [], _ => rfl
  | a :: as, htotal => by
      have hrest : ∀ b ∈ as, ∀ c ∈ as, mayPrecede b c ∨ mayPrecede c b := fun b hb c hc =>
        htotal b (List.mem_cons_of_mem a hb) c (List.mem_cons_of_mem a hc)
      rw [sorted, filter_insertSorted htrans p a (pairwise_sorted htrans hrest),
        filter_sorted hrest, List.filter_cons]
      split <;> rfl

/-- **Items that tie stay in the order they came in.** -/
theorem filter_sorted_of_ties {as : List α}
    (htotal : ∀ a ∈ as, ∀ b ∈ as, mayPrecede a b ∨ mayPrecede b a)
    (hties : ∀ a b, p a → p b → mayPrecede a b) :
    (sorted mayPrecede as).filter p = as.filter p := by
  rw [filter_sorted htrans p htotal]
  refine sorted_of_ties fun a ha b hb => hties a b ?_ ?_
  · exact (List.mem_filter.mp ha).2
  · exact (List.mem_filter.mp hb).2

end

section

variable (htrans : ∀ a b c, mayPrecede a b → mayPrecede b c → mayPrecede a c) {R : α → α → Prop}
include htrans

/-- An item that came before all others goes in front of those it ties with. -/
theorem pairwise_insertSorted_of_forall {a : α} : ∀ {bs : List α},
    (∀ b ∈ bs, mayPrecede a b ∨ mayPrecede b a) → (∀ b ∈ bs, R a b) →
      bs.Pairwise (fun b c => mayPrecede b c ∧ (mayPrecede c b → R b c)) →
        (insertSorted mayPrecede a bs).Pairwise fun b c =>
          mayPrecede b c ∧ (mayPrecede c b → R b c)
  | [], _, _, _ => List.pairwise_singleton ..
  | b :: bs, htotal, hbefore, hbs => by
      obtain ⟨hb, hrest⟩ := List.pairwise_cons.mp hbs
      rw [insertSorted]
      split_ifs with hab
      · refine List.pairwise_cons.mpr ⟨fun c hc => ⟨?_, fun _ => hbefore c hc⟩, hbs⟩
        obtain rfl | hc := List.mem_cons.mp hc
        · exact hab
        · exact htrans a b c hab (hb c hc).1
      · obtain ⟨hba, htotal⟩ := List.forall_mem_cons.mp htotal
        refine List.pairwise_cons.mpr ⟨fun c hc => ?_, pairwise_insertSorted_of_forall htotal
          (List.forall_mem_cons.mp hbefore).2 hrest⟩
        obtain rfl | hc := List.mem_cons.mp ((perm_insertSorted mayPrecede a bs).mem_iff.mp hc)
        · exact ⟨hba.resolve_left hab, fun htie => absurd htie hab⟩
        · exact hb c hc

/-- **Sorting keeps the order of ties**, whatever order the items came in. -/
theorem pairwise_sorted_of_pairwise : ∀ {as : List α},
    (∀ a ∈ as, ∀ b ∈ as, mayPrecede a b ∨ mayPrecede b a) → as.Pairwise R →
      (sorted mayPrecede as).Pairwise fun a b => mayPrecede a b ∧ (mayPrecede b a → R a b)
  | [], _, _ => .nil
  | a :: as, htotal, has => by
      obtain ⟨ha, has⟩ := List.pairwise_cons.mp has
      have hrest : ∀ b ∈ as, ∀ c ∈ as, mayPrecede b c ∨ mayPrecede c b := fun b hb c hc =>
        htotal b (List.mem_cons_of_mem a hb) c (List.mem_cons_of_mem a hc)
      rw [sorted]
      refine pairwise_insertSorted_of_forall htrans (fun b hb => ?_)
        (fun b hb => ha b (mem_sorted.mp hb)) (pairwise_sorted_of_pairwise hrest has)
      exact htotal a List.mem_cons_self b (List.mem_cons_of_mem a (mem_sorted.mp hb))

end

end EntitySchema
