import EntitySchema.Number.Binary64
import EntitySchema.Proofs.Number.Rounding

/-!
# Proofs/Number/Order — the order of the numbers

Numbers are compared by their places, and places stand in a line.  Not-a-number has no place, so it
is at most nothing, and of two numbers with places one is at most the other (`Number.le_total`).
Magnitudes are counted along the same line (`Binary64.ofMagnitude_le`).
-/

namespace EntitySchema

theorem Place.le_total (p q : Place) : p.le q = true ∨ q.le p = true := by
  cases p <;> cases q <;> grind [Place.le]

theorem Place.le_trans {p q r : Place} (hpq : p.le q = true) (hqr : q.le r = true) :
    p.le r = true := by
  cases p <;> cases q <;> cases r <;> grind [Place.le]

namespace Number

variable {a b c : Number}

theorem le_eq_true_iff :
    a.le b = true ↔ ∃ p q, a.place? = some p ∧ b.place? = some q ∧ p.le q = true := by
  rw [le]
  cases a.place? <;> cases b.place? <;> simp

theorem le_trans (hab : a.le b = true) (hbc : b.le c = true) : a.le c = true := by
  obtain ⟨p, q, hp, hq, hpq⟩ := le_eq_true_iff.mp hab
  obtain ⟨q', r, hq', hr, hqr⟩ := le_eq_true_iff.mp hbc
  obtain rfl := Option.some.inj (hq.symm.trans hq')
  exact le_eq_true_iff.mpr ⟨p, r, hp, hr, Place.le_trans hpq hqr⟩

/-- Not-a-number alone has no place. -/
@[simp] theorem place?_eq_none_iff : a.place? = none ↔ a = .float .nan := by
  rcases a with z | _ | ⟨negative, m⟩
  · exact ⟨nofun, nofun⟩
  · exact ⟨fun _ => rfl, fun _ => rfl⟩
  · exact ⟨nofun, nofun⟩

/-- **Numbers with places are in a line.** -/
theorem le_total (ha : a.place? ≠ none) (hb : b.place? ≠ none) :
    a.le b = true ∨ b.le a = true := by
  obtain ⟨p, hp⟩ := Option.ne_none_iff_exists'.mp ha
  obtain ⟨q, hq⟩ := Option.ne_none_iff_exists'.mp hb
  exact (p.le_total q).imp (fun h => le_eq_true_iff.mpr ⟨p, q, hp, hq, h⟩)
    fun h => le_eq_true_iff.mpr ⟨q, p, hq, hp, h⟩

end Number

/-! ## Magnitudes -/

/-- A magnitude of a higher rank has no fewer units. -/
theorem Magnitude.units_le_units {m n : Magnitude} (h : m.rank ≤ n.rank) : m.units ≤ n.units := by
  have hbinade : m.rank / 2 ^ 52 ≤ n.rank / 2 ^ 52 := Nat.div_le_div_right h
  by_cases hm : m.rank / 2 ^ 52 = 0
  · rw [units_of_subnormal hm]
    by_cases hn : n.rank / 2 ^ 52 = 0
    · rwa [units_of_subnormal hn]
    · rw [units_of_normal hn]
      exact (show m.rank ≤ 2 ^ 52 + n.rank % 2 ^ 52 by omega).trans
        (Nat.le_mul_of_pos_right _ (Nat.two_pow_pos _))
  · have hn : ¬ n.rank / 2 ^ 52 = 0 := by omega
    rw [units_of_normal hm, units_of_normal hn]
    obtain heq | hlt := hbinade.eq_or_lt
    · rw [heq]
      exact Nat.mul_le_mul_right _ (by omega)
    · -- Of two binades the lower one ends where the next begins.
      have hnext : 2 ^ 52 * 2 ^ (m.rank / 2 ^ 52) =
          (2 ^ 52 + 2 ^ 52) * 2 ^ (m.rank / 2 ^ 52 - 1) := by
        obtain ⟨k, hk⟩ := Nat.exists_eq_succ_of_ne_zero hm
        rw [hk, Nat.succ_sub_one, Nat.succ_eq_add_one, pow_succ 2 k]
        ring
      calc (2 ^ 52 + m.rank % 2 ^ 52) * 2 ^ (m.rank / 2 ^ 52 - 1)
          ≤ (2 ^ 52 + 2 ^ 52) * 2 ^ (m.rank / 2 ^ 52 - 1) := Nat.mul_le_mul_right _ (by omega)
        _ = 2 ^ 52 * 2 ^ (m.rank / 2 ^ 52) := hnext.symm
        _ ≤ (2 ^ 52 + n.rank % 2 ^ 52) * 2 ^ (n.rank / 2 ^ 52 - 1) :=
            Nat.mul_le_mul (Nat.le_add_right _ _) (Nat.pow_le_pow_right (by decide) (by omega))

/-- **Magnitudes are in the order of their ranks.** -/
theorem Binary64.ofMagnitude_le {m n : Magnitude} (h : m.le n = true) :
    (ofMagnitude m).le (ofMagnitude n) = true := by
  have hrank : m.rank ≤ n.rank := of_decide_eq_true h
  refine Number.le_eq_true_iff.mpr ⟨_, _, rfl, rfl, ?_⟩
  by_cases hn : n.isFinite
  · have hm : m.isFinite := decide_eq_true (hrank.trans_lt (of_decide_eq_true hn))
    rw [if_pos hm, if_pos hn]
    exact decide_eq_true (Int.ofNat_le.mpr (Magnitude.units_le_units hrank))
  · rw [if_neg hn]
    by_cases hm : m.isFinite
    · rw [if_pos hm]
      rfl
    · rw [if_neg hm]
      rfl

/-- A finite double is somewhere on the line. -/
theorem Binary64.place?_of_isFinite {x : Binary64} {p : Place} (hx : x.isFinite)
    (hp : (Number.float x).place? = some p) : ∃ u, p = .at u := by
  cases x with
  | nan => cases hp
  | signed negative m =>
    rw [Number.place?, Binary64.place?, if_pos (show m.isFinite from hx)] at hp
    exact ⟨_, (Option.some.inj hp).symm⟩

/-- What lies between finite doubles is finite. -/
theorem Binary64.isFinite_of_le {x y z : Binary64} (hx : x.isFinite) (hz : z.isFinite)
    (hxy : x.le y = true) (hyz : y.le z = true) : y.isFinite := by
  obtain ⟨p, q, hp, hq, hpq⟩ := Number.le_eq_true_iff.mp hxy
  obtain ⟨q', r, hq', hr, hqr⟩ := Number.le_eq_true_iff.mp hyz
  obtain rfl := Option.some.inj (hq.symm.trans hq')
  obtain ⟨u, rfl⟩ := Binary64.place?_of_isFinite hx hp
  obtain ⟨w, rfl⟩ := Binary64.place?_of_isFinite hz hr
  cases y with
  | nan => cases hq
  | signed negative m =>
    by_contra hm
    rw [Number.place?, Binary64.place?, if_neg (by simpa [isFinite] using hm)] at hq
    -- What is not finite lies at one of the ends, beyond the finite doubles.
    obtain rfl := Option.some.inj hq
    cases negative with
    | false => exact absurd hqr (by simp [Place.le])
    | true => exact absurd hpq (by simp [Place.le])

end EntitySchema
