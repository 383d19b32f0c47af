import EntitySchema.Number.Shortest
import Mathlib.Tactic.Positivity
import Mathlib.Tactic.Ring

/-!
# Proofs/Number/Rounding — a decimal is its value

    ofDecimal ──ofDecimal_eq_roundUnits──▸ roundUnits ──roundUnits_congr──▸ one magnitude a value

`roundUnits` rounds a ratio once, so it sees only the value of the ratio, and so does `ofDecimal`:
zeros may move between digits and exponent (`ofDecimal_mul_pow`).  The short cuts of `ofDecimal` far
beyond the range agree with that.  A finite magnitude is its own units, hence the digits that
`shortest` picks read back to it whether the search hits or not (`ofDecimal_shortest`).
-/

namespace EntitySchema.Magnitude

/-! ## Powers, spelled for arithmetic

The definitions name `Nat.pow`; arithmetic wants `^`. -/

theorem units_of_subnormal {m : Magnitude} (h : m.rank / 2 ^ 52 = 0) : m.units = m.rank := by
  simp only [units, Nat.pow_eq, if_pos h]

theorem units_of_normal {m : Magnitude} (h : ¬ m.rank / 2 ^ 52 = 0) :
    m.units = (2 ^ 52 + m.rank % 2 ^ 52) * 2 ^ (m.rank / 2 ^ 52 - 1) := by
  simp only [units, Nat.pow_eq, if_neg h]

theorem ofRatio_eq (num den : ℕ) : ofRatio num den = roundUnits (num * 2 ^ fineness) den := by
  rw [ofRatio, Nat.pow_eq]

/-- Three binary digits fit into one decimal digit. -/
theorem two_pow_le_ten_pow (k : ℕ) : 2 ^ (3 * k) ≤ 10 ^ k := by
  rw [Nat.pow_mul]
  exact Nat.pow_le_pow_left (by decide) k

/-! ## Rounding sees the value of a ratio only -/

theorem roundUnits_mul_right (n den : ℕ) {k : ℕ} (hk : 0 < k) :
    roundUnits (n * k) (den * k) = roundUnits n den := by
  simp only [roundUnits]
  rw [Nat.mul_div_mul_right _ _ hk]
  generalize (n / den).log2 - 52 = shift
  have hu : den * k * Nat.pow 2 shift = den * Nat.pow 2 shift * k := Nat.mul_right_comm ..
  rw [hu, Nat.mul_div_mul_right _ _ hk, Nat.mul_mod_mul_right]
  generalize den * Nat.pow 2 shift = unit
  generalize n % unit = r
  have hlt : 2 * (r * k) < unit * k ↔ 2 * r < unit := by
    rw [← Nat.mul_assoc]
    exact Nat.mul_lt_mul_right hk
  have heq : 2 * (r * k) = unit * k ↔ 2 * r = unit := by
    rw [← Nat.mul_assoc]
    exact Nat.mul_left_inj hk.ne'
  simp only [hlt, heq]

/-- **Equal ratios round to one magnitude.** -/
theorem roundUnits_congr {a b c d : ℕ} (hb : 0 < b) (hd : 0 < d) (h : a * d = c * b) :
    roundUnits a b = roundUnits c d := by
  rw [← roundUnits_mul_right a b hd, ← roundUnits_mul_right c d hb, h, Nat.mul_comm b d]

/-- Below half a unit there is only zero. -/
theorem roundUnits_eq_zero {n den : ℕ} (h : 2 * n < den) : roundUnits n den = zero := by
  have hq : n / den = 0 := Nat.div_eq_of_lt (by omega)
  have hr : n % den = n := Nat.mod_eq_of_lt (by omega)
  simp only [roundUnits, hq, hr, Nat.log2_zero, Nat.zero_sub, Nat.pow_eq, Nat.pow_zero,
    Nat.mul_one, if_pos h]
  rfl

/-- From `2 ^ 2099` units on there is only infinity. -/
theorem roundUnits_eq_infinity {n : ℕ} (e : ℕ) (he : 2047 + 52 ≤ e) (h : 2 ^ e ≤ n) :
    roundUnits n 1 = infinity := by
  have hn : n ≠ 0 := ((Nat.two_pow_pos e).trans_le h).ne'
  have hlog : e ≤ n.log2 := (Nat.le_log2 hn).mpr h
  have hshift : infinityRank ≤ (n.log2 - 52) * Nat.pow 2 52 := Nat.mul_le_mul_right _ (by omega)
  refine Magnitude.ext (Nat.min_eq_right ?_)
  simp only [Nat.div_one]
  exact hshift.trans ((Nat.le_add_right ..).trans (Nat.le_add_right ..))

/-- Rounding goes up by one place at most. -/
theorem rank_roundUnits_le_succ (n den : ℕ) : (roundUnits n den).rank ≤
    ((n / den).log2 - 52) * 2 ^ 52 + n / (den * 2 ^ ((n / den).log2 - 52)) + 1 := by
  refine (Nat.min_le_left _ _).trans ?_
  simp only [Nat.pow_eq]
  refine Nat.add_le_add_left ?_ _
  split
  · omega
  · split <;> omega

/-- **Rounding does not pass a power of two.** -/
theorem rank_roundUnits_le {n den e : ℕ} (he : 53 ≤ e) (h : n / den < 2 ^ e) :
    (roundUnits n den).rank ≤ (e - 51) * 2 ^ 52 := by
  have hshift : (n / den).log2 - 52 ≤ e - 53 := by
    obtain h0 | hpos := Nat.eq_zero_or_pos (n / den)
    · rw [h0]
      simp
    · have := (Nat.log2_lt hpos.ne').mpr h
      omega
  have hq : n / (den * 2 ^ ((n / den).log2 - 52)) < 2 ^ 53 := by
    rw [← Nat.div_div_eq_div_mul, Nat.div_lt_iff_lt_mul (Nat.two_pow_pos _), ← Nat.pow_add]
    exact Nat.lt_log2_self.trans_le (Nat.pow_le_pow_right (by decide) (by omega))
  refine (rank_roundUnits_le_succ n den).trans ?_
  generalize (n / den).log2 - 52 = shift at hshift hq
  omega

/-! ## A magnitude is its own units -/

/-- The binade of a magnitude is where its units have their 53 leading bits. -/
theorem exists_units_eq (m : Magnitude) :
    ∃ s f, m.units = f * 2 ^ s ∧ m.units.log2 - 52 = s ∧ s * 2 ^ 52 + f = m.rank := by
  by_cases hb : m.rank / 2 ^ 52 = 0
  · have hu : m.units = m.rank := units_of_subnormal hb
    refine ⟨0, m.rank, by rw [hu]; simp, ?_, by simp⟩
    rcases Nat.eq_zero_or_pos m.rank with h0 | h0
    · rw [hu, h0]
      simp
    · have := (Nat.log2_lt h0.ne').mpr (show m.rank < 2 ^ 52 by omega)
      rw [hu]
      omega
  · have hu := units_of_normal hb
    refine ⟨m.rank / 2 ^ 52 - 1, 2 ^ 52 + m.rank % 2 ^ 52, hu, ?_, by omega⟩
    rw [hu]
    have hf : m.rank % 2 ^ 52 < 2 ^ 52 := Nat.mod_lt _ (Nat.two_pow_pos 52)
    generalize m.rank / 2 ^ 52 - 1 = s
    generalize m.rank % 2 ^ 52 = f at hf
    have hlog : ((2 ^ 52 + f) * 2 ^ s).log2 = 52 + s := by
      rw [Nat.log2_eq_iff (by positivity)]
      constructor
      · rw [Nat.pow_add]
        exact Nat.mul_le_mul_right _ (by omega)
      · rw [show 52 + s + 1 = 53 + s by omega, Nat.pow_add]
        exact (Nat.mul_lt_mul_right (Nat.two_pow_pos s)).mpr (by omega)
    omega

/-- **A magnitude is the nearest to its own units.** -/
@[simp] theorem roundUnits_units (m : Magnitude) : roundUnits m.units 1 = m := by
  obtain ⟨s, f, hu, hs, hrank⟩ := m.exists_units_eq
  have hpos : 0 < 2 ^ s := Nat.two_pow_pos s
  have hq : m.units / 2 ^ s = f := by
    rw [hu]
    exact Nat.mul_div_cancel _ hpos
  have hr : m.units % 2 ^ s = 0 := by
    rw [hu]
    exact Nat.mul_mod_left ..
  simp only [roundUnits, Nat.pow_eq, Nat.div_one, Nat.one_mul, hs, hq, hr, Nat.mul_zero,
    if_pos hpos, Nat.add_zero, hrank]
  exact Magnitude.ext (Nat.min_eq_left m.rank_le)

/-! ## Decimals -/

/-- **`ofDecimal` is one rounding of the value**, also where it does not compute the power. -/
theorem ofDecimal_eq_roundUnits (digits : ℕ) (e : ℤ) : ofDecimal digits e =
    roundUnits (digits * 10 ^ e.toNat * 2 ^ fineness) (10 ^ (-e).toNat) := by
  have hfine : fineness = 1074 := rfl
  cases e with
  | ofNat e =>
    have h0 : (-(Int.ofNat e)).toNat = 0 := by simp
    rw [ofDecimal, h0, Int.ofNat_eq_natCast, Int.toNat_natCast, Nat.pow_zero]
    by_cases he : 400 < e
    · rw [if_pos he]
      split_ifs with hd
      · rw [hd, Nat.zero_mul, Nat.zero_mul]
        exact (roundUnits_eq_zero (by decide)).symm
      · refine (roundUnits_eq_infinity (3 * e + fineness) (by omega) ?_).symm
        rw [Nat.pow_add]
        refine Nat.mul_le_mul_right _ ((two_pow_le_ten_pow e).trans ?_)
        exact Nat.le_mul_of_pos_left _ (Nat.pos_of_ne_zero hd)
    · rw [if_neg he]
      exact ofRatio_eq ..
  | negSucc e =>
    have h0 : (-(Int.negSucc e)).toNat = e + 1 := rfl
    rw [ofDecimal, h0, Int.toNat_negSucc, Nat.pow_zero, Nat.mul_one]
    split_ifs with he
    · refine (roundUnits_eq_zero ?_).symm
      have hd : digits < 2 ^ (digits.log2 + 1) := Nat.lt_log2_self
      calc 2 * (digits * 2 ^ fineness) < 2 * (2 ^ (digits.log2 + 1) * 2 ^ fineness) := by
            have := (Nat.mul_lt_mul_right (Nat.two_pow_pos fineness)).mpr hd
            omega
        _ = 2 ^ (digits.log2 + 1 + fineness + 1) := by rw [← Nat.pow_add, ← Nat.pow_succ']
        _ ≤ 2 ^ (3 * (e + 1)) := Nat.pow_le_pow_right (by decide) (by omega)
        _ ≤ 10 ^ (e + 1) := two_pow_le_ten_pow (e + 1)
    · exact ofRatio_eq ..

/-- **A decimal of one at most is rounded to one at most.** -/
theorem ofDecimal_le_one {digits k : ℕ} (h : digits ≤ 10 ^ k) : (ofDecimal digits (-k)).le one := by
  have hneg : (-(k : ℤ)).toNat = 0 := by omega
  have hpos : (- -(k : ℤ)).toNat = k := by omega
  have hten : 0 < 10 ^ k := Nat.pow_pos (by decide)
  rw [ofDecimal_eq_roundUnits, hneg, hpos, Nat.pow_zero, Nat.mul_one]
  obtain heq | hlt := h.eq_or_lt
  · have hone : one.units = 2 ^ fineness := by decide +kernel
    rw [heq, roundUnits_congr (c := one.units) hten Nat.one_pos (by rw [hone]; ring),
      roundUnits_units]
    decide
  · refine decide_eq_true (rank_roundUnits_le (e := fineness) (by decide) ?_)
    rw [Nat.div_lt_iff_lt_mul hten, Nat.mul_comm]
    exact (Nat.mul_lt_mul_left (Nat.two_pow_pos _)).mpr hlt

@[simp] theorem ofDecimal_zero (e : ℤ) : ofDecimal 0 e = zero := by
  rw [ofDecimal_eq_roundUnits, Nat.zero_mul, Nat.zero_mul]
  exact roundUnits_eq_zero (Nat.pow_pos (by decide))

/-- **Zeros moved between digits and exponent change nothing.** -/
theorem ofDecimal_mul_pow (digits k : ℕ) (e : ℤ) :
    ofDecimal (digits * 10 ^ k) (e - k) = ofDecimal digits e := by
  rw [ofDecimal_eq_roundUnits, ofDecimal_eq_roundUnits]
  refine roundUnits_congr (Nat.pow_pos (by decide)) (Nat.pow_pos (by decide)) ?_
  have hk : k + (e - k).toNat + (-e).toNat = e.toNat + (-(e - k)).toNat := by omega
  calc digits * 10 ^ k * 10 ^ (e - k).toNat * 2 ^ fineness * 10 ^ (-e).toNat
      = digits * 10 ^ (k + (e - k).toNat + (-e).toNat) * 2 ^ fineness := by ring
    _ = digits * 10 ^ e.toNat * 2 ^ fineness * 10 ^ (-(e - k)).toNat := by rw [hk]; ring

/-- The value of a magnitude, written out in full. -/
theorem ofDecimal_units_mul_pow (m : Magnitude) :
    ofDecimal (m.units * Nat.pow 5 fineness) (-(fineness : ℤ)) = m := by
  have hneg : (-(fineness : ℤ)).toNat = 0 := by omega
  have hpos : (- -(fineness : ℤ)).toNat = fineness := by omega
  rw [ofDecimal_eq_roundUnits, hneg, hpos, Nat.pow_eq]
  refine (roundUnits_congr (Nat.pow_pos (by decide)) Nat.one_pos ?_).trans m.roundUnits_units
  rw [Nat.pow_zero, Nat.mul_one, Nat.mul_one, Nat.mul_assoc, ← Nat.mul_pow]

theorem ofDecimal_dropZeros : ∀ (fuel : ℕ) (d : Decimal),
    ofDecimal (dropZeros fuel d).digits (dropZeros fuel d).exponent = ofDecimal d.digits d.exponent
  | 0, _ => rfl
  | fuel + 1, d => by
      rw [dropZeros]
      split
      · have hd : d.digits = d.digits / 10 * 10 ^ 1 := by omega
        have he : d.exponent = d.exponent + 1 - (1 : ℕ) := by omega
        have hmove := ofDecimal_mul_pow (d.digits / 10) 1 (d.exponent + 1)
        rw [← hd, ← he] at hmove
        rw [ofDecimal_dropZeros fuel, hmove]
      · rfl

/-- **The shortest digits of a magnitude read back to it.** -/
@[simp] theorem ofDecimal_shortest (m : Magnitude) :
    ofDecimal m.shortest.digits m.shortest.exponent = m := by
  rw [shortest, ofDecimal_dropZeros]
  cases hs : m.search m.decimalLead 17 1 with
  | none => exact m.ofDecimal_units_mul_pow
  | some d => exact ofDecimal_search hs

end EntitySchema.Magnitude
