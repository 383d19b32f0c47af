import EntitySchema.Text.Digit
import Mathlib.Data.List.Basic
import Mathlib.Tactic.Ring

/-!
# Proofs/Text/Numeral — numerals read back

    n ──ofNat──▸ digits as characters ──readDigits──▸ digit values ──numeral──▸ n

A numeral is known by its digit values: `exists_ofNat_eq` gives those of `ofNat n`, and
`readDigits_map_append` takes them off the text again, as long as no digit follows.  Whatever is
taken off a text are its digits (`eq_of_readDigits`).
-/

namespace EntitySchema.Text

/-- The ASCII digit of a value below ten. -/
def digitChar (d : ℕ) : Char := Char.ofNat (48 + d)

/-- Whether the text starts with a digit. -/
def StartsWithDigit (cs : List Char) : Prop := ∃ c ∈ cs.head?, (asciiDigit? c).isSome

theorem asciiDigit?_digitChar : ∀ {d : ℕ}, d < 10 → asciiDigit? (digitChar d) = some d := by
  decide

/-- A digit value other than zero is not written `0`. -/
theorem digitChar_ne_zero : ∀ {d : ℕ}, d < 10 → d ≠ 0 → digitChar d ≠ '0' := by decide

theorem readDigits_eq_nil {cs : List Char} (h : ¬ StartsWithDigit cs) :
    readDigits cs = ([], cs) := by
  cases cs with
  | nil => rfl
  | cons c cs =>
    have hc : asciiDigit? c = none := by
      rw [← Option.not_isSome_iff_eq_none]
      exact fun hc => h ⟨c, rfl, hc⟩
    rw [readDigits, hc]

/-- **Digits are taken off up to the first character that is none.** -/
theorem readDigits_map_append {rest : List Char} (hr : ¬ StartsWithDigit rest) :
    ∀ {ds : List ℕ}, (∀ d ∈ ds, d < 10) → readDigits (ds.map digitChar ++ rest) = (ds, rest)
  | [], _ => readDigits_eq_nil hr
  | d :: ds, hd => by
      have hd0 : asciiDigit? (digitChar d) = some d := asciiDigit?_digitChar (hd d (by simp))
      rw [List.map_cons, List.cons_append, readDigits, hd0]
      simp only [readDigits_map_append hr fun x hx => hd x (List.mem_cons_of_mem d hx)]

theorem eq_of_asciiDigit? {c : Char} {d : ℕ} (h : asciiDigit? c = some d) :
    c = digitChar d ∧ d < 10 := by
  obtain ⟨⟨hfrom, hto⟩, rfl⟩ := Option.ite_none_right_eq_some.mp h |>.imp_right Option.some.inj
  have hzero : 48 ≤ c.toNat := hfrom
  have hnine : c.toNat ≤ 57 := hto
  refine ⟨?_, by omega⟩
  rw [digitChar, Nat.add_sub_of_le hzero, Char.ofNat_toNat]

/-- Digits are taken off to their end. -/
theorem eq_of_readDigits : ∀ {cs rest : List Char} {ds : List ℕ}, readDigits cs = (ds, rest) →
    cs = ds.map digitChar ++ rest ∧ (∀ d ∈ ds, d < 10) ∧ ¬ StartsWithDigit rest
  | [], _, _, h => by
      obtain ⟨rfl, rfl⟩ := Prod.mk.inj h
      exact ⟨rfl, List.forall_mem_nil _, fun ⟨c, hc, _⟩ => absurd hc (by simp)⟩
  | c :: cs, _, _, h => by
      rw [readDigits] at h
      rcases hd : asciiDigit? c with _ | d <;> rw [hd] at h
      · obtain ⟨rfl, rfl⟩ := Prod.mk.inj h
        refine ⟨rfl, List.forall_mem_nil _, fun ⟨e, he, hdigit⟩ => ?_⟩
        obtain rfl := Option.some.inj he
        exact absurd hdigit (by simp [hd])
      · obtain ⟨hc, hlt⟩ := eq_of_asciiDigit? hd
        obtain ⟨rfl, rfl⟩ := Prod.mk.inj h
        have hread : readDigits cs = ((readDigits cs).1, (readDigits cs).2) := rfl
        obtain ⟨hcs, hds, hrest⟩ := eq_of_readDigits hread
        refine ⟨?_, List.forall_mem_cons.mpr ⟨hlt, hds⟩, hrest⟩
        rw [List.map_cons, List.cons_append, ← hcs, hc]

/-! ## The number that digits spell -/

theorem foldl_digits (ds : List ℕ) : ∀ n : ℕ,
    ds.foldl (fun n d => 10 * n + d) n = n * 10 ^ ds.length + numeral ds := by
  induction ds with
  | nil => intro n; simp [numeral]
  | cons d ds ih =>
    intro n
    have hd : numeral (d :: ds) = (10 * 0 + d) * 10 ^ ds.length + numeral ds := ih (10 * 0 + d)
    rw [List.foldl_cons, ih, List.length_cons, hd]
    ring

theorem numeral_append (ds es : List ℕ) :
    numeral (ds ++ es) = numeral ds * 10 ^ es.length + numeral es := by
  rw [numeral, List.foldl_append, foldl_digits]
  rfl

@[simp] theorem numeral_replicate_zero (k : ℕ) : numeral (List.replicate k 0) = 0 := by
  induction k with
  | zero => rfl
  | succ k ih =>
    rw [List.replicate_succ', numeral_append, ih]
    simp [numeral]

/-- Zeros in front do not count. -/
@[simp] theorem numeral_zeros_append (k : ℕ) (ds : List ℕ) :
    numeral (List.replicate k 0 ++ ds) = numeral ds := by
  simp [numeral_append]

/-- Zeros behind are powers of ten. -/
@[simp] theorem numeral_append_zeros (ds : List ℕ) (k : ℕ) :
    numeral (ds ++ List.replicate k 0) = numeral ds * 10 ^ k := by
  simp [numeral_append]

/-! ## The digits of a number -/

/-- The digits of `n` stand in front of what was written before; the induction is on the fuel,
which bounds the binary digits that are left. -/
theorem exists_digitsFrom_eq : ∀ (fuel n : ℕ) (acc : List Char), n < 2 ^ (fuel + 1) →
    ∃ ds, digitsFrom (fuel + 1) n acc = ds.map digitChar ++ acc ∧ (∀ d ∈ ds, d < 10) ∧
      numeral ds = n ∧ ds ≠ [] ∧ (n ≠ 0 → ds.head? ≠ some 0)
  | fuel, n, acc, hn => by
      rw [digitsFrom]
      split_ifs with hlt
      · refine ⟨[n], ?_, by simpa using hlt, by simp [numeral], by simp, by simp⟩
        rw [Nat.mod_eq_of_lt hlt]
        rfl
      · match fuel with
        | 0 => omega
        | fuel + 1 =>
          have hn' : n / 10 < 2 ^ (fuel + 1) := by
            rw [Nat.pow_succ] at hn
            omega
          obtain ⟨ds, hds, hlt, hval, hne, hhead⟩ :=
            exists_digitsFrom_eq fuel (n / 10) (Char.ofNat (48 + n % 10) :: acc) hn'
          refine ⟨ds ++ [n % 10], ?_, ?_, ?_, by simp, fun _ => ?_⟩
          · rw [hds, List.map_append, List.append_assoc]
            rfl
          · intro d hd
            rcases List.mem_append.mp hd with hd | hd
            · exact hlt d hd
            · obtain rfl := List.mem_singleton.mp hd
              omega
          · rw [numeral_append, hval]
            simp only [numeral, List.length_singleton, List.foldl_cons, List.foldl_nil]
            omega
          · rw [List.head?_append_of_ne_nil _ hne]
            exact hhead (by omega)

/-- **The digits of a numeral**: they spell the number and do not start with a zero, unless that is
all. -/
theorem exists_ofNat_eq (n : ℕ) : ∃ ds, ofNat n = ds.map digitChar ∧ (∀ d ∈ ds, d < 10) ∧
    numeral ds = n ∧ ds ≠ [] ∧ (n ≠ 0 → ds.head? ≠ some 0) := by
  obtain ⟨ds, hds, h⟩ := exists_digitsFrom_eq n.log2 n [] Nat.lt_log2_self
  exact ⟨ds, by rw [ofNat, hds, List.append_nil], h⟩

/-! ## Digits of every script -/

/-- Digits spell a number below the next power of ten. -/
theorem numeral_lt : ∀ {ds : List ℕ}, (∀ d ∈ ds, d < 10) → numeral ds < 10 ^ ds.length
  | [], _ => by decide
  | d :: ds, h => by
      obtain ⟨hd, hds⟩ := List.forall_mem_cons.mp h
      have hsplit : numeral (d :: ds) = (10 * 0 + d) * 10 ^ ds.length + numeral ds :=
        numeral_append [d] ds
      calc numeral (d :: ds) = d * 10 ^ ds.length + numeral ds := by
            rw [hsplit, Nat.mul_zero, Nat.zero_add]
        _ < d * 10 ^ ds.length + 10 ^ ds.length := Nat.add_lt_add_left (numeral_lt hds) _
        _ = (d + 1) * 10 ^ ds.length := by ring
        _ ≤ 10 * 10 ^ ds.length := Nat.mul_le_mul_right _ hd
        _ = 10 ^ (d :: ds).length := by rw [List.length_cons, pow_succ, Nat.mul_comm]

/-- A number has as many digits as it takes. -/
theorem lt_ten_pow_length_ofNat (n : ℕ) : n < 10 ^ (ofNat n).length := by
  obtain ⟨ds, htext, hds, hn, -⟩ := exists_ofNat_eq n
  rw [htext, List.length_map]
  exact hn ▸ numeral_lt hds

theorem digit?_digitChar : ∀ {d : ℕ}, d < 10 → digit? (digitChar d) = some d := by decide

theorem mapM_digit?_digitChar : ∀ {ds : List ℕ}, (∀ d ∈ ds, d < 10) →
    (ds.map digitChar).mapM digit? = some ds
  | [], _ => rfl
  | d :: ds, h => by
      rw [List.forall_mem_cons] at h
      rw [List.map_cons, List.mapM_cons, digit?_digitChar h.1, mapM_digit?_digitChar h.2]
      rfl

/-- **The number of a numeral.** -/
@[simp] theorem numeral?_ofNat (n : ℕ) : numeral? (ofNat n) = some n := by
  obtain ⟨ds, hds, hlt, hval, hne, -⟩ := exists_ofNat_eq n
  rw [numeral?, hds, if_neg (by simpa using hne), mapM_digit?_digitChar hlt, Option.map_some, hval]

theorem isSome_digit?_of_mem_ofNat {n : ℕ} {c : Char} (h : c ∈ ofNat n) : (digit? c).isSome := by
  obtain ⟨ds, hds, hlt, -⟩ := exists_ofNat_eq n
  rw [hds] at h
  obtain ⟨d, hd, rfl⟩ := List.mem_map.mp h
  rw [digit?_digitChar (hlt d hd)]
  rfl

theorem ofNat_ne_nil (n : ℕ) : ofNat n ≠ [] := by
  obtain ⟨ds, hds, -, -, hne, -⟩ := exists_ofNat_eq n
  rw [hds]
  simpa using hne

end EntitySchema.Text
