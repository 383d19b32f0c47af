import EntitySchema.Number.Magnitude
import EntitySchema.Text.Digit

/-!
# Number/Shortest — the fewest decimal digits that name a magnitude

A finite magnitude is written with the fewest digits that read back to it (`shortest`): on each
decimal grid, from the coarsest on, the two neighbours of the value are tried, and the first grid
with a hit wins; of two hits the nearer is taken.  Numerals are positional for decimal exponents
from -4 to 15 and scientific elsewhere.  Main statement: `ofDecimal_search`, whatever the search
returns reads back.
-/

namespace EntitySchema

/-- The decimal `digits * 10 ^ exponent`. -/
structure Decimal where
  /-- The significant digits, as a whole number. -/
  digits : Nat
  /-- The power of ten they count. -/
  exponent : Int
deriving DecidableEq

namespace Magnitude

/-- Whether the value lies below `10 ^ e`. -/
def isBelowPower (m : Magnitude) (e : Int) : Bool :=
  m.units * Nat.pow 10 (-e).toNat < Nat.pow 2 fineness * Nat.pow 10 e.toNat

/-- The least `e` with the value below `10 ^ e`, found from the binary logarithm. -/
def decimalLead (m : Magnitude) : Int :=
  let guess := ((m.units.log2 : Int) - 1074) * 1233 / 4096
  if m.isBelowPower guess then guess
  else if m.isBelowPower (guess + 1) then guess + 1
  else guess + 2

/-- The shorter candidates on the grid of `10 ^ e` that read back, nearest first. -/
def onGrid? (m : Magnitude) (e : Int) : Option Decimal :=
  let num := m.units * Nat.pow 10 (-e).toNat
  let den := Nat.pow 2 fineness * Nat.pow 10 e.toNat
  let lo := num / den
  let hits := [lo, lo + 1].filter fun d => ofDecimal d e = m
  match hits with
  | [] => none
  | [d] => some ⟨d, e⟩
  | _ =>
      let twice := 2 * (num % den)
      some ⟨if twice < den then lo else if twice = den then lo + lo % 2 else lo + 1, e⟩

/-- Tries grids of `n`, `n + 1`, … digits below `10 ^ lead`, at most `fuel` of them. -/
def search (m : Magnitude) (lead : Int) : Nat → Nat → Option Decimal
  | 0, _ => none
  | fuel + 1, n => (m.onGrid? (lead - n)).or (search m lead fuel (n + 1))

/-- Moves at most `fuel` trailing zeros of the digits into the exponent. -/
def dropZeros : Nat → Decimal → Decimal
  | 0, d => d
  | fuel + 1, d =>
      if d.digits % 10 = 0 ∧ d.digits ≠ 0 then dropZeros fuel ⟨d.digits / 10, d.exponent + 1⟩
      else d

/-- The fewest digits that read back to a finite magnitude; the exact value if 17 do not. -/
def shortest (m : Magnitude) : Decimal :=
  dropZeros 18 ((m.search m.decimalLead 17 1).getD ⟨m.units * Nat.pow 5 fineness, -fineness⟩)

end Magnitude

namespace Decimal

/-- The numeral: positional for decimal exponents from -4 to 15, with at least one digit on either
side of the point; otherwise one digit before the point and a signed exponent of two digits or
more. -/
def text (d : Decimal) : List Char :=
  let ds := Text.ofNat d.digits
  let point : Int := d.exponent + ds.length
  if -3 ≤ point ∧ point ≤ 16 then
    if point ≤ 0 then '0' :: '.' :: (List.replicate (-point).toNat '0' ++ ds)
    else if point < ds.length then ds.take point.toNat ++ '.' :: ds.drop point.toNat
    else ds ++ List.replicate (point.toNat - ds.length) '0' ++ ['.', '0']
  else
    let fraction := if ds.length ≤ 1 then [] else '.' :: ds.drop 1
    let e := Text.ofNat (point - 1).natAbs
    let e := if e.length < 2 then '0' :: e else e
    ds.take 1 ++ fraction ++ 'e' :: (if point - 1 < 0 then '-' else '+') :: e

end Decimal

namespace Magnitude

/-- The numeral of a finite magnitude. -/
def text (m : Magnitude) : List Char :=
  if m.rank = 0 then ['0', '.', '0'] else m.shortest.text

/-- **A candidate is taken only if it reads back.** -/
theorem ofDecimal_onGrid? {m : Magnitude} {e : Int} {d : Decimal} (h : m.onGrid? e = some d) :
    ofDecimal d.digits d.exponent = m := by
  simp only [onGrid?] at h
  split at h
  · cases h
  · next d' hd =>
      obtain rfl := Option.some.inj h
      have : d' ∈ [d'] := List.mem_singleton.mpr rfl
      rw [← hd] at this
      simpa using (List.mem_filter.mp this).2
  · next h₁ h₂ =>
      obtain rfl := Option.some.inj h
      generalize m.units * Nat.pow 10 (-e).toNat /
        (Nat.pow 2 fineness * Nat.pow 10 e.toNat) = lo at *
      have hlo : ofDecimal lo e = m := by
        apply Classical.byContradiction
        intro hne
        by_cases h' : ofDecimal (lo + 1) e = m
        · exact h₂ (lo + 1) (by simp [hne, h'])
        · exact h₁ (by simp [hne, h'])
      have hhi : ofDecimal (lo + 1) e = m := by
        apply Classical.byContradiction
        intro hne
        exact h₂ lo (by simp [hlo, hne])
      dsimp only
      split
      · exact hlo
      · split
        · rcases Nat.mod_two_eq_zero_or_one lo with h2 | h2 <;> rw [h2]
          · exact hlo
          · exact hhi
        · exact hhi

theorem ofDecimal_search {m : Magnitude} {lead : Int} :
    ∀ {fuel n : Nat} {d : Decimal}, m.search lead fuel n = some d →
      ofDecimal d.digits d.exponent = m
  | fuel + 1, n, d, h => by
      rw [search, Option.or_eq_some_iff] at h
      rcases h with h | ⟨_, h⟩
      · exact ofDecimal_onGrid? h
      · exact ofDecimal_search h

end Magnitude

end EntitySchema
