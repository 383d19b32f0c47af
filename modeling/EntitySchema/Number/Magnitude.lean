/-!
# Number/Magnitude — sizes of double-precision numbers

The non-negative doubles and infinity form one ascending chain, and a magnitude is a place in it:
rank `0` is zero, rank `1` the least subnormal, and the ranks of one binade are consecutive.  So
magnitudes are compared by rank, and every finite one is a whole multiple (`units`) of
`2 ^ -fineness`.  Operations compute an exact ratio and round it once (`ofRatio`).
-/

namespace EntitySchema

/-- The rank of infinity: 2047 binades of `2 ^ 52` magnitudes stand below it. -/
def infinityRank : Nat := 2047 * Nat.pow 2 52

/-- A non-negative double or infinity, by its rank among them. -/
@[ext] structure Magnitude where
  /-- How many magnitudes are smaller. -/
  rank : Nat
  /-- Nothing exceeds infinity. -/
  rank_le : rank ≤ infinityRank
deriving DecidableEq

namespace Magnitude

/-- The magnitude of rank `r`, infinity beyond the last. -/
def ofRank (r : Nat) : Magnitude := ⟨min r infinityRank, Nat.min_le_right ..⟩

/-- Zero. -/
def zero : Magnitude := ⟨0, Nat.zero_le _⟩

/-- Infinity. -/
def infinity : Magnitude := ⟨infinityRank, Nat.le_refl _⟩

instance : Inhabited Magnitude := ⟨zero⟩

/-- Whether the magnitude is finite. -/
def isFinite (m : Magnitude) : Bool := m.rank < infinityRank

/-- Units are counted in `2 ^ -fineness`, the least subnormal. -/
def fineness : Nat := 1074

/-- The value in units of `2 ^ -fineness`; infinity counts as `2 ^ 1024`. -/
def units (m : Magnitude) : Nat :=
  let binade := m.rank / Nat.pow 2 52
  if binade = 0 then m.rank
  else (Nat.pow 2 52 + m.rank % Nat.pow 2 52) * Nat.pow 2 (binade - 1)

/-- The magnitude nearest to `n / den` units; of two nearest, the one of even rank. -/
def roundUnits (n den : Nat) : Magnitude :=
  let shift := (n / den).log2 - 52
  let unit := den * Nat.pow 2 shift
  let q := n / unit
  let r := n % unit
  let up := if 2 * r < unit then 0 else if 2 * r = unit then q % 2 else 1
  ofRank (shift * Nat.pow 2 52 + q + up)

/-- The magnitude nearest to `num / den`. -/
def ofRatio (num den : Nat) : Magnitude := roundUnits (num * Nat.pow 2 fineness) den

/-- The magnitude nearest to `digits * 10 ^ exponent`.  Far beyond either end of the range the
power of ten is not computed. -/
def ofDecimal (digits : Nat) : Int → Magnitude
  | .ofNat e =>
      if 400 < e then (if digits = 0 then zero else infinity) else ofRatio (digits * Nat.pow 10 e) 1
  | .negSucc e =>
      if digits.log2 + 1077 ≤ 3 * (e + 1) then zero else ofRatio digits (Nat.pow 10 (e + 1))

/-- The magnitude nearest to `n`. -/
def ofNat (n : Nat) : Magnitude := ofRatio n 1

/-- One. -/
def one : Magnitude := ⟨1023 * Nat.pow 2 52, by decide⟩

/-- The sum, rounded once. -/
def add (a b : Magnitude) : Magnitude := ofRatio (a.units + b.units) (Nat.pow 2 fineness)

/-- The product of two finite magnitudes, rounded once. -/
def mul (a b : Magnitude) : Magnitude :=
  ofRatio (a.units * b.units) (Nat.pow 2 (2 * fineness))

/-- The integral part of a finite magnitude. -/
def floor (m : Magnitude) : Nat := m.units / Nat.pow 2 fineness

/-- Whether `a` is at most `b`. -/
def le (a b : Magnitude) : Bool := a.rank ≤ b.rank

end Magnitude

end EntitySchema
