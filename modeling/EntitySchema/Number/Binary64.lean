import EntitySchema.Number.Shortest

/-!
# Number/Binary64 — double-precision numbers

A double is not-a-number or a signed magnitude.  Its place among the numbers is exact, so doubles
and whole numbers compare without rounding (`Number.le`), and not-a-number is at most nothing.
-/

namespace EntitySchema

/-- A double-precision number. -/
inductive Binary64 where
  /-- Not a number. -/
  | nan
  /-- A signed magnitude; zero has two signs. -/
  | signed (negative : Bool) (size : Magnitude)
deriving DecidableEq

namespace Binary64

/-- The double of a magnitude. -/
def ofMagnitude (m : Magnitude) : Binary64 := .signed false m

/-- Zero. -/
def zero : Binary64 := ofMagnitude .zero

instance : Inhabited Binary64 := ⟨zero⟩

/-- The double nearest to `±(digits * 10 ^ exponent)`. -/
def ofDecimal (negative : Bool) (digits : Nat) (exponent : Int) : Binary64 :=
  .signed negative (.ofDecimal digits exponent)

/-- The double nearest to `z`. -/
def ofInt (z : Int) : Binary64 := .signed (z < 0) (.ofNat z.natAbs)

/-- Whether the double is neither infinite nor not-a-number. -/
def isFinite : Binary64 → Bool
  | .nan => false
  | .signed _ m => m.isFinite

/-- The sign in front of a numeral. -/
def signText (negative : Bool) : List Char := if negative then ['-'] else []

/-- The numeral of a double, with the given spellings of not-a-number and infinity. -/
def textWith (nan infinity : List Char) : Binary64 → List Char
  | .nan => nan
  | .signed s m => signText s ++ if m.isFinite then m.text else infinity

/-- The numeral of a double, `nan` and `inf` in lower case. -/
def text : Binary64 → List Char := textWith ['n', 'a', 'n'] ['i', 'n', 'f']

end Binary64

/-- A place on the line of the numbers, in units of `2 ^ -fineness`, or beyond either end. -/
inductive Place where
  /-- Below every whole number. -/
  | below
  /-- At a multiple of `2 ^ -fineness`. -/
  | at (units : Int)
  /-- Above every whole number. -/
  | above
deriving DecidableEq

namespace Place

/-- Whether `p` lies at or before `q`. -/
def le : Place → Place → Bool
  | .below, _ => true
  | _, .above => true
  | .at m, .at n => m ≤ n
  | _, _ => false

end Place

/-- The place of a double; not-a-number has none. -/
def Binary64.place? : Binary64 → Option Place
  | .nan => none
  | .signed s m => some <|
      if m.isFinite then .at (if s then -(m.units : Int) else m.units)
      else if s then .below else .above

/-- A whole number or a double. -/
inductive Number where
  /-- A whole number, of any size. -/
  | int (z : Int)
  /-- A double. -/
  | float (x : Binary64)
deriving DecidableEq

namespace Number

instance : Inhabited Number := ⟨.int 0⟩

/-- The place of a number; not-a-number has none. -/
def place? : Number → Option Place
  | .int z => some (.at (z * Nat.pow 2 Magnitude.fineness))
  | .float x => x.place?

/-- Whether `a` is at most `b`, compared exactly; never with not-a-number. -/
def le (a b : Number) : Bool :=
  match a.place?, b.place? with
  | some p, some q => p.le q
  | _, _ => false

/-- Whether `a` is below `b`, compared exactly; never with not-a-number. -/
def lt (a b : Number) : Bool :=
  match a.place?, b.place? with
  | some p, some q => !q.le p
  | _, _ => false

/-- Whether `a` and `b` have the same value; never with not-a-number. -/
def same (a b : Number) : Bool :=
  match a.place?, b.place? with
  | some p, some q => p = q
  | _, _ => false

/-- The double nearest to a number. -/
def toBinary64 : Number → Binary64
  | .int z => .ofInt z
  | .float x => x

end Number

/-- Whether `a` is at most `b`; never with not-a-number. -/
def Binary64.le (a b : Binary64) : Bool := Number.le (.float a) (.float b)

end EntitySchema
