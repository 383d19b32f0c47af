import EntitySchema.Number.Binary64
import EntitySchema.Table

/-!
# Value/Basic — data without a schema

A value is what a document, a snapshot or a stored record holds: null, a truth value, a number, a
text, a list, or a mapping from texts.  The pairs of a mapping have distinct keys at every depth in
the values that matter (`Value.Distinct`); their order counts.
-/

namespace EntitySchema

/-- A value without a schema. -/
inductive Value where
  /-- No value. -/
  | null
  /-- A truth value. -/
  | bool (b : Bool)
  /-- A number, whole numbers and doubles kept apart. -/
  | number (n : Number)
  /-- A text. -/
  | text (s : String)
  /-- Values in order. -/
  | list (items : List Value)
  /-- Values under texts, in order. -/
  | map (members : List (String × Value))

/-- A mapping from texts to values: the data of a record. -/
abbrev Record := Table String Value

namespace Value

instance : Inhabited Value := ⟨.null⟩

/-- A whole number as a value. -/
abbrev int (z : Int) : Value := .number (.int z)

/-- A double as a value. -/
abbrev float (x : Binary64) : Value := .number (.float x)

/-- A record as a value. -/
def ofRecord (r : Record) : Value := .map r.entries

/-- A table of texts as a value. -/
def ofTexts (t : Table String String) : Value := .map (t.entries.map fun (k, s) => (k, .text s))

/-! ## Equality

Structural equality of values is decidable, since mappings are lists of pairs. -/

mutual

/-- Whether two values are the same tree. -/
def beq : Value → Value → Bool
  | .null, .null => true
  | .bool a, .bool b => a == b
  | .number a, .number b => a = b
  | .text s, .text t => s == t
  | .list xs, .list ys => beqList xs ys
  | .map ms, .map ns => beqMembers ms ns
  | _, _ => false

/-- Whether two lists of values are the same trees in order. -/
def beqList : List Value → List Value → Bool
  | [], [] => true
  | x :: xs, y :: ys => beq x y && beqList xs ys
  | _, _ => false

/-- Whether two lists of members are the same in order. -/
def beqMembers : List (String × Value) → List (String × Value) → Bool
  | [], [] => true
  | (k, x) :: xs, (l, y) :: ys => (k == l && beq x y) && beqMembers xs ys
  | _, _ => false

end

mutual

theorem eq_of_beq : ∀ {v w : Value}, beq v w = true → v = w
  | .null, w, h => by cases w <;> simp_all [beq]
  | .bool a, w, h => by cases w <;> simp_all [beq]
  | .number a, w, h => by cases w <;> simp_all [beq]
  | .text s, w, h => by cases w <;> simp_all [beq]
  | .list xs, .list ys, h => congrArg Value.list (eq_of_beqList (by simpa [beq] using h))
  | .list xs, .null, h | .list xs, .bool _, h | .list xs, .number _, h | .list xs, .text _, h
  | .list xs, .map _, h => by simp [beq] at h
  | .map ms, .map ns, h => congrArg Value.map (eq_of_beqMembers (by simpa [beq] using h))
  | .map ms, .null, h | .map ms, .bool _, h | .map ms, .number _, h | .map ms, .text _, h
  | .map ms, .list _, h => by simp [beq] at h

theorem eq_of_beqList : ∀ {xs ys : List Value}, beqList xs ys = true → xs = ys
  | [], [], _ => rfl
  | [], _ :: _, h | _ :: _, [], h => by simp [beqList] at h
  | x :: xs, y :: ys, h => by
      have h := (Bool.and_eq_true _ _).mp (by simpa [beqList] using h)
      rw [eq_of_beq h.1, eq_of_beqList h.2]

theorem eq_of_beqMembers : ∀ {xs ys : List (String × Value)}, beqMembers xs ys = true → xs = ys
  | [], [], _ => rfl
  | [], _ :: _, h | _ :: _, [], h => by simp [beqMembers] at h
  | (k, x) :: xs, (l, y) :: ys, h => by
      simp only [beqMembers, Bool.and_eq_true, beq_iff_eq] at h
      rw [h.1.1, eq_of_beq h.1.2, eq_of_beqMembers h.2]

end

mutual

@[simp] theorem beq_self : ∀ (v : Value), beq v v = true
  | .null => rfl
  | .bool _ | .number _ | .text _ => by simp [beq]
  | .list xs => by simpa [beq] using beqList_self xs
  | .map ms => by simpa [beq] using beqMembers_self ms

@[simp] theorem beqList_self : ∀ (xs : List Value), beqList xs xs = true
  | [] => rfl
  | x :: xs => by simp [beqList, beq_self x, beqList_self xs]

@[simp] theorem beqMembers_self : ∀ (ms : List (String × Value)), beqMembers ms ms = true
  | [] => rfl
  | (k, x) :: xs => by simp [beqMembers, beq_self x, beqMembers_self xs]

end

instance : DecidableEq Value := fun v w =>
  decidable_of_iff (beq v w = true) ⟨eq_of_beq, fun h => h ▸ beq_self v⟩

/-! ## Sameness

Two values are the same when they would be taken for one key: numbers by value, truth values as
the numbers 0 and 1, mappings whatever the order of their members. -/

/-- The number a value stands for: a number itself, a truth value 0 or 1. -/
def number? : Value → Option Number
  | .number n => some n
  | .bool b => some (.int (if b then 1 else 0))
  | _ => none

mutual

/-- Whether two values are the same. -/
def same : Value → Value → Bool
  | .null, .null => true
  | .text s, .text t => s == t
  | .list xs, .list ys => sameList xs ys
  | .map ms, .map ns => ms.length == ns.length && sameMembers ms ns
  | .number m, w => (w.number?).any m.same
  | .bool b, w => (w.number?).any (Number.int (if b then 1 else 0)).same
  | _, _ => false

/-- Whether two lists hold the same values in order. -/
def sameList : List Value → List Value → Bool
  | [], [] => true
  | x :: xs, y :: ys => same x y && sameList xs ys
  | _, _ => false

/-- Whether the mapping `ns` has the same value under every key of `ms`. -/
def sameMembers : List (String × Value) → List (String × Value) → Bool
  | [], _ => true
  | (k, x) :: ms, ns => (Pairs.find? k ns).any (same x) && sameMembers ms ns

end

/-! ## Reading values -/

/-- The value under `k` of a mapping; none of another value. -/
def member? (v : Value) (k : String) : Option Value :=
  match v with
  | .map ms => Pairs.find? k ms
  | _ => none

/-- Whether a value counts as filled: null, false, zero and whatever is empty do not. -/
def isFilled : Value → Bool
  | .null => false
  | .bool b => b
  | .number n => !n.same (.int 0)
  | .text s => s != ""
  | .list xs => !xs.isEmpty
  | .map ms => !ms.isEmpty

/-- The word for the kind of a value. -/
def kind : Value → String
  | .null => "NoneType"
  | .bool _ => "bool"
  | .number (.int _) => "int"
  | .number (.float _) => "float"
  | .text _ => "str"
  | .list _ => "list"
  | .map _ => "dict"

mutual

/-- Every mapping in the value has distinct keys. -/
def Distinct : Value → Prop
  | .list xs => DistinctList xs
  | .map ms => (ms.map Prod.fst).Nodup ∧ DistinctMembers ms
  | _ => True

/-- Every mapping in the values has distinct keys. -/
def DistinctList : List Value → Prop
  | [] => True
  | x :: xs => x.Distinct ∧ DistinctList xs

/-- Every mapping in the members has distinct keys. -/
def DistinctMembers : List (String × Value) → Prop
  | [] => True
  | (_, x) :: ms => x.Distinct ∧ DistinctMembers ms

end

mutual

/-- Whether every number in the value passes a test. -/
def allNumbers (p : Number → Bool) : Value → Bool
  | .number n => p n
  | .list xs => allNumbersList p xs
  | .map ms => allNumbersMembers p ms
  | _ => true

/-- Whether every number in the values passes a test. -/
def allNumbersList (p : Number → Bool) : List Value → Bool
  | [] => true
  | x :: xs => allNumbers p x && allNumbersList p xs

/-- Whether every number in the members passes a test. -/
def allNumbersMembers (p : Number → Bool) : List (String × Value) → Bool
  | [] => true
  | (_, x) :: ms => allNumbers p x && allNumbersMembers p ms

end

mutual

/-- How deep mappings and lists are nested. -/
def depth : Value → Nat
  | .list xs => depthList xs + 1
  | .map ms => depthMembers ms + 1
  | _ => 0

/-- How deep the deepest of the values is. -/
def depthList : List Value → Nat
  | [] => 0
  | x :: xs => max (depth x) (depthList xs)

/-- How deep the deepest of the members is. -/
def depthMembers : List (String × Value) → Nat
  | [] => 0
  | (_, x) :: ms => max (depth x) (depthMembers ms)

end

end Value

end EntitySchema
