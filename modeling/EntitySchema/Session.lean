import EntitySchema.Text.Digit
import EntitySchema.Value.Basic
import EntitySchema.Text.Quoted

/-!
# Session — computations that call a backend

A session logs its calls, in order, and may fail; what was called stays in the log even then.  A
backend answers a call from the calls that came before, so every backend without a will of its own
is covered: one that searches, one that stores, one that counts.
-/

namespace EntitySchema

/-- Why a session fails. -/
inductive Failure where
  /-- The backend failed, for a reason of its own. -/
  | backend (kind message : String)
  /-- A record lacks a member. -/
  | missing (key : String)
  /-- A value of one kind cannot be compared with a number of another. -/
  | incomparable (left right : String)
  /-- A value of this kind cannot be looked up. -/
  | unhashable (kind : String)
  /-- A value of this kind holds no members. -/
  | notIterable (kind : String)
  /-- An item that should be a key with a value is not a sequence. -/
  | notSequence (index : Nat)
  /-- An item that should be a key with a value has another length. -/
  | notPair (index length : Nat)
  /-- A key of this kind is no text. -/
  | notTextKey (kind : String)
deriving DecidableEq

/-- The message of a failure. -/
def Failure.message : Failure → String
  | .backend _ message => message
  | .missing key => .ofList (Text.quoted key.toList)
  | .incomparable left right =>
      "'>=' not supported between instances of '" ++ left ++ "' and '" ++ right ++ "'"
  | .unhashable kind => "unhashable type: '" ++ kind ++ "'"
  | .notIterable kind => "'" ++ kind ++ "' object is not iterable"
  | .notSequence index =>
      "cannot convert dictionary update sequence element #" ++ .ofList (Text.ofNat index)
        ++ " to a sequence"
  | .notPair index length =>
      "dictionary update sequence element #" ++ .ofList (Text.ofNat index) ++ " has length "
        ++ .ofList (Text.ofNat length) ++ "; 2 is required"
  | .notTextKey kind => "'" ++ kind ++ "' object has no attribute 'startswith'"

/-- A computation that makes calls of type `κ`: from the calls so far it has a result or a failure,
and all calls up to its end. -/
def Session (κ α : Type) : Type := List κ → Except Failure α × List κ

namespace Session

variable {κ α β : Type}

/-- Answers `a` without a call. -/
def done (a : α) : Session κ α := fun log => (.ok a, log)

/-- Fails without a call. -/
def fail (e : Failure) : Session κ α := fun log => (.error e, log)

/-- Goes on with `f` unless `x` fails. -/
def andThen (x : Session κ α) (f : α → Session κ β) : Session κ β := fun log =>
  match x log with
  | (.ok a, log) => f a log
  | (.error e, log) => (.error e, log)

instance : Monad (Session κ) where
  pure := done
  bind := andThen

/-- A result without calls. -/
def lift : Except Failure α → Session κ α
  | .ok a => done a
  | .error e => fail e

instance : MonadLift (Except Failure) (Session κ) := ⟨lift⟩

/-- Makes `call`, which the backend answers from the calls before it. -/
def perform (answer : List κ → Except Failure α) (call : κ) : Session κ α := fun log =>
  (answer log, log ++ [call])

/-- The result or the failure of `x`, which no longer ends the session. -/
def attempt (x : Session κ α) : Session κ (Except Failure α) := fun log =>
  match x log with
  | (r, log) => (.ok r, log)

end Session

/-- The member `key` of a record. -/
def Record.require (r : Record) (key : String) : Except Failure Value :=
  match r.get? key with
  | some v => .ok v
  | none => .error (.missing key)

end EntitySchema
