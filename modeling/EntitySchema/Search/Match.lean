import EntitySchema.Session
import EntitySchema.Sorted

/-!
# Search/Match — matches and their scores

A match is a record with at least an id and a score.  A match without a score counts as scored zero
where it is measured against a threshold, and is refused where scores are ranked.
-/

namespace EntitySchema

/-- A record that a search found. -/
abbrev Match := Record

/-- The word for the kind of a number. -/
def Number.kind (n : Number) : String := (Value.number n).kind

/-- Whether a score is at least the threshold `t`; only numbers compare. -/
def Value.isAtLeast (score : Value) (t : Number) : Except Failure Bool :=
  match score.number? with
  | some n => .ok (t.le n)
  | none => .error (.incomparable score.kind t.kind)

namespace Match

/-- The key of the id of a match. -/
def idKey : String := "$id"

/-- The key of the score of a match. -/
def scoreKey : String := "$score"

/-- The key of the type of a match. -/
def typeKey : String := "$type"

/-- The score that counts against a threshold: zero if there is none. -/
def score (m : Match) : Value := (m.get? scoreKey).getD (.int 0)

/-- The match with the type it was found under, unless it says its type itself. -/
def tag (type : String) (m : Match) : Match :=
  if m.contains typeKey then m else m.insert typeKey (.text type)

/-- Whether the score of a match lies below `t`. -/
def isBelow (t : Number) (m : Match) : Bool := m.score.number?.any (·.lt t)

/-- Whether the score of a match is at least `t`. -/
def qualifies (t : Number) (m : Match) : Bool := m.score.number?.any t.le

/-- Refuses the first match whose score is no number. -/
def checkScores (t : Number) : List Match → Except Failure Unit
  | [] => .ok ()
  | m :: ms => do let _ ← m.score.isAtLeast t; checkScores t ms

/-- The matches that reach the threshold and those that do not. -/
def partition (t : Number) (ms : List Match) : Except Failure (List Match × List Match) := do
  checkScores t ms
  pure (ms.filter (qualifies t), ms.filter (isBelow t))

/-- Whether the first score is at least the second; scores that are no numbers are below all. -/
def ranksBefore (a b : Value) : Bool :=
  match a.number?, b.number? with
  | some m, some n => n.le m
  | some _, none => true
  | none, _ => false

/-- The greatest of a score and others, the first of those that are equal. -/
def greatest (best : Value) : List Value → Value
  | [] => best
  | v :: vs => greatest (if ranksBefore best v then best else v) vs

/-- The scores of the matches; every match has to have one. -/
def scores : List Match → Except Failure (List Value)
  | [] => .ok []
  | m :: ms => do
      let s ← Record.require m scoreKey
      let rest ← scores ms
      pure (s :: rest)

/-- The matches by descending score, equal ones in their order. -/
def ranked (ms : List Match) : Except Failure (List Match) := do
  let _ ← scores ms
  pure (sorted (fun a b => ranksBefore a.score b.score) ms)

end Match

end EntitySchema
