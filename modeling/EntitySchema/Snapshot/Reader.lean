import EntitySchema.Snapshot.Writer

/-!
# Snapshot/Reader — schemas from snapshots

A snapshot is read only if its version is the one that is written.  Options that are missing are
empty, and a schema that is missing is read from no members.
-/

namespace EntitySchema.Snapshot

variable (M : Models)

/-- The schema of a value with the options of its build. -/
def ofValue (v : Value) : Except SnapshotError (Schema × Record) :=
  match v with
  | .map _ =>
      let version := (v.member? "v").getD .null
      if version ≠ .text snapshotVersion then .error (.version version)
      else
        match (v.member? "options").getD (.map []) with
        | .map options =>
            match M.schema.read? ((v.member? "schema").getD (.map [])) with
            | none => .error .malformed
            | some s => .ok (s, .ofList options)
        | _ => .error .badOptions
  | _ => .error .notObject

/-- The schema of a snapshot with the options of its build. -/
def decode (text : String) : Except SnapshotError (Schema × Record) :=
  match Json.parse text with
  | .ok v => ofValue M v
  | .error .malformed => .error .notJson
  | .error (.tooLong digits) => .error (.tooLong (some digits))

end EntitySchema.Snapshot
