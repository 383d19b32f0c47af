import EntitySchema.Json.Reader
import EntitySchema.Json.Writer
import EntitySchema.Snapshot.Models

/-!
# Snapshot/Writer — schemas as snapshots

A snapshot is a compact JSON text with a format version, the options of the build and the whole
schema, dumped by a library for the models.  A schema with a very long whole number has none.
-/

namespace EntitySchema

/-- The version of the snapshot format. -/
def snapshotVersion : String := "1"

/-- What ends the name of a snapshot file. -/
def snapshotSuffix : String := ".schema.json"

/-- Why a text is no snapshot, or a schema has none. -/
inductive SnapshotError where
  /-- The text is not JSON. -/
  | notJson
  /-- A whole number is too long to be written, or to be read where its digits are counted. -/
  | tooLong (digits : Option Nat)
  /-- The JSON value is not an object. -/
  | notObject
  /-- The format version is another one. -/
  | version (found : Value)
  /-- The options are not an object. -/
  | badOptions
  /-- The content does not describe a schema. -/
  | malformed
deriving DecidableEq

/-- The message of a snapshot error. -/
def SnapshotError.message : SnapshotError → String
  | .notJson => "Expecting a JSON text"
  | .tooLong digits =>
      "Exceeds the limit (" ++ .ofList (Text.ofNat Text.digitLimit)
        ++ " digits) for integer string conversion"
        ++ (digits.elim "" fun n => ": value has " ++ .ofList (Text.ofNat n) ++ " digits")
        ++ "; use sys.set_int_max_str_digits() to increase the limit"
  | .notObject => "Snapshot must be a JSON object"
  | .version found =>
      "Unsupported artifact format version: " ++ .ofList found.inspect
  | .badOptions => "Malformed schema snapshot: 'options' must be an object"
  | .malformed => "Malformed schema snapshot: a member is missing or of the wrong kind"

namespace Snapshot

variable (M : Models) (s : Schema) (options : Record)

/-- A schema with the options of its build as a value. -/
def toValue : Value :=
  .map
    [("v", .text snapshotVersion), ("options", .ofRecord options), ("schema", M.schema.dump s)]

/-- The text of a snapshot, whatever numbers are in it. -/
def text : String := Json.render (toValue M s options)

/-- A schema with the options of its build as a snapshot. -/
def encode : Except SnapshotError String :=
  if (toValue M s options).isShort then .ok (text M s options) else .error (.tooLong none)

end Snapshot

end EntitySchema
