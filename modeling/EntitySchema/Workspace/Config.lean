import EntitySchema.Snapshot.Models
import EntitySchema.Sorted
import EntitySchema.Workspace.Disk
import EntitySchema.Yaml.Node

/-!
# Workspace/Config — the formats and the configuration of a project

Configurations and schema files are documents, and snapshots hold models.  How a document is read
and which library the models are left to is open to every project.

A project is configured by a document with three known members: the schema files, which are
required, the directory for snapshots, and whether the built-in entities are added.
-/

namespace EntitySchema

/-- The formats of a project's files. -/
structure Formats where
  /-- The document in a text, if it is a single document. -/
  document? : String → Option Yaml.Node
  /-- The library for the models. -/
  models : Models

/-- The configuration of a project. -/
structure Config where
  /-- Paths of schema files, from the project on. -/
  schemaFiles : List String
  /-- Path of the directory for snapshots, from the project on. -/
  buildDirectory : String := ".graphschema-build"
  /-- Whether the built-in entities are added to every schema. -/
  systemEntities : Bool := false
deriving DecidableEq

/-- Why there is no configuration. -/
inductive ConfigError where
  /-- The text is no document. -/
  | notYaml (label : String)
  /-- The document is no mapping. -/
  | notMapping (label : String)
  /-- Members have names that mean nothing. -/
  | unknownMembers (label : String) (names : List String)
  /-- The schema files are missing. -/
  | noFiles (label : String)
  /-- The schema files are something else than texts. -/
  | badFiles (label : String)
  /-- The directory for snapshots is no text. -/
  | badBuildDirectory (label : String)
  /-- The choice of built-in entities is no truth value. -/
  | badSystemEntities (label : String)
  /-- There is no such file. -/
  | noConfig (path : Path)
  /-- The file cannot be read. -/
  | unreadable (cause : FileFault)
deriving DecidableEq

/-- What is said about a text that is no document. -/
def Yaml.complaint : String := "the text is not a single document"

/-- The message of a configuration error. -/
def ConfigError.message : ConfigError → String
  | .notYaml label => "Invalid YAML in " ++ label ++ ": " ++ Yaml.complaint
  | .notMapping label => label ++ ": project config must be a YAML mapping"
  | .unknownMembers label names => label ++ ": unknown field(s): " ++ ", ".intercalate names
  | .noFiles label => label ++ ": missing required field 'schema-files'"
  | .badFiles label => label ++ ": 'schema-files' must be a list of strings"
  | .badBuildDirectory label => label ++ ": 'build-directory' must be a string"
  | .badSystemEntities label => label ++ ": 'system-entities' must be a boolean"
  | .noConfig path => "Project config file not found: " ++ path.text
  | .unreadable cause => "Cannot read project config file: " ++ cause.message

namespace Yaml

/-- Whether `a` may stand before `b`: null first, then numbers by value, then texts. -/
def Scalar.le : Scalar → Scalar → Bool
  | .text s, .text t => s ≤ t
  | .text _, _ => false
  | _, .text _ => true
  | a, b =>
      match a.toValue.number?, b.toValue.number? with
      | some m, some n => m.le n
      | none, _ => true
      | _, none => false

/-- A node of text. -/
def Node.text? : Node → Option String
  | .scalar (.text s) => some s
  | _ => none

/-- A node of truth. -/
def Node.bool? : Node → Option Bool
  | .scalar (.bool b) => some b
  | _ => none

/-- A sequence of texts. -/
def Node.texts? : Node → Option (List String)
  | .sequence ns => ns.mapM Node.text?
  | _ => none

end Yaml

namespace Config

/-- The name of a configuration file. -/
def fileName : String := ".graphschema.yaml"

/-- The members that mean something. -/
def knownMembers : List String := ["schema-files", "build-directory", "system-entities"]

/-- Whether a key means something. -/
def isKnown : Yaml.Scalar → Bool
  | .text s => knownMembers.contains s
  | _ => false

/-- The configuration that the members describe; `label` is where they come from. -/
def ofMembers (label : String) (ms : List (Yaml.Scalar × Yaml.Node)) :
    Except ConfigError Config := do
  let member? (name : String) := Pairs.find? (.text name) ms
  let unknown := sorted Yaml.Scalar.le ((ms.map Prod.fst).filter (!isKnown ·))
  if unknown ≠ [] then throw (.unknownMembers label (unknown.map (·.key)))
  let some files := member? "schema-files" | throw (.noFiles label)
  let some schemaFiles := files.texts? | throw (.badFiles label)
  let c : Config := { schemaFiles }
  let some buildDirectory := ((member? "build-directory").map (·.text?)).getD (some c.buildDirectory)
    | throw (.badBuildDirectory label)
  let some systemEntities := ((member? "system-entities").map (·.bool?)).getD (some c.systemEntities)
    | throw (.badSystemEntities label)
  pure { c with buildDirectory, systemEntities }

/-- The configuration that a text describes; `label` is where it comes from. -/
def ofText (F : Formats) (label text : String) : Except ConfigError Config :=
  match F.document? text with
  | none => .error (.notYaml label)
  | some (.mapping ms) => ofMembers label ms
  | some _ => .error (.notMapping label)

/-- The text of a new configuration. -/
def initialText : String :=
  "# GraphSchema project configuration\n"
    ++ "schema-files:\n  - schema.yaml\n"
    ++ "build-directory: .graphschema-build\n"
    ++ "system-entities: false\n"

end Config

end EntitySchema
