import EntitySchema.Snapshot.Lenient
import EntitySchema.Workspace.Build
import EntitySchema.Yaml.Document

/-!
# Standard — the formats of the program

Documents are YAML.  Every member of a model is dumped, unset ones as null, in the order of
declaration, and models are read leniently.
-/

namespace EntitySchema

/-! ## Models -/

/-- The models with the given members, dumped member by member. -/
def Codec.ofMembers {α : Type} (members : α → List Member) (read? : Value → Option α) :
    Codec α where
  dump a := .map ((members a).map (·.entry))
  read? := read?

namespace Models

/-- Shapes, as the program dumps and reads them. -/
def standardShape : Codec Shape := .ofMembers Shape.members Lenient.shape?

/-- Fields, as the program dumps and reads them. -/
def standardField : Codec Field := .ofMembers (Field.members standardShape) Lenient.field?

/-- Entities, as the program dumps and reads them. -/
def standardEntity : Codec Entity := .ofMembers (Entity.members standardField) Lenient.entity?

/-- The library of the program. -/
def standard : Models where
  shape := standardShape
  field := standardField
  entity := standardEntity
  schema := .ofMembers (Schema.members standardEntity) Lenient.schema?

end Models

/-! ## Files -/

/-- The formats of the program. -/
def Formats.standard : Formats := ⟨Yaml.read?, .standard⟩

/-- The schema of a snapshot with the options of its build. -/
def Snapshot.read (text : String) : Except SnapshotError (Schema × Record) :=
  decode .standard text

/-- The text of a snapshot, whatever numbers are in it. -/
def Snapshot.write (s : Schema) (options : Record) : String := text .standard s options

/-- The members of a schema file. -/
def Source.read (p : Path) : Job (List (Yaml.Scalar × Yaml.Node)) := members .standard p

/-- The schemas of the files under their keys. -/
def Build.compile (files : List Path) (buildDirectory root : Path) (systemEntities : Bool) :
    Job (Table String Schema) :=
  compileAll .standard files buildDirectory root systemEntities

/-- The configuration that a text describes; `label` is where it comes from. -/
def Config.parse (label text : String) : Except ConfigError Config := ofText .standard label text

/-- Reads the configuration of a project. -/
def Config.load (p : Path) : Job Config := ofFile .standard p

end EntitySchema
