import EntitySchema.Schema.System
import EntitySchema.Workspace.Job

/-!
# Workspace/Source — schema files

A schema file is a document that maps names to entities.  The keys that are read as names have to be
texts; all other keys may be anything.
-/

namespace EntitySchema

namespace Source

/-- Members whose keys are texts, up to the first key that is not, and that key. -/
def textMembers : List (Yaml.Scalar × Yaml.Node) →
    List (String × Value) × Option Yaml.Scalar
  | [] => ([], none)
  | (.text k, n) :: ms =>
      let (rest, bad) := textMembers ms
      ((k, n.toValue) :: rest, bad)
  | (k, _) :: _ => ([], some k)

/-- The declaration of an entity as a value, up to the first key that is not a text, and that key;
settings may have any keys. -/
def declaration (name : String) : Yaml.Node → Value × Option Yaml.Scalar
  | .mapping ms =>
      if isSetting name then ((Yaml.Node.mapping ms).toValue, none)
      else
        let (members, bad) := textMembers ms
        (.map members, bad)
  | n => (n.toValue, none)

/-- Declarations of entities, up to the first name or field name that is not a text, and that
key. -/
def declarations : List (Yaml.Scalar × Yaml.Node) →
    List (String × Value) × Option Yaml.Scalar
  | [] => ([], none)
  | (.text k, n) :: ms =>
      match declaration k n with
      | (v, some bad) => ([(k, v)], some bad)
      | (v, none) =>
          let (rest, bad) := declarations ms
          ((k, v) :: rest, bad)
  | (k, _) :: _ => ([], some k)

/-- The members of a schema file; an empty one has none. -/
def members (F : Formats) (p : Path) : Job (List (Yaml.Scalar × Yaml.Node)) := do
  let text ← Job.readText (fun fault => .compile (.unreadable p fault)) p
  match F.document? text with
  | none => .fail (.compile (.notYaml p))
  | some (.mapping ms) => pure ms
  | some (.scalar .null) => pure []
  | some _ => .fail (.compile (.notMapping p))

/-- The schema that members declare, with reports of the steps taken. -/
def assemble (p : Path) (ms : List (Yaml.Scalar × Yaml.Node)) : Job Schema :=
  match declarations ms with
  | (members, none) => do
      let (result, steps) := Schema.assembleSteps (.ofList members) true
      Job.forEach (fun step => .report (.assembled step)) steps
      Job.lift (fun e => .compile (.schema p e)) result
  | (members, some bad) =>
      match Schema.declare (.ofList members) with
      | .error e => .fail (.compile (.schema p (.declaration e)))
      | .ok _ => .fail (.keyNotText bad.toValue.kind)

/-- Compiles a schema file, without a look at any snapshot. -/
def compile (F : Formats) (p : Path) (systemEntities : Bool) : Job Schema := do
  let ms ← members F p
  let s ← assemble p ms
  pure (if systemEntities then s.withSystemEntities else s)

end Source

end EntitySchema
