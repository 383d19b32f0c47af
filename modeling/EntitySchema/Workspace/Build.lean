import EntitySchema.Workspace.Source

/-!
# Workspace/Build — schema files and their snapshots

A build compiles schema files and keeps a snapshot of each.  The next build takes the snapshot
instead if it is newer than the schema file and was made with the same options; whatever is wrong
with a snapshot, it is made anew.
-/

namespace EntitySchema

namespace Build

/-- The options that a snapshot is made with. -/
def options (systemEntities : Bool) : Record := .ofList [("system_entities", .bool systemEntities)]

/-- The key of the schema file that the names lead to: the names without the file's suffix. -/
def unitKey (parts : List String) : String :=
  let names := parts.dropLast ++ [stem (parts.getLast?.getD "")]
  .ofList ("/".intercalate names |>.toList.map fun c => if c = '\\' then '/' else c)

/-- The key of a schema file of a project. -/
def keyOf (file root : Path) : Job String := do
  let l ← Job.locate file
  let r ← Job.locate root
  match Location.below? r l with
  | none => .fail (.compile (.outside file root))
  | some [] => .fail .noName
  | some parts => pure (unitKey parts)

/-- The path of the snapshot with a key. -/
def snapshotPath (key : String) (buildDirectory : Path) : Path :=
  let names := (Text.splitAll '/' key.toList).map String.ofList
  (names.dropLast.foldl Path.child buildDirectory).child (names.getLast?.getD "" ++ snapshotSuffix)

/-- Whether there is a snapshot that is newer than its schema file. -/
def isFresh (file snapshot : Path) : Job Bool := do
  let made ← Job.time? snapshot
  let changed ← Job.time? file
  match made, changed with
  | some made, some changed => pure (decide (changed < made))
  | _, _ => pure false

variable (F : Formats)

/-- The schema of a snapshot, if it was made with the same options. -/
def known? (key : String) (snapshot : Path) (systemEntities : Bool) : Job (Option Schema) := do
  let text ← Job.readText .file snapshot
  match Snapshot.decode F.models text with
  | .error cause => do
      Job.report (.ignoredSnapshot snapshot cause)
      pure none
  | .ok (s, found) =>
      if (Value.ofRecord found).same (.ofRecord (options systemEntities)) then do
        Job.report (.reused key)
        pure (some s)
      else do
        Job.report (.otherOptions key)
        pure none

/-- Compiles a schema file and keeps a snapshot. -/
def renew (key : String) (file snapshot : Path) (systemEntities : Bool) : Job Schema := do
  let s ← Source.compile F file systemEntities
  Job.save snapshot (Snapshot.encode F.models s (options systemEntities))
  Job.report (.compiled key s.entities.size)
  pure s

/-- The schema of a schema file with its key. -/
def compileOne (file buildDirectory root : Path) (systemEntities : Bool) :
    Job (String × Schema) := do
  let key ← keyOf file root
  let snapshot := snapshotPath key buildDirectory
  let fresh ← isFresh file snapshot
  let known ← if fresh then known? F key snapshot systemEntities else pure none
  match known with
  | some s => pure (key, s)
  | none => do
      let s ← renew F key file snapshot systemEntities
      pure (key, s)

/-- Adds the schemas of the files to those built so far. -/
def compileInto (buildDirectory root : Path) (systemEntities : Bool) (built : Table String Schema) :
    List Path → Job (Table String Schema)
  | [] => .done built
  | file :: files => do
      let (key, s) ← compileOne F file buildDirectory root systemEntities
      compileInto buildDirectory root systemEntities (built.insert key s) files

/-- The schemas of the files under their keys. -/
def compileAll (files : List Path) (buildDirectory root : Path) (systemEntities : Bool) :
    Job (Table String Schema) :=
  compileInto F buildDirectory root systemEntities .empty files

end Build

/-- Reads the configuration of a project. -/
def Config.ofFile (F : Formats) (p : Path) : Job Config := do
  let text ← Job.readText
    (fun fault => .config (if fault.kind = .notFound then .noConfig p else .unreadable fault)) p
  Job.lift .config (Config.ofText F p.text text)

end EntitySchema
