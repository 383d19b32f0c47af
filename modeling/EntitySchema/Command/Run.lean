import EntitySchema.Command.Basic
import EntitySchema.Dependency.Report
import EntitySchema.Diff.Report
import EntitySchema.Standard
import EntitySchema.Validation

/-!
# Command/Run — commands as jobs

A command tells its result and its failures line by line and ends with an exit code: 0 if all is
well, 1 if not.
-/

namespace EntitySchema

namespace Command

/-- Tells about a failure and ends with exit code 1. -/
def giveUp (reason : String) : Job Nat := do
  Job.complain ("Error: " ++ reason)
  pure 1

/-- The schema that a new project starts with. -/
def initialSchema : String :=
  "# Example schema\n"
    ++ "Author:\n  name: 'string!'\n  bio: 'text?'\n"
    ++ "Post:\n  title: string\n  author: '->Author.posts'\n"
    ++ "  topic: 'What is this post about? ~>Topic(0.8)?'\n"
    ++ "Topic:\n  name: 'string#'\n"

/-- A directory with all of its names. -/
def fullDirectory (directory : String) : Job Path := do
  let l ← Job.locate (.ofText directory)
  pure (.ofLocation l)

/-- Complains that a directory does not exist. -/
def noDirectory (directory : Path) : Job Nat :=
  giveUp ("directory '" ++ directory.text ++ "' does not exist.")

/-- Starts a project in a directory. -/
def runInit (directory : String) : Job Nat := do
  let directory ← fullDirectory directory
  let config := directory.child Config.fileName
  if !(← Job.isPresent directory) then noDirectory directory
  else if ← Job.isPresent config then
    giveUp ("project already exists at '" ++ config.text ++ "'.")
  else do
    Job.writeText config Config.initialText
    let schema := directory.child "schema.yaml"
    if !(← Job.isPresent schema) then Job.writeText schema initialSchema
    Job.print ("Initialized GraphSchema project at '" ++ config.text ++ "'.")
    pure 0

/-- Tells what is wrong with the design of a schema. -/
def tellFindings (key : String) (f : Findings) : Job Unit := do
  Job.forEach (fun w => Job.print ("Warning: " ++ key ++ ": " ++ w.message)) f.warnings
  Job.forEach (fun e => Job.complain ("Error: " ++ key ++ ": " ++ e.message)) f.errors

variable (F : Formats)

/-- Checks the schemas of a project. -/
def checkSchemas (directory : Path) (c : Config) : Job Nat := do
  let files := c.schemaFiles.map directory.child
  Job.print ("Checking " ++ countText files.length ++ " schema file(s)...")
  let built ← Job.attempt
    (Build.compileAll F files (directory.child c.buildDirectory) directory c.systemEntities)
  match built with
  | .error (.compile e) => giveUp e.message
  | .error e => .fail e
  | .ok schemas =>
      let findings := schemas.entries.map fun (key, s) => (key, s.validate)
      Job.forEach (fun (key, f) => tellFindings key f) findings
      if findings.any fun (_, f) => f.hasErrors then pure 1
      else do
        Job.print "No issues found."
        pure 0

/-- Checks the project in a directory. -/
def runCheck (directory : String) : Job Nat := do
  let directory ← fullDirectory directory
  let config := directory.child Config.fileName
  if !(← Job.isPresent directory) then noDirectory directory
  else if !(← Job.isPresent config) then
    giveUp ("no GraphSchema project found at '" ++ directory.text
      ++ "'. Run 'graphschema init' to create one.")
  else
    match ← Job.attempt (Config.ofFile F config) with
    | .error (.config e) => giveUp e.message
    | .error e => .fail e
    | .ok c =>
        if c.schemaFiles = [] then do
          Job.print "No schema files configured."
          pure 0
        else checkSchemas F directory c

/-- Reads a snapshot or compiles a schema file, as the name says. -/
def readSchema (p : Path) : Job Schema :=
  if (Text.dropTail? snapshotSuffix.toList p.name.toList).isSome then do
    let text ← Job.readText (fun fault => .compile (.snapshot p fault)) p
    Job.lift .snapshot ((Snapshot.decode F.models text).map Prod.fst)
  else Source.compile F p false

/-- Compares two schema files or snapshots. -/
def runDiff (old new : String) (summary : Bool) : Job Nat := do
  let both ← Job.attempt do
    let old ← readSchema F (.ofText old)
    let new ← readSchema F (.ofText new)
    pure (SchemaDiff.between old new)
  match both with
  | .error (.compile e) => giveUp e.message
  | .error (.snapshot e) => giveUp e.message
  | .error e => .fail e
  | .ok d => do
      Job.print (if summary then d.summary else d.report)
      pure 0

/-- Tells in which order the types that `root` needs can be made. -/
def tellOrder (g : Dependency.Graph) (root : String) : Job Nat :=
  match g.orderLines root with
  | .error e => giveUp e.message
  | .ok lines => do
      Job.forEach Job.print lines
      pure 0

/-- Shows the dependencies of a schema file. -/
def runGraph (schema : String) (root : Option String) : Job Nat := do
  match ← Job.attempt (Source.compile F (.ofText schema) false) with
  | .error (.compile e) => giveUp e.message
  | .error e => .fail e
  | .ok s =>
      let g := s.dependencyGraph
      Job.print g.report
      match root with
      | none => pure 0
      | some root =>
          if s.hasEntity root then tellOrder g root
          else giveUp ("entity '" ++ root ++ "' is not defined in '" ++ schema ++ "'.")

/-- A command as a job that ends with an exit code. -/
def job : Command → Job Nat
  | .init directory => runInit directory
  | .check directory => runCheck F directory
  | .diff old new summary => runDiff F old new summary
  | .graph schema root => runGraph F schema root

/-- A command with the formats of the program. -/
def run (c : Command) : Job Nat := c.job .standard

end Command

/-! ## What is shown -/

/-- The lines that go to the output. -/
def Utterance.output? : Utterance → Option String
  | .output line => some line
  | _ => none

/-- The lines that go to the errors: failures and warnings, and all notices if `verbose`. -/
def Utterance.error? (verbose : Bool) : Utterance → Option String
  | .output _ => none
  | .error line => some line
  | .notice n => if verbose || n.isWarning then some n.line else none

end EntitySchema
