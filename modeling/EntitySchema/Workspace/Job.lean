import EntitySchema.Schema.Assembly
import EntitySchema.Session
import EntitySchema.Snapshot.Reader
import EntitySchema.Workspace.Config

/-!
# Workspace/Job — work that reads and writes files

A job asks for one thing at a time and goes on with the reply, so one and the same job runs on a
disk in memory (`Disk.run`) and on a real one.
-/

namespace EntitySchema

/-! ## What jobs tell -/

/-- Something worth knowing that is neither a result nor a failure. -/
inductive Notice where
  /-- A schema was assembled by this step. -/
  | assembled (step : AssemblyStep)
  /-- A snapshot was used in place of its schema file. -/
  | reused (key : String)
  /-- A snapshot was built with other options. -/
  | otherOptions (key : String)
  /-- A schema file was compiled. -/
  | compiled (key : String) (entities : Nat)
  /-- A snapshot cannot be understood. -/
  | ignoredSnapshot (path : Path) (cause : SnapshotError)
deriving DecidableEq

/-- Whether a notice hints at a problem. -/
def Notice.isWarning : Notice → Bool
  | .ignoredSnapshot _ _ => true
  | _ => false

/-- The message of a step of assembling a schema. -/
def AssemblyStep.message : AssemblyStep → String
  | .declared count => "Parsed " ++ .ofList (Text.ofNat count) ++ " entities"
  | .inverse i => "Synthesized backref " ++ i.target ++ "." ++ i.field ++ " -> " ++ i.source

/-- The message of a notice. -/
def Notice.message : Notice → String
  | .assembled step => step.message
  | .reused key => "Reusing snapshot for " ++ key
  | .otherOptions key => "Compile options of " ++ key ++ " changed, recompiling"
  | .compiled key entities =>
      "Compiled " ++ key ++ " (" ++ .ofList (Text.ofNat entities) ++ " entities)"
  | .ignoredSnapshot path cause =>
      "Ignoring unreadable snapshot " ++ path.text ++ ": " ++ cause.message

/-- A notice as a line of a log. -/
def Notice.line (n : Notice) : String :=
  (if n.isWarning then "WARNING: " else "DEBUG: ") ++ n.message

/-- What a job told. -/
inductive Utterance where
  /-- A line of the result. -/
  | output (line : String)
  /-- A line about a failure. -/
  | error (line : String)
  /-- A line of the log. -/
  | notice (n : Notice)
deriving DecidableEq

/-! ## Why jobs fail -/

/-- Why a schema file is not compiled. -/
inductive CompileError where
  /-- The schema file cannot be read. -/
  | unreadable (path : Path) (cause : FileFault)
  /-- The schema file is no document. -/
  | notYaml (path : Path)
  /-- The document is no mapping. -/
  | notMapping (path : Path)
  /-- The members describe no schema. -/
  | schema (path : Path) (cause : SchemaError)
  /-- The schema file is not below the project. -/
  | outside (path root : Path)
  /-- The snapshot cannot be read. -/
  | snapshot (path : Path) (cause : FileFault)
deriving DecidableEq

/-- The message of a compile error. -/
def CompileError.message : CompileError → String
  | .unreadable path cause => "Cannot read schema file '" ++ path.text ++ "': " ++ cause.message
  | .notYaml path => "Invalid YAML in '" ++ path.text ++ "': " ++ Yaml.complaint
  | .notMapping path => "Schema file '" ++ path.text ++ "' must contain a mapping of entity names"
  | .schema path cause => path.text ++ ": " ++ cause.message
  | .outside path root =>
      "Schema file '" ++ path.text ++ "' is not under the project root '" ++ root.text ++ "'"
  | .snapshot path cause => "Cannot read snapshot '" ++ path.text ++ "': " ++ cause.message

/-- Why a job fails. -/
inductive JobError where
  /-- There is no configuration. -/
  | config (cause : ConfigError)
  /-- A schema file is not compiled. -/
  | compile (cause : CompileError)
  /-- A snapshot cannot be understood. -/
  | snapshot (cause : SnapshotError)
  /-- A file cannot be used. -/
  | file (cause : FileFault)
  /-- A schema file has no name of its own. -/
  | noName
  /-- A key that should be a text is something else. -/
  | keyNotText (kind : String)
deriving DecidableEq

/-- The message of a failure. -/
def JobError.message : JobError → String
  | .config cause => cause.message
  | .compile cause => cause.message
  | .snapshot cause => cause.message
  | .file cause => cause.message
  | .noName => "PosixPath('.') has an empty name"
  | .keyNotText kind => (Failure.notTextKey kind).message

/-! ## Jobs -/

/-- What a job may ask for. -/
inductive Request where
  /-- Where relative paths start. -/
  | home
  /-- When what is at a path was last changed. -/
  | time (path : Path)
  /-- The text of a file. -/
  | read (path : Path)
  /-- To write a text to a file. -/
  | write (path : Path) (text : String)
  /-- To make a directory and those on the way. -/
  | makeDirectories (path : Path)
  /-- To tell something. -/
  | tell (u : Utterance)

/-- What a request is replied. -/
abbrev Request.Reply : Request → Type
  | .home => Location
  | .time _ => Option Nat
  | .read _ => Except FileFault String
  | .write _ _ => Except FileFault Unit
  | .makeDirectories _ => Except FileFault Unit
  | .tell _ => Unit

/-- Work that asks for things and has a result in the end. -/
inductive Job (α : Type) where
  /-- The work is done. -/
  | done (result : α)
  /-- The work has failed. -/
  | fail (cause : JobError)
  /-- The work goes on with the reply to a request. -/
  | ask (request : Request) (next : request.Reply → Job α)

namespace Job

variable {α β : Type}

/-- Goes on with the result of a job. -/
def andThen : Job α → (α → Job β) → Job β
  | .done a, f => f a
  | .fail e, _ => .fail e
  | .ask r next, f => .ask r fun reply => (next reply).andThen f

instance : Monad Job where
  pure := done
  bind := andThen

/-- A result that may be a failure. -/
def lift (ofError : β → JobError) : Except β α → Job α
  | .ok a => .done a
  | .error e => .fail (ofError e)

/-- A single request. -/
def request (r : Request) : Job r.Reply := .ask r .done

/-- The result or the failure of a job, which no longer ends the work. -/
def attempt : Job α → Job (Except JobError α)
  | .done a => .done (.ok a)
  | .fail e => .done (.error e)
  | .ask r next => .ask r fun reply => (next reply).attempt

/-- Where a relative path leads. -/
def locate (p : Path) : Job Location := do
  let home ← request .home
  pure (p.resolve home)

/-- When what is at a path was last changed; none if there is nothing. -/
def time? (p : Path) : Job (Option Nat) := request (.time p)

/-- Whether there is anything at a path. -/
def isPresent (p : Path) : Job Bool := do
  let t ← time? p
  pure t.isSome

/-- The text of a file; `ofFault` says what to fail with if there is none. -/
def readText (ofFault : FileFault → JobError) (p : Path) : Job String := do
  let r ← request (.read p)
  lift ofFault r

/-- Writes a text to a file. -/
def writeText (p : Path) (text : String) : Job Unit := do
  let r ← request (.write p text)
  lift .file r

/-- Makes a directory and those on the way. -/
def makeDirectories (p : Path) : Job Unit := do
  let r ← request (.makeDirectories p)
  lift .file r

/-- Writes a text to a file, if there is one to write; the directories on the way are made first. -/
def save (p : Path) (text : Except SnapshotError String) : Job Unit := do
  makeDirectories p.parent
  let text ← lift .snapshot text
  writeText p text

/-- Tells a line of the result. -/
def print (line : String) : Job Unit := request (.tell (.output line))

/-- Tells a line about a failure. -/
def complain (line : String) : Job Unit := request (.tell (.error line))

/-- Tells a line of the log. -/
def report (n : Notice) : Job Unit := request (.tell (.notice n))

/-- Does something for each of the items, in order. -/
def forEach (f : α → Job Unit) : List α → Job Unit
  | [] => .done ()
  | a :: as => do
      f a
      forEach f as

end Job

/-! ## Jobs on a disk -/

namespace Disk

/-- Replies to a request. -/
def reply (d : Disk) : (r : Request) → r.Reply × Disk × List Utterance
  | .home => (d.home, d, [])
  | .time p => (d.time? p, d, [])
  | .read p => (d.read p, d, [])
  | .write p text =>
      match d.write p text with
      | .ok d => (.ok (), d, [])
      | .error fault => (.error fault, d, [])
  | .makeDirectories p =>
      let (r, d) := d.ensureDirectories p
      (r, d, [])
  | .tell u => ((), d, [u])

end Disk

/-- Runs a job on a disk: its result, the disk that it leaves and what it told. -/
def Job.runOn {α : Type} : Job α → Disk → Except JobError α × Disk × List Utterance
  | .done a, d => (.ok a, d, [])
  | .fail e, d => (.error e, d, [])
  | .ask r next, d =>
      let (reply, d, said) := d.reply r
      let (result, d, more) := (next reply).runOn d
      (result, d, said ++ more)

end EntitySchema
