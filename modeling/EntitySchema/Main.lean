import EntitySchema.Command.Run

/-!
# Main — the program

Runs the command of the command line on the files of the machine.
-/

namespace EntitySchema

/-- The kind of a failed file operation. -/
def FileFaultKind.ofError? : IO.Error → Option FileFaultKind
  | .noFileOrDirectory _ _ _ => some .notFound
  | .alreadyExists _ _ _ => some .exists
  | .inappropriateType _ code _ => some (if code = 20 then .notDirectory else .isDirectory)
  | _ => none

/-- Does something with the file at a path; a failure that is no file fault ends the program. -/
def onFile {α : Type} (p : Path) (act : IO α) : IO (Except FileFault α) := do
  try
    let a ← act
    pure (.ok a)
  catch e =>
    match FileFaultKind.ofError? e with
    | some kind => pure (.error ⟨kind, p⟩)
    | none => throw e

/-- When what is at a path was last changed, in nanoseconds. -/
def lastChange (p : Path) : IO (Option Nat) := do
  try
    let there ← IO.FS.realPath p.text
    let data ← there.metadata
    pure (some (data.modified.sec.toNat * 1000000000 + data.modified.nsec.toNat))
  catch _ => pure none

/-- Shows what a job tells. -/
def Utterance.say (verbose : Bool) (u : Utterance) : IO Unit := do
  if let some line := u.output? then IO.println line
  if let some line := u.error? verbose then IO.eprintln line

/-- The names of the working directory. -/
def workingDirectory : IO Location := do
  let here ← IO.currentDir
  pure (Path.ofText here.toString).parts

/-- Replies to a request with the files of the machine. -/
def Request.serve (verbose : Bool) : (r : Request) → IO r.Reply
  | .home => workingDirectory
  | .time p => lastChange p
  | .read p => onFile p (IO.FS.readFile p.text)
  | .write p text => onFile p (IO.FS.writeFile p.text text)
  | .makeDirectories p => onFile p (IO.FS.createDirAll p.text)
  | .tell u => u.say verbose

/-- Runs a job on the files of the machine. -/
def Job.perform {α : Type} (verbose : Bool) : Job α → IO (Except JobError α)
  | .done a => pure (.ok a)
  | .fail e => pure (.error e)
  | .ask r next => do
      let reply ← r.serve verbose
      (next reply).perform verbose

/-- How the program is used. -/
def usage : String :=
  "usage: graphschema [-h] [-v] COMMAND ...\n\ncommands:\n"
    ++ "  init [DIRECTORY]              start a project\n"
    ++ "  check [DIRECTORY]             check the schema files of a project\n"
    ++ "  diff [--summary] OLD NEW      compare two schema files or snapshots\n"
    ++ "  graph [--root ROOT] SCHEMA    show the dependencies of a schema file"

end EntitySchema

open EntitySchema in
/-- Runs the command that the arguments ask for. -/
def main (args : List String) : IO UInt32 := do
  match Command.parse args with
  | .help =>
      IO.println usage
      pure 0
  | .usage =>
      IO.eprintln usage
      pure 2
  | .ok i =>
      match ← i.command.run.perform i.verbose with
      | .ok code => pure code.toUInt32
      | .error e =>
          IO.eprintln e.message
          pure 1
