import EntitySchema.Command.Arguments

/-!
# Command/Basic — what the command line can do

The command line starts a project, checks one, compares two schemas, or shows the dependencies of a
schema.
-/

namespace EntitySchema

/-- What to do. -/
inductive Command where
  /-- Starts a project in a directory. -/
  | init (directory : String)
  /-- Checks the schema files of the project in a directory. -/
  | check (directory : String)
  /-- Compares two schema files or snapshots, in one line if `summary`. -/
  | diff (old new : String) (summary : Bool)
  /-- Shows the dependencies of a schema file, and the order that `root` asks for. -/
  | graph (schema : String) (root : Option String)
deriving DecidableEq

namespace Command

/-- What to do and how much to tell about it. -/
structure Invocation where
  /-- Whether all notices are shown, or only warnings. -/
  verbose : Bool
  /-- What to do. -/
  command : Command
deriving DecidableEq

/-- The option that shows all notices. -/
def verboseOption : OptionSpec := { long := "verbose", letter := some 'v' }

/-- The option that shortens a comparison. -/
def summaryOption : OptionSpec := { long := "summary" }

/-- The option that asks for the order of a type's dependencies. -/
def rootOption : OptionSpec := { long := "root", takesValue := true }

/-- What `build` makes of gathered arguments, if it can use the operands and all options are
known. -/
def Reading.using (r : Reading Gathered) (build : Gathered → List String → Option Command) :
    Reading Command :=
  match r with
  | .help => .help
  | .usage => .usage
  | .ok g =>
      match build g g.operands with
      | some c => if g.hasUnknown then .usage else .ok c
      | none => .usage

/-- The operand of a command that works in a directory, by default in the current one. -/
def directory? : List String → Option String
  | [] => some "."
  | [directory] => some directory
  | _ => none

/-- The command with the name and arguments. -/
def ofArguments (name : String) (args : List String) : Reading Command :=
  let read (specs : List OptionSpec) := (gather (.help :: specs) false {} args).using
  if name = "init" then read [] fun _ ts => (directory? ts).map .init
  else if name = "check" then read [] fun _ ts => (directory? ts).map .check
  else if name = "diff" then
    read [summaryOption] fun
      | g, [old, new] => some (.diff old new (g.options.contains summaryOption.long))
      | _, _ => none
  else if name = "graph" then
    read [rootOption] fun
      | g, [schema] => some (.graph schema (g.options.get? rootOption.long))
      | _, _ => none
  else .usage

/-- What the arguments of the command line ask for; without a command, they ask for help. -/
def parse (args : List String) : Reading Invocation :=
  match gather [.help, verboseOption] true {} args with
  | .help => .help
  | .usage => .usage
  | .ok g =>
      match g.operands with
      | [] => if g.hasUnknown then .usage else .help
      | name :: args =>
          match ofArguments name args with
          | .help => .help
          | .usage => .usage
          | .ok command =>
              if g.hasUnknown then .usage
              else .ok { verbose := g.options.contains verboseOption.long, command }

end Command

end EntitySchema
