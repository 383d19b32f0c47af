import EntitySchema.Table
import EntitySchema.Text.Digit
import EntitySchema.Text.Split

/-!
# Command/Arguments — options and operands

Arguments are options, which start with a dash, and operands, in any order.  A long option may be
cut short as long as it stays the only one of its kind, short ones may share a dash, and behind `--`
all arguments are operands.
-/

namespace EntitySchema.Command

/-- An option of a command. -/
structure OptionSpec where
  /-- Its long name, without dashes. -/
  long : String
  /-- Its letter, if it has one. -/
  letter : Option Char := none
  /-- Whether it comes with a value. -/
  takesValue : Bool := false
deriving DecidableEq

/-- The option that asks for help. -/
def OptionSpec.help : OptionSpec := { long := "help", letter := some 'h' }

/-- An argument as it is understood. -/
inductive Argument where
  /-- An operand. -/
  | operand (text : String)
  /-- Options that share a dash, perhaps with letters behind them that there are not. -/
  | letters (options : List OptionSpec) (hasUnknown : Bool)
  /-- A long option, with the value that it is given by an equals sign. -/
  | long (option : OptionSpec) (value : Option String)
  /-- An option that there is not. -/
  | unknown
  /-- Options that take no value and are given one, or a name that is cut too short. -/
  | bad
deriving DecidableEq

/-- Whether a text is a negative number, which is no option. -/
def isNegativeNumber (cs : List Char) : Bool :=
  match cs with
  | '-' :: cs =>
      let isNumber (ds : List Char) := ds != [] && ds.all fun c => (Text.digit? c).isSome
      match Text.splitFirst? ['.'] cs with
      | some (whole, fraction) => (whole == [] || isNumber whole) && isNumber fraction
      | none => isNumber cs
  | _ => false

namespace Argument

/-- The option with the letter. -/
def letter? (specs : List OptionSpec) (c : Char) : Option OptionSpec :=
  specs.find? fun s => s.letter = some c

/-- The options that share a dash; `found` are those in front.  No option takes a value, and a
letter that there is not ends them. -/
def ofLetters (specs found : List OptionSpec) : List Char → Argument
  | [] => .letters found false
  | c :: cs =>
      match letter? specs c with
      | none => if c = '=' ∨ c = '-' then .bad else .letters found true
      | some s => ofLetters specs (found ++ [s]) cs

/-- An argument that is no known option: an operand if it looks like one. -/
def other (arg : String) : Argument :=
  if isNegativeNumber arg.toList || arg.toList.contains ' ' then .operand arg else .unknown

/-- The argument of the name behind two dashes. -/
def ofLong (specs : List OptionSpec) (arg : String) (cs : List Char) : Argument :=
  let (name, value) := match Text.splitFirst? ['='] cs with
    | some (name, value) => (name, some (String.ofList value))
    | none => (cs, none)
  match specs.find? fun s => s.long.toList = name with
  | some s => .long s value
  | none =>
      match specs.filter fun s => name.isPrefixOf s.long.toList with
      | [] => other arg
      | [s] => .long s value
      | _ => .bad

/-- How an argument is understood. -/
def ofText (specs : List OptionSpec) (arg : String) : Argument :=
  match arg.toList with
  | '-' :: '-' :: cs => ofLong specs arg cs
  | '-' :: c :: cs => if (letter? specs c).isSome then ofLetters specs [] (c :: cs) else other arg
  | _ => .operand arg

end Argument

/-- What arguments amount to. -/
inductive Reading (α : Type) where
  /-- Help is asked for. -/
  | help
  /-- The arguments make no sense. -/
  | usage
  /-- The arguments make sense. -/
  | ok (result : α)
deriving DecidableEq

/-- The options and operands among arguments. -/
structure Gathered where
  /-- The values of the options, empty for those that take none; of several values the last
  counts. -/
  options : Table String String := .empty
  /-- The operands, in order. -/
  operands : List String := []
  /-- Whether an option is not known. -/
  hasUnknown : Bool := false
deriving DecidableEq

namespace Gathered

/-- Adds an option with its value. -/
def addOption (g : Gathered) (s : OptionSpec) (value : String) : Gathered :=
  { g with options := g.options.insert s.long value }

/-- Adds options without a value. -/
def addFlags (g : Gathered) (flags : List OptionSpec) : Gathered :=
  flags.foldl (fun g s => g.addOption s "") g

/-- Adds operands. -/
def addOperands (g : Gathered) (texts : List String) : Gathered :=
  { g with operands := g.operands ++ texts }

end Gathered

/-- Gathers options and operands up to a request for help.  If `nested`, the first operand takes all
arguments behind it along. -/
def gather (specs : List OptionSpec) (nested : Bool) (g : Gathered) : List String → Reading Gathered
  | [] => .ok g
  | arg :: args =>
      if arg = "--" then (if nested then .usage else .ok (g.addOperands args))
      else
        match Argument.ofText specs arg with
        | .operand text =>
            if nested then .ok (g.addOperands (text :: args))
            else gather specs nested (g.addOperands [text]) args
        | .letters flags hasUnknown =>
            if flags.contains .help then .help
            else
              let g := g.addFlags flags
              gather specs nested { g with hasUnknown := g.hasUnknown || hasUnknown } args
        | .long s value =>
            if s.takesValue then
              match value, args with
              | some v, args => gather specs nested (g.addOption s v) args
              | none, v :: args =>
                  match Argument.ofText specs v with
                  | .operand v => gather specs nested (g.addOption s v) args
                  | _ => .usage
              | none, [] => .usage
            else if value.isSome then .usage
            else if s = .help then .help
            else gather specs nested (g.addFlags [s]) args
        | .unknown => gather specs nested { g with hasUnknown := true } args
        | .bad => .usage

end EntitySchema.Command
