import EntitySchema.Table
import EntitySchema.Text.Quoted
import EntitySchema.Workspace.Path

/-!
# Workspace/Disk — files and directories

A disk holds texts and directories under their locations, each with the time of its last change, and
a clock that stamps whatever is written.  To get anywhere, all directories on the way must be there.
-/

namespace EntitySchema

/-- Why a file cannot be used. -/
inductive FileFaultKind where
  /-- There is nothing, or a directory on the way is missing. -/
  | notFound
  /-- There is something already. -/
  | exists
  /-- Something on the way is no directory. -/
  | notDirectory
  /-- There is a directory in place of a file. -/
  | isDirectory
deriving DecidableEq

/-- What is wrong, with its number. -/
def FileFaultKind.text : FileFaultKind → String
  | .notFound => "[Errno 2] No such file or directory"
  | .exists => "[Errno 17] File exists"
  | .notDirectory => "[Errno 20] Not a directory"
  | .isDirectory => "[Errno 21] Is a directory"

/-- A path that cannot be used. -/
structure FileFault where
  /-- Why it cannot be used. -/
  kind : FileFaultKind
  /-- The path. -/
  path : Path
deriving DecidableEq

/-- The message of a file fault. -/
def FileFault.message (f : FileFault) : String :=
  f.kind.text ++ ": " ++ .ofList (Text.quoted f.path.text.toList)

/-- What a location holds. -/
inductive DiskEntry where
  /-- A file, with its text. -/
  | file (text : String) (time : Nat)
  /-- A directory. -/
  | directory (time : Nat)
deriving DecidableEq

/-- When an entry was last changed. -/
def DiskEntry.time : DiskEntry → Nat
  | .file _ t => t
  | .directory t => t

/-- Files and directories under their locations. -/
structure Disk where
  /-- The working directory. -/
  home : Location := []
  /-- What the locations hold; the root directory is always there. -/
  entries : Table Location DiskEntry := .empty
  /-- The current time. -/
  clock : Nat := 0

namespace Disk

/-- What a location holds. -/
def entry? (d : Disk) (l : Location) : Option DiskEntry :=
  if l = [] then some (.directory 0) else d.entries.get? l

/-- Where the names lead from a location, over directories only. -/
def walk (d : Disk) (l : Location) : List String → Except FileFaultKind Location
  | [] => .ok l
  | name :: names =>
      match d.entry? l with
      | none => .error .notFound
      | some (.file _ _) => .error .notDirectory
      | some (.directory _) => d.walk (Path.follow l name) names

/-- The location of a path. -/
def locate (d : Disk) (p : Path) : Except FileFaultKind Location :=
  d.walk (if p.absolute then [] else d.home) p.parts

/-- What is at a path. -/
def find? (d : Disk) (p : Path) : Option DiskEntry :=
  match d.locate p with
  | .ok l => d.entry? l
  | .error _ => none

/-- When what is at a path was last changed. -/
def time? (d : Disk) (p : Path) : Option Nat := (d.find? p).map (·.time)

/-- Whether there is a directory at a path. -/
def hasDirectory (d : Disk) (p : Path) : Bool :=
  match d.find? p with
  | some (.directory _) => true
  | _ => false

/-- The text of the file at a path. -/
def read (d : Disk) (p : Path) : Except FileFault String :=
  match d.locate p with
  | .error kind => .error ⟨kind, p⟩
  | .ok l =>
      match d.entry? l with
      | none => .error ⟨.notFound, p⟩
      | some (.directory _) => .error ⟨.isDirectory, p⟩
      | some (.file text _) => .ok text

/-- Puts an entry at a location. -/
def put (d : Disk) (l : Location) (e : DiskEntry) : Disk :=
  { d with entries := d.entries.insert l e }

/-- Writes a text to the file at a path. -/
def write (d : Disk) (p : Path) (text : String) : Except FileFault Disk :=
  match d.locate p with
  | .error kind => .error ⟨kind, p⟩
  | .ok l =>
      match d.entry? l with
      | some (.directory _) => .error ⟨.isDirectory, p⟩
      | _ => .ok (d.put l (.file text d.clock))

/-- Makes the directory at a path. -/
def makeDirectory (d : Disk) (p : Path) : Except FileFaultKind Disk :=
  match d.locate p with
  | .error kind => .error kind
  | .ok l =>
      match d.entry? l with
      | some _ => .error .exists
      | none => .ok (d.put l (.directory d.clock))

/-- Makes the directory at a path unless it is there. -/
def ensureDirectory (d : Disk) (p : Path) : Except FileFault Disk :=
  match d.makeDirectory p with
  | .ok d => .ok d
  | .error kind => if d.hasDirectory p then .ok d else .error ⟨kind, p⟩

/-- Makes the directory at a path and those on the way, at most `fuel` of them; what was made stays
even if the rest cannot be made. -/
def ensureFrom (d : Disk) (p : Path) : Nat → Except FileFault Unit × Disk
  | 0 => (.error ⟨.notFound, p⟩, d)
  | fuel + 1 =>
      let (above, d) := match d.makeDirectory p with
        | .error .notFound => d.ensureFrom p.parent fuel
        | _ => (.ok (), d)
      match above with
      | .error fault => (.error fault, d)
      | .ok () =>
          match d.ensureDirectory p with
          | .ok d => (.ok (), d)
          | .error fault => (.error fault, d)

/-- Makes the directory at a path and those on the way. -/
def ensureDirectories (d : Disk) (p : Path) : Except FileFault Unit × Disk :=
  d.ensureFrom p (p.parts.length + 1)

/-- Removes what is at a location, and all below. -/
def remove (d : Disk) (l : Location) : Disk :=
  { d with entries := d.entries.filter fun l' _ => !l.isPrefixOf l' }

end Disk

end EntitySchema
