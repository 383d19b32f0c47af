import EntitySchema.Schema.Basic
import EntitySchema.Search.Union

/-!
# Resolve/Call — what resolution asks of its surroundings

Resolution searches, creates and updates entities in a store and has payloads generated.  Every such
call is logged before it is answered.
-/

namespace EntitySchema.Resolve

/-- For whom a payload is generated. -/
structure Context where
  /-- The type of the entity that is being made. -/
  parent : String
  /-- The data given for it. -/
  parentData : Record
  /-- The id it will have. -/
  parentId : String
deriving DecidableEq

/-- A call of resolution. -/
inductive Call where
  /-- Search for entities of a type. -/
  | search (type query : String) (least : Number) (limit : Int)
  /-- Create an entity. -/
  | create (type : String) (data : Record)
  /-- Change members of an entity. -/
  | update (type : String) (id : Value) (patch : Record)
  /-- Generate the payload of an entity. -/
  | generate (type hint : String) (context : Context)
  /-- Resolve what is pending in a generated payload. -/
  | nested (entity : String) (payload : Value)
deriving DecidableEq

/-- What answers the calls: a store, which need not be able to search, and a generator. -/
structure Backend where
  /-- The matches of a search, best first. -/
  search? : Option (List Call → String → String → Number → Int → Except Failure (List Match))
  /-- The entity created, with its id. -/
  create : List Call → String → Record → Except Failure Record
  /-- Whether an update succeeds. -/
  update : List Call → String → Value → Record → Except Failure Unit
  /-- The payload generated. -/
  generate : List Call → String → String → Context → Except Failure Value

/-- A computation that makes calls. -/
abbrev Run (α : Type) : Type := Session Call α

namespace Backend

/-- Whether the store can search. -/
def canSearch (b : Backend) : Bool := b.search?.isSome

/-- The matches of a search; none if the store cannot search. -/
def searchFor (b : Backend) (type query : String) (least : Number) (limit : Int) :
    Run (List Match) :=
  match b.search? with
  | some find => Session.perform (find · type query least limit) (.search type query least limit)
  | none => pure []

/-- Creates an entity and answers its id. -/
def createEntity (b : Backend) (type : String) (data : Record) : Run Value := do
  let created ← Session.perform (b.create · type data) (.create type data)
  Record.require created Match.idKey

/-- Changes members of an entity. -/
def updateEntity (b : Backend) (type : String) (id : Value) (patch : Record) : Run Unit :=
  Session.perform (b.update · type id patch) (.update type id patch)

/-- Generates a payload. -/
def generatePayload (b : Backend) (type hint : String) (context : Context) : Run Value :=
  Session.perform (b.generate · type hint context) (.generate type hint context)

end Backend

/-- The hint for a field in the data: a text that is not empty. -/
def hintText? (data : Record) (field : String) : Option String :=
  match data.get? (field ++ "Hint") with
  | some (.text s) => if s = "" then none else some s
  | _ => none

/-- A text, unless it is empty. -/
def nonempty? (s : Option String) : Option String := s.filter (· ≠ "")

/-- Whether the data has a value for a field; null is none. -/
def isSet (data : Record) (field : String) : Bool :=
  match data.get? field with
  | none | some .null => false
  | some _ => true

end EntitySchema.Resolve
