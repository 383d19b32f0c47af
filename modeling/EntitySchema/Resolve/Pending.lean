import EntitySchema.Resolve.Call
import EntitySchema.Text.Split

/-!
# Resolve/Pending — entities that a payload carries with it

A payload may carry entities still to be created: a member `_pending_x` holding their type and data.
They are created innermost first, and `x` is set to the id.  A pending member that is no mapping, or
of an unknown type, is dropped.
-/

namespace EntitySchema.Resolve

/-! ## Payloads as records -/

/-- The items of a value that holds some: of a list its items, of a text its characters, of a
mapping its keys. -/
def items? : Value → Option (List Value)
  | .list xs => some xs
  | .text s => some (s.toList.map fun c => .text (.singleton c))
  | .map ms => some (ms.map fun p => .text p.1)
  | _ => none

/-- Refuses a value that cannot be a key. -/
def checkHashable : Value → Except Failure Unit
  | .list xs => .error (.unhashable (Value.list xs).kind)
  | .map ms => .error (.unhashable (Value.map ms).kind)
  | _ => .ok ()

/-- The pairs that items of two values make, counted from `index`. -/
def pairsOf (index : Nat) : List Value → Except Failure (List (Value × Value))
  | [] => .ok []
  | item :: items =>
      match items? item with
      | none => .error (.notSequence index)
      | some [k, v] => do
          checkHashable k
          let rest ← pairsOf (index + 1) items
          pure ((k, v) :: rest)
      | some xs => .error (.notPair index xs.length)

/-- The pairs with texts as keys; the first other key is refused. -/
def textKeys : List (Value × Value) → Except Failure (List (String × Value))
  | [] => .ok []
  | (.text k, v) :: ps => do
      let rest ← textKeys ps
      pure ((k, v) :: rest)
  | (k, _) :: _ => .error (.notTextKey k.kind)

/-- A value as a record: a mapping, or items that are pairs. -/
def recordOf (v : Value) : Except Failure Record :=
  match v with
  | .map ms => .ok (.ofList ms)
  | v =>
      match items? v with
      | none => .error (.notIterable v.kind)
      | some items => do
          let pairs ← pairsOf 0 items
          let members ← textKeys pairs
          pure (.ofList members)

/-! ## Pending members -/

/-- What the keys of pending members start with. -/
def pendingLead : String := "_pending_"

/-- The name of the field that a pending member is for. -/
def pendingField? (key : String) : Option String :=
  (Text.dropLead? pendingLead.toList key.toList).map .ofList

/-- The entity with the name in a value; a list or a mapping cannot be looked up. -/
def lookUp (s : Schema) (type : Value) : Except Failure (Option (String × Entity)) :=
  match type with
  | .text t => .ok ((s.entity? t).map (t, ·))
  | v => do checkHashable v; pure none

/-- A value, or an empty mapping for one that is not filled. -/
def orEmpty (v : Value) : Value := if v.isFilled then v else .map []

/-- Creates what the value `pending` for `field` carries, whose data `create` makes a record. -/
def pendingMember (b : Backend) (s : Schema) (create : Entity → Value → Run Record) (e : Entity)
    (data : Record) (field : String) : Value → Run Record
  | .map ms => do
      match ← lookUp s ((Pairs.find? "type" ms).getD (.text "")) with
      | none => pure data
      | some (type, related) => do
          let nested ← create related (orEmpty ((Pairs.find? "data" ms).getD .null))
          let id ← b.createEntity type nested
          let isArray := ((e.fields.get? field).map (·.modifiers.array)).getD false
          pure (data.insert field (if isArray then .list [id] else id))
  | _ => pure data

/-- Creates what the members under the keys carry, one after another. -/
def pendingMembers (b : Backend) (s : Schema) (create : Entity → Value → Run Record) (e : Entity) :
    Record → List String → Run Record
  | data, [] => pure data
  | data, key :: keys =>
      match pendingField? key with
      | none => pendingMembers b s create e data keys
      | some field => do
          let data ← pendingMember b s create e (data.erase key) field
            ((data.get? key).getD .null)
          pendingMembers b s create e data keys

/-- Creates what a payload of the entity `e` carries, nested less than `fuel` deep. -/
def createPending (b : Backend) (s : Schema) : Nat → Entity → Value → Run Record
  | 0, _, _ => pure .empty
  | fuel + 1, e, payload => do
      let data ← recordOf payload
      pendingMembers b s (createPending b s fuel) e data data.keys

/-- The record of a payload of `e`, with all that it carries created. -/
def nestedPending (b : Backend) (s : Schema) (e : Entity) (payload : Value) : Run Record :=
  createPending b s (payload.depth + 1) e payload

end EntitySchema.Resolve
