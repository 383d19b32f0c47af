import EntitySchema.Value.Display

/-!
# Yaml/Node — the nodes of a document

A document is a tree of sequences and mappings over scalars.  Keys are scalars, and of members with
the same key the last value counts, at the place of the first.
-/

namespace EntitySchema.Yaml

/-- A scalar. -/
inductive Scalar where
  /-- No value. -/
  | null
  /-- A truth value. -/
  | bool (b : Bool)
  /-- A number. -/
  | number (n : Number)
  /-- A text. -/
  | text (s : String)
deriving DecidableEq

/-- A scalar as a value. -/
def Scalar.toValue : Scalar → Value
  | .null => .null
  | .bool b => .bool b
  | .number n => .number n
  | .text s => .text s

/-- Whether two scalars are the same key. -/
def Scalar.same (a b : Scalar) : Bool := a.toValue.same b.toValue

/-- A scalar as a key of text. -/
def Scalar.key (s : Scalar) : String := s.toValue.display

/-- A node of a document. -/
inductive Node where
  /-- A scalar. -/
  | scalar (s : Scalar)
  /-- Nodes in order. -/
  | sequence (items : List Node)
  /-- Nodes under keys, in order. -/
  | mapping (members : List (Scalar × Node))

namespace Node

/-- The node of what is left out. -/
def null : Node := .scalar .null

/-- Writes a node under a key: in place if the key is there, at the end otherwise. -/
def putMember (k : Scalar) (n : Node) : List (Scalar × Node) → List (Scalar × Node)
  | [] => [(k, n)]
  | (k', n') :: ms => if k'.same k then (k', n) :: ms else (k', n') :: putMember k n ms

/-- The members with scalars as keys, written one after another; another key is refused. -/
def membersOf? (ps : List (Node × Node)) : Option (List (Scalar × Node)) :=
  ps.foldlM
    (fun ms p =>
      match p.1 with
      | .scalar k => some (putMember k p.2 ms)
      | _ => none)
    []

/-- The mapping of the pairs, if their keys are scalars. -/
def mapping? (ps : List (Node × Node)) : Option Node := (membersOf? ps).map .mapping

mutual

/-- A node as a value; keys that are no texts are shown as texts. -/
def toValue : Node → Value
  | .scalar s => s.toValue
  | .sequence ns => .list (toValues ns)
  | .mapping ms => .map (Pairs.dedup (toMembers ms))

/-- Nodes as values. -/
def toValues : List Node → List Value
  | [] => []
  | n :: ns => toValue n :: toValues ns

/-- Members as members of a value. -/
def toMembers : List (Scalar × Node) → List (String × Value)
  | [] => []
  | (k, n) :: ms => (k.key, toValue n) :: toMembers ms

end

end Node

end EntitySchema.Yaml
