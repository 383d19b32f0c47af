import EntitySchema.Text.Split

/-!
# Grammar/Target — the name a relation points at

A target is a type name, or several candidates separated by bars; behind the last one a point and
an identifier may name the inverse field.
-/

namespace EntitySchema.Grammar

/-- Whether `c` is an ASCII letter. -/
def isLetter (c : Char) : Bool := ('a' ≤ c && c ≤ 'z') || ('A' ≤ c && c ≤ 'Z')

/-- Whether `c` may stand inside an identifier. -/
def isIdentifierChar (c : Char) : Bool := isLetter c || ('0' ≤ c && c ≤ '9') || c = '_'

/-- Whether a text is an identifier: ASCII letters, digits and underscores, no digit in front. -/
def isIdentifier : List Char → Bool
  | [] => false
  | c :: cs => (isLetter c || c = '_') && cs.all isIdentifierChar

/-- Whether a text starts like a web address. -/
def isAddress (cs : List Char) : Bool := (Text.dropLead? ['h', 't', 't', 'p'] cs).isSome

/-- Splits `type.backref`; a web address has no backref. -/
def splitBackref (cs : List Char) : List Char × Option (List Char) :=
  if isAddress cs then (cs, none)
  else
    match cs.span (· ≠ '.') with
    | (c :: type, '.' :: backref) =>
        if isIdentifier backref then (c :: type, some backref) else (cs, none)
    | _ => (cs, none)

/-- The non-empty parts between bars, trimmed. -/
def barParts (cs : List Char) : List (List Char) :=
  ((Text.splitAll '|' cs).map Text.trim).filter (· ≠ [])

end EntitySchema.Grammar
