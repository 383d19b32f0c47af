/-!
# Text/Split — trimming and cutting texts

Blank is the Unicode white space together with the four information separators U+001C to U+001F.
A text is trimmed if it neither starts nor ends with a blank.  Texts are cut at every occurrence of
a character, or at the first occurrence of a character or of a pattern.
-/

namespace EntitySchema.Text

/-! ## Blanks -/

/-- The closed ranges of blank code points, ascending. -/
def blankRanges : List (Nat × Nat) :=
  [(0x09, 0x0D), (0x1C, 0x20), (0x85, 0x85), (0xA0, 0xA0), (0x1680, 0x1680), (0x2000, 0x200A),
   (0x2028, 0x2029), (0x202F, 0x202F), (0x205F, 0x205F), (0x3000, 0x3000)]

/-- Whether `c` is blank. -/
def isBlank (c : Char) : Bool :=
  blankRanges.any fun r => r.1 ≤ c.toNat && c.toNat ≤ r.2

/-- Drops blanks at the start. -/
def trimStart (cs : List Char) : List Char := cs.dropWhile isBlank

/-- Drops blanks at the end. -/
def trimEnd (cs : List Char) : List Char := (cs.reverse.dropWhile isBlank).reverse

/-- Drops blanks at both ends. -/
def trim (cs : List Char) : List Char := trimEnd (trimStart cs)

/-! ## Cuts -/

/-- The pieces of the text between the occurrences of `sep`; a text without `sep` is one piece. -/
def splitAll (sep : Char) : List Char → List (List Char)
  | [] => [[]]
  | c :: cs =>
      if c = sep then [] :: splitAll sep cs
      else match splitAll sep cs with
        | [] => [[c]]
        | p :: ps => (c :: p) :: ps

/-- Drops `pat` from the start of a text that starts with it. -/
def dropLead? : List Char → List Char → Option (List Char)
  | [], cs => some cs
  | _ :: _, [] => none
  | p :: ps, c :: cs => if p = c then dropLead? ps cs else none

/-- Drops `pat` from the end of a text that ends with it. -/
def dropTail? (pat cs : List Char) : Option (List Char) :=
  (dropLead? pat.reverse cs.reverse).map List.reverse

/-- What stands before and after the first occurrence of `pat`. -/
def splitFirst? (pat : List Char) : List Char → Option (List Char × List Char)
  | [] => if pat = [] then some ([], []) else none
  | c :: cs =>
      match dropLead? pat (c :: cs) with
      | some rest => some ([], rest)
      | none => (splitFirst? pat cs).map fun (before, after) => (c :: before, after)

/-- The texts written one after another with `sep` between them. -/
def join (sep : List Char) : List (List Char) → List Char
  | [] => []
  | [t] => t
  | t :: ts => t ++ sep ++ join sep ts

end EntitySchema.Text
