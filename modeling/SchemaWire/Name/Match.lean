import SchemaWire.Text.LowerCase

/-!
# Names that match

Two peers may spell the name of a field differently. A name matches the name that equals
it, and if there is none, the first one that differs in underscores and capitals only.
-/

namespace SchemaWire.Name

/-- A name without underscores, in lower case. -/
def normalized (name : String) : List Char :=
  (name.toList.filter (· != '_')).flatMap Text.lowerCase

/-- The place of the name that matches a given one. -/
def match? (names : List String) (name : String) : Option Nat :=
  match names.findIdx? (· == name) with
  | some index => some index
  | none => names.findIdx? fun other => normalized other == normalized name

end SchemaWire.Name
