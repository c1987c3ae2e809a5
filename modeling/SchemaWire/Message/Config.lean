/-!
# Configuration

The settings of an engine. Writer and reader must agree on all of them but the depth limit.
-/

namespace SchemaWire

/-- What stands in front of the top-level value. -/
inductive RefMode
  /-- Nothing. -/
  | none
  /-- A flag that tells null from a value. -/
  | nullOnly
  /-- A flag, and values of tracked types can be referred to later. -/
  | tracking
  deriving DecidableEq, Repr

/-- The settings of an engine. -/
structure Config where
  /-- Messages open with the magic number and name the language of their writer. -/
  xlang : Bool
  /-- Schemas travel with the message, so writer and reader may differ in their fields. -/
  compatible : Bool
  /-- What stands in front of the top-level value. -/
  refMode : RefMode
  /-- How deep structs may nest. -/
  maxDepth : Nat
  deriving DecidableEq, Repr

/-- The settings of an engine that was told nothing else. -/
def Config.standard : Config := ⟨true, false, .nullOnly, 5⟩

end SchemaWire
