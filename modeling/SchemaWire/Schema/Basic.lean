import SchemaWire.Schema.WireType

/-!
# Schemas

The description of a user type that travels with a message: how the type is registered,
and the names and types of its fields in order.
-/

namespace SchemaWire

/-- The description of one field. -/
structure SchemaField where
  /-- The name. -/
  name : String
  /-- Whether the value may be null. -/
  nullable : Bool
  /-- Whether the value can be referred to later. -/
  tracked : Bool
  /-- The type. -/
  type : WireType
  deriving DecidableEq, Repr

/-- The description of a user type. -/
structure Schema where
  /-- Whether the type is registered by name, and not by id. -/
  byName : Bool
  /-- The type id; zero for a type registered by name. -/
  typeId : UInt32
  /-- The namespace; empty for a type registered by id. -/
  space : String
  /-- The name; empty for a type registered by id. -/
  name : String
  /-- The fields in order. -/
  fields : List SchemaField
  deriving DecidableEq, Repr

/-- How messages speak of a type: by its name and namespace, or by its number. -/
def Schema.displayName (schema : Schema) : String :=
  if schema.byName then
    if schema.space.isEmpty then schema.name else s!"{schema.space}.{schema.name}"
  else s!"#{schema.typeId.toNat}"

end SchemaWire
