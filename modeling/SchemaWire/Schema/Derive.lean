import SchemaWire.Schema.Basic
import SchemaWire.Types.Registry

/-!
# Schemas of registered types

The wire type of a declared type and the schema of a registered struct. Both follow the
registry, so they fail where a type is not registered.
-/

namespace SchemaWire

/-- The wire type of a declared type. The contents of collections are never tracked. -/
def WireType.ofFieldType (registry : Registry) (compatible : Bool) :
    FieldType → Bool → Except Error WireType
  | .scalar host nullable, tracked => do
    let spec ← registry.resolve (.scalar host nullable)
    return ⟨spec.typeId compatible, nullable, tracked, []⟩
  | .list name element nullable, tracked => do
    let spec ← registry.resolve (.list name element nullable)
    let element ← ofFieldType registry compatible element false
    return ⟨spec.typeId compatible, nullable, tracked, [element]⟩
  | .set name element nullable, tracked => do
    let spec ← registry.resolve (.set name element nullable)
    let element ← ofFieldType registry compatible element false
    return ⟨spec.typeId compatible, nullable, tracked, [element]⟩
  | .map name key value nullable, tracked => do
    let spec ← registry.resolve (.map name key value nullable)
    let key ← ofFieldType registry compatible key false
    let value ← ofFieldType registry compatible value false
    return ⟨spec.typeId compatible, nullable, tracked, [key, value]⟩

namespace Schema

/-- The description of declared fields. -/
def ofFields (registry : Registry) (compatible : Bool) :
    List FieldDescriptor → Except Error (List SchemaField)
  | [] => return []
  | field :: rest => do
    let type ← WireType.ofFieldType registry compatible field.type field.tracked
    let others ← ofFields registry compatible rest
    return ⟨field.name, field.type.nullable, field.tracked, type⟩ :: others

/-- The schema of a user type. -/
def ofSpec (registry : Registry) (spec : TypeSpec) (compatible : Bool) : Except Error Schema :=
  match spec.registration? with
  | none => .error (.builtinSchema spec.label)
  | some registration => do
    let fields ← ofFields registry compatible spec.fields
    match registration with
    | .id _ => return ⟨false, spec.typeId compatible, "", "", fields⟩
    | .name space name => return ⟨true, 0, space, name, fields⟩

end Schema

end SchemaWire
