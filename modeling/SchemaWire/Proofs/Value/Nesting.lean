import SchemaWire.Proofs.Types.Registry
import SchemaWire.Value.Datum

/-!
# How deep structs nest

The nesting of a value is the number of registered structs that stand around one another in it at
most. Neighbours do not add up: the deepest one counts. What stands inside a value with a layout of
its own is not counted.
-/

namespace SchemaWire

namespace Registry

/-- The type of the elements of a list or a set for which a builtin stands. -/
def element? (registry : Registry) (type : FieldType) : Option FieldType := do
  (← registry.ofType? type).element? type

/-- The types of the keys and the values of a map for which a builtin stands. -/
def arguments? (registry : Registry) (type : FieldType) : Option (FieldType × FieldType) := do
  (← registry.ofType? type).arguments? type

/-- The declared fields of the struct that is registered for a declared type. -/
def structFields? (registry : Registry) (type : FieldType) : Option (List FieldDescriptor) := do
  let spec ← registry.ofType? type
  match spec.role with
  | .struct _ fields => some fields
  | _ => none

end Registry

namespace Datum

mutual

/-- How many registered structs nest at most in a value of a declared type. -/
def nesting (registry : Registry) (type : FieldType) : Datum → Nat
  | .some content | .newtype content => content.nesting registry type
  | .seq _ items =>
    match registry.element? type with
    | .some element => nestingOfItems registry element items
    | .none => 0
  | .map _ entries =>
    match registry.arguments? type with
    | .some (key, value) => nestingOfEntries registry key value entries
    | .none => 0
  | .struct _ content =>
    match registry.structFields? type with
    | .some declared => nestingOfFields registry declared content + 1
    | .none => 0
  | _ => 0

/-- How many registered structs nest at most in one of several values. -/
def nestingOfItems (registry : Registry) (type : FieldType) : List Datum → Nat
  | [] => 0
  | first :: rest => max (first.nesting registry type) (nestingOfItems registry type rest)

/-- How many registered structs nest at most in one of several keys or values. -/
def nestingOfEntries (registry : Registry) (keyType valueType : FieldType) :
    List (Datum × Datum) → Nat
  | [] => 0
  | (key, value) :: rest =>
    max (max (key.nesting registry keyType) (value.nesting registry valueType))
      (nestingOfEntries registry keyType valueType rest)

/-- How many registered structs nest at most in one of the fields of a struct. -/
def nestingOfFields (registry : Registry) :
    List FieldDescriptor → List (String × Datum) → Nat
  | field :: declared, (_, value) :: rest =>
    max (value.nesting registry field.type) (nestingOfFields registry declared rest)
  | _, _ => 0

end

end Datum

namespace TypeSpec

variable {spec : TypeSpec}

/-- Only of builtins the elements are laid out by their types. -/
theorem element?_of_ext {registration : Registration} (hrole : spec.role = .ext registration)
    (type : FieldType) : spec.element? type = none := by
  cases type <;> simp [element?, hrole]

/-- Only of builtins the entries are laid out by their types. -/
theorem arguments?_of_ext {registration : Registration} (hrole : spec.role = .ext registration)
    (type : FieldType) : spec.arguments? type = none := by
  cases type <;> simp [arguments?, hrole]

end TypeSpec

namespace Registry

variable {registry : Registry} {type : FieldType} {spec : TypeSpec}

/-- The elements have the type that the registered type says. -/
theorem element?_of_resolve (h : registry.resolve type = .ok spec) :
    registry.element? type = spec.element? type := by
  rw [element?, resolve_eq_ok_iff.mp h]
  rfl

/-- The entries have the types that the registered type says. -/
theorem arguments?_of_resolve (h : registry.resolve type = .ok spec) :
    registry.arguments? type = spec.arguments? type := by
  rw [arguments?, resolve_eq_ok_iff.mp h]
  rfl

/-- A struct has the fields that it is registered with. -/
theorem structFields?_of_resolve (h : registry.resolve type = .ok spec)
    {registration : Registration} {declared : List FieldDescriptor}
    (hrole : spec.role = .struct registration declared) :
    registry.structFields? type = some declared := by
  rw [structFields?, resolve_eq_ok_iff.mp h]
  simp only [Option.bind_eq_bind, Option.bind_some, hrole]

/-- A type with a layout of its own is no struct. -/
theorem structFields?_of_ext (h : registry.resolve type = .ok spec)
    {registration : Registration} (hrole : spec.role = .ext registration) :
    registry.structFields? type = none := by
  rw [structFields?, resolve_eq_ok_iff.mp h]
  simp only [Option.bind_eq_bind, Option.bind_some, hrole]

end Registry

/-- In a value with a layout of its own no registered struct is counted. -/
theorem Datum.nesting_of_ext {registry : Registry} {type : FieldType} {spec : TypeSpec}
    (h : registry.resolve type = .ok spec) {registration : Registration}
    (hrole : spec.role = .ext registration) : (v : Datum) → v.nesting registry type = 0
  | .some content | .newtype content => by
    rw [nesting]
    exact nesting_of_ext h hrole content
  | .seq _ _ => by
    rw [nesting, Registry.element?_of_resolve h, TypeSpec.element?_of_ext hrole]
  | .map _ _ => by
    rw [nesting, Registry.arguments?_of_resolve h, TypeSpec.arguments?_of_ext hrole]
  | .struct _ _ => by
    rw [nesting, Registry.structFields?_of_ext h hrole]
  | .bool _ | .int _ _ | .float32 _ | .float64 _ | .char _ | .text _ | .bytes _ | .unit | .none
  | .tuple _ | .firstEntry _ _ | .unitVariant _ _ _ | .newtypeVariant _ _ _ _
  | .tupleVariant _ _ _ _ | .structVariant _ _ _ _ | .choice _ | .absent | .refused _ => by
    rw [nesting]
    all_goals exact nofun

end SchemaWire
