import SchemaWire.Error
import SchemaWire.Types.FieldType

/-!
# The type registry

The registry says which wire type stands for which declared type. It holds the builtins and the
user types, which are structs, enums or exts and are known by an id or by a name. A declared type
resolves to what is registered under its own name. A collection of which nothing is registered
resolves to the builtin for collections of its sort.
-/

namespace SchemaWire

/-- How a user type is known to its peers. -/
inductive Registration
  /-- By a number. -/
  | id (n : Nat)
  /-- By a namespace and a name. -/
  | name (space name : String)
  deriving DecidableEq, Repr

namespace Registration

/-- Whether a type is known by name. -/
def isByName : Registration → Bool
  | .id _ => false
  | .name .. => true

end Registration

/-- What a registered type is. -/
inductive Role
  /-- A builtin of the given kind. -/
  | builtin (kind : Kind)
  /-- A struct with declared fields. -/
  | struct (registration : Registration) (fields : List FieldDescriptor)
  /-- An enum, which travels as the index of its variant. -/
  | enum (registration : Registration)
  /-- A type with a layout of its own. -/
  | ext (registration : Registration)
  deriving DecidableEq, Repr

/-- A type of the registry. -/
structure TypeSpec where
  /-- The type of the program that it stands for, if there is one. -/
  host : Option HostType
  /-- The printed name. -/
  label : String
  /-- Whether all values of the type can be referred to later. -/
  tracked : Bool
  /-- What the type is. -/
  role : Role
  deriving DecidableEq, Repr

namespace TypeSpec

/-- How the type is registered; builtins are not. -/
def registration? (spec : TypeSpec) : Option Registration :=
  match spec.role with
  | .builtin _ => none
  | .struct registration _ | .enum registration | .ext registration => some registration

/-- The declared fields of a struct. -/
def fields (spec : TypeSpec) : List FieldDescriptor :=
  match spec.role with
  | .struct _ fields => fields
  | _ => []

/-- Whether the type is a struct, an enum or an ext. -/
def isUser (spec : TypeSpec) : Bool :=
  spec.registration?.isSome

/-- Whether the type is registered by name. -/
def isByName (spec : TypeSpec) : Bool :=
  spec.registration?.any Registration.isByName

/-- The kind under which values of the type travel. -/
def kind (spec : TypeSpec) (compatible : Bool) : Kind :=
  match spec.role with
  | .builtin kind => kind
  | .struct registration _ =>
    if compatible then
      if registration.isByName then .namedCompatibleStruct else .compatibleStruct
    else if registration.isByName then .namedStruct else .struct
  | .enum registration => if registration.isByName then .namedEnum else .enum
  | .ext registration => if registration.isByName then .namedExt else .ext

/-- The type id: the number of the kind, below the id of a user type that has one. -/
def typeId (spec : TypeSpec) (compatible : Bool) : UInt32 :=
  let code := (spec.kind compatible).code
  match spec.registration? with
  | some (.id n) => UInt32.ofNat (256 * n + code)
  | _ => UInt32.ofNat code

/-- Whether a type id of the given kind can stand for the type. -/
def isOfFamily (spec : TypeSpec) (kind : Kind) : Bool :=
  match spec.role with
  | .builtin own => own == kind
  | .struct .. => kind.isStruct
  | .enum _ => kind.isEnum
  | .ext _ => kind.isExt

/-- The type of the elements of a list or a set, which is laid out so only where a builtin stands
for it. -/
def element? (spec : TypeSpec) : FieldType → Option FieldType
  | .list _ element _ | .set _ element _ =>
    if spec.role = .builtin .list ∨ spec.role = .builtin .set then some element else none
  | _ => none

/-- The types of the keys and the values of a map, which is laid out so only where a builtin stands
for it. -/
def arguments? (spec : TypeSpec) : FieldType → Option (FieldType × FieldType)
  | .map _ key value _ => if spec.role = .builtin .map then some (key, value) else none
  | _ => none

end TypeSpec

/-- All registered types, in the order of their registration. -/
structure Registry where
  /-- The types. -/
  specs : List TypeSpec
  deriving DecidableEq, Repr

namespace Registry

/-- The builtins with a scalar type of their own. -/
def scalarBuiltins : List (HostType × Kind) :=
  [(.bool, .boolean), (.int .int8, .int8), (.int .int16, .int16), (.int .int32, .int32),
    (.int .int64, .int64), (.float32, .float32), (.float64, .float64), (.int .uint8, .uint8),
    (.int .uint16, .uint16), (.int .uint32, .uint32), (.int .uint64, .uint64), (.string, .string),
    (.str, .string), (.bytes, .binary)]

/-- The builtins that only peers write, and the collections. -/
def otherBuiltins : List Kind :=
  [.varInt32, .varInt64, .sliInt64, .float16, .list, .set, .map, .duration, .timestamp, .localDate]

/-- The registry with nothing but the builtins. -/
def standard : Registry where
  specs :=
    (scalarBuiltins.map fun (host, kind) => ⟨some host, host.label, false, .builtin kind⟩)
      ++ otherBuiltins.map fun kind => ⟨none, "builtin", false, .builtin kind⟩

/-- The greatest id of a user type. -/
def maxId : Nat := 2 ^ 24 - 1

/-- The type that stands for a type of the program. -/
def ofHost? (registry : Registry) (host : HostType) : Option TypeSpec :=
  registry.specs.find? fun spec => spec.host == some host

/-- The user type with the given registration. -/
def ofRegistration? (registry : Registry) (registration : Registration) : Option TypeSpec :=
  registry.specs.find? fun spec => spec.registration? == some registration

/-- The first builtin of a kind. -/
def builtin? (registry : Registry) (kind : Kind) : Option TypeSpec :=
  registry.specs.find? fun spec => spec.role == .builtin kind

end Registry

/-- The ways to look up a type. -/
structure Lookups where
  /-- By the type of the program that it stands for. -/
  ofHost? : HostType → Option TypeSpec
  /-- By the kind of builtins. -/
  ofKind? : Kind → Option TypeSpec
  /-- By the id of a user type. -/
  ofId? : Nat → Option TypeSpec
  /-- By the namespace and the name of a user type. -/
  ofName? : String → String → Option TypeSpec

namespace Lookups

/-- The type that stands for a declared type, if it is registered. A collection that is not
registered itself is a builtin. -/
def ofType? (lookups : Lookups) : FieldType → Option TypeSpec
  | .scalar host _ => lookups.ofHost? host
  | .list name .. => (lookups.ofHost? (.collection name)).or (lookups.ofKind? .list)
  | .set name .. => (lookups.ofHost? (.collection name)).or (lookups.ofKind? .set)
  | .map name .. => (lookups.ofHost? (.collection name)).or (lookups.ofKind? .map)

/-- The type that stands for a declared type, which has to be registered. -/
def resolve (lookups : Lookups) (type : FieldType) : Except Error TypeSpec :=
  match lookups.ofType? type with
  | some spec => .ok spec
  | none => .error (.unregistered type.label)

/-- The type with the given type id, which must not be of a kind that is known by name. -/
def ofTypeId (lookups : Lookups) (typeId : UInt32) : Except Error TypeSpec :=
  match Kind.ofTypeId? typeId with
  | none => .error (.unknownKind (Kind.codeOfTypeId typeId))
  | some kind =>
    if !kind.isUser then
      match lookups.ofKind? kind with
      | some spec => .ok spec
      | none => .error (.unregistered s!"builtin {kind.label}")
    else if kind.isNamed then .error (.registeredByName kind)
    else
      let id := typeId.toNat / 256
      match lookups.ofId? id with
      | none => .error (.unregistered s!"user type id {id}")
      | some spec =>
        if spec.isOfFamily kind then .ok spec else .error (.otherFamily id spec.label kind)

/-- The type with the given namespace and name. -/
def ofName (lookups : Lookups) (space name : String) : Except Error TypeSpec :=
  match lookups.ofName? space name with
  | some spec => .ok spec
  | none => .error (.unregistered s!"{space}.{name}")

end Lookups

namespace Registry

/-- The ways to look up a type in a registry. -/
def lookups (registry : Registry) : Lookups where
  ofHost? := registry.ofHost?
  ofKind? := registry.builtin?
  ofId? n := registry.ofRegistration? (.id n)
  ofName? space name := registry.ofRegistration? (.name space name)

/-- The type that stands for a declared type, if it is registered. -/
def ofType? (registry : Registry) : FieldType → Option TypeSpec :=
  registry.lookups.ofType?

/-- The type that stands for a declared type, which has to be registered. -/
def resolve (registry : Registry) : FieldType → Except Error TypeSpec :=
  registry.lookups.resolve

/-- The type with the given type id, which must not be of a kind that is known by name. -/
def ofTypeId (registry : Registry) : UInt32 → Except Error TypeSpec :=
  registry.lookups.ofTypeId

/-- The type with the given namespace and name. -/
def ofName (registry : Registry) : String → String → Except Error TypeSpec :=
  registry.lookups.ofName

/-- A declared type resolves to the type that is registered for it, or fails. -/
theorem resolve_eq (registry : Registry) (type : FieldType) :
    registry.resolve type =
      match registry.ofType? type with
      | some spec => .ok spec
      | none => .error (.unregistered type.label) :=
  rfl

/-- A scalar type is looked up as such. -/
theorem ofType?_scalar (registry : Registry) (host : HostType) (nullable : Bool) :
    registry.ofType? (.scalar host nullable) = registry.ofHost? host :=
  rfl

/-- A declared type resolves to the type that is registered for it. -/
theorem resolve_eq_ok_iff {registry : Registry} {type : FieldType} {spec : TypeSpec} :
    registry.resolve type = .ok spec ↔ registry.ofType? type = some spec := by
  rw [resolve, Lookups.resolve, ofType?]
  cases registry.lookups.ofType? type <;> simp

/-- A namespace and a name lead to the type that is registered with them. -/
theorem ofName_eq_ok_iff {registry : Registry} {space name : String} {spec : TypeSpec} :
    registry.ofName space name = .ok spec ↔
      registry.ofRegistration? (.name space name) = some spec := by
  rw [ofName, Lookups.ofName]
  simp only [lookups]
  cases registry.ofRegistration? (.name space name) <;> simp

/-- The first name that occurs a second time, given the names before. -/
def repeated? (before : List String) : List String → Option String
  | [] => none
  | name :: rest => if name ∈ before then some name else repeated? (name :: before) rest

/-- The parts of a path before and after its last separator. -/
def splitLast? : List Char → Option (List Char × List Char)
  | [] => none
  | c :: rest =>
    match splitLast? rest, c, rest with
    | some (path, name), c, _ => some (c :: path, name)
    | none, ':', ':' :: name => some ([], name)
    | none, _, _ => none

/-- A path with a dot for every separator. -/
def dotted : List Char → List Char
  | ':' :: ':' :: rest => '.' :: dotted rest
  | c :: rest => c :: dotted rest
  | [] => []

/-- The name under which a type is registered after its own printed name: the last part of
its path without type arguments, with the path as the namespace if that is asked for. -/
def registrationOf (host : HostType) (withSpace : Bool) : Registration :=
  let base := host.label.toList.takeWhile (· != '<')
  match splitLast? base with
  | some (path, name) =>
    .name (if withSpace then String.ofList (dotted path) else "") (String.ofList name)
  | none => .name "" (String.ofList base)

end Registry

end SchemaWire
