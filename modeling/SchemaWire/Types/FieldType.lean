import SchemaWire.Types.Integer

/-!
# Declared types

The types under which programs declare their values: scalar types and collections of declared
types. Each type has a printed name that is its identity: two collections with the same contents
are two types if their names differ. Every place where a value may be missing is marked nullable.
-/

namespace SchemaWire

/-- A type of a program: a builtin, a collection, or any other type by its printed name. An option and
a box are types by themselves here, but values are declared as the type that they hold. -/
inductive HostType
  | bool
  | int (t : IntType)
  | float32
  | float64
  | string
  | str
  | bytes
  | char
  | unit
  | user (name : String)
  | collection (name : String)
  deriving DecidableEq, Repr, Inhabited

/-- The printed name of a type. -/
def HostType.label : HostType → String
  | .bool => "bool"
  | .int t => t.label
  | .float32 => "f32"
  | .float64 => "f64"
  | .string => "alloc::string::String"
  | .str => "str"
  | .bytes => "serde_bytes::bytebuf::ByteBuf"
  | .char => "char"
  | .unit => "()"
  | .user name | .collection name => name

/-- Whether a type is a collection. -/
def HostType.isCollection : HostType → Bool
  | .collection _ => true
  | _ => false

/-- A declared type. -/
inductive FieldType
  /-- A scalar type. -/
  | scalar (host : HostType) (nullable : Bool)
  /-- A list of elements. -/
  | list (name : String) (element : FieldType) (nullable : Bool)
  /-- A set of elements. -/
  | set (name : String) (element : FieldType) (nullable : Bool)
  /-- A map from keys to values. -/
  | map (name : String) (key value : FieldType) (nullable : Bool)
  deriving DecidableEq, Repr, Inhabited

namespace FieldType

/-- Whether the value may be missing. -/
def nullable : FieldType → Bool
  | .scalar _ n | .list _ _ n | .set _ _ n | .map _ _ _ n => n

/-- The same type, in a place where the value may be missing. -/
def orNull : FieldType → FieldType
  | .scalar host _ => .scalar host true
  | .list name element _ => .list name element true
  | .set name element _ => .set name element true
  | .map name key value _ => .map name key value true

/-- The type as such, whether its values may be missing or not. -/
def host : FieldType → HostType
  | .scalar host _ => host
  | .list name .. | .set name .. | .map name .. => .collection name

/-- The printed name of a declared type. -/
def label (type : FieldType) : String :=
  type.host.label

end FieldType

/-- A declared field of a struct. -/
structure FieldDescriptor where
  /-- The name. -/
  name : String
  /-- The type. -/
  type : FieldType
  /-- Whether the value can be referred to later. -/
  tracked : Bool
  deriving DecidableEq, Repr

end SchemaWire
