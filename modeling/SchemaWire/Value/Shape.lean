import SchemaWire.Text.Quoted
import SchemaWire.Types.FieldType

/-!
# Shapes of values

A shape says what a program holds in a value or wants from one: it directs reading, and
it is the layout of values that have one of their own. Shapes of user types are kept in a
table, so that types may refer to each other and to themselves. Collections have the names of
their types.
-/

namespace SchemaWire

/-- A named part of a struct. -/
structure Member (α : Type) where
  /-- The name. -/
  name : String
  /-- Whether a missing part is replaced by a value of the program's own. -/
  optional : Bool
  /-- The part. -/
  content : α
  deriving Repr, Inhabited

/-- What a variant of an enum carries. -/
inductive Payload (α : Type)
  /-- Nothing. -/
  | unit
  /-- One value. -/
  | newtype (content : α)
  /-- Values by position. -/
  | tuple (items : List α)
  /-- Values by name. -/
  | struct (members : List (Member α))
  deriving Repr, Inhabited

/-- A variant of an enum. -/
structure Variant (α : Type) where
  /-- The name. -/
  name : String
  /-- What it carries. -/
  payload : Payload α
  deriving Repr, Inhabited

/-- The shape of a value. -/
inductive Shape
  /-- A truth value. -/
  | bool
  /-- A number of an integer type. -/
  | int (t : IntType)
  /-- A floating-point number of 32 bits. -/
  | float32
  /-- A floating-point number of 64 bits. -/
  | float64
  /-- One character. -/
  | char
  /-- A text that the program owns. -/
  | string
  /-- A text that the program borrows. -/
  | str
  /-- Bytes that the program owns. -/
  | bytes
  /-- Bytes that the program borrows. -/
  | byteSlice
  /-- Whatever the message describes. -/
  | any
  /-- Whatever the message describes, in the place of a name. -/
  | identifier
  /-- A value that is passed over. -/
  | ignored
  /-- A value that is never accepted. -/
  | refused
  /-- One of the given names, or a name of no meaning. -/
  | choice (names : List String)
  /-- The value without content. -/
  | unit
  /-- A named value without content. -/
  | unitStruct (name : String)
  /-- A value that may be missing. -/
  | option (content : Shape)
  /-- A list. -/
  | list (name : String) (element : Shape)
  /-- A set. -/
  | set (name : String) (element : Shape)
  /-- A map. -/
  | map (name : String) (key value : Shape)
  /-- A map of which one entry at most is taken. -/
  | firstEntry (name : String) (key value : Shape)
  /-- Values by position. -/
  | tuple (items : List Shape)
  /-- Named values by position. -/
  | tupleStruct (name : String) (items : List Shape)
  /-- A named wrapper around one value. -/
  | newtype (name : String) (content : Shape)
  /-- Values by name. -/
  | struct (name : String) (members : List (Member Shape))
  /-- One of several variants. -/
  | enum (name : String) (variants : List (Variant Shape))
  /-- The shape of a user type. -/
  | user (name : String)
  deriving Repr, Inhabited

namespace Shape

/-- The type under which values of a shape are declared. Only scalars, collections and user
types can be declared; everything else counts as the type without content. -/
def declared : Shape → FieldType
  | .bool => .scalar .bool false
  | .int t => .scalar (.int t) false
  | .float32 => .scalar .float32 false
  | .float64 => .scalar .float64 false
  | .char => .scalar .char false
  | .string => .scalar .string false
  | .str => .scalar .str false
  | .bytes | .byteSlice => .scalar .bytes false
  | .option content => content.declared.orNull
  | .list name element => .list name element.declared false
  | .set name element => .set name element.declared false
  | .map name key value | .firstEntry name key value => .map name key.declared value.declared false
  | .user name => .scalar (.user name) false
  | _ => .scalar .unit false

/-- The shape of a type. -/
def ofHost : HostType → Shape
  | .bool => .bool
  | .int t => .int t
  | .float32 => .float32
  | .float64 => .float64
  | .string => .string
  | .str => .str
  | .bytes => .bytes
  | .char => .char
  | .unit => .unit
  | .user name | .collection name => .user name

/-- The printed form of a label with arguments. -/
def labelled (label : String) (arguments : List String) : String :=
  label ++ "(" ++ String.intercalate ", " arguments ++ ")"

/-- How messages speak of what a shape asks for. -/
def request : Shape → String
  | .bool => "Bool"
  | .int .int8 => "I8"
  | .int .int16 => "I16"
  | .int .int32 => "I32"
  | .int .int64 => "I64"
  | .int .uint8 => "U8"
  | .int .uint16 => "U16"
  | .int .uint32 => "U32"
  | .int .uint64 => "U64"
  | .float32 => "F32"
  | .float64 => "F64"
  | .char => "Char"
  | .string => "String"
  | .str => "Str"
  | .bytes => "ByteBuf"
  | .byteSlice => "Bytes"
  | .any | .identifier | .refused | .choice _ | .user _ => "Any"
  | .ignored => "Ignored"
  | .unit => "Unit"
  | .unitStruct name => labelled "UnitStruct" [Text.quoted name]
  | .option _ => "Option"
  | .list .. | .set .. => "Seq"
  | .map .. | .firstEntry .. => "Map"
  | .tuple items => labelled "Tuple" [toString items.length]
  | .tupleStruct name items =>
    labelled "TupleStruct" [Text.quoted name, toString items.length]
  | .newtype name _ => labelled "Newtype" [Text.quoted name]
  | .struct name members =>
    labelled "Struct" [Text.quoted name,
      Text.bracketed (members.map fun member => Text.quoted member.name)]
  | .enum name variants =>
    labelled "Enum" [Text.quoted name,
      Text.bracketed (variants.map fun variant => Text.quoted variant.name)]

mutual

/-- The shapes that reading a shape comes by, without those of user types. -/
def within : Shape → List Shape
  | .option content => .option content :: content.within
  | .list name element => .list name element :: element.within
  | .set name element => .set name element :: element.within
  | .map name key value => .map name key value :: (key.within ++ value.within)
  | .firstEntry name key value => .firstEntry name key value :: (key.within ++ value.within)
  | .tuple items => .tuple items :: withinItems items
  | .tupleStruct name items => .tupleStruct name items :: withinItems items
  | .newtype name content => .newtype name content :: content.within
  | .struct name members =>
    .struct name members :: .choice (members.map Member.name) :: withinMembers members
  | .enum name variants => .enum name variants :: withinVariants variants
  | shape => [shape]

/-- The shapes that reading values by position comes by. -/
def withinItems : List Shape → List Shape
  | [] => []
  | item :: rest => item.within ++ withinItems rest

/-- The shapes that reading the parts of a struct comes by. -/
def withinMembers : List (Member Shape) → List Shape
  | [] => []
  | ⟨_, _, content⟩ :: rest => content.within ++ withinMembers rest

/-- The shapes that reading the variants of an enum comes by. -/
def withinVariants : List (Variant Shape) → List Shape
  | [] => []
  | ⟨_, .unit⟩ :: rest => withinVariants rest
  | ⟨_, .newtype content⟩ :: rest => content.within ++ withinVariants rest
  | ⟨_, .tuple items⟩ :: rest => withinItems items ++ withinVariants rest
  | ⟨_, .struct members⟩ :: rest => withinMembers members ++ withinVariants rest

end

end Shape

/-- The shapes of user types and of collections that are registered themselves, by the printed
names of the types. -/
abbrev Shapes := List (String × Shape)

namespace Shapes

/-- The shape of a user type; an unknown type accepts nothing. -/
def ofName (shapes : Shapes) (name : String) : Shape :=
  (shapes.lookup name).getD .refused

/-- Follow a shape through the table, at most the given number of times, until it is not
the name of a user type. -/
def follow (shapes : Shapes) : Nat → Shape → Shape
  | 0, .user _ => .refused
  | n + 1, .user name => follow shapes n (shapes.ofName name)
  | _, shape => shape

/-- The shape that a shape stands for, which is not the name of a user type. A chain of
names that is longer than the table runs in a circle, and nothing fits it. -/
def resolve (shapes : Shapes) (shape : Shape) : Shape :=
  shapes.follow (shapes.length + 1) shape

/-- The shapes that a reader comes by who asks for the given one. -/
def within (shapes : Shapes) (shape : Shape) : List Shape :=
  [.any, .ignored, .refused, .int .uint8] ++ shape.within ++
    shapes.flatMap fun entry => entry.2.within

/-- How deep the plain reading of a value goes at most: it comes by no shape twice with the same
bytes in front of it, unless it runs in a circle. -/
def budget (shapes : Shapes) (shape : Shape) (length : Nat) : Nat :=
  (shapes.within shape).length * (length + 1)

end Shapes

end SchemaWire
