import SchemaWire.Types.Registry
import SchemaWire.Value.Datum

/-!
# Values of a shape

Which values a program can hold in a shape, and which shapes it can declare: builtins,
values that may be missing, collections, and user types that are registered as what their
shapes are. A collection may be registered as a type of its own as well, and its shape then stands
in the table. The height of a value bounds how deep writing and reading it goes.
-/

namespace SchemaWire

/-- The table has the shape under the name of a collection, or nothing. -/
def Shapes.Agrees (shapes : Shapes) (name : String) (shape : Shape) : Prop :=
  shapes.lookup name = none ∨ shapes.lookup name = some shape

namespace Shape

/-- Whether values of the shape may be missing. -/
def isOption : Shape → Bool
  | .option _ => true
  | _ => false

/-- The value is one that a program holds in the shape. Nothing is held in shapes that are
described by messages, and no part of a value is left out. -/
inductive Holds (shapes : Shapes) : Shape → Datum → Prop
  | bool (b : Bool) : Holds shapes .bool (.bool b)
  | int {t : IntType} {v : Int} (h : t.holds v = true) : Holds shapes (.int t) (.int t v)
  | float32 (bits : UInt32) : Holds shapes .float32 (.float32 bits)
  | float64 (bits : UInt64) : Holds shapes .float64 (.float64 bits)
  | char (c : Char) : Holds shapes .char (.char c)
  | string (s : String) : Holds shapes .string (.text s)
  | str (s : String) : Holds shapes .str (.text s)
  | bytes (content : List UInt8) : Holds shapes .bytes (.bytes content)
  | byteSlice (content : List UInt8) : Holds shapes .byteSlice (.bytes content)
  | unit : Holds shapes .unit .unit
  | unitStruct (name : String) : Holds shapes (.unitStruct name) .unit
  | none (content : Shape) : Holds shapes (.option content) .none
  | some {content : Shape} {v : Datum} (h : Holds shapes content v) :
    Holds shapes (.option content) (.some v)
  | newtype {name : String} {content : Shape} {v : Datum} (h : Holds shapes content v) :
    Holds shapes (.newtype name content) (.newtype v)
  | list {name : String} {element : Shape} {items : List Datum}
    (h : ∀ v ∈ items, Holds shapes element v) (hname : shapes.Agrees name (.list name element)) :
    Holds shapes (.list name element) (.seq true items)
  | set {name : String} {element : Shape} {items : List Datum}
    (h : ∀ v ∈ items, Holds shapes element v) (hname : shapes.Agrees name (.set name element)) :
    Holds shapes (.set name element) (.seq true items)
  | map {name : String} {key value : Shape} {entries : List (Datum × Datum)}
    (hkey : ∀ entry ∈ entries, Holds shapes key entry.1)
    (hvalue : ∀ entry ∈ entries, Holds shapes value entry.2)
    (hname : shapes.Agrees name (.map name key value)) :
    Holds shapes (.map name key value) (.map true entries)
  | tuple {parts : List Shape} {items : List Datum} (hlength : parts.length = items.length)
    (h : ∀ part ∈ parts.zip items, Holds shapes part.1 part.2) :
    Holds shapes (.tuple parts) (.tuple items)
  | tupleStruct {name : String} {parts : List Shape} {items : List Datum}
    (hlength : parts.length = items.length)
    (h : ∀ part ∈ parts.zip items, Holds shapes part.1 part.2) :
    Holds shapes (.tupleStruct name parts) (.tuple items)
  | struct {name : String} {members : List (Member Shape)} {fields : List (String × Datum)}
    (hnames : members.map Member.name = fields.map Prod.fst)
    (h : ∀ part ∈ members.zip fields, Holds shapes part.1.content part.2.2) :
    Holds shapes (.struct name members) (.struct name fields)
  | unitVariant {name : String} {variants : List (Variant Shape)} {index : Nat} {variant : String}
    (hvariant : variants[index]? = some ⟨variant, .unit⟩) (hindex : index < 2 ^ 32) :
    Holds shapes (.enum name variants) (.unitVariant name index variant)
  | newtypeVariant {name : String} {variants : List (Variant Shape)} {index : Nat}
    {variant : String} {content : Shape} {v : Datum}
    (hvariant : variants[index]? = some ⟨variant, .newtype content⟩) (hindex : index < 2 ^ 32)
    (h : Holds shapes content v) :
    Holds shapes (.enum name variants) (.newtypeVariant name index variant v)
  | tupleVariant {name : String} {variants : List (Variant Shape)} {index : Nat}
    {variant : String} {parts : List Shape} {items : List Datum}
    (hvariant : variants[index]? = some ⟨variant, .tuple parts⟩) (hindex : index < 2 ^ 32)
    (hlength : parts.length = items.length)
    (h : ∀ part ∈ parts.zip items, Holds shapes part.1 part.2) :
    Holds shapes (.enum name variants) (.tupleVariant name index variant items)
  | structVariant {name : String} {variants : List (Variant Shape)} {index : Nat}
    {variant : String} {members : List (Member Shape)} {fields : List (String × Datum)}
    (hvariant : variants[index]? = some ⟨variant, .struct members⟩) (hindex : index < 2 ^ 32)
    (hnames : members.map Member.name = fields.map Prod.fst)
    (h : ∀ part ∈ members.zip fields, Holds shapes part.1.content part.2.2) :
    Holds shapes (.enum name variants) (.structVariant name index variant fields)
  | user {name : String} {v : Datum} (h : Holds shapes (shapes.resolve (.user name)) v) :
    Holds shapes (.user name) v

/-- The shapes that a shape opens to: what it stands for, and what a wrapper holds. -/
inductive Opens (shapes : Shapes) : Shape → Shape → Prop
  /-- What the shape stands for. -/
  | here (shape : Shape) : Opens shapes shape (shapes.resolve shape)
  /-- What a wrapper holds. -/
  | inside {shape content root : Shape} {name : String}
    (hshape : shapes.resolve shape = .newtype name content) (h : Opens shapes content root) :
    Opens shapes shape root

/-- Shapes that can be declared, over user types and collections among the given ones. -/
inductive Declarable (hosts : HostType → Prop) : Shape → Prop
  | bool : Declarable hosts .bool
  | int (t : IntType) : Declarable hosts (.int t)
  | float32 : Declarable hosts .float32
  | float64 : Declarable hosts .float64
  | string : Declarable hosts .string
  | str : Declarable hosts .str
  | bytes : Declarable hosts .bytes
  | byteSlice : Declarable hosts .byteSlice
  | option {content : Shape} (hflat : content.isOption = false) (h : Declarable hosts content) :
    Declarable hosts (.option content)
  | list {name : String} {element : Shape} (hname : hosts (.collection name))
    (h : Declarable hosts element) : Declarable hosts (.list name element)
  | set {name : String} {element : Shape} (hname : hosts (.collection name))
    (h : Declarable hosts element) : Declarable hosts (.set name element)
  | map {name : String} {key value : Shape} (hname : hosts (.collection name))
    (hkey : Declarable hosts key) (hvalue : Declarable hosts value) :
    Declarable hosts (.map name key value)
  | user {name : String} (h : hosts (.user name)) : Declarable hosts (.user name)

end Shape

/-- The role of a registered type fits the shape of its values: a struct with the declared
fields in their order, an enum without payloads, or any layout of its own that does not open
to a value that may be missing or to a character. -/
inductive Role.Fits (shapes : Shapes) (hosts : HostType → Prop) : Role → Shape → Prop
  | struct {registration : Registration} {fields : List FieldDescriptor} {name : String}
    {members : List (Member Shape)}
    (hfields : fields.map (fun field => (field.name, field.type)) =
      members.map fun member => (member.name, member.content.declared))
    (hmembers : ∀ member ∈ members, member.content.Declarable hosts) :
    Fits shapes hosts (.struct registration fields) (.struct name members)
  | enum {registration : Registration} {name : String} {variants : List (Variant Shape)}
    (hvariants : ∀ variant ∈ variants, variant.payload = .unit) :
    Fits shapes hosts (.enum registration) (.enum name variants)
  | ext {registration : Registration} {shape : Shape}
    (hroot : ∀ root, Shape.Opens shapes shape root → root.isOption = false ∧ root ≠ .char) :
    Fits shapes hosts (.ext registration) shape

/-- The role of a registered type fits the shape of its values, and where the type is a collection
this shape stands in the table. -/
structure Role.Suits (role : Role) (shapes : Shapes) (hosts : HostType → Prop) (host : HostType) :
    Prop where
  /-- The role fits the shape. -/
  fits : role.Fits shapes hosts (shapes.resolve (.ofHost host))
  /-- The shape of a collection is known. -/
  known : host.isCollection = true → (shapes.lookup host.label).isSome

namespace Datum

mutual

/-- The height of a value: how many values it nests at most. -/
def height : Datum → Nat
  | .some content | .newtype content | .newtypeVariant _ _ _ content => content.height + 1
  | .seq _ items | .tuple items | .tupleVariant _ _ _ items => heightOfItems items + 1
  | .map _ entries | .firstEntry _ entries => heightOfEntries entries + 1
  | .struct _ fields | .structVariant _ _ _ fields => heightOfFields fields + 1
  | _ => 0

/-- The height of the highest of several values. -/
def heightOfItems : List Datum → Nat
  | [] => 0
  | first :: rest => max first.height (heightOfItems rest)

/-- The height of the highest key or value. -/
def heightOfEntries : List (Datum × Datum) → Nat
  | [] => 0
  | (key, value) :: rest => max (max key.height value.height) (heightOfEntries rest)

/-- The height of the highest field. -/
def heightOfFields : List (String × Datum) → Nat
  | [] => 0
  | (_, value) :: rest => max value.height (heightOfFields rest)

end

/-- An element is not higher than the elements. -/
theorem height_le_of_mem_items {v : Datum} {items : List Datum} (h : v ∈ items) :
    v.height ≤ heightOfItems items := by
  induction items with
  | nil => cases h
  | cons first rest ih =>
    rw [heightOfItems]
    rcases List.mem_cons.mp h with rfl | hrest
    · exact Nat.le_max_left _ _
    · have hle := ih hrest
      omega

/-- A key or a value is not higher than the entries. -/
theorem height_le_of_mem_entries {entry : Datum × Datum} {entries : List (Datum × Datum)}
    (h : entry ∈ entries) :
    entry.1.height ≤ heightOfEntries entries ∧ entry.2.height ≤ heightOfEntries entries := by
  induction entries with
  | nil => cases h
  | cons first rest ih =>
    obtain ⟨key, value⟩ := first
    rw [heightOfEntries]
    rcases List.mem_cons.mp h with rfl | hrest
    · exact ⟨Nat.le_trans (Nat.le_max_left _ _) (Nat.le_max_left _ _),
        Nat.le_trans (Nat.le_max_right _ _) (Nat.le_max_left _ _)⟩
    · have hle := ih hrest
      omega

/-- A field is not higher than the fields. -/
theorem height_le_of_mem_fields {field : String × Datum} {fields : List (String × Datum)}
    (h : field ∈ fields) : field.2.height ≤ heightOfFields fields := by
  induction fields with
  | nil => cases h
  | cons first rest ih =>
    obtain ⟨name, value⟩ := first
    rw [heightOfFields]
    rcases List.mem_cons.mp h with rfl | hrest
    · exact Nat.le_max_left _ _
    · have hle := ih hrest
      omega

end Datum

end SchemaWire
