import SchemaWire.Bytes.Take
import SchemaWire.Message.RefFlag
import SchemaWire.Message.TypeInfo

/-!
# Entering a value

Before the data of a value stand its annotations: a reference flag where the value may be
missing or be referred to, and type information where it belongs to a user type. Reading
them shows whether there is a value at all, whether an earlier one stands here again, or
what is known of the value that follows.
-/

namespace SchemaWire

/-- Where a value is read. -/
inductive Spot
  /-- In front of the annotations of a value of the given type. -/
  | declared (type : WireType)
  /-- Behind the annotations, with what they said. -/
  | entered (type : WireType) (resolved : Resolved)
  deriving DecidableEq, Repr

/-- What the annotations of a value say. -/
inductive Entry
  /-- The value is missing. -/
  | null
  /-- An earlier value stands here again. -/
  | ref (entry : RefEntry)
  /-- A value follows. -/
  | value (type : WireType) (resolved : Resolved)
  deriving DecidableEq, Repr

/-- Under which circumstances a value is read. -/
structure Scope where
  /-- The number of structs around the value. -/
  depth : Nat
  /-- Whether values that can be referred to are recorded. They are not when a value is read
  again. -/
  recording : Bool
  deriving DecidableEq, Repr

/-- The scope inside one struct more, unless there are too many. -/
def Scope.deeper (maxDepth : Nat) (scope : Scope) : Except Error Scope :=
  if maxDepth < scope.depth + 1 then .error (.depthExceeded maxDepth)
  else .ok { scope with depth := scope.depth + 1 }

namespace Read

/-- The recorded value with the given number. -/
def reference (id : Nat) : Read RefEntry := fun state =>
  match state.refs[id]? with
  | some entry => .ok entry state
  | none => .error (.neverRecorded id) state

/-- Record the value that starts here. -/
def record (type : WireType) (resolved : Resolved) : Read Unit :=
  modify fun state => { state with refs := state.refs ++ [⟨state.input, type, resolved⟩] }

/-- Read the flag in front of a value, where there is one. -/
def flag (flagged : Bool) : Read RefFlag :=
  if flagged then do
    let byte ← take Take.byte
    MonadExcept.ofExcept (RefFlag.ofByte byte)
  else return .notNull

/-- Read the type information of a value of the given kind, which builtins do without. -/
def info (env : ReadEnv) (kind : Kind) : Read Resolved :=
  if kind.isUser then typeInfo env else return .known kind

/-- Read what stands between the flag of a value of the given kind and its data. -/
def behindFlag (env : ReadEnv) (recording : Bool) (type : WireType) (kind : Kind) :
    RefFlag → Read Entry
  | .null => return .null
  | .ref => do return .ref (← reference (← take Varint.take32))
  | .notNull => do
    let resolved ← info env kind
    return .value type resolved
  | .refValue => do
    let resolved ← info env kind
    if recording then record type resolved
    return .value type resolved

/-- Read the annotations of a value. -/
def enter (env : ReadEnv) (recording : Bool) : Spot → Read Entry
  | .entered type resolved => do
    let _ ← MonadExcept.ofExcept (WireType.kindOf type.id)
    return .value type resolved
  | .declared type => do
    let kind ← MonadExcept.ofExcept (WireType.kindOf type.id)
    let flag ← flag (type.nullable || type.tracked || kind.isUser)
    behindFlag env recording type kind flag

/-- The wire type of the contents of a collection at the given position. -/
def argument (type : WireType) (index : Nat) : Except Error WireType :=
  match type.args[index]? with
  | some arg => .ok arg
  | none => .error (.missingArgument type.id index)

/-- Read a number that is either four bytes with a lowest bit of zero, which hold twice the
number, or a byte with a lowest bit of one and the number in eight bytes. -/
def shortOrLong : Take Int := do
  match ← Take.peek? with
  | some first =>
    if first % 2 = 0 then return (← Take.integer 4) / 2
    else
      Take.skip 1
      Take.integer 8
  | none =>
    Take.skip 1
    Take.integer 8

end Read

end SchemaWire
