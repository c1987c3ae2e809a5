import SchemaWire.Data.Enter
import SchemaWire.Data.Plain

/-!
# Passing over data

A value that nobody asks for is passed over. Only its length matters: texts need not be
valid, and values that stand again are not looked up again. Values in it that can be
referred to are recorded all the same, because later references count them.
-/

namespace SchemaWire

namespace Read

/-- Pass over a builtin value of the given kind, whose contents are passed over by the given
function. -/
def skipKnown (skip : WireType → Read Unit) (kind : Kind) (type : WireType) : Read Unit :=
  match kind with
  | .boolean | .int8 | .uint8 => take (Take.skip 1)
  | .int16 | .uint16 | .float16 => take (Take.skip 2)
  | .int32 | .uint32 | .float32 | .localDate => take (Take.skip 4)
  | .int64 | .uint64 | .float64 | .timestamp => take (Take.skip 8)
  | .varInt32 => do
    let _ ← take Varint.takeSigned32
  | .varInt64 => do
    let _ ← take Varint.takeSigned64
  | .sliInt64 => do
    let _ ← take shortOrLong
  | .string => do
    let header ← take Varint.take36
    take (Take.skip (header / 4))
  | .binary => do
    let length ← take Varint.take32
    take (Take.skip length)
  | .duration => do
    let _ ← take Varint.takeSigned64
    take (Take.skip 4)
  | .list | .set => do
    let element ← MonadExcept.ofExcept (argument type 0)
    let _ ← Take.times (skip element) (← take Varint.take32)
  | .map => do
    let key ← MonadExcept.ofExcept (argument type 0)
    let value ← MonadExcept.ofExcept (argument type 1)
    let entry : Read Unit := do
      skip key
      skip value
    let _ ← Take.times entry (← take Varint.take32)
  | kind => throw (.unreadableKind kind)

/-- Pass over the fields of a struct. -/
def skipFields (skip : WireType → Read Unit) : List SchemaField → Read Unit
  | [] => return ()
  | field :: rest => do
    skip field.type
    skipFields skip rest

/-- Pass over the data of a value, behind its annotations. What stands inside of it is passed
over by the given function, and the number bounds how deep plain data are read. -/
def skipContent (env : ReadEnv) (fuel : Nat) (skip : Scope → Spot → Read Unit) (scope : Scope)
    (type : WireType) : Resolved → Read Unit
  | .ext (some host) => do
    let _ ← take (Take.plainWithin env.shapes fuel (.ofHost host))
  | .ext none => throw (.unregistered s!"ext type id {type.id.toNat}")
  | .enum => do
    let _ ← take Varint.take32
  | .struct schema => do
    let scope ← MonadExcept.ofExcept (scope.deeper env.config.maxDepth)
    skipFields (fun type => skip scope (.declared type)) schema.fields
  | .known kind => skipKnown (fun type => skip scope (.declared type)) kind type

/-- Pass over a value. The first number bounds how deep this goes. -/
def skipWithin (env : ReadEnv) : Nat → Scope → Spot → Read Unit
  | 0, _, _ => throw .unfinished
  | fuel + 1, scope, spot => do
    match ← enter env scope.recording spot with
    | .null | .ref _ => return ()
    | .value type resolved => skipContent env fuel (skipWithin env fuel) scope type resolved

end Read

end SchemaWire
