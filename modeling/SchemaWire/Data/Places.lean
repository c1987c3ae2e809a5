import SchemaWire.Data.Enter
import SchemaWire.Schema.Derive

/-!
# Places in a message

Whoever reads a message goes from place to place. A place is made of the bytes that are left,
of what is known of the value there and of the shape that is asked for. A message has finitely
many places, and reading that goes deeper than there are places comes by one of them twice.
-/

namespace SchemaWire

namespace ReadEnv

/-- The schemas that values are read by: those of the message and those of registered structs. -/
def knownSchemas (env : ReadEnv) : List Schema :=
  env.schemas ++
    env.registry.specs.filterMap fun spec => (Schema.ofSpec env.registry spec false).toOption

/-- What a reader may know of a value before its data. -/
def resolutions (env : ReadEnv) : List Resolved :=
  Kind.all.map .known ++ env.knownSchemas.map .struct ++
    .enum :: .ext none :: env.registry.specs.map fun spec => .ext spec.host

/-- The wire types of the values in a message, whose top-level value has the given one. -/
def types (env : ReadEnv) (top : WireType) : List WireType :=
  top.within ++
    env.knownSchemas.flatMap fun schema => schema.fields.flatMap fun field => field.type.within

/-- The shapes that a reader comes by who asks for the given one. Values with layouts of their
own may be passed over, and are then read by the shapes of their local types. -/
def shapesWithin (env : ReadEnv) (top : Shape) : List Shape :=
  env.shapes.within top ++ (env.registry.specs.filterMap TypeSpec.host).map Shape.ofHost

/-- The number of places in a message whose body has the given length: a value is read by a
shape, or passed over, or has a layout of its own and is read plainly. -/
def placeCount (env : ReadEnv) (type : WireType) (shape : Shape) (length : Nat) : Nat :=
  let types := (env.types type).length
  let shapes := (env.shapesWithin shape).length
  let scopes := (env.config.maxDepth + 1) * 2
  let spots := types + types * env.resolutions.length
  (scopes * (spots * shapes) + scopes * spots + shapes) * (length + 1)

end ReadEnv

end SchemaWire
