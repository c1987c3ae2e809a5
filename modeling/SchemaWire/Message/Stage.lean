import SchemaWire.Error

/-!
# Stages of a message

A message is worked through from its header to its data. Each event moves it one stage
forward, or right to the end when there is nothing more to read; an event at the wrong time
moves nothing.
-/

namespace SchemaWire

/-- How far a message has been worked through. -/
inductive Stage
  | header
  | reference
  | typeInfo
  | data
  | complete
  deriving DecidableEq, Repr

namespace Stage

/-- What moves a message from stage to stage. -/
inductive Event
  /-- The header of a message that is not null. -/
  | headerDone
  /-- The header of a null message. -/
  | nullHeader
  /-- The flag in front of a value. -/
  | refDone
  /-- The flag that stands for null. -/
  | refShortCircuit
  /-- The type information. -/
  | typeInfoDone
  /-- The data. -/
  | dataDone
  deriving DecidableEq, Repr

/-- The printed name of a stage. -/
def label : Stage → String
  | .header => "Header"
  | .reference => "Reference"
  | .typeInfo => "TypeInfo"
  | .data => "Data"
  | .complete => "Complete"

/-- The printed name of an event. -/
def Event.label : Event → String
  | .headerDone => "HeaderDone"
  | .nullHeader => "NullHeader"
  | .refDone => "RefDone"
  | .refShortCircuit => "RefShortCircuit"
  | .typeInfoDone => "TypeInfoDone"
  | .dataDone => "DataDone"

/-- The stage after an event, if the event belongs to the stage. -/
def next? : Stage → Event → Option Stage
  | .header, .headerDone => some .reference
  | .header, .nullHeader => some .complete
  | .reference, .refDone => some .typeInfo
  | .reference, .refShortCircuit => some .complete
  | .typeInfo, .typeInfoDone => some .data
  | .data, .dataDone => some .complete
  | _, _ => none

/-- The stage after an event; an event that does not belong leaves the stage as it is. -/
def ingest (stage : Stage) (event : Event) : Stage :=
  (stage.next? event).getD stage

/-- The stage after an event that has to belong to the stage. -/
def advance (stage : Stage) (event : Event) : Except Error Stage :=
  match stage.next? event with
  | some next => .ok next
  | none => .error (.stageOrder event.label stage.label)

end Stage

end SchemaWire
