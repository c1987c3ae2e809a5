import SchemaWire.Types.Registry

/-!
# The directory of types

A registry is filled by way of a directory. The directory has a row of types and four tables of
places in this row: by the type of the program, by the kind of builtins, by id and by name. A call
changes one table after the other and the row at the end. A call that fails leaves the directory
as it stands at that point.
-/

namespace SchemaWire

/-- A table of places in a row, where the last entry for a key stands first. -/
abbrev Index (α : Type) := List (α × Nat)

/-- The registered types and the tables through which they are found. -/
structure Directory where
  /-- The types, in the order of their registration. -/
  specs : List TypeSpec
  /-- The places of types, by the types of the program that they stand for. -/
  byHost : Index HostType
  /-- The places of builtins, by their kinds. -/
  byKind : Index Kind
  /-- The places of user types, by their ids. -/
  byId : Index Nat
  /-- The places of user types, by their namespaces and names. -/
  byName : Index (String × String)
  deriving DecidableEq, Repr

/-- A call that changes a directory. -/
abbrev Register := EStateM Error Directory

namespace Directory

/-- The directory of nothing. -/
def empty : Directory := ⟨[], [], [], [], []⟩

/-- Add a builtin. The first one of a kind stays the one that is found by the kind. -/
def pushBuiltin (directory : Directory) (host : Option HostType) (label : String) (kind : Kind) :
    Directory :=
  { directory with
    byKind :=
      if (directory.byKind.lookup kind).isSome then directory.byKind
      else (kind, directory.specs.length) :: directory.byKind
    specs := directory.specs ++ [⟨host, label, false, .builtin kind⟩] }

/-- Add a builtin that stands for a type of the program. -/
def seedBuiltin (directory : Directory) (builtin : HostType × Kind) : Directory :=
  let (host, kind) := builtin
  { directory.pushBuiltin (some host) host.label kind with
    byHost := (host, directory.specs.length) :: directory.byHost }

/-- The directory of nothing but the builtins. -/
def standard : Directory :=
  Registry.otherBuiltins.foldl (fun directory kind => directory.pushBuiltin none "builtin" kind)
    (Registry.scalarBuiltins.foldl seedBuiltin empty)

/-- The type at a place that was found in a table. -/
def spec? (directory : Directory) (place : Option Nat) : Option TypeSpec := do
  directory.specs[← place]?

/-- The ways to look up a type in a directory: through its tables. -/
def lookups (directory : Directory) : Lookups where
  ofHost? host := directory.spec? (directory.byHost.lookup host)
  ofKind? kind := directory.spec? (directory.byKind.lookup kind)
  ofId? n := directory.spec? (directory.byId.lookup n)
  ofName? space name := directory.spec? (directory.byName.lookup (space, name))

/-- The registry of the types in a directory. -/
def registry (directory : Directory) : Registry := ⟨directory.specs⟩

/-- Enter the place of a type under its registration. The registration has to be free, and an id
has to be small enough. -/
def enter (place : Nat) : Registration → Register Unit
  | .id n => do
    if Registry.maxId < n then throw (.range n 24)
    if ((← get).byId.lookup n).isSome then throw (.idTaken n)
    modify fun directory => { directory with byId := (n, place) :: directory.byId }
  | .name space name => do
    if ((← get).byName.lookup (space, name)).isSome then throw (.nameTaken space name)
    modify fun directory =>
      { directory with byName := ((space, name), place) :: directory.byName }

/-- Add a user type. -/
def add (host : HostType) (role : Role) : Register Unit := do
  let directory ← get
  if (directory.byHost.lookup host).isSome then throw (.alreadyRegistered host.label)
  let place := directory.specs.length
  match role with
  | .struct registration _ | .enum registration | .ext registration => enter place registration
  | .builtin _ => throw .builtinRegistered
  modify fun directory => { directory with byHost := (host, place) :: directory.byHost }
  modify fun directory =>
    { directory with specs := directory.specs ++ [⟨some host, host.label, false, role⟩] }

/-- Register a struct. -/
def registerStruct (host : HostType) (registration : Registration)
    (fields : List FieldDescriptor) : Register Unit := do
  match Registry.repeated? [] (fields.map FieldDescriptor.name) with
  | some name => throw (.duplicateField name host.label)
  | none => add host (.struct registration fields)

/-- Register a struct after its own printed name. -/
def registerStructByTypeName (host : HostType) (withSpace : Bool)
    (fields : List FieldDescriptor) : Register Unit :=
  registerStruct host (Registry.registrationOf host withSpace) fields

/-- Register an enum. -/
def registerEnum (host : HostType) (registration : Registration) : Register Unit :=
  add host (.enum registration)

/-- Register a type with a layout of its own. -/
def registerExt (host : HostType) (registration : Registration) : Register Unit :=
  add host (.ext registration)

/-- Let all values of a type be referred to. -/
def track (host : HostType) : Register Unit := do
  match (← get).byHost.lookup host with
  | none => throw (.unregistered host.label)
  | some place =>
    modify fun directory =>
      { directory with
        specs := directory.specs.modify place fun spec => { spec with tracked := true } }

end Directory

end SchemaWire
