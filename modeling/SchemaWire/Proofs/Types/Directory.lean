import SchemaWire.Proofs.Types.History
import SchemaWire.Types.Directory

/-!
# The tables of a directory

In a directory each table leads to the first type in the row that has the key, so that lookups
through the tables find what lookups in the row find. A call on such a directory checks before it
writes: where it fails it has changed nothing, and where it succeeds it has done to the row what the
registry says, and to the tables what keeps them in step with the row. So it goes through every
history of calls.
-/

namespace SchemaWire

/-- The table leads to the place of the first type that has the key, for every key. -/
def Index.Leads {α : Type} [BEq α] (table : Index α) (specs : List TypeSpec)
    (has : α → TypeSpec → Bool) : Prop :=
  ∀ key, table.lookup key = specs.findIdx? (has key)

namespace Index.Leads

variable {α : Type} [BEq α] {table : Index α} {specs : List TypeSpec} {has : α → TypeSpec → Bool}

/-- What is found by way of the table is the first type that has the key. -/
theorem find?_eq (h : table.Leads specs has) (key : α) :
    (table.lookup key).bind (specs[·]?) = specs.find? (has key) := by
  rw [h key, List.find?_eq_bind_findIdx?_getElem?]

/-- The table has a place for a key if a type has it. -/
theorem isSome_lookup (h : table.Leads specs has) (key : α) :
    (table.lookup key).isSome = (specs.find? (has key)).isSome := by
  rw [h key, List.findIdx?_isSome, List.isSome_find?]

/-- A type behind the others whose keys were there before leaves the table right. -/
theorem push_old (h : table.Leads specs has) {spec : TypeSpec}
    (hold : ∀ key, has key spec = true → (table.lookup key).isSome = true) :
    table.Leads (specs ++ [spec]) has := by
  intro key
  rw [List.findIdx?_append, ← h key]
  cases hplace : table.lookup key with
  | some place => rfl
  | none =>
    have hnot : has key spec = false := by
      refine Bool.eq_false_iff.mpr fun hkey => ?_
      have hsome := hold key hkey
      rw [hplace] at hsome
      cases hsome
    rw [List.findIdx?_singleton, hnot]
    rfl

/-- A type behind the others with a key of its own is entered in the table under this key. -/
theorem push_new [LawfulBEq α] (h : table.Leads specs has) {spec : TypeSpec} {key : α}
    (hhas : ∀ other, has other spec = (other == key)) (hfree : table.lookup key = none) :
    Index.Leads ((key, specs.length) :: table) (specs ++ [spec]) has := by
  intro other
  rw [List.findIdx?_append, ← h other, List.lookup_cons, List.findIdx?_singleton, hhas]
  cases hsame : other == key with
  | true =>
    rw [eq_of_beq hsame, hfree]
    simp
  | false => simp

/-- Types that change in other ways than their keys leave the table right. -/
theorem map (h : table.Leads specs has) {f : TypeSpec → TypeSpec}
    (hkept : ∀ key spec, has key (f spec) = has key spec) : table.Leads (specs.map f) has := by
  intro key
  have hcomp : has key ∘ f = has key := funext (hkept key)
  rw [List.findIdx?_map, hcomp]
  exact h key

end Index.Leads

namespace Directory

/-- The four tables lead to the types in the row. -/
structure Indexed (directory : Directory) : Prop where
  /-- By the types of the program that they stand for. -/
  byHost : directory.byHost.Leads directory.specs fun host spec => spec.host == some host
  /-- By the kinds of builtins. -/
  byKind : directory.byKind.Leads directory.specs fun kind spec => spec.role == .builtin kind
  /-- By the ids of user types. -/
  byId : directory.byId.Leads directory.specs fun n spec => spec.registration? == some (.id n)
  /-- By the namespaces and the names of user types. -/
  byName : directory.byName.Leads directory.specs fun key spec =>
    spec.registration? == some (.name key.1 key.2)

/-- Lookups through the tables find what lookups in the row find. -/
theorem Indexed.lookups_eq {directory : Directory} (h : directory.Indexed) :
    directory.lookups = directory.registry.lookups := by
  have hhost : directory.lookups.ofHost? = directory.registry.lookups.ofHost? :=
    funext fun host => h.byHost.find?_eq host
  have hkind : directory.lookups.ofKind? = directory.registry.lookups.ofKind? :=
    funext fun kind => h.byKind.find?_eq kind
  have hid : directory.lookups.ofId? = directory.registry.lookups.ofId? :=
    funext fun n => h.byId.find?_eq n
  have hname : directory.lookups.ofName? = directory.registry.lookups.ofName? :=
    funext fun space => funext fun name => h.byName.find?_eq (space, name)
  cases hlookups : directory.lookups
  cases hown : directory.registry.lookups
  rw [hlookups, hown] at hhost hkind hid hname
  cases hhost
  cases hkind
  cases hid
  cases hname
  rfl

section Builtins

variable {directory : Directory}

/-- The directory of nothing is in step with its tables. -/
theorem indexed_empty : empty.Indexed where
  byHost _ := rfl
  byKind _ := rfl
  byId _ := rfl
  byName _ := rfl

/-- A builtin is entered under its kind, unless the kind is there. -/
theorem Indexed.byKind_pushBuiltin (h : directory.Indexed) (host : Option HostType) (label : String)
    (kind : Kind) :
    (directory.pushBuiltin host label kind).byKind.Leads
      (directory.pushBuiltin host label kind).specs fun kind spec => spec.role == .builtin kind := by
  have hrole (other : Kind) :
      ((⟨host, label, false, .builtin kind⟩ : TypeSpec).role == .builtin other) =
        (other == kind) := by
    rw [Bool.eq_iff_iff, beq_iff_eq, beq_iff_eq, Role.builtin.injEq, eq_comm]
  unfold pushBuiltin
  dsimp only
  split
  next hsome =>
    refine h.byKind.push_old fun other hother => ?_
    rw [hrole] at hother
    rw [eq_of_beq hother]
    exact hsome
  next hnone => exact h.byKind.push_new hrole (Option.not_isSome_iff_eq_none.mp hnone)

/-- A builtin without a type of the program keeps the directory in step. -/
theorem Indexed.pushBuiltin (h : directory.Indexed) (label : String) (kind : Kind) :
    (directory.pushBuiltin none label kind).Indexed where
  byHost := h.byHost.push_old fun _ => nofun
  byKind := h.byKind_pushBuiltin none label kind
  byId := h.byId.push_old fun _ => nofun
  byName := h.byName.push_old fun _ => nofun

/-- So does a builtin that stands for a type of the program of its own. -/
theorem Indexed.seedBuiltin (h : directory.Indexed) {host : HostType} (kind : Kind)
    (hfree : directory.byHost.lookup host = none) :
    (directory.seedBuiltin (host, kind)).Indexed where
  byHost := by
    refine h.byHost.push_new (fun other => ?_) hfree
    rw [Bool.eq_iff_iff, beq_iff_eq, beq_iff_eq, Option.some.injEq, eq_comm]
  byKind := h.byKind_pushBuiltin (some host) host.label kind
  byId := h.byId.push_old fun _ => nofun
  byName := h.byName.push_old fun _ => nofun

/-- Builtins for different types of the program keep the directory in step. -/
theorem Indexed.foldl_seedBuiltin (h : directory.Indexed) {builtins : List (HostType × Kind)}
    (hnodup : (builtins.map Prod.fst).Nodup)
    (hfree : ∀ host ∈ builtins.map Prod.fst, directory.byHost.lookup host = none) :
    (builtins.foldl Directory.seedBuiltin directory).Indexed := by
  induction builtins generalizing directory with
  | nil => exact h
  | cons builtin rest ih =>
    obtain ⟨host, kind⟩ := builtin
    obtain ⟨hfresh, hrest⟩ := List.nodup_cons.mp hnodup
    refine ih (h.seedBuiltin kind (hfree host List.mem_cons_self)) hrest fun other hother => ?_
    have hne : (other == host) = false :=
      beq_false_of_ne fun heq => hfresh (heq ▸ hother)
    change ((host, directory.specs.length) :: directory.byHost).lookup other = none
    rw [List.lookup_cons, hne]
    exact hfree other (List.mem_cons_of_mem _ hother)

/-- Builtins that only peers write keep the directory in step. -/
theorem Indexed.foldl_pushBuiltin (h : directory.Indexed) (kinds : List Kind) :
    (kinds.foldl (fun directory kind => directory.pushBuiltin none "builtin" kind)
      directory).Indexed := by
  induction kinds generalizing directory with
  | nil => exact h
  | cons kind rest ih => exact ih (h.pushBuiltin "builtin" kind)

/-- The directory of the builtins is in step with its tables. -/
theorem indexed_standard : standard.Indexed :=
  (indexed_empty.foldl_seedBuiltin (by decide) fun _ _ => rfl).foldl_pushBuiltin _

/-- The directory of the builtins has the registry of the builtins. -/
theorem registry_standard : standard.registry = .standard := by
  decide +kernel

end Builtins

section Calls

variable {directory : Directory}

/-- The directory with a place entered under a registration. -/
def withEntry (directory : Directory) (place : Nat) : Registration → Directory
  | .id n => { directory with byId := (n, place) :: directory.byId }
  | .name space name => { directory with byName := ((space, name), place) :: directory.byName }

/-- A place is entered if the registration passes the check of the registry, and otherwise nothing
is changed. -/
theorem Indexed.enter_eq (h : directory.Indexed) (place : Nat) (registration : Registration) :
    enter place registration directory =
      match directory.registry.checkRegistration registration with
      | .ok _ => .ok () (directory.withEntry place registration)
      | .error e => .error e directory := by
  cases registration with
  | id n =>
    rw [Registry.checkRegistration, Registry.ofRegistration?, registry, ← h.byId.isSome_lookup n]
    rw [enter]
    by_cases hrange : Registry.maxId < n
    · simp only [if_pos hrange]
      rfl
    · simp only [if_neg hrange]
      rw [bind_of_ok (x := get) rfl]
      cases (directory.byId.lookup n).isSome <;> rfl
  | name space name =>
    rw [Registry.checkRegistration, Registry.ofRegistration?, registry,
      ← h.byName.isSome_lookup (space, name)]
    rw [enter, bind_of_ok (x := get) rfl]
    cases (directory.byName.lookup (space, name)).isSome <;> rfl

/-- The directory with a user type behind the others. -/
def added (directory : Directory) (host : HostType) (registration : Registration) (role : Role) :
    Directory :=
  { directory.withEntry directory.specs.length registration with
    byHost := (host, directory.specs.length) :: directory.byHost
    specs := directory.specs ++ [⟨some host, host.label, false, role⟩] }

/-- A user type behind the others keeps the directory in step, if its type of the program and its
registration are free. -/
theorem Indexed.added (h : directory.Indexed) {host : HostType} {role : Role}
    {registration : Registration} (hhost : directory.byHost.lookup host = none)
    (hfree : directory.registry.ofRegistration? registration = none)
    (hrole : TypeSpec.registration? ⟨some host, host.label, false, role⟩ = some registration) :
    (directory.added host registration role).Indexed := by
  have hhas (other : Registration) :
      (TypeSpec.registration? ⟨some host, host.label, false, role⟩ == some other) =
        (other == registration) := by
    rw [hrole, Bool.eq_iff_iff, beq_iff_eq, beq_iff_eq, Option.some.injEq, eq_comm]
  have hkind (kind : Kind) : (role == .builtin kind) = false := by
    refine beq_false_of_ne ?_
    rintro rfl
    cases hrole
  have hnew : (directory.added host registration role).byHost.Leads
      (directory.specs ++ [⟨some host, host.label, false, role⟩])
      fun host spec => spec.host == some host := by
    refine h.byHost.push_new (fun other => ?_) hhost
    rw [Bool.eq_iff_iff, beq_iff_eq, beq_iff_eq, Option.some.injEq, eq_comm]
  have hbuiltin : directory.byKind.Leads
      (directory.specs ++ [⟨some host, host.label, false, role⟩])
      fun kind spec => spec.role == .builtin kind := by
    refine h.byKind.push_old fun kind hsame => ?_
    cases (hkind kind).symm.trans hsame
  cases registration with
  | id n =>
    refine ⟨hnew, hbuiltin, h.byId.push_new (fun other => ?_) ?_, h.byName.push_old fun key hsame => ?_⟩
    · rw [hhas, Bool.eq_iff_iff, beq_iff_eq, beq_iff_eq, Registration.id.injEq]
    · have hnone := h.byId.isSome_lookup n
      rw [show directory.specs.find? _ = none from hfree] at hnone
      exact Option.not_isSome_iff_eq_none.mp (Bool.not_eq_true _ ▸ hnone)
    · rw [hhas] at hsame
      cases eq_of_beq hsame
  | name space name =>
    refine ⟨hnew, hbuiltin, h.byId.push_old fun n hsame => ?_, h.byName.push_new (fun other => ?_) ?_⟩
    · rw [hhas] at hsame
      cases eq_of_beq hsame
    · obtain ⟨otherSpace, otherName⟩ := other
      rw [hhas, Bool.eq_iff_iff, beq_iff_eq, beq_iff_eq, Registration.name.injEq, Prod.mk.injEq]
    · have hnone := h.byName.isSome_lookup (space, name)
      rw [show directory.specs.find? _ = none from hfree] at hnone
      exact Option.not_isSome_iff_eq_none.mp (Bool.not_eq_true _ ▸ hnone)

/-- The result of a call on a directory is what becomes of its registry: the directory is in step and
has the types of the next registry, or the same error comes about and nothing has changed. -/
def Turns (directory : Directory) (result : EStateM.Result Error Directory Unit) :
    Except Error Registry → Prop
  | .ok next => ∃ after : Directory, result = .ok () after ∧ after.registry = next ∧ after.Indexed
  | .error e => result = .error e directory

/-- A user type is added if its registration passes the check of the registry, and otherwise nothing
is changed. -/
theorem Indexed.add_eq (h : directory.Indexed) {host : HostType} {role : Role}
    {registration : Registration} (hhost : directory.byHost.lookup host = none)
    (hrole : TypeSpec.registration? ⟨some host, host.label, false, role⟩ = some registration) :
    add host role directory =
      match directory.registry.checkRegistration registration with
      | .ok _ => .ok () (directory.added host registration role)
      | .error e => .error e directory := by
  have henter := h.enter_eq directory.specs.length registration
  rw [add, bind_of_ok (x := get) rfl, hhost]
  cases role with
  | builtin kind => cases hrole
  | struct own fields | enum own | ext own =>
    cases hrole
    cases hcheck : directory.registry.checkRegistration registration with
    | error e =>
      rw [hcheck] at henter
      exact bind_of_error henter
    | ok u =>
      rw [hcheck] at henter
      refine (bind_of_ok henter).trans ?_
      cases registration <;> rfl

/-- Adding a user type does what the registry says. -/
theorem Indexed.turns_add (h : directory.Indexed) (host : HostType) {role : Role}
    {registration : Registration}
    (hrole : TypeSpec.registration? ⟨some host, host.label, false, role⟩ = some registration) :
    directory.Turns (add host role directory) (directory.registry.add host registration role) := by
  rw [Registry.add, Registry.ofHost?, registry, ← h.byHost.isSome_lookup host]
  cases hhost : directory.byHost.lookup host with
  | some place =>
    rw [add, bind_of_ok (x := get) rfl, hhost]
    rfl
  | none =>
    have hadd := h.add_eq hhost hrole
    rw [registry] at hadd
    cases hcheck : Registry.checkRegistration ⟨directory.specs⟩ registration with
    | error e =>
      rw [hcheck] at hadd
      exact hadd
    | ok u =>
      rw [hcheck] at hadd
      have hfree := (Registry.of_checkRegistration_ok hcheck).1
      exact ⟨_, hadd, rfl, h.added hhost hfree hrole⟩

/-- Registering a struct does what the registry says. -/
theorem Indexed.turns_registerStruct (h : directory.Indexed) (host : HostType)
    (registration : Registration) (fields : List FieldDescriptor) :
    directory.Turns (registerStruct host registration fields directory)
      (directory.registry.registerStruct host registration fields) := by
  have hrole : TypeSpec.registration? ⟨some host, host.label, false, .struct registration fields⟩ =
      some registration := rfl
  have hadd := h.turns_add host hrole
  rw [Registry.registerStruct, registerStruct]
  cases Registry.repeated? [] (fields.map FieldDescriptor.name) with
  | some name => rfl
  | none => exact hadd

/-- Where a type of the program belongs to one type, changing that type is changing the first one. -/
theorem modify_eq_map {specs : List TypeSpec} {host : HostType}
    (hnodup : (specs.filterMap TypeSpec.host).Nodup) {place : Nat}
    (hplace : specs.findIdx? (fun spec => spec.host == some host) = some place)
    (f : TypeSpec → TypeSpec) :
    specs.modify place f =
      specs.map fun spec => if spec.host == some host then f spec else spec := by
  induction specs generalizing place with
  | nil => cases hplace
  | cons first rest ih =>
    rw [List.findIdx?_cons] at hplace
    cases hfirst : first.host == some host with
    | true =>
      rw [hfirst, if_pos rfl] at hplace
      cases hplace
      rw [List.filterMap_cons_some (eq_of_beq hfirst)] at hnodup
      have hrest : rest.map (fun spec => if spec.host == some host then f spec else spec) = rest := by
        refine (List.map_congr_left fun spec hspec => if_neg fun hsame => ?_).trans (List.map_id _)
        exact (List.nodup_cons.mp hnodup).1 (List.mem_filterMap.mpr ⟨spec, hspec, eq_of_beq hsame⟩)
      rw [List.map_cons, hrest, hfirst, if_pos rfl, List.modify_zero_cons]
    | false =>
      rw [hfirst, if_neg Bool.false_ne_true] at hplace
      obtain ⟨behind, hbehind, rfl⟩ := Option.map_eq_some_iff.mp hplace
      have hothers := hnodup.sublist ((List.sublist_cons_self first rest).filterMap TypeSpec.host)
      rw [List.map_cons, hfirst, if_neg Bool.false_ne_true, List.modify_succ_cons, ih hothers hbehind]

/-- Types that change neither in their type of the program nor in their role keep the directory in
step. -/
theorem Indexed.map (h : directory.Indexed) {f : TypeSpec → TypeSpec}
    (hkept : ∀ spec, (f spec).host = spec.host ∧ (f spec).role = spec.role) :
    Indexed { directory with specs := directory.specs.map f } := by
  have hregistration (spec : TypeSpec) : (f spec).registration? = spec.registration? := by
    rw [TypeSpec.registration?, (hkept spec).2]
    rfl
  constructor
  · exact h.byHost.map fun _ spec => by rw [(hkept spec).1]
  · exact h.byKind.map fun _ spec => by rw [(hkept spec).2]
  · exact h.byId.map fun _ spec => by rw [hregistration]
  · exact h.byName.map fun _ spec => by rw [hregistration]

/-- Letting the values of a type be referred to does what the registry says. -/
theorem Indexed.turns_track (h : directory.Indexed) (hformed : directory.registry.WellFormed)
    (host : HostType) :
    directory.Turns (track host directory) (directory.registry.track host) := by
  rw [Registry.track, Registry.ofHost?, registry, ← h.byHost.isSome_lookup host, track,
    bind_of_ok (x := get) rfl]
  cases hplace : directory.byHost.lookup host with
  | none => rfl
  | some place =>
    have hnodup : (directory.specs.filterMap TypeSpec.host).Nodup := hformed.hosts
    have hmodify := modify_eq_map hnodup ((h.byHost host).symm.trans hplace)
      fun spec => { spec with tracked := true }
    have hindexed : Indexed
        { directory with
          specs := directory.specs.map fun spec =>
            if spec.host == some host then { spec with tracked := true } else spec } := by
      refine h.map fun spec => ?_
      split <;> exact ⟨rfl, rfl⟩
    refine ⟨_, rfl, congrArg Registry.mk hmodify, ?_⟩
    rw [← hmodify] at hindexed
    exact hindexed

end Calls

end Directory

/-- What a call does to a directory. -/
def Registry.Change.call : Change → Register Unit
  | .struct host registration fields => Directory.registerStruct host registration fields
  | .structByLabel host withSpace fields => Directory.registerStructByTypeName host withSpace fields
  | .enum host registration => Directory.registerEnum host registration
  | .ext host registration => Directory.registerExt host registration
  | .track host => Directory.track host

namespace Directory

open Registry

variable {directory : Directory}

/-- Every call does what the registry says. -/
theorem Indexed.turns_call (h : directory.Indexed) (hformed : directory.registry.WellFormed)
    (change : Change) : directory.Turns (change.call directory) (change.apply directory.registry) := by
  cases change with
  | struct host registration fields => exact h.turns_registerStruct host registration fields
  | structByLabel host withSpace fields =>
    exact h.turns_registerStruct host (registrationOf host withSpace) fields
  | enum host registration => exact h.turns_add host rfl
  | ext host registration => exact h.turns_add host rfl
  | track host => exact h.turns_track hformed host

/-- What a call leaves behind, whether it succeeds or fails. -/
def after (directory : Directory) (change : Change) : Directory :=
  match change.call directory with
  | .ok _ left | .error _ left => left

/-- The directory after a history of calls. -/
def history (directory : Directory) (changes : List Change) : Directory :=
  changes.foldl after directory

/-- After a call a directory is in step, with the types that the registry has after it. -/
theorem Indexed.after (h : directory.Indexed) (hformed : directory.registry.WellFormed)
    (change : Change) :
    (directory.after change).registry = change.after directory.registry ∧
      (directory.after change).Indexed := by
  have hcall := h.turns_call hformed change
  rw [Directory.after, Change.after]
  cases happly : change.apply directory.registry with
  | error e =>
    rw [happly] at hcall
    rw [show change.call directory = .error e directory from hcall]
    exact ⟨rfl, h⟩
  | ok next =>
    rw [happly] at hcall
    obtain ⟨left, hleft, hregistry, hindexed⟩ := hcall
    rw [hleft]
    exact ⟨hregistry, hindexed⟩

/-- After a history of calls a directory is in step, with the types that the registry has after it. -/
theorem Indexed.history (h : directory.Indexed) (hbuilt : directory.registry.Built)
    (changes : List Change) :
    (directory.history changes).registry = directory.registry.history changes ∧
      (directory.history changes).Indexed := by
  induction changes generalizing directory with
  | nil => exact ⟨rfl, h⟩
  | cons change rest ih =>
    obtain ⟨hregistry, hindexed⟩ := h.after hbuilt.wellFormed change
    have hnext : (directory.after change).registry.Built := by
      rw [hregistry]
      exact hbuilt.after change
    obtain ⟨hsame, hstep⟩ := ih hindexed hnext
    rw [hregistry] at hsame
    exact ⟨hsame, hstep⟩

/-- A directory with a history is in step. -/
theorem indexed_history (changes : List Change) : (standard.history changes).Indexed :=
  (indexed_standard.history (registry_standard ▸ .standard) changes).2

/-- A directory with a history has the registry with this history. -/
theorem registry_history (changes : List Change) :
    (standard.history changes).registry = Registry.standard.history changes := by
  rw [(indexed_standard.history (registry_standard ▸ .standard) changes).1, registry_standard]

/-- Lookups in a directory with a history are those in the registry with this history. -/
theorem lookups_history (changes : List Change) :
    (standard.history changes).lookups = (Registry.standard.history changes).lookups := by
  rw [(indexed_history changes).lookups_eq, registry_history]

/-- The registry of a directory with a history was built step by step. -/
theorem built_history (changes : List Change) : (standard.history changes).registry.Built :=
  registry_history changes ▸ Built.standard.history

/-- What lookups find after a history of calls. -/
structure Consistent (changes : List Change) : Prop where
  /-- Every type that was registered is there, and tracked if that was asked for since. -/
  registered : ∀ front (change : Change) back after spec, changes = front ++ change :: back →
    change.call (standard.history front) = .ok () after → change.spec? = some spec →
    spec.since back ∈ (standard.history changes).specs
  /-- A type is what every declared type resolves to that it stands for, be it scalar or a
  collection. -/
  byHost : ∀ spec ∈ (standard.history changes).specs, ∀ type : FieldType,
    spec.host = some type.host → (standard.history changes).lookups.resolve type = .ok spec
  /-- A type that has a number is found by its type ids. -/
  byId : ∀ spec ∈ (standard.history changes).specs, ∀ n compatible,
    spec.registration? = some (.id n) →
    (standard.history changes).lookups.ofTypeId (spec.typeId compatible) = .ok spec
  /-- A type that has a name is found by it. -/
  byName : ∀ spec ∈ (standard.history changes).specs, ∀ space name,
    spec.registration? = some (.name space name) →
    (standard.history changes).lookups.ofName space name = .ok spec
  /-- No two types have the same number or the same name. -/
  distinct : ((standard.history changes).specs.filterMap TypeSpec.registration?).Nodup
  /-- A type id leads to a user type only if it is of a kind without a name and of the family of
  that type, and holds its number. -/
  family : ∀ id spec, (standard.history changes).lookups.ofTypeId id = .ok spec →
    spec.isUser = true →
    ∃ kind, Kind.ofTypeId? id = some kind ∧ kind.isNamed = false ∧ spec.isOfFamily kind = true ∧
      spec.registration? = some (.id (id.toNat / 256))
  /-- The builtins are found by their kinds. -/
  builtins : ∀ kind, (standard.history changes).lookups.ofKind? kind =
    (standard.lookups.ofKind? kind).map (·.since changes)
  /-- The scalar builtins are found by the types that they stand for. -/
  builtinTypes : ∀ builtin ∈ scalarBuiltins, ∀ nullable,
    (standard.history changes).lookups.resolve (.scalar builtin.1 nullable) =
      (standard.lookups.resolve (.scalar builtin.1 nullable)).map (·.since changes)
  /-- Every declared type for which no user type was registered resolves as ever, or fails as ever. -/
  unregistered : ∀ type : FieldType,
    (∀ spec ∈ (standard.history changes).specs, spec.isUser = true → spec.host ≠ some type.host) →
    (standard.history changes).lookups.resolve type =
      (standard.lookups.resolve type).map (·.since changes)
  /-- Type ids that are not those of user types lead where they did. -/
  builtinIds : ∀ id, (∀ kind, Kind.ofTypeId? id = some kind → kind.isUser = false) →
    (standard.history changes).lookups.ofTypeId id =
      (standard.lookups.ofTypeId id).map (·.since changes)

/-- After every history of calls, failed ones included, lookups through the tables find what was
registered and nothing else. A call that fails leaves the directory as it was. -/
theorem consistent_history (changes : List Change) :
    Consistent changes ∧ ∀ (change : Change) e left,
      change.call (standard.history changes) = .error e left → left = standard.history changes := by
  have hspecs : (standard.history changes).specs = (Registry.standard.history changes).specs :=
    congrArg Registry.specs (registry_history changes)
  have hstandard : standard.lookups = Registry.standard.lookups := lookups_history []
  have hformed : (Registry.standard.history changes).WellFormed := Built.standard.history.wellFormed
  have hturns (changes : List Change) (change : Change) :=
    (indexed_history changes).turns_call (built_history changes).wellFormed change
  refine ⟨?_, fun change e left hfails => ?_⟩
  · constructor
    all_goals simp only [hspecs, lookups_history, hstandard]
    · rintro front change back left spec rfl hcall hspec
      have hstep := hturns front change
      rw [registry_history] at hstep
      cases happly : change.apply (Registry.standard.history front) with
      | error e =>
        rw [happly] at hstep
        cases hcall.symm.trans hstep
      | ok next => exact since_mem_history happly hspec
    · exact fun spec hmem type hhost =>
        resolve_of_ofHost? (hformed.ofHost?_eq hmem hhost)
    · exact fun spec hmem n compatible hregistration =>
        hformed.ofTypeId_typeId hmem hregistration compatible
    · exact fun spec hmem space name hregistration => hformed.ofName_eq hmem hregistration
    · exact hformed.registrations
    · exact fun id spec h huser => exists_of_ofTypeId_ok h huser
    · exact fun kind => builtin?_history kind
    · intro builtin hbuiltin nullable
      refine resolve_history fun spec hmem huser hhost => ?_
      cases huser.symm.trans (hformed.isUser_of_scalarBuiltin hbuiltin hmem hhost)
    · exact fun type husers => resolve_history husers
    · exact fun id hid => ofTypeId_history hid
  · have hstep := hturns changes change
    cases happly : change.apply (standard.history changes).registry with
    | error other =>
      rw [happly] at hstep
      cases hfails.symm.trans hstep
      rfl
    | ok next =>
      rw [happly] at hstep
      obtain ⟨after, hcall, -⟩ := hstep
      cases hfails.symm.trans hcall

end Directory

namespace Sample

/-- A struct with a number. -/
def item : TypeSpec :=
  ⟨some (.user "shop::Item"), "shop::Item", false,
    .struct (.id 7) [⟨"price", .scalar (.int .int64) false, false⟩]⟩

/-- Bytes in a layout of their own. -/
def label : TypeSpec :=
  ⟨some (.collection "alloc::vec::Vec<u8>"), "alloc::vec::Vec<u8>", false, .ext (.name "" "Label")⟩

/-- An enum asks in vain for the number of a struct and is given a name. The struct asks in vain for
another number and is tracked, as are strings. A list of bytes is registered and tracked, which
another list is in vain. -/
def shop : List Registry.Change :=
  [.struct (.user "shop::Item") (.id 7) item.fields, .enum (.user "shop::Color") (.id 7),
    .enum (.user "shop::Color") (.name "shop" "Color"), .structByLabel (.user "shop::Bag<u8>") true [],
    .ext (.user "shop::Item") (.id 8), .track .string, .track .char, .track (.user "shop::Item"),
    .ext (.collection "alloc::vec::Vec<u8>") (.name "" "Label"),
    .track (.collection "alloc::vec::Vec<i64>"), .track (.collection "alloc::vec::Vec<u8>")]

/-- A list under the given name of elements of a number type. -/
def listOf (name : String) (element : IntType) : FieldType :=
  .list name (.scalar (.int element) false) false

end Sample

open Registry in
/-- The struct, the enum, strings and the list of bytes are found, any other list is found as ever, and
the enum that asked in vain changed nothing. -/
theorem Directory.consistent_history_shop :
    (Change.enum (.user "shop::Color") (.id 7)).call (standard.history (Sample.shop.take 1)) =
        .error (.idTaken 7) (standard.history (Sample.shop.take 1)) ∧
      (∀ nullable, (standard.history Sample.shop).lookups.resolve
        (.scalar (.user "shop::Item") nullable) = .ok { Sample.item with tracked := true }) ∧
      (∀ compatible, (standard.history Sample.shop).lookups.ofTypeId
        (Sample.item.typeId compatible) = .ok { Sample.item with tracked := true }) ∧
      (standard.history Sample.shop).lookups.ofName "shop" "Color" =
        .ok ⟨some (.user "shop::Color"), "shop::Color", false, .enum (.name "shop" "Color")⟩ ∧
      (standard.history Sample.shop).lookups.resolve (.scalar .string false) =
        .ok ⟨some .string, HostType.string.label, true, .builtin .string⟩ ∧
      (standard.history Sample.shop).lookups.resolve (Sample.listOf "alloc::vec::Vec<u8>" .uint8) =
        .ok { Sample.label with tracked := true } ∧
      (standard.history Sample.shop).lookups.resolve (Sample.listOf "alloc::vec::Vec<i64>" .int64) =
        .ok ⟨none, "builtin", false, .builtin .list⟩ := by
  obtain ⟨left, hfails⟩ : ∃ left, (Change.enum (.user "shop::Color") (.id 7)).call
      (standard.history (Sample.shop.take 1)) = .error (.idTaken 7) left := ⟨_, rfl⟩
  have hvain := (consistent_history (Sample.shop.take 1)).2 _ _ _ hfails
  have hconsistent := (consistent_history Sample.shop).1
  have hitem := hconsistent.registered [] _ _ _ Sample.item rfl rfl rfl
  have hcolor := hconsistent.registered (Sample.shop.take 2) _ _ _
    ⟨some (.user "shop::Color"), "shop::Color", false, .enum (.name "shop" "Color")⟩ rfl rfl rfl
  have hlabel := hconsistent.registered (Sample.shop.take 8) _ _ _ Sample.label rfl rfl rfl
  have hstring := hconsistent.builtinTypes (.string, .string) (by decide) false
  have hlist := hconsistent.unregistered (Sample.listOf "alloc::vec::Vec<i64>" .int64)
    (by decide +kernel)
  refine ⟨hvain ▸ hfails, fun nullable => ?_, fun compatible => ?_, ?_, hstring, ?_, hlist⟩
  · exact hconsistent.byHost _ hitem _ rfl
  · exact hconsistent.byId _ hitem 7 compatible rfl
  · exact hconsistent.byName _ hcolor _ _ rfl
  · exact hconsistent.byHost _ hlabel _ rfl

end SchemaWire
