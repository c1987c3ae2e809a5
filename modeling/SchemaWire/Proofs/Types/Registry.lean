import Mathlib.Data.List.Nodup
import SchemaWire.Proofs.Reading
import SchemaWire.Types.Registry

/-!
# Registries that were built step by step

A registry starts with the builtins, and every later type was registered with it. Here a
registration leads from one registry to the next, or fails. In a registry that comes about so, each
type of the program and each registration belongs to one type, so that looking one up finds that
type, and the fields of a struct have names of their own.
-/

namespace SchemaWire

/-- The sort of a collection. -/
def FieldType.sort? : FieldType → Option Kind
  | .scalar .. => none
  | .list .. => some .list
  | .set .. => some .set
  | .map .. => some .map

/-- There is a builtin for every sort of collections. -/
theorem FieldType.mem_of_sort? {type : FieldType} {kind : Kind} (h : type.sort? = some kind) :
    kind ∈ Registry.otherBuiltins := by
  cases type <;> cases h <;> decide

namespace Registry

/-- Check that a registration is free and, for an id, that it is small enough. -/
def checkRegistration (registry : Registry) (registration : Registration) : Except Error Unit :=
  match registration with
  | .id n =>
    if maxId < n then .error (.range n 24)
    else if (registry.ofRegistration? registration).isSome then .error (.idTaken n)
    else .ok ()
  | .name space name =>
    if (registry.ofRegistration? registration).isSome then .error (.nameTaken space name)
    else .ok ()

/-- Add a user type. -/
def add (registry : Registry) (host : HostType) (registration : Registration) (role : Role) :
    Except Error Registry := do
  if (registry.ofHost? host).isSome then throw (.alreadyRegistered host.label)
  registry.checkRegistration registration
  return ⟨registry.specs ++ [⟨some host, host.label, false, role⟩]⟩

/-- Register a struct. -/
def registerStruct (registry : Registry) (host : HostType) (registration : Registration)
    (fields : List FieldDescriptor) : Except Error Registry :=
  match repeated? [] (fields.map FieldDescriptor.name) with
  | some name => .error (.duplicateField name host.label)
  | none => registry.add host registration (.struct registration fields)

/-- Register an enum. -/
def registerEnum (registry : Registry) (host : HostType) (registration : Registration) :
    Except Error Registry :=
  registry.add host registration (.enum registration)

/-- Register a type with a layout of its own. -/
def registerExt (registry : Registry) (host : HostType) (registration : Registration) :
    Except Error Registry :=
  registry.add host registration (.ext registration)

/-- Let all values of a type be referred to. -/
def track (registry : Registry) (host : HostType) : Except Error Registry :=
  if (registry.ofHost? host).isSome then
    .ok ⟨registry.specs.map fun spec =>
      if spec.host == some host then { spec with tracked := true } else spec⟩
  else .error (.unregistered host.label)

/-- The registry comes about by registrations and by tracking types. -/
inductive Built : Registry → Prop
  /-- Only the builtins are there. -/
  | standard : Built .standard
  /-- A struct is added. -/
  | struct {registry added : Registry} {host : HostType} {registration : Registration}
    {fields : List FieldDescriptor} (h : Built registry)
    (hadded : registry.registerStruct host registration fields = .ok added) : Built added
  /-- An enum is added. -/
  | enum {registry added : Registry} {host : HostType} {registration : Registration}
    (h : Built registry) (hadded : registry.registerEnum host registration = .ok added) :
    Built added
  /-- A type with a layout of its own is added. -/
  | ext {registry added : Registry} {host : HostType} {registration : Registration}
    (h : Built registry) (hadded : registry.registerExt host registration = .ok added) :
    Built added
  /-- The values of a type can be referred to. -/
  | track {registry tracked : Registry} {host : HostType} (h : Built registry)
    (htracked : registry.track host = .ok tracked) : Built tracked

/-- Lookups in the registry find what was registered. -/
structure WellFormed (registry : Registry) : Prop where
  /-- A type of the program belongs to one type. -/
  hosts : (registry.specs.filterMap TypeSpec.host).Nodup
  /-- A registration belongs to one type. -/
  registrations : (registry.specs.filterMap TypeSpec.registration?).Nodup
  /-- User types stand for types of the program, and their ids have 24 bits. -/
  users : ∀ spec ∈ registry.specs, ∀ registration, spec.registration? = some registration →
    spec.host.isSome ∧ ∀ n, registration = .id n → n ≤ maxId
  /-- The builtins are there. -/
  builtins : ∀ spec ∈ standard.specs,
    ∃ own ∈ registry.specs, own.host = spec.host ∧ own.role = spec.role
  /-- Fields of a struct have different names. -/
  fields : ∀ spec ∈ registry.specs, (spec.fields.map FieldDescriptor.name).Nodup

/-- The registry with nothing but the builtins is well-formed. -/
theorem wellFormed_standard : WellFormed .standard where
  hosts := by decide
  registrations := by decide
  users := by
    have hbuiltin : ∀ spec ∈ standard.specs, spec.registration? = none := by decide
    intro spec hspec registration h
    rw [hbuiltin spec hspec] at h
    cases h
  builtins := fun spec hspec => ⟨spec, hspec, rfl, rfl⟩
  fields := by decide

/-- Names without a repetition are different. -/
theorem nodup_of_repeated? {before names : List String} (h : repeated? before names = none) :
    names.Nodup ∧ ∀ name ∈ names, name ∉ before := by
  induction names generalizing before with
  | nil => exact ⟨List.nodup_nil, nofun⟩
  | cons name rest ih =>
    rw [repeated?] at h
    split at h
    · cases h
    next hname =>
      obtain ⟨hrest, hfresh⟩ := ih h
      constructor
      · refine List.nodup_cons.mpr ⟨fun hmem => ?_, hrest⟩
        exact hfresh name hmem List.mem_cons_self
      · intro other hother
        rcases List.mem_cons.mp hother with rfl | hmem
        · exact hname
        · exact fun hbefore => hfresh other hmem (List.mem_cons_of_mem _ hbefore)

/-- Nothing is found where a lookup failed. -/
theorem notMem_filterMap_of_find?_eq_none {α : Type} [DecidableEq α] {f : TypeSpec → Option α}
    {specs : List TypeSpec} {a : α} (h : specs.find? (fun spec => f spec == some a) = none) :
    a ∉ specs.filterMap f := by
  intro hmem
  obtain ⟨spec, hspec, heq⟩ := List.mem_filterMap.mp hmem
  have hne := List.find?_eq_none.mp h spec hspec
  rw [heq] at hne
  exact hne (beq_self_eq_true _)

/-- A registration that passes the check is free, and its id has 24 bits. -/
theorem of_checkRegistration_ok {registry : Registry} {registration : Registration} {u : Unit}
    (h : registry.checkRegistration registration = .ok u) :
    registry.ofRegistration? registration = none ∧ ∀ n, registration = .id n → n ≤ maxId := by
  unfold checkRegistration at h
  cases registration with
  | id n =>
    dsimp only at h
    by_cases hid : maxId < n
    · rw [if_pos hid] at h
      cases h
    · rw [if_neg hid] at h
      split at h
      · cases h
      next hnone =>
        refine ⟨Option.not_isSome_iff_eq_none.mp hnone, fun m hm => ?_⟩
        cases hm
        exact Nat.le_of_not_lt hid
  | name space name =>
    dsimp only at h
    split at h
    · cases h
    next hnone => exact ⟨Option.not_isSome_iff_eq_none.mp hnone, nofun⟩

/-- Adding a user type with fields of different names keeps a registry well-formed. -/
theorem WellFormed.add {registry added : Registry} {host : HostType} {registration : Registration}
    {role : Role} (h : registry.WellFormed)
    (hadded : registry.add host registration role = .ok added)
    (hrole : TypeSpec.registration? ⟨some host, host.label, false, role⟩ = some registration)
    (hfields : ((TypeSpec.fields ⟨some host, host.label, false, role⟩).map
      FieldDescriptor.name).Nodup) : added.WellFormed := by
  unfold Registry.add at hadded
  split at hadded
  · cases hadded
  next hhost =>
    obtain ⟨u, hcheck, hadded⟩ := exists_of_except_bind_ok hadded
    cases hadded
    obtain ⟨hfree, hid⟩ := of_checkRegistration_ok hcheck
    have hnew := notMem_filterMap_of_find?_eq_none (Option.not_isSome_iff_eq_none.mp hhost)
    have hunused := notMem_filterMap_of_find?_eq_none hfree
    let new : TypeSpec := ⟨some host, host.label, false, role⟩
    have hconcat {α : Type} {f : TypeSpec → Option α} {a : α} (hf : f new = some a) :
        (registry.specs ++ [new]).filterMap f = (registry.specs.filterMap f).concat a := by
      simp [hf]
    constructor
    · have hhosts := hconcat (rfl : new.host = some host)
      exact hhosts.symm ▸ h.hosts.concat hnew
    · exact (hconcat hrole).symm ▸ h.registrations.concat hunused
    · intro spec hspec other hother
      rcases List.mem_append.mp hspec with hold | hlast
      · exact h.users spec hold other hother
      · cases List.mem_singleton.mp hlast
        cases hrole.symm.trans hother
        exact ⟨rfl, hid⟩
    · intro spec hspec
      obtain ⟨own, hown, heq⟩ := h.builtins spec hspec
      exact ⟨own, List.mem_append_left _ hown, heq⟩
    · intro spec hspec
      rcases List.mem_append.mp hspec with hold | hlast
      · exact h.fields spec hold
      · cases List.mem_singleton.mp hlast
        exact hfields

/-- Tracking a type changes neither the hosts nor the roles of a registry. -/
theorem WellFormed.track {registry tracked : Registry} {host : HostType} (h : registry.WellFormed)
    (htracked : registry.track host = .ok tracked) : tracked.WellFormed := by
  unfold Registry.track at htracked
  split at htracked
  next =>
    cases htracked
    let mark (spec : TypeSpec) : TypeSpec :=
      if spec.host == some host then { spec with tracked := true } else spec
    have hhost (spec : TypeSpec) : (mark spec).host = spec.host := by
      simp only [mark]
      split <;> rfl
    have hrole (spec : TypeSpec) : (mark spec).role = spec.role := by
      simp only [mark]
      split <;> rfl
    have hregistration (spec : TypeSpec) : (mark spec).registration? = spec.registration? := by
      rw [TypeSpec.registration?, hrole]
      rfl
    have hmap {α : Type} {f : TypeSpec → Option α} (hf : ∀ spec, f (mark spec) = f spec) :
        (registry.specs.map mark).filterMap f = registry.specs.filterMap f := by
      rw [List.filterMap_map]
      exact congrArg (List.filterMap · registry.specs) (funext hf)
    constructor
    · exact (hmap hhost).symm ▸ h.hosts
    · exact (hmap hregistration).symm ▸ h.registrations
    · intro spec hspec registration heq
      obtain ⟨own, hown, rfl⟩ := List.mem_map.mp hspec
      have husers := h.users own hown registration ((hregistration own).symm.trans heq)
      rw [← hhost own] at husers
      exact husers
    · intro spec hspec
      obtain ⟨own, hown, hsame⟩ := h.builtins spec hspec
      refine ⟨mark own, List.mem_map_of_mem hown, ?_⟩
      rw [hhost, hrole]
      exact hsame
    · intro spec hspec
      obtain ⟨own, hown, rfl⟩ := List.mem_map.mp hspec
      have hfields : (mark own).fields = own.fields := by
        rw [TypeSpec.fields, hrole]
        rfl
      change ((mark own).fields.map FieldDescriptor.name).Nodup
      rw [hfields]
      exact h.fields own hown
  next => cases htracked

/-- A registry that was built step by step is well-formed. -/
theorem Built.wellFormed {registry : Registry} (h : Built registry) : registry.WellFormed := by
  induction h with
  | standard => exact wellFormed_standard
  | struct _ hadded ih =>
    unfold registerStruct at hadded
    split at hadded
    next => cases hadded
    next hnames => exact ih.add hadded rfl (nodup_of_repeated? hnames).1
  | enum _ hadded ih => exact ih.add hadded rfl List.nodup_nil
  | ext _ hadded ih => exact ih.add hadded rfl List.nodup_nil
  | track _ htracked ih => exact ih.track htracked

section Lookups

variable {registry : Registry} {spec : TypeSpec}

/-- What stands for a type of the program is registered. -/
theorem mem_of_ofHost? {host : HostType} (h : registry.ofHost? host = some spec) :
    spec ∈ registry.specs :=
  List.mem_of_find?_eq_some h

/-- The builtin of a kind is registered. -/
theorem mem_of_builtin? {kind : Kind} (h : registry.builtin? kind = some spec) :
    spec ∈ registry.specs :=
  List.mem_of_find?_eq_some h

/-- A declared type is looked up as such, and by its sort where nothing is registered for it. -/
theorem ofType?_eq (registry : Registry) (type : FieldType) : registry.ofType? type =
    (registry.ofHost? type.host).or (type.sort?.bind registry.builtin?) := by
  cases type with
  | scalar host nullable => exact Option.or_none.symm
  | list | set | map => rfl

/-- A declared type resolves to what is registered for it. A collection for which nothing is
registered resolves to the builtin of its sort. -/
theorem of_resolve_ok {type : FieldType} (h : registry.resolve type = .ok spec) :
    registry.ofHost? type.host = some spec ∨
      registry.ofHost? type.host = none ∧
        ∃ kind, type.sort? = some kind ∧ registry.builtin? kind = some spec := by
  rw [resolve_eq_ok_iff, ofType?_eq, Option.or_eq_some_iff] at h
  exact h.imp_right (And.imp_right Option.bind_eq_some_iff.mp)

/-- A declared type for which a type is registered resolves to that type. -/
theorem resolve_of_ofHost? {type : FieldType} (h : registry.ofHost? type.host = some spec) :
    registry.resolve type = .ok spec := by
  rw [resolve_eq_ok_iff, ofType?_eq, h]
  rfl

/-- A collection for which nothing is registered resolves to the builtin of its sort. -/
theorem resolve_of_builtin? {type : FieldType} (hnone : registry.ofHost? type.host = none)
    {kind : Kind} (hsort : type.sort? = some kind) (h : registry.builtin? kind = some spec) :
    registry.resolve type = .ok spec := by
  rw [resolve_eq_ok_iff, ofType?_eq, hnone, hsort]
  exact h

/-- The type of a declared type is registered. -/
theorem mem_of_resolve {type : FieldType} (h : registry.resolve type = .ok spec) :
    spec ∈ registry.specs := by
  rcases of_resolve_ok h with hhost | ⟨-, kind, -, hkind⟩
  · exact mem_of_ofHost? hhost
  · exact mem_of_builtin? hkind

/-- Where a lookup succeeds at most once, it finds every member that it is true of. -/
theorem find?_of_nodup {α : Type} [DecidableEq α] {f : TypeSpec → Option α}
    {specs : List TypeSpec} {a : α} (h : (specs.filterMap f).Nodup) (hmem : spec ∈ specs)
    (ha : f spec = some a) : specs.find? (fun other => f other == some a) = some spec := by
  induction specs with
  | nil => cases hmem
  | cons first rest ih =>
    rcases List.mem_cons.mp hmem with rfl | hrest
    · exact List.find?_cons_of_pos (by rw [ha]; exact beq_self_eq_true _)
    · have hfirst : f first ≠ some a := by
        intro hfirst
        rw [List.filterMap_cons_some hfirst] at h
        exact (List.nodup_cons.mp h).1 (List.mem_filterMap.mpr ⟨spec, hrest, ha⟩)
      have hnodup : (rest.filterMap f).Nodup :=
        h.sublist ((List.sublist_cons_self first rest).filterMap f)
      rw [List.find?_cons_of_neg (by simpa using hfirst)]
      exact ih hnodup hrest

/-- The type that stands for a type of the program is found. -/
theorem WellFormed.ofHost?_eq (h : registry.WellFormed) (hmem : spec ∈ registry.specs)
    {host : HostType} (hhost : spec.host = some host) : registry.ofHost? host = some spec :=
  find?_of_nodup h.hosts hmem hhost

/-- The type with a registration is found. -/
theorem WellFormed.ofRegistration?_eq (h : registry.WellFormed) (hmem : spec ∈ registry.specs)
    {registration : Registration} (hregistration : spec.registration? = some registration) :
    registry.ofRegistration? registration = some spec :=
  find?_of_nodup h.registrations hmem hregistration

/-- The fields of a registered struct have different names. -/
theorem WellFormed.nodup_names (h : registry.WellFormed) (hmem : spec ∈ registry.specs)
    {registration : Registration} {declared : List FieldDescriptor}
    (hrole : spec.role = .struct registration declared) :
    (declared.map FieldDescriptor.name).Nodup := by
  have hnodup := h.fields spec hmem
  rwa [TypeSpec.fields, hrole] at hnodup

/-- A scalar builtin is found as what it is. -/
theorem WellFormed.exists_ofHost? (h : registry.WellFormed) {host : HostType} {kind : Kind}
    (hmem : (host, kind) ∈ scalarBuiltins) :
    ∃ own, registry.ofHost? host = some own ∧ own.role = .builtin kind := by
  have hstandard : ⟨some host, host.label, false, .builtin kind⟩ ∈ standard.specs :=
    List.mem_append_left _ (List.mem_map.mpr ⟨(host, kind), hmem, rfl⟩)
  obtain ⟨own, hown, hhost, hrole⟩ := h.builtins _ hstandard
  exact ⟨own, h.ofHost?_eq hown hhost, hrole⟩

/-- No user type stands for what a scalar builtin stands for. -/
theorem WellFormed.isUser_of_scalarBuiltin (h : registry.WellFormed) {builtin : HostType × Kind}
    (hbuiltin : builtin ∈ scalarBuiltins) (hmem : spec ∈ registry.specs)
    (hhost : spec.host = some builtin.1) : spec.isUser = false := by
  obtain ⟨own, hown, hrole⟩ := h.exists_ofHost? hbuiltin
  cases hown.symm.trans (h.ofHost?_eq hmem hhost)
  rw [TypeSpec.isUser, TypeSpec.registration?, hrole]
  rfl

/-- The builtin of a kind is of that kind. -/
theorem role_of_builtin? {kind : Kind} (h : registry.builtin? kind = some spec) :
    spec.role = .builtin kind := by
  simpa using List.find?_some h

/-- A builtin without a scalar type is found. -/
theorem WellFormed.exists_builtin? (h : registry.WellFormed) {kind : Kind}
    (hmem : kind ∈ otherBuiltins) :
    ∃ own, registry.builtin? kind = some own ∧ own.role = .builtin kind := by
  have hstandard : ⟨none, "builtin", false, .builtin kind⟩ ∈ standard.specs :=
    List.mem_append_right _ (List.mem_map.mpr ⟨kind, hmem, rfl⟩)
  obtain ⟨member, hmember, -, hrole⟩ := h.builtins _ hstandard
  have hsome : (registry.builtin? kind).isSome :=
    List.find?_isSome.mpr ⟨member, hmember, by rw [hrole]; exact beq_self_eq_true _⟩
  obtain ⟨own, hown⟩ := Option.isSome_iff_exists.mp hsome
  exact ⟨own, hown, role_of_builtin? hown⟩

/-- Every collection resolves to something. -/
theorem WellFormed.exists_resolve_of_sort? (h : registry.WellFormed) {type : FieldType}
    {kind : Kind} (hsort : type.sort? = some kind) : ∃ spec, registry.resolve type = .ok spec := by
  cases hhost : registry.ofHost? type.host with
  | some spec => exact ⟨spec, resolve_of_ofHost? hhost⟩
  | none =>
    obtain ⟨spec, hspec, -⟩ := h.exists_builtin? (FieldType.mem_of_sort? hsort)
    exact ⟨spec, resolve_of_builtin? hhost hsort hspec⟩

end Lookups

end Registry

namespace TypeSpec

variable {spec : TypeSpec} {type : FieldType}

/-- Elements are laid out by their type in lists and sets for which a builtin stands. -/
theorem of_element?_eq_some {element : FieldType} (h : spec.element? type = some element) :
    (spec.role = .builtin .list ∨ spec.role = .builtin .set) ∧
      ∃ name nullable, type = .list name element nullable ∨ type = .set name element nullable := by
  cases type with
  | scalar host nullable => cases h
  | map name key value nullable => cases h
  | list name own nullable =>
    obtain ⟨hrole, hsame⟩ := Option.ite_none_right_eq_some.mp h
    cases hsame
    exact ⟨hrole, name, nullable, .inl rfl⟩
  | set name own nullable =>
    obtain ⟨hrole, hsame⟩ := Option.ite_none_right_eq_some.mp h
    cases hsame
    exact ⟨hrole, name, nullable, .inr rfl⟩

/-- Entries are laid out by their types in maps for which a builtin stands. -/
theorem of_arguments?_eq_some {key value : FieldType}
    (h : spec.arguments? type = some (key, value)) :
    spec.role = .builtin .map ∧ ∃ name nullable, type = .map name key value nullable := by
  cases type with
  | scalar host nullable => cases h
  | list name element nullable => cases h
  | set name element nullable => cases h
  | map name first second nullable =>
    obtain ⟨hrole, hsame⟩ := Option.ite_none_right_eq_some.mp h
    cases hsame
    exact ⟨hrole, name, nullable, rfl⟩

end TypeSpec

end SchemaWire
