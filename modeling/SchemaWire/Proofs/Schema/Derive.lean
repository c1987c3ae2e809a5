import SchemaWire.Proofs.Schema.Blob
import SchemaWire.Proofs.Types.Registry
import SchemaWire.Schema.Derive

/-!
# Derived wire types and schemas

The wire type of a declared type carries the id of the registered type and the flags of the
declaration, and the wire types of what the declared type holds. A derived schema comes out
of its blob unchanged. Two registries in which the named types play the same roles derive the
same wire types and schemas.
-/

namespace SchemaWire

namespace Kind

/-- The number of a kind fits into a byte. -/
theorem code_lt (kind : Kind) : kind.code < 256 := by
  cases kind <;> decide

end Kind

namespace TypeSpec

/-- The kind of a type is found in its type id. -/
theorem ofTypeId?_typeId (spec : TypeSpec) (compatible : Bool) :
    Kind.ofTypeId? (spec.typeId compatible) = some (spec.kind compatible) := by
  have hcode := (spec.kind compatible).code_lt
  have hlow : Kind.codeOfTypeId (spec.typeId compatible) = (spec.kind compatible).code := by
    unfold Kind.codeOfTypeId typeId
    cases spec.registration? with
    | none => simp only [UInt32.toNat_ofNat']; omega
    | some registration =>
      cases registration with
      | id n => simp only [UInt32.toNat_ofNat']; omega
      | name space name => simp only [UInt32.toNat_ofNat']; omega
  rw [Kind.ofTypeId?, hlow, Kind.ofCode?_code]

/-- A type id is of the kind of its type. -/
theorem kindOf_typeId (spec : TypeSpec) (compatible : Bool) :
    WireType.kindOf (spec.typeId compatible) = .ok (spec.kind compatible) := by
  rw [WireType.kindOf, ofTypeId?_typeId]

/-- The number of a type is found in its type id. -/
theorem toNat_typeId_div {spec : TypeSpec} {n : Nat} (h : spec.registration? = some (.id n))
    (hn : n ≤ Registry.maxId) (compatible : Bool) :
    (spec.typeId compatible).toNat / 256 = n := by
  have hcode := (spec.kind compatible).code_lt
  have hbound : n ≤ 2 ^ 24 - 1 := hn
  simp only [typeId, h, UInt32.toNat_ofNat']
  omega

/-- Structs travel under kinds of structs. -/
theorem isStruct_kind {spec : TypeSpec} {registration : Registration}
    {fields : List FieldDescriptor} (h : spec.role = .struct registration fields)
    (compatible : Bool) : (spec.kind compatible).isStruct = true := by
  rw [kind, h]
  cases registration <;> cases compatible <;> rfl

/-- Enums travel under kinds of enums. -/
theorem isEnum_kind {spec : TypeSpec} {registration : Registration}
    (h : spec.role = .enum registration) (compatible : Bool) :
    (spec.kind compatible).isStruct = false ∧ (spec.kind compatible).isEnum = true := by
  rw [kind, h]
  cases registration <;> exact ⟨rfl, rfl⟩

/-- Types with layouts of their own travel under kinds of such types. -/
theorem isExt_kind {spec : TypeSpec} {registration : Registration}
    (h : spec.role = .ext registration) (compatible : Bool) :
    (spec.kind compatible).isStruct = false ∧ (spec.kind compatible).isEnum = false ∧
      (spec.kind compatible).isExt = true := by
  rw [kind, h]
  cases registration <;> exact ⟨rfl, rfl, rfl⟩

/-- User types travel under readable kinds of user types, which say whether the type is known
by its name. -/
theorem kind_of_registration {spec : TypeSpec} {registration : Registration}
    (h : spec.registration? = some registration) (compatible : Bool) :
    (spec.kind compatible).isUser = true ∧ (spec.kind compatible).isReadable = true ∧
      (spec.kind compatible).isNamed = registration.isByName := by
  unfold registration? at h
  unfold kind
  cases hrole : spec.role with
  | builtin kind => rw [hrole] at h; cases h
  | struct own fields =>
    rw [hrole] at h
    cases h
    cases registration <;> cases compatible <;> exact ⟨rfl, rfl, rfl⟩
  | enum own =>
    rw [hrole] at h
    cases h
    cases registration <;> exact ⟨rfl, rfl, rfl⟩
  | ext own =>
    rw [hrole] at h
    cases h
    cases registration <;> exact ⟨rfl, rfl, rfl⟩

/-- A user type is of the family of its own kind. -/
theorem isOfFamily_kind {spec : TypeSpec} {registration : Registration}
    (h : spec.registration? = some registration) (compatible : Bool) :
    spec.isOfFamily (spec.kind compatible) = true := by
  unfold isOfFamily
  cases hrole : spec.role with
  | builtin kind =>
    rw [registration?, hrole] at h
    cases h
  | struct own fields => exact isStruct_kind hrole compatible
  | enum own => exact (isEnum_kind hrole compatible).2
  | ext own => exact (isExt_kind hrole compatible).2.2

/-- The kind of a type depends on its role alone. -/
theorem kind_congr {spec own : TypeSpec} (h : own.role = spec.role) (compatible : Bool) :
    own.kind compatible = spec.kind compatible := by
  rw [kind, h]
  rfl

/-- The type id depends on the role alone. -/
theorem typeId_congr {spec own : TypeSpec} (h : own.role = spec.role) (compatible : Bool) :
    own.typeId compatible = spec.typeId compatible := by
  have hregistration : own.registration? = spec.registration? := by
    rw [registration?, h]
    rfl
  rw [typeId, kind_congr h, hregistration]
  rfl

end TypeSpec

namespace Registry.WellFormed

variable {registry : Registry} {spec : TypeSpec}

/-- A type that is known by its number is found by its type id. -/
theorem ofTypeId_typeId (h : registry.WellFormed) (hmem : spec ∈ registry.specs) {n : Nat}
    (hregistration : spec.registration? = some (.id n)) (compatible : Bool) :
    registry.ofTypeId (spec.typeId compatible) = .ok spec := by
  obtain ⟨huser, -, hnamed⟩ := TypeSpec.kind_of_registration hregistration compatible
  have hn := (h.users spec hmem _ hregistration).2 n rfl
  have hid := spec.toNat_typeId_div hregistration hn compatible
  have hfamily := spec.isOfFamily_kind hregistration compatible
  rw [ofTypeId, Lookups.ofTypeId, spec.ofTypeId?_typeId]
  simp only [lookups, huser, hnamed, Registration.isByName, hid, h.ofRegistration?_eq hmem hregistration,
    hfamily, Bool.not_true, Bool.false_eq_true, if_false, if_true]

/-- A type that is known by its name is found by it. -/
theorem ofName_eq (h : registry.WellFormed) (hmem : spec ∈ registry.specs) {space name : String}
    (hregistration : spec.registration? = some (.name space name)) :
    registry.ofName space name = .ok spec := by
  rw [ofName, Lookups.ofName]
  simp only [lookups, h.ofRegistration?_eq hmem hregistration]

end Registry.WellFormed

namespace WireType

variable {registry own : Registry} {compatible : Bool}

/-- The parts of a derived wire type besides its arguments. -/
theorem of_ofFieldType_ok {type : FieldType} {tracked : Bool} {t : WireType}
    (h : ofFieldType registry compatible type tracked = .ok t) :
    ∃ spec, registry.resolve type = .ok spec ∧ t.id = spec.typeId compatible ∧
      t.nullable = type.nullable ∧ t.tracked = tracked := by
  cases type with
  | scalar host nullable =>
    obtain ⟨spec, hspec, heq⟩ := exists_of_except_bind_ok h
    cases heq
    exact ⟨spec, hspec, rfl, rfl, rfl⟩
  | list name element nullable =>
    obtain ⟨spec, hspec, h⟩ := exists_of_except_bind_ok h
    obtain ⟨inner, -, heq⟩ := exists_of_except_bind_ok h
    cases heq
    exact ⟨spec, hspec, rfl, rfl, rfl⟩
  | set name element nullable =>
    obtain ⟨spec, hspec, h⟩ := exists_of_except_bind_ok h
    obtain ⟨inner, -, heq⟩ := exists_of_except_bind_ok h
    cases heq
    exact ⟨spec, hspec, rfl, rfl, rfl⟩
  | map name key value nullable =>
    obtain ⟨spec, hspec, h⟩ := exists_of_except_bind_ok h
    obtain ⟨keyType, -, h⟩ := exists_of_except_bind_ok h
    obtain ⟨valueType, -, heq⟩ := exists_of_except_bind_ok h
    cases heq
    exact ⟨spec, hspec, rfl, rfl, rfl⟩

/-- The id of a derived wire type is that of the registered type. -/
theorem with_id_eq {type : FieldType} {tracked : Bool} {t : WireType} {spec : TypeSpec}
    (hspec : registry.resolve type = .ok spec)
    (h : ofFieldType registry compatible type tracked = .ok t) :
    { t with id := UInt32.ofNat (spec.typeId compatible).toNat } = t := by
  obtain ⟨own, hown, hid, -⟩ := of_ofFieldType_ok h
  cases hspec.symm.trans hown
  rw [UInt32.ofNat_toNat, ← hid]
  cases t
  rfl

/-- The argument of a derived list type. -/
theorem argument_of_list {name : String} {element : FieldType} {nullable tracked : Bool} {t : WireType}
    (h : ofFieldType registry compatible (.list name element nullable) tracked = .ok t) :
    ∃ inner, t.args = [inner] ∧ ofFieldType registry compatible element false = .ok inner := by
  obtain ⟨spec, -, h⟩ := exists_of_except_bind_ok h
  obtain ⟨inner, hinner, heq⟩ := exists_of_except_bind_ok h
  cases heq
  exact ⟨inner, rfl, hinner⟩

/-- The argument of a derived set type. -/
theorem argument_of_set {name : String} {element : FieldType} {nullable tracked : Bool} {t : WireType}
    (h : ofFieldType registry compatible (.set name element nullable) tracked = .ok t) :
    ∃ inner, t.args = [inner] ∧ ofFieldType registry compatible element false = .ok inner := by
  obtain ⟨spec, -, h⟩ := exists_of_except_bind_ok h
  obtain ⟨inner, hinner, heq⟩ := exists_of_except_bind_ok h
  cases heq
  exact ⟨inner, rfl, hinner⟩

/-- The arguments of a derived map type. -/
theorem arguments_of_map {name : String} {key value : FieldType} {nullable tracked : Bool} {t : WireType}
    (h : ofFieldType registry compatible (.map name key value nullable) tracked = .ok t) :
    ∃ keyType valueType, t.args = [keyType, valueType] ∧
      ofFieldType registry compatible key false = .ok keyType ∧
      ofFieldType registry compatible value false = .ok valueType := by
  obtain ⟨spec, -, h⟩ := exists_of_except_bind_ok h
  obtain ⟨keyType, hkey, h⟩ := exists_of_except_bind_ok h
  obtain ⟨valueType, hvalue, heq⟩ := exists_of_except_bind_ok h
  cases heq
  exact ⟨keyType, valueType, rfl, hkey, hvalue⟩

end WireType

/-- All scalar types in a declared type are among the given ones, and so are all collections. -/
def FieldType.Over (scalars : HostType → Prop) (collections : String → Prop) : FieldType → Prop
  | .scalar host _ => scalars host
  | .list name element _ | .set name element _ =>
    collections name ∧ element.Over scalars collections
  | .map name key value _ =>
    collections name ∧ key.Over scalars collections ∧ value.Over scalars collections

/-- A type is over the same types where the value may be missing. -/
theorem FieldType.Over.orNull {scalars : HostType → Prop} {collections : String → Prop}
    {type : FieldType} (h : type.Over scalars collections) :
    type.orNull.Over scalars collections := by
  cases type <;> exact h

/-- A type is scalar or a collection, and among the given ones of either. -/
theorem FieldType.Over.cases {scalars : HostType → Prop} {collections : String → Prop}
    {type : FieldType} (h : type.Over scalars collections) :
    (∃ host nullable, type = .scalar host nullable ∧ scalars host) ∨
      ∃ name kind, type.host = .collection name ∧ type.sort? = some kind ∧ collections name := by
  cases type with
  | scalar host nullable => exact .inl ⟨host, nullable, rfl, h⟩
  | list name | set name | map name => exact .inr ⟨name, _, rfl, rfl, h.1⟩

/-- Both registries have a type in the same role for a type of the program. -/
def Registry.SameRole (registry own : Registry) (host : HostType) : Prop :=
  ∃ spec other, registry.ofHost? host = some spec ∧ own.ofHost? host = some other ∧
    other.role = spec.role

/-- The given scalar types are registered in both registries, and play the same roles there. So do
the given collections, if they are registered at all. -/
structure Registry.SameRoles (registry own : Registry) (scalars : HostType → Prop)
    (collections : String → Prop) : Prop where
  /-- The scalar types are registered. -/
  scalars : ∀ host, scalars host → registry.SameRole own host
  /-- The collections are registered in both registries or in none. -/
  collections : ∀ name, collections name → registry.SameRole own (.collection name) ∨
    registry.ofHost? (.collection name) = none ∧ own.ofHost? (.collection name) = none

/-- All scalar types in a declared type are registered. -/
def Registry.Covers (registry : Registry) (type : FieldType) : Prop :=
  type.Over (fun host => (registry.ofHost? host).isSome) fun _ => True

instance Registry.decidableCovers (registry : Registry) :
    ∀ type : FieldType, Decidable (registry.Covers type)
  | .scalar host _ => inferInstanceAs (Decidable ((registry.ofHost? host).isSome = true))
  | .list _ element _ | .set _ element _ =>
    @instDecidableAnd True _ _ (registry.decidableCovers element)
  | .map _ key value _ =>
    @instDecidableAnd True _ _
      (@instDecidableAnd _ _ (registry.decidableCovers key) (registry.decidableCovers value))

/-- Registered types play the same roles in one registry. -/
theorem Registry.sameRoles_self (registry : Registry) :
    registry.SameRoles registry (fun host => (registry.ofHost? host).isSome) fun _ => True where
  scalars host hhost := by
    obtain ⟨spec, hspec⟩ := Option.isSome_iff_exists.mp hhost
    exact ⟨spec, spec, hspec, hspec, rfl⟩
  collections name _ := by
    cases hspec : registry.ofHost? (.collection name) with
    | none => exact .inr ⟨rfl, rfl⟩
    | some spec => exact .inl ⟨spec, spec, hspec, hspec, rfl⟩

section Agreement

variable {registry own : Registry} {scalars : HostType → Prop} {collections : String → Prop}

/-- A declared type resolves to types of the same role. -/
theorem Registry.SameRoles.exists_resolve (h : registry.SameRoles own scalars collections)
    (hregistry : registry.WellFormed) (hown : own.WellFormed) {type : FieldType}
    (htype : type.Over scalars collections) :
    ∃ spec other, registry.resolve type = .ok spec ∧ own.resolve type = .ok other ∧
      other.role = spec.role := by
  rcases htype.cases with ⟨host, nullable, rfl, hhost⟩ | ⟨name, kind, hname, hsort, hcollection⟩
  · simp only [resolve_eq_ok_iff]
    exact h.scalars host hhost
  · rcases h.collections name hcollection with ⟨spec, other, hspec, hother, hrole⟩ | ⟨hnone, hother⟩
    · exact ⟨spec, other, resolve_of_ofHost? (hname ▸ hspec), resolve_of_ofHost? (hname ▸ hother),
        hrole⟩
    · have hkind := FieldType.mem_of_sort? hsort
      obtain ⟨spec, hspec, hrole⟩ := hregistry.exists_builtin? hkind
      obtain ⟨own, hbuiltin, hsame⟩ := hown.exists_builtin? hkind
      exact ⟨spec, own, resolve_of_builtin? (hname ▸ hnone) hsort hspec,
        resolve_of_builtin? (hname ▸ hother) hsort hbuiltin, hsame.trans hrole.symm⟩

/-- Registries of the same roles derive the same wire types. -/
theorem WireType.ofFieldType_congr (h : registry.SameRoles own scalars collections)
    (hregistry : registry.WellFormed) (hown : own.WellFormed) {type : FieldType}
    (htype : type.Over scalars collections) (compatible tracked : Bool) :
    ofFieldType own compatible type tracked = ofFieldType registry compatible type tracked := by
  induction type generalizing tracked with
  | scalar host nullable =>
    obtain ⟨spec, other, hspec, hother, hrole⟩ := h.exists_resolve hregistry hown htype
    simp only [ofFieldType, hspec, hother, bind, Except.bind, TypeSpec.typeId_congr hrole]
  | list name element nullable ih =>
    obtain ⟨spec, other, hspec, hother, hrole⟩ := h.exists_resolve hregistry hown htype
    simp only [ofFieldType, hspec, hother, bind, Except.bind, TypeSpec.typeId_congr hrole,
      ih htype.2]
  | set name element nullable ih =>
    obtain ⟨spec, other, hspec, hother, hrole⟩ := h.exists_resolve hregistry hown htype
    simp only [ofFieldType, hspec, hother, bind, Except.bind, TypeSpec.typeId_congr hrole,
      ih htype.2]
  | map name key value nullable ihKey ihValue =>
    obtain ⟨spec, other, hspec, hother, hrole⟩ := h.exists_resolve hregistry hown htype
    simp only [ofFieldType, hspec, hother, bind, Except.bind, TypeSpec.typeId_congr hrole,
      ihKey htype.2.1, ihValue htype.2.2]

/-- A wire type is derived of every type over scalar types that are registered. -/
theorem WireType.exists_ofFieldType (h : registry.SameRoles own scalars collections)
    (hregistry : registry.WellFormed) (hown : own.WellFormed) {type : FieldType}
    (htype : type.Over scalars collections) (compatible tracked : Bool) :
    ∃ t, ofFieldType registry compatible type tracked = .ok t := by
  induction type generalizing tracked with
  | scalar host nullable =>
    obtain ⟨spec, -, hspec, -⟩ := h.exists_resolve hregistry hown htype
    exact ⟨_, by rw [ofFieldType, hspec]; rfl⟩
  | list name element nullable ih =>
    obtain ⟨spec, -, hspec, -⟩ := h.exists_resolve hregistry hown htype
    obtain ⟨inner, hinner⟩ := ih htype.2 false
    exact ⟨_, by rw [ofFieldType, hspec, hinner]; rfl⟩
  | set name element nullable ih =>
    obtain ⟨spec, -, hspec, -⟩ := h.exists_resolve hregistry hown htype
    obtain ⟨inner, hinner⟩ := ih htype.2 false
    exact ⟨_, by rw [ofFieldType, hspec, hinner]; rfl⟩
  | map name key value nullable ihKey ihValue =>
    obtain ⟨spec, -, hspec, -⟩ := h.exists_resolve hregistry hown htype
    obtain ⟨keyType, hkey⟩ := ihKey htype.2.1 false
    obtain ⟨valueType, hvalue⟩ := ihValue htype.2.2 false
    exact ⟨_, by rw [ofFieldType, hspec, hkey, hvalue]; rfl⟩

/-- A wire type is derived only of a type over scalar types that are registered. -/
theorem WireType.covers_of_ofFieldType_ok {type : FieldType} {compatible tracked : Bool}
    {t : WireType} (h : ofFieldType registry compatible type tracked = .ok t) :
    registry.Covers type := by
  induction type generalizing tracked t with
  | scalar host nullable =>
    obtain ⟨spec, hspec, -⟩ := of_ofFieldType_ok h
    exact Option.isSome_iff_exists.mpr ⟨spec, Registry.resolve_eq_ok_iff.mp hspec⟩
  | list name element nullable ih =>
    obtain ⟨inner, -, hinner⟩ := argument_of_list h
    exact ⟨trivial, ih hinner⟩
  | set name element nullable ih =>
    obtain ⟨inner, -, hinner⟩ := argument_of_set h
    exact ⟨trivial, ih hinner⟩
  | map name key value nullable ihKey ihValue =>
    obtain ⟨keyType, valueType, -, hkey, hvalue⟩ := arguments_of_map h
    exact ⟨trivial, ihKey hkey, ihValue hvalue⟩

/-- Of any other type no wire type is derived, for a scalar type that is not registered. -/
theorem WireType.exists_unregistered (hregistry : registry.WellFormed) {type : FieldType}
    (h : ¬registry.Covers type) (compatible tracked : Bool) :
    ∃ host, registry.ofHost? host = none ∧
      ofFieldType registry compatible type tracked = .error (.unregistered host.label) := by
  induction type generalizing tracked with
  | scalar host nullable =>
    have hnone : registry.ofHost? host = none := Option.not_isSome_iff_eq_none.mp h
    have hunknown : registry.resolve (.scalar host nullable) = .error (.unregistered host.label) := by
      rw [Registry.resolve_eq, Registry.ofType?_scalar, hnone]
      rfl
    refine ⟨host, hnone, ?_⟩
    rw [ofFieldType, hunknown]
    rfl
  | list name element nullable ih =>
    obtain ⟨spec, hspec⟩ : ∃ spec, registry.resolve (.list name element nullable) = .ok spec :=
      hregistry.exists_resolve_of_sort? rfl
    obtain ⟨host, hnone, herror⟩ := ih (fun hcovers => h ⟨trivial, hcovers⟩) false
    refine ⟨host, hnone, ?_⟩
    rw [ofFieldType, hspec, herror]
    rfl
  | set name element nullable ih =>
    obtain ⟨spec, hspec⟩ : ∃ spec, registry.resolve (.set name element nullable) = .ok spec :=
      hregistry.exists_resolve_of_sort? rfl
    obtain ⟨host, hnone, herror⟩ := ih (fun hcovers => h ⟨trivial, hcovers⟩) false
    refine ⟨host, hnone, ?_⟩
    rw [ofFieldType, hspec, herror]
    rfl
  | map name key value nullable ihKey ihValue =>
    obtain ⟨spec, hspec⟩ : ∃ spec, registry.resolve (.map name key value nullable) = .ok spec :=
      hregistry.exists_resolve_of_sort? rfl
    by_cases hkey : registry.Covers key
    · obtain ⟨keyType, hderived⟩ :=
        exists_ofFieldType registry.sameRoles_self hregistry hregistry hkey compatible false
      obtain ⟨host, hnone, herror⟩ := ihValue (fun hvalue => h ⟨trivial, hkey, hvalue⟩) false
      refine ⟨host, hnone, ?_⟩
      rw [ofFieldType, hspec, hderived, herror]
      rfl
    · obtain ⟨host, hnone, herror⟩ := ihKey hkey false
      refine ⟨host, hnone, ?_⟩
      rw [ofFieldType, hspec, herror]
      rfl

/-- Fields are derived where their types are over scalar types that are registered. -/
theorem Schema.exists_ofFields (h : registry.SameRoles own scalars collections)
    (hregistry : registry.WellFormed) (hown : own.WellFormed) {fields : List FieldDescriptor}
    (hfields : ∀ field ∈ fields, field.type.Over scalars collections) (compatible : Bool) :
    ∃ made, ofFields registry compatible fields = .ok made := by
  induction fields with
  | nil => exact ⟨[], rfl⟩
  | cons field rest ih =>
    obtain ⟨t, ht⟩ := WireType.exists_ofFieldType h hregistry hown
      (hfields field List.mem_cons_self) compatible field.tracked
    obtain ⟨others, hothers⟩ := ih fun other hmem => hfields other (List.mem_cons_of_mem _ hmem)
    exact ⟨_, by rw [ofFields, ht, hothers]; rfl⟩

/-- Registries of the same roles derive the same fields. -/
theorem Schema.ofFields_congr (h : registry.SameRoles own scalars collections)
    (hregistry : registry.WellFormed) (hown : own.WellFormed) {fields : List FieldDescriptor}
    (hfields : ∀ field ∈ fields, field.type.Over scalars collections) (compatible : Bool) :
    ofFields own compatible fields = ofFields registry compatible fields := by
  induction fields with
  | nil => rfl
  | cons field rest ih =>
    have hfirst := WireType.ofFieldType_congr h hregistry hown
      (hfields field List.mem_cons_self) compatible field.tracked
    have hrest := ih fun other hmem => hfields other (List.mem_cons_of_mem _ hmem)
    simp only [ofFields, hfirst, hrest]

/-- The schema of a user type from its registration and its derived fields. -/
def Schema.registered (registration : Registration) (spec : TypeSpec) (compatible : Bool)
    (fields : List SchemaField) : Schema :=
  match registration with
  | .id _ => ⟨false, spec.typeId compatible, "", "", fields⟩
  | .name space name => ⟨true, 0, space, name, fields⟩

/-- A schema is derived of every user type whose fields can be derived. -/
theorem Schema.ofSpec_eq_ok {spec : TypeSpec} {registration : Registration}
    (hregistration : spec.registration? = some registration) {compatible : Bool}
    {fields : List SchemaField} (hfields : ofFields registry compatible spec.fields = .ok fields) :
    ofSpec registry spec compatible = .ok (registered registration spec compatible fields) := by
  rw [ofSpec, hregistration]
  dsimp only
  rw [hfields]
  cases registration <;> rfl

/-- Registries of the same roles derive the same schema of a type. -/
theorem Schema.ofSpec_congr (h : registry.SameRoles own scalars collections)
    (hregistry : registry.WellFormed) (hown : own.WellFormed) {spec other : TypeSpec}
    (hrole : other.role = spec.role) (huser : spec.isUser = true)
    (hfields : ∀ field ∈ spec.fields, field.type.Over scalars collections) (compatible : Bool) :
    ofSpec own other compatible = ofSpec registry spec compatible := by
  obtain ⟨registration, hregistration⟩ := Option.isSome_iff_exists.mp huser
  have hother : other.registration? = some registration := by
    rw [← hregistration, TypeSpec.registration?, hrole]
    rfl
  have hsame : other.fields = spec.fields := by
    rw [TypeSpec.fields, hrole]
    rfl
  have hderived := ofFields_congr h hregistry hown hfields compatible
  simp only [ofSpec, hregistration, hother, hsame, hderived, TypeSpec.typeId_congr hrole]

end Agreement

namespace Schema

variable {registry : Registry} {compatible : Bool}

/-- The fields of a derived schema: one for each declared field, with its name, its flags and
its wire type. -/
theorem forall₂_of_ofFields_ok {declared : List FieldDescriptor} {fields : List SchemaField}
    (h : ofFields registry compatible declared = .ok fields) :
    List.Forall₂ (fun field made => made.name = field.name ∧ made.normalized = made ∧
      WireType.ofFieldType registry compatible field.type field.tracked = .ok made.type)
      declared fields := by
  induction declared generalizing fields with
  | nil =>
    cases h
    exact .nil
  | cons field rest ih =>
    obtain ⟨t, ht, h⟩ := exists_of_except_bind_ok h
    obtain ⟨others, hothers, heq⟩ := exists_of_except_bind_ok h
    cases heq
    obtain ⟨spec, -, -, hnullable, htracked⟩ := WireType.of_ofFieldType_ok ht
    refine .cons ⟨rfl, ?_, ht⟩ (ih hothers)
    rw [SchemaField.normalized]
    simp only [← hnullable, ← htracked, WireType.mk_parts]

/-- Fields are derived only where their types are over scalar types that are registered. -/
theorem covers_of_ofFields_ok {declared : List FieldDescriptor} {fields : List SchemaField}
    (h : ofFields registry compatible declared = .ok fields) :
    ∀ field ∈ declared, registry.Covers field.type := by
  have hall := forall₂_of_ofFields_ok h
  clear h
  induction hall with
  | nil => exact nofun
  | cons hfield _ ih =>
    exact List.forall_mem_cons.mpr ⟨WireType.covers_of_ofFieldType_ok hfield.2.2, ih⟩

/-- The fields of a derived schema have the declared names. -/
theorem names_of_ofFields_ok {declared : List FieldDescriptor} {fields : List SchemaField}
    (h : ofFields registry compatible declared = .ok fields) :
    fields.map SchemaField.name = declared.map FieldDescriptor.name := by
  have hall := forall₂_of_ofFields_ok h
  clear h
  induction hall with
  | nil => rfl
  | cons hfield _ ih => rw [List.map_cons, List.map_cons, hfield.1, ih]

/-- The fields in front are derived from the declared ones in front, and so are the others. -/
theorem exists_of_ofFields_append_ok {front back : List FieldDescriptor} {fields : List SchemaField}
    (h : ofFields registry compatible (front ++ back) = .ok fields) :
    ∃ first rest, fields = first ++ rest ∧ ofFields registry compatible front = .ok first ∧
      ofFields registry compatible back = .ok rest := by
  induction front generalizing fields with
  | nil => exact ⟨[], fields, rfl, rfl, h⟩
  | cons field front ih =>
    obtain ⟨type, htype, h⟩ := exists_of_except_bind_ok h
    obtain ⟨others, hothers, heq⟩ := exists_of_except_bind_ok h
    cases heq
    obtain ⟨first, rest, rfl, hfirst, hrest⟩ := ih hothers
    refine ⟨_ :: first, rest, rfl, ?_, hrest⟩
    rw [ofFields, htype, hfirst]
    rfl

/-- The fields of a derived schema are those of the type. -/
theorem fields_of_ofSpec_ok {spec : TypeSpec} {schema : Schema}
    (h : ofSpec registry spec compatible = .ok schema) :
    ofFields registry compatible spec.fields = .ok schema.fields := by
  unfold ofSpec at h
  split at h
  next => cases h
  next registration _ =>
    obtain ⟨fields, hfields, h⟩ := exists_of_except_bind_ok h
    cases registration <;> cases h <;> exact hfields

/-- A derived schema comes out of its blob as it is. -/
theorem normalized_of_ofSpec_ok {spec : TypeSpec} {schema : Schema}
    (h : ofSpec registry spec compatible = .ok schema) : schema.normalized = schema := by
  have hall := forall₂_of_ofFields_ok (fields_of_ofSpec_ok h)
  have hfields : schema.fields.map SchemaField.normalized = schema.fields := by
    generalize schema.fields = fields, spec.fields = declared at hall
    induction hall with
    | nil => rfl
    | cons hfield _ ih => rw [List.map_cons, hfield.2.1, ih]
  unfold ofSpec at h
  split at h
  next => cases h
  next registration _ =>
    obtain ⟨fields, -, h⟩ := exists_of_except_bind_ok h
    cases registration <;> cases h <;> simp [normalized, hfields]

end Schema

end SchemaWire
