import SchemaWire.Proofs.Message.Peers
import SchemaWire.Proofs.Data.Reading
import SchemaWire.Proofs.Schema.Derive
import SchemaWire.Proofs.Value.Typing

/-!
# Type information is understood

The reader of a message learns from the type information of a value what the writer's
registry says of its type: from a schema that the message announces, or from the local type
with the same name or number.
-/

namespace SchemaWire

/-- Builtins that can be declared, and user types among the given ones. -/
def HostType.Among (hosts : HostType → Prop) : HostType → Prop
  | .user name => hosts (.user name)
  | .collection _ | .char | .unit => False
  | _ => True

/-- Types over builtins and the given user types and collections. -/
def FieldType.Among (hosts : HostType → Prop) (type : FieldType) : Prop :=
  type.Over (HostType.Among hosts) fun name => hosts (.collection name)

/-- A scalar type that can be declared is a builtin or one of the user types. -/
theorem HostType.Among.builtin_or_user {hosts : HostType → Prop} {host : HostType}
    (h : host.Among hosts) :
    (∃ kind, (host, kind) ∈ Registry.scalarBuiltins) ∨
      ∃ name, host = .user name ∧ hosts (.user name) := by
  cases host with
  | user name => exact .inr ⟨name, rfl, h⟩
  | collection name | char | unit => exact h.elim
  | int t => exact .inl ⟨t.kind, by cases t <;> decide⟩
  | bool => exact .inl ⟨.boolean, by decide⟩
  | float32 => exact .inl ⟨.float32, by decide⟩
  | float64 => exact .inl ⟨.float64, by decide⟩
  | string | str => exact .inl ⟨.string, by decide⟩
  | bytes => exact .inl ⟨.binary, by decide⟩

/-- A declarable shape is declared over builtins and the given user types and collections. -/
theorem Shape.Declarable.among {hosts : HostType → Prop} {shape : Shape}
    (h : shape.Declarable hosts) : shape.declared.Among hosts := by
  induction h with
  | option _ _ ih => exact FieldType.Over.orNull ih
  | list hname _ ih | set hname _ ih => exact ⟨hname, ih⟩
  | map hname _ _ ihKey ihValue => exact ⟨hname, ihKey, ihValue⟩
  | user h => exact h
  | _ => trivial

/-- Both registries know the type, in the same role, and the role suits it. A collection may also be
registered in neither. -/
def Registry.Shares (registry own : Registry) (shapes : Shapes) (hosts : HostType → Prop)
    (host : HostType) : Prop :=
  (∃ spec other, registry.ofHost? host = some spec ∧ own.ofHost? host = some other ∧
    other.role = spec.role ∧ spec.role.Suits shapes hosts host) ∨
  host.isCollection = true ∧ registry.ofHost? host = none ∧ own.ofHost? host = none

/-- The entries of a type are made of bytes in an encoding. -/
theorem TypeSpec.exists_of_mem_entries (spec : TypeSpec) {entry : Name.Entry}
    (h : entry ∈ spec.entries) : ∃ bytes encoding, entry = .of bytes encoding := by
  have hmade (scheme : Name.Scheme) (name : String) :
      ∃ bytes encoding, scheme.entry name = .of bytes encoding := by
    unfold Name.Scheme.entry
    split
    · exact ⟨_, _, rfl⟩
    · exact ⟨_, _, rfl⟩
  unfold entries at h
  split at h
  next =>
    rcases List.mem_cons.mp h with rfl | hrest
    · exact hmade _ _
    · rw [List.mem_singleton.mp hrest]
      exact hmade _ _
  next => cases h

/-- Only user types are told of by schemas. -/
theorem Kind.refersToSchema_of_builtin {kind : Kind} (h : kind.isUser = false) (compatible : Bool) :
    kind.refersToSchema compatible = false := by
  cases kind <;> cases compatible <;> first | rfl | cases h

/-- Only where schemas travel does type information refer to them. -/
theorem TypeSpec.compatible_of_refersToSchema {spec : TypeSpec} {registration : Registration}
    (h : spec.registration? = some registration) {compatible : Bool}
    (hrefers : (spec.kind compatible).refersToSchema compatible = true) : compatible = true := by
  unfold registration? at h
  unfold kind at hrefers
  cases compatible with
  | true => rfl
  | false =>
    cases hrole : spec.role with
    | builtin kind => rw [hrole] at h; cases h
    | struct own fields => rw [hrole] at hrefers; cases own <;> cases hrefers
    | enum own => rw [hrole] at hrefers; cases own <;> cases hrefers
    | ext own => rw [hrole] at hrefers; cases own <;> cases hrefers

/-- A type that was queued stands at its place in the queue. -/
theorem Write.exists_queued_of_queueSchema_ok {registry : Registry} {spec : TypeSpec}
    {before after : WriteTables} {index : Nat}
    (h : queueSchema registry spec before = .ok index after) :
    ∃ queued, after.queue[index]? = some queued ∧ spec.host = some queued.host ∧
      after.names = before.names := by
  obtain ⟨host, hhost, ⟨queued, hqueued, hsame, rfl⟩ | ⟨-, schema, blob, -, -, rfl, rfl⟩⟩ :=
    of_queueSchema_ok h
  · exact ⟨queued, hqueued, hsame ▸ hhost, rfl⟩
  · exact ⟨_, List.getElem?_concat_length, hhost, rfl⟩

/-- Type information starts with the type id. -/
theorem Write.exists_of_typeInfo_ok {registry : Registry} {compatible : Bool} {spec : TypeSpec}
    {before after : WriteTables} {bytes : List UInt8}
    (h : typeInfo registry compatible spec before = .ok bytes after) :
    ∃ rest, bytes = Varint.encode32 (spec.typeId compatible).toNat ++ rest := by
  unfold typeInfo at h
  split at h
  · obtain ⟨index, between, -, h⟩ := exists_of_bind_ok h
    cases h
    exact ⟨_, rfl⟩
  · cases hregistration : spec.registration? with
    | none =>
      rw [hregistration] at h
      cases h
      exact ⟨[], (List.append_nil _).symm⟩
    | some registration =>
      rw [hregistration] at h
      cases registration with
      | id n =>
        cases h
        exact ⟨[], (List.append_nil _).symm⟩
      | name space typeName =>
        obtain ⟨spaceBytes, between, -, h⟩ := exists_of_bind_ok h
        obtain ⟨nameBytes, last, -, h⟩ := exists_of_bind_ok h
        cases h
        exact ⟨_, List.append_assoc _ _ _⟩

/-- A reference leads to the schema at its place. -/
theorem Read.schemaAt_reference {schemas : List Schema} {index : Nat} {schema : Schema}
    (h : schemas[index]? = some schema) :
    schemaAt schemas (SchemaQueue.reference index) = .ok schema := by
  have hodd : ¬ (2 * (index + 1) + 1) % 2 = 0 := by omega
  have hhalf : (2 * (index + 1) + 1) / 2 = index + 1 := by omega
  rw [schemaAt, SchemaQueue.reference, if_neg hodd, hhalf, if_neg (Nat.succ_ne_zero index),
    Nat.add_sub_cancel, h]

namespace Peers

variable {peers : Peers} {hosts : HostType → Prop}

/-- The peers have the same settings, up to a deeper limit of the reader, and have the given types
in the same way. -/
structure Agree (peers : Peers) (hosts : HostType → Prop) : Prop where
  /-- Both or neither let schemas travel. -/
  compatible : peers.read.config.compatible = peers.write.config.compatible
  /-- The reader goes at least as deep as the writer. -/
  depth : peers.write.config.maxDepth ≤ peers.read.config.maxDepth
  /-- The writer's registry is well-formed. -/
  written : peers.write.registry.WellFormed
  /-- The reader's registry is well-formed. -/
  own : peers.read.registry.WellFormed
  /-- The writer's registry is not too large. -/
  addressable : peers.write.registry.Addressable
  /-- The reader knows the schemas of the message. -/
  announced : peers.write.config.compatible = true →
    peers.write.registry.Announces peers.read.schemas peers.queue
  /-- The given types are registered alike. -/
  types : ∀ host, hosts host →
    peers.write.registry.Shares peers.read.registry peers.read.shapes hosts host

/-- The peers agree on whether schemas travel, both registries are well-formed, and the reader knows
the schemas of the message. The types need not be the same. -/
structure Linked (peers : Peers) : Prop where
  /-- Both or neither let schemas travel. -/
  compatible : peers.read.config.compatible = peers.write.config.compatible
  /-- The writer's registry is well-formed. -/
  written : peers.write.registry.WellFormed
  /-- The reader's registry is well-formed. -/
  own : peers.read.registry.WellFormed
  /-- The writer's registry is not too large. -/
  addressable : peers.write.registry.Addressable
  /-- The reader knows the schemas of the message. -/
  announced : peers.write.config.compatible = true →
    peers.write.registry.Announces peers.read.schemas peers.queue

/-- Peers with the same types are linked. -/
theorem Agree.linked (h : peers.Agree hosts) : peers.Linked where
  compatible := h.compatible
  written := h.written
  own := h.own
  addressable := h.addressable
  announced := h.announced

/-- What a reader is told of a value says what the writer's registry says of its type. -/
inductive Describes (peers : Peers) (spec : TypeSpec) : Resolved → Prop
  /-- A builtin is of its kind. -/
  | builtin {kind : Kind} (h : spec.role = .builtin kind) : Describes peers spec (.known kind)
  /-- A struct has its derived schema. -/
  | struct {registration : Registration} {fields : List FieldDescriptor} {schema : Schema}
    (h : spec.role = .struct registration fields)
    (hschema : Schema.ofSpec peers.write.registry spec peers.write.config.compatible =
      .ok schema) : Describes peers spec (.struct schema)
  /-- An enum is an enum. -/
  | enum {registration : Registration} (h : spec.role = .enum registration) :
    Describes peers spec .enum
  /-- A type with a layout of its own is known by its scalar type. -/
  | ext {registration : Registration} (h : spec.role = .ext registration) :
    Describes peers spec (.ext spec.host)

/-- What a reader is told of a struct is its derived schema. -/
theorem Describes.exists_schema {spec : TypeSpec} {resolved : Resolved}
    (h : peers.Describes spec resolved) {registration : Registration}
    {fields : List FieldDescriptor} (hrole : spec.role = .struct registration fields) :
    ∃ schema, resolved = .struct schema ∧
      Schema.ofFields peers.write.registry peers.write.config.compatible fields =
        .ok schema.fields := by
  cases h with
  | builtin hother => cases hrole.symm.trans hother
  | enum hother => cases hrole.symm.trans hother
  | ext hother => cases hrole.symm.trans hother
  | @struct _ _ schema hother hschema =>
    have hderived := Schema.fields_of_ofSpec_ok hschema
    rw [TypeSpec.fields, hrole] at hderived
    exact ⟨schema, rfl, hderived⟩

/-- The type information of a builtin is its kind. -/
theorem mirrors_typeInfo_of_builtin {spec : TypeSpec} {kind : Kind} (hrole : spec.role = .builtin kind)
    (huser : kind.isUser = false) (hreadable : kind.isReadable = true) :
    peers.Mirrors (Write.typeInfo peers.write.registry peers.write.config.compatible spec)
      (Read.typeInfo peers.read) (.known kind) := by
  have hsame : spec.kind peers.write.config.compatible = kind := by
    rw [TypeSpec.kind, hrole]
  have hregistration : spec.registration? = none := by
    rw [TypeSpec.registration?, hrole]
  have hrefers := Kind.refersToSchema_of_builtin huser peers.write.config.compatible
  have hid : (spec.typeId peers.write.config.compatible).toNat < 2 ^ 32 := UInt32.toNat_lt _
  have hkind := spec.kindOf_typeId peers.write.config.compatible
  have hwrite : Write.typeInfo peers.write.registry peers.write.config.compatible spec =
      pure (Varint.encode32 (spec.typeId peers.write.config.compatible).toNat) := by
    rw [Write.typeInfo, hsame, hrefers, hregistration]
    rfl
  rw [hwrite]
  refine .pure fun _ => (Read.Reads.take (Varint.reads_take32 hid)).bind_nil ?_
  rw [UInt32.ofNat_toNat]
  refine .ofExcept_bind hkind ?_
  rw [hsame, hreadable, huser]
  exact .pure _

/-- The reader can do without a local type of its own, or has one in the same role. -/
def Knows (peers : Peers) (spec : TypeSpec) : Prop :=
  (peers.write.config.compatible = true ∧ ∃ registration fields,
    spec.role = .struct registration fields) ∨
  ∃ other ∈ peers.read.registry.specs, other.host = spec.host ∧ other.role = spec.role

namespace Linked

/-- A type id of a readable kind leads to what follows it. -/
theorem reads_typeInfo {spec : TypeSpec} {registration : Registration}
    (hregistration : spec.registration? = some registration) {compatible : Bool}
    {env : ReadEnv} {table after : Name.Table} {bytes : List UInt8} {resolved : Resolved}
    (hrest : (Read.userInfo env (spec.typeId compatible) (spec.kind compatible)).Reads table
      bytes resolved after) :
    (Read.typeInfo env).Reads table
      (Varint.encode32 (spec.typeId compatible).toNat ++ bytes) resolved after := by
  have hid : (spec.typeId compatible).toNat < 2 ^ 32 := UInt32.toNat_lt _
  obtain ⟨huser, hreadable, -⟩ := TypeSpec.kind_of_registration hregistration compatible
  refine Read.Reads.take_bind (Varint.reads_take32 hid) ?_
  rw [UInt32.ofNat_toNat]
  refine Read.Reads.ofExcept_bind (spec.kindOf_typeId compatible) ?_
  simp only [huser, hreadable, Bool.not_true, Bool.false_eq_true, if_false, if_true]
  exact hrest

/-- A local type of the same role tells what the writer's registry says, if the same schema is derived
of it. -/
theorem exists_ofSpec_eq_ok {spec other : TypeSpec} {registration : Registration}
    (hregistration : spec.registration? = some registration) (hhost : other.host = spec.host)
    (hsame : other.role = spec.role)
    (hderives : ∀ compatible, ∃ fields, Schema.ofSpec peers.write.registry spec compatible =
      .ok (.registered registration spec compatible fields))
    (hlocal : Schema.ofSpec peers.read.registry other false =
      Schema.ofSpec peers.write.registry spec false)
    (hrefers : (spec.kind peers.write.config.compatible).refersToSchema
      peers.write.config.compatible = false) :
    ∃ resolved, peers.Describes spec resolved ∧
      Read.ofSpec peers.read.registry (spec.kind peers.write.config.compatible) other =
        .ok resolved := by
  unfold Read.ofSpec
  rw [hsame]
  cases hrole : spec.role with
  | builtin kind => simp [TypeSpec.registration?, hrole] at hregistration
  | struct own declared =>
    have hcompatible : peers.write.config.compatible = false := by
      cases hcompatible : peers.write.config.compatible with
      | false => rfl
      | true =>
        rw [hcompatible, TypeSpec.kind, hrole] at hrefers
        cases own <;> cases hrefers
    obtain ⟨fields, hschema⟩ := hderives peers.write.config.compatible
    refine ⟨_, .struct hrole hschema, ?_⟩
    rw [hcompatible] at hschema
    dsimp only
    rw [if_pos (TypeSpec.isStruct_kind hrole _), hlocal, hschema, hcompatible]
    rfl
  | enum own =>
    have hkind := TypeSpec.isEnum_kind hrole peers.write.config.compatible
    exact ⟨_, .enum hrole, if_pos hkind.2⟩
  | ext own =>
    have hkind := TypeSpec.isExt_kind hrole peers.write.config.compatible
    refine ⟨_, .ext hrole, ?_⟩
    dsimp only
    rw [if_pos hkind.2.2, hhost]

variable (h : peers.Linked)
include h

/-- A queued type finds its schema where the reader looks for it. -/
theorem getElem?_schemas {spec : TypeSpec} (hmem : spec ∈ peers.write.registry.specs)
    (hcompatible : peers.write.config.compatible = true) {queue : SchemaQueue}
    (hqueue : queue <+: peers.queue) {index : Nat} {queued : QueuedSchema}
    (hindex : queue[index]? = some queued) (hhost : spec.host = some queued.host) :
    ∃ schema, peers.read.schemas[index]? = some schema ∧
      Schema.ofSpec peers.write.registry spec true = .ok schema := by
  have hfinal : peers.queue[index]? = some queued := getElem?_of_starts hqueue hindex
  obtain ⟨schema, hat, other, hother, hsame, hschema, -⟩ :=
    exists_getElem?_of_forall₂ (h.announced hcompatible) hfinal
  have hfound := h.written.ofHost?_eq hmem hhost
  have hspec := (h.written.ofHost?_eq hother hsame).symm.trans hfound
  cases hspec
  exact ⟨schema, hat, hschema⟩

/-- A schema that travels tells what the writer's registry says. -/
theorem describes_ofSchema {spec : TypeSpec} {registration : Registration}
    (hregistration : spec.registration? = some registration) (hknown : peers.Knows spec)
    (hcompatible : peers.write.config.compatible = true) {fields : List SchemaField}
    (hschema : Schema.ofSpec peers.write.registry spec true =
      .ok (.registered registration spec true fields))
    (hrefers : (spec.kind true).refersToSchema true = true) :
    peers.Describes spec (Read.ofSchema peers.read.registry (spec.kind true)
      (.registered registration spec true fields)) := by
  cases hrole : spec.role with
  | builtin kind => simp [TypeSpec.registration?, hrole] at hregistration
  | struct own declared =>
    rw [Read.ofSchema, if_pos (TypeSpec.isStruct_kind hrole true)]
    exact .struct hrole (hcompatible ▸ hschema)
  | enum own =>
    have hkind := TypeSpec.isEnum_kind hrole true
    rw [Read.ofSchema, hkind.1, hkind.2]
    exact .enum hrole
  | ext own =>
    have hown : own = registration := by
      simpa [TypeSpec.registration?, hrole] using hregistration
    subst hown
    cases own with
    | id n => simp [TypeSpec.kind, hrole, Registration.isByName, Kind.refersToSchema,
        Kind.isCompatibleStruct, Kind.isNamed] at hrefers
    | name space name =>
      rcases hknown with ⟨-, _, _, hstruct⟩ | ⟨other, hother, hhost, hsame⟩
      · rw [hrole] at hstruct
        cases hstruct
      · have hname : other.registration? = some (.name space name) := by
          rw [TypeSpec.registration?, hsame, hrole]
        have hfound : peers.read.registry.ofName space name = .ok other :=
          Registry.ofName_eq_ok_iff.mpr (h.own.ofRegistration?_eq hother hname)
        have hkind := TypeSpec.isExt_kind hrole true
        have htold : Read.ofSchema peers.read.registry (spec.kind true)
            (.registered (.name space name) spec true fields) = .ext spec.host := by
          simp only [Read.ofSchema, hkind.1, hkind.2.1, Schema.registered, hfound,
            Read.extHost?, hsame, hrole, hhost, if_true, Bool.false_eq_true, if_false]
        rw [htold]
        exact .ext hrole

/-- A reference to the schema of a type is understood. -/
theorem mirrors_of_schema {spec : TypeSpec} (hmem : spec ∈ peers.write.registry.specs)
    {registration : Registration} (hregistration : spec.registration? = some registration)
    {schema : Schema} (hschema : Schema.ofSpec peers.write.registry spec true = .ok schema)
    (hrefers : (spec.kind peers.write.config.compatible).refersToSchema
      peers.write.config.compatible = true) :
    peers.Mirrors (Write.typeInfo peers.write.registry peers.write.config.compatible spec)
      (Read.typeInfo peers.read)
      (Read.ofSchema peers.read.registry (spec.kind peers.write.config.compatible) schema) := by
  have hcompatible := TypeSpec.compatible_of_refersToSchema hregistration hrefers
  have hkeeps := Write.keeps_typeInfo hmem peers.write.config.compatible
  refine ⟨hkeeps, fun before bytes after hsound hqueue hok => ?_⟩
  have hlength := ((hkeeps _ _ _ hok).sound hsound).length_queue_le
  have hcount := h.addressable.count
  rw [Write.typeInfo, if_pos hrefers] at hok
  obtain ⟨index, between, hregister, hok⟩ := exists_of_bind_ok hok
  cases hok
  obtain ⟨queued, hindex, hhost, hnames⟩ := Write.exists_queued_of_queueSchema_ok hregister
  obtain ⟨found, hat, hderived⟩ := h.getElem?_schemas hmem hcompatible hqueue hindex hhost
  cases hderived.symm.trans hschema
  have hplace : index < 2 ^ 30 := by
    obtain ⟨hlt, -⟩ := List.getElem?_eq_some_iff.mp hindex
    omega
  have hreference : SchemaQueue.reference index < 2 ^ 32 := by
    rw [SchemaQueue.reference]
    omega
  rw [hnames]
  refine reads_typeInfo hregistration ?_
  rw [Read.userInfo, h.compatible, if_pos hrefers, ← List.append_nil (Varint.encode32 _)]
  refine Read.Reads.take_bind (Varint.reads_take32 hreference) ?_
  exact Read.Reads.ofExcept_bind (Read.schemaAt_reference hat) (.pure _)

/-- Where schemas travel, the type information of a struct tells its schema, whatever types the reader
knows. -/
theorem exists_mirrors_struct {spec : TypeSpec} (hmem : spec ∈ peers.write.registry.specs)
    (htravels : peers.write.config.compatible = true) {registration : Registration}
    {declared : List FieldDescriptor} (hrole : spec.role = .struct registration declared)
    {fields : List SchemaField}
    (hfields : Schema.ofFields peers.write.registry true declared = .ok fields) :
    ∃ resolved, peers.Describes spec resolved ∧
      peers.Mirrors (Write.typeInfo peers.write.registry peers.write.config.compatible spec)
        (Read.typeInfo peers.read) resolved := by
  have hregistration : spec.registration? = some registration := by
    rw [TypeSpec.registration?, hrole]
  have hown : spec.fields = declared := by
    rw [TypeSpec.fields, hrole]
  have hschema := Schema.ofSpec_eq_ok hregistration (hown ▸ hfields)
  have hrefers : (spec.kind true).refersToSchema true = true := by
    rw [TypeSpec.kind, hrole]
    cases registration <;> rfl
  have hmirrors := h.mirrors_of_schema hmem hregistration hschema (htravels.symm ▸ hrefers)
  rw [Read.ofSchema, if_pos (TypeSpec.isStruct_kind hrole _)] at hmirrors
  exact ⟨_, .struct hrole (htravels.symm ▸ hschema), hmirrors⟩

/-- Where schemas travel, the type information of an enum with a name tells that it is one, whatever
types the reader knows. -/
theorem mirrors_namedEnum {spec : TypeSpec} (hmem : spec ∈ peers.write.registry.specs)
    (htravels : peers.write.config.compatible = true) {space name : String}
    (hrole : spec.role = .enum (.name space name)) :
    peers.Mirrors (Write.typeInfo peers.write.registry peers.write.config.compatible spec)
      (Read.typeInfo peers.read) .enum := by
  have hregistration : spec.registration? = some (.name space name) := by
    rw [TypeSpec.registration?, hrole]
  have hown : Schema.ofFields peers.write.registry true spec.fields = .ok [] := by
    rw [TypeSpec.fields, hrole]
    rfl
  have hschema := Schema.ofSpec_eq_ok hregistration hown
  have hrefers : (spec.kind true).refersToSchema true = true := by
    rw [TypeSpec.kind, hrole]
    rfl
  have hmirrors := h.mirrors_of_schema hmem hregistration hschema (htravels.symm ▸ hrefers)
  have hkind := TypeSpec.isEnum_kind hrole peers.write.config.compatible
  rw [Read.ofSchema, hkind.1, hkind.2] at hmirrors
  exact hmirrors

/-- A name of a registered type is read back. -/
theorem mirrors_name {spec : TypeSpec} (hmem : spec ∈ peers.write.registry.specs)
    {scheme : Name.Scheme} {s : String} (hentry : scheme.entry s ∈ spec.entries) :
    peers.Mirrors (Write.name scheme s) (Read.name scheme) s := by
  have hnames : scheme.entry s ∈ peers.write.registry.specs.flatMap TypeSpec.entries :=
    List.mem_flatMap.mpr ⟨spec, hmem, hentry⟩
  refine ⟨Write.keeps_name hnames, fun before bytes after hsound _ hok back refs => ?_⟩
  obtain ⟨table, hwrite, rfl⟩ := Write.of_name_ok hok
  have htable : ∀ entry ∈ before.names, ∃ bytes encoding, entry = .of bytes encoding := by
    intro entry hentry
    obtain ⟨other, -, hother⟩ := List.mem_flatMap.mp (hsound.names hentry)
    exact other.exists_of_mem_entries hother
  have hcount : before.names.length < 2 ^ 31 - 1 := by
    have hlength := hsound.length_names_le
    have htypes := h.addressable.count
    omega
  have hsize : ∀ encoding bytes, scheme.encode s = .ok (encoding, bytes) →
      bytes.length < 2 ^ 31 := by
    intro encoding bytes hencode
    have hlength := h.addressable.names spec hmem _ hentry
    rw [Name.Scheme.entry, hencode] at hlength
    exact hlength
  have hread := Name.Table.reads_takeBy_of_write hwrite htable hcount hsize back
  exact ⟨refs, by rw [Read.name_eq, hread]⟩

/-- The type information of a type that is known by its number is understood. -/
theorem mirrors_of_id {spec other : TypeSpec} (hmem : spec ∈ peers.write.registry.specs) {n : Nat}
    (hregistration : spec.registration? = some (.id n))
    (hother : other ∈ peers.read.registry.specs) (hrole : other.role = spec.role)
    {resolved : Resolved}
    (htold : Read.ofSpec peers.read.registry (spec.kind peers.write.config.compatible) other =
      .ok resolved)
    (hrefers : (spec.kind peers.write.config.compatible).refersToSchema
      peers.write.config.compatible = false) :
    peers.Mirrors (Write.typeInfo peers.write.registry peers.write.config.compatible spec)
      (Read.typeInfo peers.read) resolved := by
  obtain ⟨-, -, hnamed⟩ :=
    TypeSpec.kind_of_registration hregistration peers.write.config.compatible
  have hsame : other.registration? = some (.id n) := by
    rw [← hregistration, TypeSpec.registration?, hrole]
    rfl
  have hlookup : peers.read.registry.ofTypeId (spec.typeId peers.write.config.compatible) =
      .ok other := by
    rw [← TypeSpec.typeId_congr hrole]
    exact h.own.ofTypeId_typeId hother hsame _
  have hkeeps := Write.keeps_typeInfo hmem peers.write.config.compatible
  refine ⟨hkeeps, fun before bytes after hsound hqueue hok => ?_⟩
  unfold Write.typeInfo at hok
  rw [hrefers, if_neg Bool.false_ne_true, hregistration] at hok
  cases hok
  rw [← List.append_nil (Varint.encode32 _)]
  refine reads_typeInfo hregistration ?_
  rw [Read.userInfo, h.compatible, hrefers, if_neg Bool.false_ne_true, hnamed,
    Registration.isByName, if_neg Bool.false_ne_true]
  exact Read.Reads.ofExcept_bind hlookup (.ofExcept htold)

/-- The type information of a type that is known by its name is understood. -/
theorem mirrors_of_name {spec other : TypeSpec} (hmem : spec ∈ peers.write.registry.specs)
    {space name : String} (hregistration : spec.registration? = some (.name space name))
    (hother : other ∈ peers.read.registry.specs) (hrole : other.role = spec.role)
    {resolved : Resolved}
    (htold : Read.ofSpec peers.read.registry (spec.kind peers.write.config.compatible) other =
      .ok resolved)
    (hrefers : (spec.kind peers.write.config.compatible).refersToSchema
      peers.write.config.compatible = false) :
    peers.Mirrors (Write.typeInfo peers.write.registry peers.write.config.compatible spec)
      (Read.typeInfo peers.read) resolved := by
  obtain ⟨-, -, hnamed⟩ :=
    TypeSpec.kind_of_registration hregistration peers.write.config.compatible
  have hsame : other.registration? = some (.name space name) := by
    rw [← hregistration, TypeSpec.registration?, hrole]
    rfl
  have hlookup := h.own.ofName_eq hother hsame
  have hentries : spec.entries =
      [Name.Scheme.space.entry space, Name.Scheme.type.entry name] := by
    rw [TypeSpec.entries, hregistration]
  have hfirst := h.mirrors_name hmem (hentries ▸ List.mem_cons_self)
  have hsecond := h.mirrors_name hmem (hentries ▸ List.mem_cons_of_mem _ List.mem_cons_self)
  have hkeeps := Write.keeps_typeInfo hmem peers.write.config.compatible
  refine ⟨hkeeps, fun before bytes after hsound hqueue hok => ?_⟩
  unfold Write.typeInfo at hok
  rw [hrefers, if_neg Bool.false_ne_true, hregistration] at hok
  obtain ⟨spaceBytes, between, hspace, hok⟩ := exists_of_bind_ok hok
  obtain ⟨nameBytes, last, hname, hok⟩ := exists_of_bind_ok hok
  cases hok
  have hgrows := hfirst.keeps _ _ _ hspace
  have hlast := hsecond.keeps _ _ _ hname
  rw [List.append_assoc]
  refine reads_typeInfo hregistration ?_
  rw [Read.userInfo, h.compatible, hrefers, if_neg Bool.false_ne_true, hnamed,
    Registration.isByName, if_pos rfl]
  refine (hfirst.reads _ _ _ hsound (hlast.queue.trans hqueue) hspace).bind ?_
  refine (hsecond.reads _ _ _ (hgrows.sound hsound) hqueue hname).bind_nil ?_
  exact Read.Reads.ofExcept_bind hlookup (.ofExcept htold)

/-- The type information of a user type is understood, if the reader needs no local type or derives
the same schema of it. -/
theorem exists_mirrors_typeInfo {spec : TypeSpec} (hmem : spec ∈ peers.write.registry.specs)
    {registration : Registration} (hregistration : spec.registration? = some registration)
    (hknown : peers.Knows spec)
    (hderives : ∀ compatible, ∃ fields, Schema.ofSpec peers.write.registry spec compatible =
      .ok (.registered registration spec compatible fields))
    (hlocal : ∀ other : TypeSpec, other.role = spec.role →
      Schema.ofSpec peers.read.registry other false =
        Schema.ofSpec peers.write.registry spec false) :
    ∃ resolved, peers.Describes spec resolved ∧
      peers.Mirrors (Write.typeInfo peers.write.registry peers.write.config.compatible spec)
        (Read.typeInfo peers.read) resolved := by
  cases hrefers : (spec.kind peers.write.config.compatible).refersToSchema
      peers.write.config.compatible with
  | true =>
    have hcompatible := TypeSpec.compatible_of_refersToSchema hregistration hrefers
    obtain ⟨fields, hschema⟩ := hderives true
    have hdescribes := h.describes_ofSchema hregistration hknown hcompatible hschema
      (hcompatible ▸ hrefers)
    have hmirrors := h.mirrors_of_schema hmem hregistration hschema hrefers
    rw [congrArg spec.kind hcompatible] at hmirrors
    exact ⟨_, hdescribes, hmirrors⟩
  | false =>
    rcases hknown with ⟨hcompatible, own, declared, hrole⟩ | ⟨other, hother, hhost, hrole⟩
    · rw [hcompatible, TypeSpec.kind, hrole] at hrefers
      cases own <;> cases hrefers
    · obtain ⟨resolved, hdescribes, htold⟩ :=
        exists_ofSpec_eq_ok hregistration hhost hrole hderives (hlocal other hrole) hrefers
      refine ⟨resolved, hdescribes, ?_⟩
      cases registration with
      | id n => exact h.mirrors_of_id hmem hregistration hother hrole htold hrefers
      | name space name => exact h.mirrors_of_name hmem hregistration hother hrole htold hrefers

end Linked

namespace Agree

variable (h : peers.Agree hosts)
include h

/-- The given types and the builtins play the same roles for both peers. -/
theorem sameRoles :
    peers.write.registry.SameRoles peers.read.registry (HostType.Among hosts)
      fun name => hosts (.collection name) where
  scalars host hhost := by
    rcases hhost.builtin_or_user with ⟨kind, hmem⟩ | ⟨name, rfl, hname⟩
    · obtain ⟨spec, hspec, hrole⟩ := h.written.exists_ofHost? hmem
      obtain ⟨other, hother, hsame⟩ := h.own.exists_ofHost? hmem
      exact ⟨spec, other, hspec, hother, hsame.trans hrole.symm⟩
    · obtain ⟨spec, other, hspec, hother, hrole, -⟩ | ⟨hcollection, -⟩ := h.types _ hname
      · exact ⟨spec, other, hspec, hother, hrole⟩
      · cases hcollection
  collections name hname :=
    (h.types _ hname).imp (fun ⟨spec, other, hspec, hother, hrole, _⟩ =>
      ⟨spec, other, hspec, hother, hrole⟩) And.right

/-- The peers derive the same schema of a type whose fields they share. -/
theorem ofSpec_eq {spec other : TypeSpec} (hrole : other.role = spec.role)
    (huser : spec.isUser = true)
    (hfields : ∀ field ∈ spec.fields, field.type.Among hosts) (compatible : Bool) :
    Schema.ofSpec peers.read.registry other compatible =
      Schema.ofSpec peers.write.registry spec compatible :=
  Schema.ofSpec_congr h.sameRoles h.written h.own hrole huser hfields compatible

/-- The schema of a user type over shared types can be derived. -/
theorem exists_ofSpec {spec : TypeSpec} {registration : Registration}
    (hregistration : spec.registration? = some registration)
    (hfields : ∀ field ∈ spec.fields, field.type.Among hosts) (compatible : Bool) :
    ∃ fields, Schema.ofSpec peers.write.registry spec compatible =
      .ok (.registered registration spec compatible fields) := by
  obtain ⟨fields, hderived⟩ :=
    Schema.exists_ofFields h.sameRoles h.written h.own hfields compatible
  exact ⟨fields, Schema.ofSpec_eq_ok hregistration hderived⟩

/-- The type information of a user type over shared types is understood. -/
theorem exists_mirrors_typeInfo {spec : TypeSpec} (hmem : spec ∈ peers.write.registry.specs)
    {registration : Registration} (hregistration : spec.registration? = some registration)
    (hknown : peers.Knows spec)
    (hfields : ∀ field ∈ spec.fields, field.type.Among hosts) :
    ∃ resolved, peers.Describes spec resolved ∧
      peers.Mirrors (Write.typeInfo peers.write.registry peers.write.config.compatible spec)
        (Read.typeInfo peers.read) resolved := by
  have huser : spec.isUser = true := Option.isSome_iff_exists.mpr ⟨_, hregistration⟩
  exact h.linked.exists_mirrors_typeInfo hmem hregistration hknown
    (h.exists_ofSpec hregistration hfields)
    fun other hrole => h.ofSpec_eq hrole huser hfields false

end Agree

end Peers

end SchemaWire
