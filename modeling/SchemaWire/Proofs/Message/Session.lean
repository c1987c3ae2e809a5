import SchemaWire.Proofs.Message.Frame
import SchemaWire.Proofs.Message.TypeInfo
import SchemaWire.Proofs.Types.History

/-!
# Type information within one message

Type information that stands in one message shares a queue of schemas and a table of names. The
queue holds one schema for each type that is told of by a schema, in the order of their first
use, and whoever has read these schemas understands the type information from the first to
the last.
-/

namespace SchemaWire

namespace TypeSpec

/-- Whether type information of the type refers to a schema. -/
def refersToSchema (spec : TypeSpec) (compatible : Bool) : Bool :=
  (spec.kind compatible).refersToSchema compatible

/-- The types among the given ones that are told of by schemas, in the order of their first use. -/
def firstUses (compatible : Bool) (specs : List TypeSpec) : List TypeSpec :=
  (specs.filter (·.refersToSchema compatible)).eraseDups

/-- What is used first is one of the given types. -/
theorem mem_of_mem_firstUses {compatible : Bool} {specs : List TypeSpec} {spec : TypeSpec}
    (h : spec ∈ firstUses compatible specs) : spec ∈ specs :=
  List.mem_of_mem_filter (List.mem_eraseDups.mp h)

/-- A type that is not registered by anyone is a builtin. -/
theorem exists_builtin {spec : TypeSpec} (h : spec.registration? = none) :
    ∃ kind, spec.role = .builtin kind := by
  unfold registration? at h
  cases hrole : spec.role with
  | builtin kind => exact ⟨kind, rfl⟩
  | struct | enum | ext =>
    rw [hrole] at h
    cases h

end TypeSpec

/-- The queue holds the schemas of the given types, in their order. -/
def Registry.Queues (registry : Registry) (queue : SchemaQueue) (specs : List TypeSpec) : Prop :=
  List.Forall₂ (fun queued spec => spec.host = some queued.host ∧
    registry.blob spec = .ok queued.blob) queue specs

/-- What a reader has to be told of the values of a type. -/
def Registry.resolution (registry : Registry) (compatible : Bool) (spec : TypeSpec) :
    Except Error Resolved :=
  match spec.role with
  | .builtin kind => .ok (.known kind)
  | .struct .. => return .struct (← Schema.ofSpec registry spec compatible)
  | .enum _ => .ok .enum
  | .ext _ => .ok (.ext spec.host)

/-- Write the type information of several types, one after the other. -/
def Write.announce (registry : Registry) (compatible : Bool) :
    List TypeSpec → Write (List UInt8)
  | [] => return []
  | spec :: rest => do
    return (← typeInfo registry compatible spec) ++ (← announce registry compatible rest)

namespace Registry

variable {registry : Registry}

/-- The values of builtins can be read. -/
theorem Built.of_builtin (h : registry.Built) {spec : TypeSpec} (hspec : spec ∈ registry.specs)
    {kind : Kind} (hrole : spec.role = .builtin kind) :
    kind.isUser = false ∧ kind.isReadable = true := by
  have hall : ∀ kind ∈ scalarBuiltins.map Prod.snd ++ otherBuiltins,
      kind.isUser = false ∧ kind.isReadable = true := by
    decide
  exact hall kind (h.kind_mem spec hspec kind hrole)

/-- Where no schemas travel no type is told of by one. -/
theorem Built.firstUses_eq_nil (h : registry.Built) {specs : List TypeSpec}
    (hspecs : ∀ spec ∈ specs, spec ∈ registry.specs) : TypeSpec.firstUses false specs = [] := by
  have hnone : ∀ spec ∈ specs, ¬ spec.refersToSchema false = true := by
    intro spec hspec hrefers
    cases hregistration : spec.registration? with
    | some registration => cases TypeSpec.compatible_of_refersToSchema hregistration hrefers
    | none =>
      obtain ⟨kind, hrole⟩ := TypeSpec.exists_builtin hregistration
      have hkind : spec.kind false = kind := by rw [TypeSpec.kind, hrole]
      obtain ⟨huser, -⟩ := h.of_builtin (hspecs spec hspec) hrole
      rw [TypeSpec.refersToSchema, hkind, Kind.refersToSchema_of_builtin huser] at hrefers
      cases hrefers
  rw [TypeSpec.firstUses, List.filter_eq_nil_iff.mpr hnone]
  rfl

/-- A scalar type belongs to one type. -/
theorem WellFormed.eq_of_host_eq (h : registry.WellFormed) {spec other : TypeSpec}
    (hspec : spec ∈ registry.specs) (hother : other ∈ registry.specs) {host : HostType}
    (hhost : spec.host = some host) (hsame : other.host = some host) : other = spec := by
  have hfound := h.ofHost?_eq hspec hhost
  rw [h.ofHost?_eq hother hsame] at hfound
  exact Option.some.inj hfound

/-- A list that is used once more has its new members at its end. -/
theorem eraseDups_concat (specs : List TypeSpec) (spec : TypeSpec) :
    (specs ++ [spec]).eraseDups =
      if spec ∈ specs then specs.eraseDups else specs.eraseDups ++ [spec] := by
  rw [List.eraseDups_append]
  by_cases hmem : spec ∈ specs
  · rw [if_pos hmem]
    simp [List.removeAll, hmem]
  · rw [if_neg hmem]
    simp [List.removeAll, hmem, List.eraseDups_cons]

/-- Queueing a type leads to a queue with its schema, at the end where the type is new. -/
theorem Queues.queueSchema (h : registry.WellFormed) {used : List TypeSpec}
    (hused : ∀ other ∈ used, other ∈ registry.specs) {spec : TypeSpec}
    (hspec : spec ∈ registry.specs) {before after : WriteTables} {index : Nat}
    (hqueue : registry.Queues before.queue used.eraseDups)
    (hok : Write.queueSchema registry spec before = .ok index after) :
    registry.Queues after.queue (used ++ [spec]).eraseDups := by
  rw [eraseDups_concat]
  obtain ⟨host, hhost, ⟨queued, hqueued, hsame, rfl⟩ |
    ⟨hnew, schema, blob, hschema, hblob, rfl, rfl⟩⟩ := Write.of_queueSchema_ok hok
  · obtain ⟨other, hat, hother, -⟩ := exists_getElem?_of_forall₂ hqueue hqueued
    have hmem : other ∈ used := List.mem_eraseDups.mp (List.mem_of_getElem? hat)
    rw [hsame] at hother
    have hrepeated : other = spec := h.eq_of_host_eq hspec (hused _ hmem) hhost hother
    rw [if_pos (hrepeated ▸ hmem)]
    exact hqueue
  · have hfresh : spec ∉ used := by
      intro hmem
      obtain ⟨place, hplace⟩ := List.mem_iff_getElem?.mp (List.mem_eraseDups.mpr hmem)
      obtain ⟨queued, hat, hsame, -⟩ := exists_getElem?_of_forall₂ hqueue.flip hplace
      exact hnew queued (List.mem_of_getElem? hat) (Option.some.inj (hsame.symm.trans hhost))
    have hmade : registry.blob spec = .ok blob := by
      rw [Registry.blob, hschema]
      exact hblob
    rw [if_neg hfresh]
    exact List.rel_append hqueue (.cons ⟨hhost, hmade⟩ .nil)

end Registry

namespace Write

variable {α β : Type} {registry : Registry} {compatible : Bool} {spec : TypeSpec}

/-- Whether it succeeds or fails, the writer leaves the queue of schemas as it is. -/
structure LeavesQueue (writer : Write α) : Prop where
  /-- The queue where it succeeds. -/
  ok : ∀ before value after, writer before = .ok value after → after.queue = before.queue
  /-- The queue where it fails. -/
  error : ∀ before e failed, writer before = .error e failed → failed.queue = before.queue

/-- A writer of bytes that are known leaves the queue. -/
theorem LeavesQueue.pure (a : α) : LeavesQueue (Pure.pure a) where
  ok := by
    intro before value after h
    cases h
    rfl
  error := nofun

/-- Writers in sequence leave the queue that each of them leaves. -/
theorem LeavesQueue.bind {writer : Write α} {next : α → Write β} (h : LeavesQueue writer)
    (hnext : ∀ a, LeavesQueue (next a)) : LeavesQueue (writer >>= next) where
  ok := by
    intro before value after hok
    obtain ⟨a, between, hfirst, hsecond⟩ := exists_of_bind_ok hok
    exact ((hnext a).ok _ _ _ hsecond).trans (h.ok _ _ _ hfirst)
  error := by
    intro before e failed herror
    obtain hfirst | ⟨a, between, hfirst, hsecond⟩ := error_or_of_bind_error herror
    · exact h.error _ _ _ hfirst
    · exact ((hnext a).error _ _ _ hsecond).trans (h.ok _ _ _ hfirst)

/-- Names are not queued. -/
theorem leavesQueue_name (scheme : Name.Scheme) (s : String) : LeavesQueue (name scheme s) where
  ok := by
    intro before value after h
    unfold name at h
    split at h <;> cases h
    rfl
  error := by
    intro before e failed h
    unfold name at h
    split at h <;> cases h
    rfl

/-- Type information that refers to no schema leaves the queue. -/
theorem leavesQueue_typeInfo (h : spec.refersToSchema compatible = false) :
    LeavesQueue (typeInfo registry compatible spec) := by
  rw [TypeSpec.refersToSchema] at h
  unfold typeInfo
  rw [h, if_neg Bool.false_ne_true]
  split
  next => exact (leavesQueue_name _ _).bind fun _ => (leavesQueue_name _ _).bind fun _ => .pure _
  next => exact .pure _

/-- A schema that cannot be made or written is not queued. -/
theorem queue_of_queueSchema_error {before failed : WriteTables} {e : Error}
    (h : queueSchema registry spec before = .error e failed) : failed = before := by
  unfold queueSchema at h
  split at h
  next => cases h
  next hregister =>
    cases h
    rw [SchemaQueue.eq_of_register_error hregister]

/-- Type information that cannot be written leaves the queue. -/
theorem queue_of_typeInfo_error {before failed : WriteTables} {e : Error}
    (h : typeInfo registry compatible spec before = .error e failed) :
    failed.queue = before.queue := by
  cases hrefers : spec.refersToSchema compatible with
  | false => exact (leavesQueue_typeInfo hrefers).error _ _ _ h
  | true =>
    rw [TypeSpec.refersToSchema] at hrefers
    unfold typeInfo at h
    rw [hrefers, if_pos rfl] at h
    obtain hqueue | ⟨index, between, -, hrest⟩ := error_or_of_bind_error h
    · rw [queue_of_queueSchema_error hqueue]
    · cases hrest

/-- Writing type information of registered types keeps the tables. -/
theorem keeps_announce {specs : List TypeSpec} (h : ∀ spec ∈ specs, spec ∈ registry.specs)
    (compatible : Bool) : Keeps registry (announce registry compatible specs) := by
  induction specs with
  | nil => exact .pure _
  | cons spec rest ih =>
    have hrest := ih fun other hmem => h other (List.mem_cons_of_mem _ hmem)
    exact (keeps_typeInfo (h spec List.mem_cons_self) compatible).bind fun _ =>
      hrest.bind fun _ => .pure _

end Write

namespace Registry

variable {registry : Registry}

/-- The type information of one type more leads to a queue with its schema, if it is told of by one
and was not before. -/
theorem Queues.typeInfo (h : registry.WellFormed) {compatible : Bool} {told : List TypeSpec}
    (htold : ∀ other ∈ told, other ∈ registry.specs) {spec : TypeSpec}
    (hspec : spec ∈ registry.specs) {before after : WriteTables} {bytes : List UInt8}
    (hqueue : registry.Queues before.queue (TypeSpec.firstUses compatible told))
    (hok : Write.typeInfo registry compatible spec before = .ok bytes after) :
    registry.Queues after.queue (TypeSpec.firstUses compatible (told ++ [spec])) := by
  rw [TypeSpec.firstUses, List.filter_append, List.filter_singleton]
  cases hrefers : spec.refersToSchema compatible with
  | true =>
    unfold Write.typeInfo at hok
    rw [TypeSpec.refersToSchema] at hrefers
    rw [hrefers, if_pos rfl] at hok
    obtain ⟨index, between, hregister, hok⟩ := exists_of_bind_ok hok
    cases hok
    have hused : ∀ other ∈ told.filter (·.refersToSchema compatible), other ∈ registry.specs :=
      fun other hmem => htold other (List.mem_of_mem_filter hmem)
    exact hqueue.queueSchema h hused hspec hregister
  | false =>
    rw [(Write.leavesQueue_typeInfo hrefers).ok _ _ _ hok, cond_false, List.append_nil]
    exact hqueue

/-- Type information that is written one after the other leads to a queue with the schemas of the
types that are told of by one, in the order of their first use. -/
theorem Queues.announce (h : registry.WellFormed) {compatible : Bool} {told specs : List TypeSpec}
    (htold : ∀ other ∈ told, other ∈ registry.specs)
    (hspecs : ∀ spec ∈ specs, spec ∈ registry.specs) {before after : WriteTables}
    {bytes : List UInt8} (hqueue : registry.Queues before.queue (TypeSpec.firstUses compatible told))
    (hok : Write.announce registry compatible specs before = .ok bytes after) :
    registry.Queues after.queue (TypeSpec.firstUses compatible (told ++ specs)) := by
  induction specs generalizing told before bytes with
  | nil =>
    cases hok
    rw [List.append_nil]
    exact hqueue
  | cons spec rest ih =>
    have hspec := hspecs spec List.mem_cons_self
    obtain ⟨front, between, hfirst, hok⟩ := exists_of_bind_ok hok
    obtain ⟨back, last, hrest, hok⟩ := exists_of_bind_ok hok
    cases hok
    have hbetween := hqueue.typeInfo h htold hspec hfirst
    have hall : ∀ other ∈ told ++ [spec], other ∈ registry.specs := by
      intro other hmem
      rcases List.mem_append.mp hmem with hold | hnew
      · exact htold other hold
      · exact List.mem_singleton.mp hnew ▸ hspec
    have hlast := ih hall (fun other hmem => hspecs other (List.mem_cons_of_mem _ hmem))
      hbetween hrest
    rwa [List.append_assoc] at hlast

/-- Every queued schema is derived of its type, and is announced by its blob. -/
theorem Queues.exists_schemas {specs : List TypeSpec} {queue : SchemaQueue}
    (h : registry.Queues queue specs) (hspecs : ∀ spec ∈ specs, spec ∈ registry.specs) :
    ∃ schemas, registry.Announces schemas queue ∧
      List.Forall₂ (fun spec schema => Schema.ofSpec registry spec true = .ok schema) specs
        schemas := by
  induction h with
  | nil => exact ⟨[], .nil, .nil⟩
  | @cons queued spec queue specs hfirst hrest ih =>
    obtain ⟨hhost, hblob⟩ := hfirst
    obtain ⟨schema, hschema, hencode⟩ := exists_of_except_bind_ok hblob
    obtain ⟨schemas, hannounces, hderived⟩ := ih fun other hmem =>
      hspecs other (List.mem_cons_of_mem _ hmem)
    have hmem := hspecs spec List.mem_cons_self
    exact ⟨schema :: schemas, .cons ⟨spec, hmem, hhost, hschema, hencode⟩ hannounces,
      .cons hschema hderived⟩

end Registry

/-- A blob is longer than any number that refers to a schema. -/
theorem Schema.length_encode32_lt_of_encode {schema : Schema} {blob : List UInt8}
    (h : schema.encode = .ok blob) (n : Nat) : (Varint.encode32 n).length < blob.length := by
  have hnumber : (Varint.encode32 n).length ≤ 5 := Varint.length_groups_le 4 n
  obtain ⟨body, -, rfl⟩ := exists_body_of_encode h
  rw [List.length_append, LittleEndian.length_encode]
  omega

/-- An announced schema is read from its blob, which is longer than what refers to it. -/
theorem Registry.Announces.reads {registry : Registry} (haddressable : registry.Addressable)
    {schemas : List Schema} {queue : SchemaQueue} (h : registry.Announces schemas queue) :
    List.Forall₂ (fun queued schema => Schema.take.Reads queued.blob schema ∧
      ∀ n, (Varint.encode32 n).length < queued.blob.length) queue schemas := by
  refine List.Forall₂.imp ?_ h
  intro queued schema hannounced
  obtain ⟨spec, hspec, -, hschema, hencode⟩ := hannounced
  have hblob : registry.blob spec = .ok queued.blob := by
    rw [Registry.blob, hschema]
    exact hencode
  have hsize : queued.blob.length < 2 ^ 32 :=
    haddressable.blobs spec hspec queued.blob (by rw [hblob]; rfl)
  have hread := Schema.reads_take hencode hsize
  rw [Schema.normalized_of_ofSpec_ok hschema] at hread
  exact ⟨hread, fun n => Schema.length_encode32_lt_of_encode hencode n⟩

namespace Peers

variable {peers : Peers}

/-- What describes a type is its resolution. -/
theorem Describes.resolution_eq {spec : TypeSpec} {resolved : Resolved}
    (h : peers.Describes spec resolved) :
    peers.write.registry.resolution peers.write.config.compatible spec = .ok resolved := by
  cases h with
  | builtin hrole => rw [Registry.resolution, hrole]
  | struct hrole hschema =>
    simp only [Registry.resolution, hrole]
    rw [hschema]
    rfl
  | enum hrole => rw [Registry.resolution, hrole]
  | ext hrole => rw [Registry.resolution, hrole]

/-- Type information that is understood piece by piece is understood in sequence. -/
theorem exists_mirrors_announce {specs : List TypeSpec}
    (h : ∀ spec ∈ specs, ∃ resolved, peers.Describes spec resolved ∧
      peers.Mirrors (Write.typeInfo peers.write.registry peers.write.config.compatible spec)
        (Read.typeInfo peers.read) resolved) :
    ∃ told, List.Forall₂ peers.Describes specs told ∧
      peers.Mirrors (Write.announce peers.write.registry peers.write.config.compatible specs)
        (Take.times (Read.typeInfo peers.read) specs.length) told := by
  induction specs with
  | nil => exact ⟨[], .nil, .pure fun _ => .pure []⟩
  | cons spec rest ih =>
    obtain ⟨first, hfirst, hread⟩ := h spec List.mem_cons_self
    obtain ⟨others, hothers, hrest⟩ := ih fun other hmem => h other (List.mem_cons_of_mem _ hmem)
    exact ⟨first :: others, .cons hfirst hothers, hread.append (hrest.map (first :: ·))⟩

/-- Linked peers with one registry understand the type information of every type whose fields are
of registered types. -/
theorem Linked.exists_mirrors_typeInfo_of_own (h : peers.Linked)
    (hsame : peers.read.registry = peers.write.registry) (hbuilt : peers.write.registry.Built)
    {spec : TypeSpec} (hspec : spec ∈ peers.write.registry.specs)
    (hfields : ∀ field ∈ spec.fields, peers.write.registry.Covers field.type) :
    ∃ resolved, peers.Describes spec resolved ∧
      peers.Mirrors (Write.typeInfo peers.write.registry peers.write.config.compatible spec)
        (Read.typeInfo peers.read) resolved := by
  have hroles := peers.write.registry.sameRoles_self
  cases hregistration : spec.registration? with
  | none =>
    obtain ⟨kind, hrole⟩ := TypeSpec.exists_builtin hregistration
    obtain ⟨huser, hreadable⟩ := hbuilt.of_builtin hspec hrole
    exact ⟨_, .builtin hrole, mirrors_typeInfo_of_builtin hrole huser hreadable⟩
  | some registration =>
    have hknown : peers.Knows spec := .inr ⟨spec, hsame ▸ hspec, rfl, rfl⟩
    have huser : spec.isUser = true := Option.isSome_iff_exists.mpr ⟨_, hregistration⟩
    refine h.exists_mirrors_typeInfo hspec hregistration hknown (fun compatible => ?_)
      fun other hrole => ?_
    · obtain ⟨made, hmade⟩ :=
        Schema.exists_ofFields hroles h.written h.written hfields compatible
      exact ⟨made, Schema.ofSpec_eq_ok hregistration hmade⟩
    · rw [hsame]
      exact Schema.ofSpec_congr hroles h.written h.written hrole huser hfields false

end Peers

/-- Type information of registered types that is written into one message leads to a queue with one
schema for each type that is told of by one, in the order of their first use. Each of these
schemas is read from its blob, which is longer than any reference. Whoever has read them is told
what the types are, in their order and to the last byte. What cannot be written is not queued. -/
theorem type_info_session {registry : Registry} (hbuilt : registry.Built)
    (haddressable : registry.Addressable)
    (hfields : ∀ spec ∈ registry.specs, ∀ field ∈ spec.fields, registry.Covers field.type)
    (compatible : Bool) {specs : List TypeSpec} (hspecs : ∀ spec ∈ specs, spec ∈ registry.specs)
    {bytes : List UInt8} {after : WriteTables}
    (hok : Write.announce registry compatible specs .empty = .ok bytes after) :
    (∃ schemas,
      (after.queue.map QueuedSchema.host).Nodup ∧
      registry.Queues after.queue (TypeSpec.firstUses compatible specs) ∧
      List.Forall₂ (fun spec schema => Schema.ofSpec registry spec true = .ok schema)
        (TypeSpec.firstUses compatible specs) schemas ∧
      List.Forall₂ (fun queued schema => Schema.take.Reads queued.blob schema ∧
        ∀ n, (Varint.encode32 n).length < queued.blob.length) after.queue schemas ∧
      ∀ env : ReadEnv, env.registry = registry → env.config.compatible = compatible →
        env.schemas = schemas → ∃ told,
          List.Forall₂ (fun spec resolved => registry.resolution compatible spec = .ok resolved)
            specs told ∧
          Read.Reads (Take.times (Read.typeInfo env) specs.length) [] bytes told after.names) ∧
    ∀ spec before e failed, Write.typeInfo registry compatible spec before = .error e failed →
      failed.queue = before.queue := by
  refine ⟨?_, fun spec before e failed => Write.queue_of_typeInfo_error⟩
  have hsound : after.Sound registry :=
    (Write.keeps_announce hspecs compatible _ _ _ hok).sound WriteTables.sound_empty
  have hempty : registry.Queues WriteTables.empty.queue (TypeSpec.firstUses compatible []) := .nil
  have hqueues := hempty.announce hbuilt.wellFormed (List.forall_mem_nil _) hspecs hok
  rw [List.nil_append] at hqueues
  have hmem : ∀ spec ∈ TypeSpec.firstUses compatible specs, spec ∈ registry.specs :=
    fun spec hspec => hspecs spec (TypeSpec.mem_of_mem_firstUses hspec)
  obtain ⟨schemas, hannounces, hderived⟩ := hqueues.exists_schemas hmem
  refine ⟨schemas, hsound.hosts, hqueues, hderived, hannounces.reads haddressable, ?_⟩
  rintro env hregistry rfl rfl
  let peers : Peers := ⟨⟨env.config, registry⟩, env, after.queue⟩
  have hlinked : peers.Linked :=
    { compatible := rfl
      written := hbuilt.wellFormed
      own := hregistry ▸ hbuilt.wellFormed
      addressable := haddressable
      announced := fun _ => hannounces }
  obtain ⟨told, hdescribes, hmirrors⟩ := peers.exists_mirrors_announce fun spec hspec =>
    hlinked.exists_mirrors_typeInfo_of_own hregistry hbuilt (hspecs spec hspec)
      (hfields spec (hspecs spec hspec))
  exact ⟨told, hdescribes.imp fun _ _ h => h.resolution_eq,
    hmirrors.reads _ _ _ WriteTables.sound_empty (List.prefix_refl _) hok⟩

namespace Sample

/-- Structs, enums and types with layouts of their own, by numbers and by names. -/
def bakery : Registry :=
  Registry.standard.history [
    .struct (.user "Loaf") (.id 1) [⟨"crust", .scalar (.user "Crust") false, false⟩,
      ⟨"seeds", .list "seeds" (.scalar (.user "Seed") true) false, true⟩],
    .struct (.user "Seed") (.name "bakery" "Seed") [⟨"grams", .scalar (.int .int32) false, false⟩],
    .enum (.user "Crust") (.name "bakery" "Crust"), .enum (.user "Shelf") (.id 2),
    .ext (.user "Weight") (.name "bakery" "Weight"), .ext (.user "Note") (.id 3)]

/-- All types of the bakery, and once more from the last to the first. -/
def wares : List TypeSpec :=
  bakery.specs ++ bakery.specs.reverse

end Sample

/-- All types are told of, and four of them by schemas. -/
theorem type_info_session_bakery :
    ∃ bytes after schemas,
      Write.announce Sample.bakery true Sample.wares .empty = .ok bytes after ∧
      (TypeSpec.firstUses true Sample.wares).map TypeSpec.host =
        [some (.user "Loaf"), some (.user "Seed"), some (.user "Crust"), some (.user "Weight")] ∧
      Sample.bakery.Queues after.queue (TypeSpec.firstUses true Sample.wares) ∧
      ∀ env : ReadEnv, env.registry = Sample.bakery → env.config.compatible = true →
        env.schemas = schemas → ∃ told,
          List.Forall₂ (fun spec resolved => Sample.bakery.resolution true spec = .ok resolved)
            Sample.wares told ∧
          Read.Reads (Take.times (Read.typeInfo env) Sample.wares.length) [] bytes told
            after.names := by
  have haddressable : Sample.bakery.Addressable := by decide +kernel
  have hfields : ∀ spec ∈ Sample.bakery.specs, ∀ field ∈ spec.fields,
      Sample.bakery.Covers field.type := by
    decide +kernel
  have hwares : ∀ spec ∈ Sample.wares, spec ∈ Sample.bakery.specs := by
    intro spec hspec
    rcases List.mem_append.mp hspec with hmem | hmem
    · exact hmem
    · exact List.mem_reverse.mp hmem
  have hhosts : (TypeSpec.firstUses true Sample.wares).map TypeSpec.host =
      [some (.user "Loaf"), some (.user "Seed"), some (.user "Crust"), some (.user "Weight")] := by
    decide +kernel
  have hok : (Write.announce Sample.bakery true Sample.wares .empty matches .ok ..) = true := by
    decide +kernel
  cases hannounce : Write.announce Sample.bakery true Sample.wares .empty with
  | error e after =>
    rw [hannounce] at hok
    cases hok
  | ok bytes after =>
    obtain ⟨⟨schemas, -, hqueues, -, -, hread⟩, -⟩ :=
      type_info_session (Registry.Built.history .standard) haddressable hfields true hwares
        hannounce
    exact ⟨bytes, after, schemas, rfl, hhosts, hqueues, hread⟩

end SchemaWire
