import Mathlib.Data.List.Nodup
import Mathlib.Data.List.Perm.Subperm
import SchemaWire.Proofs.Data.Closed
import SchemaWire.Proofs.Name.Table
import SchemaWire.Proofs.Types.Registry

/-!
# What a writer remembers

While a message is written, the queue of schemas only grows at its end, every queued schema
is that of a registered type, and no type is queued twice. The same holds of the names that
were spelled out. So the places that values refer to never move, and there are not more of
them than the registry has types.
-/

namespace SchemaWire

/-- The entry of a name in a table. -/
def Name.Scheme.entry (scheme : Name.Scheme) (name : String) : Name.Entry :=
  match scheme.encode name with
  | .ok (encoding, bytes) => .of bytes encoding
  | .error _ => .of [] .utf8

/-- The names that values of a type are announced with, where it is registered by name. -/
def TypeSpec.entries (spec : TypeSpec) : List Name.Entry :=
  match spec.registration? with
  | some (.name space name) => [Name.Scheme.space.entry space, Name.Scheme.type.entry name]
  | _ => []

/-- The blob that is queued for a type. -/
def Registry.blob (registry : Registry) (spec : TypeSpec) : Except Error (List UInt8) := do
  (← Schema.ofSpec registry spec true).encode

/-- The lengths and numbers of names and schemas fit into the 32 bits that messages have for
them. Nothing checks this: a registry that breaks it has a billion types, or a name or a
schema of gigabytes. -/
structure Registry.Addressable (registry : Registry) : Prop where
  /-- The number of types. -/
  count : registry.specs.length < 2 ^ 30
  /-- The lengths of names. -/
  names : ∀ spec ∈ registry.specs, ∀ entry ∈ spec.entries, entry.bytes.length < 2 ^ 31
  /-- The lengths of schemas. -/
  blobs : ∀ spec ∈ registry.specs, ∀ blob ∈ (registry.blob spec).toOption, blob.length < 2 ^ 32

instance (registry : Registry) : Decidable registry.Addressable :=
  decidable_of_iff
    (registry.specs.length < 2 ^ 30 ∧
      (∀ spec ∈ registry.specs, ∀ entry ∈ spec.entries, entry.bytes.length < 2 ^ 31) ∧
      ∀ spec ∈ registry.specs, ∀ blob ∈ (registry.blob spec).toOption, blob.length < 2 ^ 32)
    ⟨fun h => ⟨h.1, h.2.1, h.2.2⟩, fun h => ⟨h.count, h.names, h.blobs⟩⟩

/-- The queued schema is that of a type of the registry. -/
def QueuedSchema.IsFrom (registry : Registry) (queued : QueuedSchema) : Prop :=
  ∃ spec ∈ registry.specs, spec.host = some queued.host ∧
    ∃ schema, Schema.ofSpec registry spec true = .ok schema ∧ schema.encode = .ok queued.blob

/-- The schemas are those of the queued types. -/
def Registry.Announces (registry : Registry) (schemas : List Schema) (queue : SchemaQueue) :
    Prop :=
  List.Forall₂ (fun queued schema => ∃ spec ∈ registry.specs, spec.host = some queued.host ∧
    Schema.ofSpec registry spec true = .ok schema ∧ schema.encode = .ok queued.blob) queue schemas

/-- The tables of a writer hold schemas and names of registered types, each of them once. -/
structure WriteTables.Sound (registry : Registry) (tables : WriteTables) : Prop where
  /-- No type is queued twice. -/
  hosts : (tables.queue.map QueuedSchema.host).Nodup
  /-- Every queued schema is that of a registered type. -/
  queue : ∀ queued ∈ tables.queue, queued.IsFrom registry
  /-- No name is spelled out twice. -/
  nodup : tables.names.Nodup
  /-- Every name belongs to a registered type. -/
  names : tables.names ⊆ registry.specs.flatMap TypeSpec.entries

/-- What was queued stays where it is, and sound tables stay sound. -/
structure WriteTables.Grows (registry : Registry) (before after : WriteTables) : Prop where
  /-- The queue grows at its end. -/
  queue : before.queue <+: after.queue
  /-- Soundness is kept. -/
  sound : before.Sound registry → after.Sound registry

namespace WriteTables

variable {registry : Registry}

/-- The tables at the start of a message are sound. -/
theorem sound_empty : WriteTables.empty.Sound registry where
  hosts := List.nodup_nil
  queue := nofun
  nodup := List.nodup_nil
  names := List.nil_subset _

/-- Tables that stay the same have grown. -/
theorem Grows.refl (tables : WriteTables) : tables.Grows registry tables :=
  ⟨List.prefix_refl _, id⟩

/-- Tables grow step by step. -/
theorem Grows.trans {a b c : WriteTables} (hab : a.Grows registry b) (hbc : b.Grows registry c) :
    a.Grows registry c :=
  ⟨hab.queue.trans hbc.queue, fun h => hbc.sound (hab.sound h)⟩

/-- Not more types are queued than are registered. -/
theorem Sound.length_queue_le {tables : WriteTables} (h : tables.Sound registry) :
    tables.queue.length ≤ registry.specs.length := by
  have hsubset : tables.queue.map QueuedSchema.host ⊆ registry.specs.filterMap TypeSpec.host := by
    intro host hmem
    obtain ⟨queued, hqueued, rfl⟩ := List.mem_map.mp hmem
    obtain ⟨spec, hspec, hhost, -⟩ := h.queue queued hqueued
    exact List.mem_filterMap.mpr ⟨spec, hspec, hhost⟩
  calc tables.queue.length
      = (tables.queue.map QueuedSchema.host).length := (List.length_map _).symm
    _ ≤ (registry.specs.filterMap TypeSpec.host).length :=
      (List.subperm_of_subset h.hosts hsubset).length_le
    _ ≤ registry.specs.length := List.length_filterMap_le _ _

/-- A type brings two names at most. -/
theorem length_entries_le (specs : List TypeSpec) :
    (specs.flatMap TypeSpec.entries).length ≤ 2 * specs.length := by
  induction specs with
  | nil => exact Nat.le_refl 0
  | cons spec rest ih =>
    have hspec : spec.entries.length ≤ 2 := by
      unfold TypeSpec.entries
      split
      · exact Nat.le_refl 2
      · exact Nat.zero_le 2
    rw [List.flatMap_cons, List.length_append, List.length_cons]
    omega

/-- Not more names are spelled out than two for each registered type. -/
theorem Sound.length_names_le {tables : WriteTables} (h : tables.Sound registry) :
    tables.names.length ≤ 2 * registry.specs.length :=
  (List.subperm_of_subset h.nodup h.names).length_le.trans (length_entries_le registry.specs)

end WriteTables

/-- Queueing a schema changes the queue at the very end, if at all. -/
theorem SchemaQueue.register_eq (registry : Registry) (spec : TypeSpec) (queue : SchemaQueue) :
    register registry spec queue =
      match spec.host with
      | none => .error (.builtinSchema spec.label) queue
      | some host =>
        match queue.findIdx? fun queued => queued.host == host with
        | some index => .ok index queue
        | none =>
          match registry.blob spec with
          | .ok blob => .ok queue.length (queue ++ [⟨host, blob⟩])
          | .error e => .error e queue := by
  unfold register
  cases spec.host with
  | none => rfl
  | some host =>
    dsimp only
    rw [bind_of_ok (x := get) rfl]
    cases queue.findIdx? fun queued => queued.host == host with
    | some index => rfl
    | none =>
      rw [Registry.blob]
      cases Schema.ofSpec registry spec true with
      | error e => rfl
      | ok schema =>
        change (MonadExcept.ofExcept schema.encode >>= fun blob => do
          set (queue ++ [⟨host, blob⟩])
          return queue.length : EStateM Error SchemaQueue Nat) queue = _
        simp only [bind, Except.bind]
        cases schema.encode with
        | error e => rfl
        | ok blob => rfl

/-- A schema that cannot be made or written is not queued. -/
theorem SchemaQueue.eq_of_register_error {registry : Registry} {spec : TypeSpec} {e : Error}
    {queue left : SchemaQueue} (h : register registry spec queue = .error e left) :
    left = queue := by
  rw [register_eq] at h
  split at h
  · cases h
    rfl
  · split at h
    · cases h
    · split at h <;> cases h
      rfl

namespace Write

variable {α β : Type} {registry : Registry}

/-- A type whose schema is asked for stands in the queue, or is queued behind the others. -/
theorem of_queueSchema_ok {spec : TypeSpec} {before after : WriteTables} {index : Nat}
    (h : queueSchema registry spec before = .ok index after) :
    ∃ host, spec.host = some host ∧
      ((∃ queued, before.queue[index]? = some queued ∧ queued.host = host ∧ after = before) ∨
      ((∀ queued ∈ before.queue, queued.host ≠ host) ∧ ∃ schema blob,
        Schema.ofSpec registry spec true = .ok schema ∧ schema.encode = .ok blob ∧
          index = before.queue.length ∧
          after = { before with queue := before.queue ++ [⟨host, blob⟩] })) := by
  rw [queueSchema, SchemaQueue.register_eq] at h
  cases hhost : spec.host with
  | none =>
    rw [hhost] at h
    cases h
  | some host =>
    rw [hhost] at h
    refine ⟨host, rfl, ?_⟩
    cases hfound : before.queue.findIdx? fun queued => queued.host == host with
    | some place =>
      simp only [hfound] at h
      cases h
      obtain ⟨hplace, hsame, -⟩ := List.findIdx?_eq_some_iff_getElem.mp hfound
      exact .inl ⟨_, List.getElem?_eq_getElem hplace, by simpa using hsame, rfl⟩
    | none =>
      cases hblob : registry.blob spec with
      | error e =>
        simp only [hfound, hblob] at h
        cases h
      | ok blob =>
        simp only [hfound, hblob] at h
        cases h
        obtain ⟨schema, hschema, hencode⟩ := exists_of_except_bind_ok hblob
        refine .inr ⟨fun queued hqueued heq => ?_, schema, blob, hschema, hencode, rfl, rfl⟩
        have hne := List.findIdx?_eq_none_iff.mp hfound queued hqueued
        rw [heq, beq_self_eq_true] at hne
        cases hne

/-- Writing a name changes nothing but the table of names. -/
theorem of_name_ok {scheme : Name.Scheme} {s : String} {before after : WriteTables}
    {bytes : List UInt8} (h : name scheme s before = .ok bytes after) :
    ∃ names, Name.Table.write scheme s before.names = .ok bytes names ∧
      after = { before with names := names } := by
  unfold name at h
  split at h
  next written names hwrite =>
    cases h
    exact ⟨names, hwrite, rfl⟩
  next => cases h

/-- Whenever the writer succeeds, its tables have grown. -/
def Keeps (registry : Registry) (writer : Write α) : Prop :=
  ∀ before value after, writer before = .ok value after → before.Grows registry after

/-- A writer of nothing keeps its tables. -/
theorem Keeps.pure (a : α) : Keeps registry (Pure.pure a : Write α) := by
  intro before value after h
  cases h
  exact .refl _

/-- A writer that fails has nothing to keep. -/
theorem Keeps.throw (e : Error) : Keeps registry (MonadExcept.throw e : Write α) := nofun

/-- Writers in sequence keep what each of them keeps. -/
theorem Keeps.bind {writer : Write α} {next : α → Write β} (h : Keeps registry writer)
    (hnext : ∀ a, Keeps registry (next a)) : Keeps registry (writer >>= next) := by
  intro before value after hok
  obtain ⟨a, between, hfirst, hsecond⟩ := exists_of_bind_ok hok
  exact (h _ _ _ hfirst).trans (hnext a _ _ _ hsecond)

/-- A writer after a check may rely on it. -/
theorem Keeps.ofExcept_bind {e : Except Error α} {next : α → Write β}
    (hnext : ∀ a, e = .ok a → Keeps registry (next a)) :
    Keeps registry (MonadExcept.ofExcept e >>= next) := by
  intro before value after hok
  obtain ⟨a, between, hfirst, hsecond⟩ := exists_of_bind_ok hok
  obtain ⟨ha, rfl⟩ := exists_of_ofExcept_ok hfirst
  exact hnext a ha _ _ _ hsecond

/-- Queueing the schema of a registered type keeps the tables. -/
theorem keeps_queueSchema {spec : TypeSpec} (hspec : spec ∈ registry.specs) :
    Keeps registry (queueSchema registry spec) := by
  intro before index after hok
  obtain ⟨host, hhost, ⟨-, -, -, rfl⟩ | ⟨hnew, schema, blob, hschema, hblob, -, rfl⟩⟩ :=
    of_queueSchema_ok hok
  · exact .refl _
  · refine ⟨List.prefix_append _ _, fun h => ⟨?_, ?_, h.nodup, h.names⟩⟩
    · have hfresh : host ∉ before.queue.map QueuedSchema.host := by
        intro hmem
        obtain ⟨queued, hqueued, rfl⟩ := List.mem_map.mp hmem
        exact hnew queued hqueued rfl
      rw [List.map_append, List.map_singleton, ← List.concat_eq_append]
      exact h.hosts.concat hfresh
    · intro queued hmem
      obtain hold | hnew := List.mem_append.mp hmem
      · exact h.queue queued hold
      · cases List.mem_singleton.mp hnew
        exact ⟨spec, hspec, hhost, schema, hschema, hblob⟩

/-- Writing a name of a registered type keeps the tables. -/
theorem keeps_name {scheme : Name.Scheme} {s : String}
    (hname : scheme.entry s ∈ registry.specs.flatMap TypeSpec.entries) :
    Keeps registry (name scheme s) := by
  intro before bytes after hok
  obtain ⟨names, hwrite, rfl⟩ := of_name_ok hok
  obtain ⟨content, encoding, hencode, hwritten⟩ := Name.Table.of_write_ok hwrite
  have hentry : scheme.entry s = .of content encoding := by rw [Name.Scheme.entry, hencode]
  obtain ⟨-, -, -, -, -, rfl⟩ | ⟨hfresh, -, rfl⟩ := hwritten
  · exact .refl _
  · refine ⟨List.prefix_refl _, fun h => ⟨h.hosts, h.queue, ?_, ?_⟩⟩
    · rw [← List.concat_eq_append]
      exact h.nodup.concat hfresh
    · refine List.append_subset.mpr ⟨h.names, ?_⟩
      intro entry hmem
      rw [List.mem_singleton.mp hmem, ← hentry]
      exact hname

/-- Writing the type information of a registered type keeps the tables. -/
theorem keeps_typeInfo {spec : TypeSpec} (hspec : spec ∈ registry.specs) (compatible : Bool) :
    Keeps registry (typeInfo registry compatible spec) := by
  unfold typeInfo
  split
  · exact (keeps_queueSchema hspec).bind fun _ => .pure _
  · split
    next space typeName hregistration =>
      have hentries : spec.entries =
          [Name.Scheme.space.entry space, Name.Scheme.type.entry typeName] := by
        rw [TypeSpec.entries, hregistration]
      have hmem (entry : Name.Entry) (h : entry ∈ spec.entries) :
          entry ∈ registry.specs.flatMap TypeSpec.entries :=
        List.mem_flatMap.mpr ⟨spec, hspec, h⟩
      refine (keeps_name (hmem _ ?_)).bind fun _ => (keeps_name (hmem _ ?_)).bind fun _ => .pure _
      · rw [hentries]
        exact List.mem_cons_self
      · rw [hentries]
        exact List.mem_cons_of_mem _ List.mem_cons_self
    next => exact .pure _

variable {env : WriteEnv}

/-- Writing a length keeps the tables. -/
theorem keeps_length (registry : Registry) (n : Nat) : Keeps registry (length n) := by
  unfold length
  split
  · exact .pure _
  · exact .throw _

/-- Writing bytes behind their number keeps the tables. -/
theorem keeps_counted (registry : Registry) (content : List UInt8) :
    Keeps registry (counted content) :=
  (keeps_length registry _).bind fun _ => .pure _

/-- Keeping the tables is a property that writers of data have. -/
theorem closed_keeps (env : WriteEnv) : Closed env fun writer => Keeps env.registry writer where
  pure := .pure
  throw := fun _ => .throw _
  bind := .bind
  typeInfo := fun hspec => keeps_typeInfo (Registry.mem_of_resolve hspec) _

/-- Writing a value keeps the tables. -/
theorem keeps_datum (v : Datum) (depth : Nat) (place : Place) :
    Keeps env.registry (datum env depth place v) :=
  (closed_keeps env).datum v depth place

end Write

end SchemaWire
