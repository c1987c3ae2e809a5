import SchemaWire.Proofs.Data.Reading
import SchemaWire.Proofs.Limit.Plain
import SchemaWire.Proofs.Types.Registry

/-!
# Readers of data with a bound

The jobs of a reader of data are to read a value by a shape, to pass over one, and to read one
plainly. Its states hold the bytes that are left and what was told so far: the names, and the
values that can be referred to. A world has all shapes, wire types and bytes that occur.
-/

namespace SchemaWire

namespace Registry

variable {registry : Registry} {spec : TypeSpec}

/-- A type that is found by its name is registered. -/
theorem mem_of_ofName {space name : String} (h : registry.ofName space name = .ok spec) :
    spec ∈ registry.specs :=
  List.mem_of_find?_eq_some (ofName_eq_ok_iff.mp h)

/-- A type that is found by its name is registered by name. -/
theorem isByName_of_ofName_ok {space name : String} (h : registry.ofName space name = .ok spec) :
    spec.isByName = true := by
  have hregistration : spec.registration? = some (.name space name) := by
    simpa using List.find?_some (ofName_eq_ok_iff.mp h)
  rw [TypeSpec.isByName, hregistration]
  rfl

/-- A type that is found by its id is registered. -/
theorem mem_of_ofTypeId {id : UInt32} (h : registry.ofTypeId id = .ok spec) :
    spec ∈ registry.specs := by
  rw [ofTypeId, Lookups.ofTypeId] at h
  split at h
  next => cases h
  next kind hkind =>
    split at h
    next =>
      split at h
      next found hfound =>
        cases h
        exact List.mem_of_find?_eq_some hfound
      next => cases h
    next =>
      split at h
      next => cases h
      next =>
        dsimp only at h
        split at h
        next => cases h
        next found hfound =>
          split at h
          all_goals cases h
          all_goals exact List.mem_of_find?_eq_some hfound

end Registry

/-- A schema that a reference stands for is one of the message. -/
theorem Read.mem_of_schemaAt {schemas : List Schema} {reference : Nat} {schema : Schema}
    (h : schemaAt schemas reference = .ok schema) : schema ∈ schemas := by
  unfold schemaAt at h
  split at h
  next => cases h
  next =>
    split at h
    next => cases h
    next =>
      split at h
      next found hfound =>
        cases h
        exact List.mem_of_getElem? hfound
      next => cases h

/-- What a reader of data is busy with. -/
inductive Job
  /-- Reading a value by a shape. -/
  | read (scope : Scope) (spot : Spot) (shape : Shape)
  /-- Passing over a value. -/
  | pass (scope : Scope) (spot : Spot)
  /-- Reading a value with a layout of its own. -/
  | plain (shape : Shape)

/-- All that occurs while a message is read. -/
structure World (env : ReadEnv) where
  /-- The shapes. -/
  shapes : List Shape
  /-- The wire types. -/
  types : List WireType
  /-- What is known of values before their data. -/
  resolutions : List Resolved
  /-- The body of the message. -/
  body : List UInt8
  /-- No step of reading leaves the shapes. -/
  stable : env.shapes.Stable shapes
  /-- The contents of collections have types that occur. -/
  args : ∀ type ∈ types, ∀ arg ∈ type.args, arg ∈ types
  /-- The fields of structs have types that occur. -/
  fields : ∀ schema, .struct schema ∈ resolutions → ∀ field ∈ schema.fields, field.type ∈ types
  /-- Every builtin may occur. -/
  known : ∀ kind, .known kind ∈ resolutions
  /-- Every schema of the message may occur. -/
  schemas : ∀ schema ∈ env.schemas, ∀ kind, Read.ofSchema env.registry kind schema ∈ resolutions
  /-- Every registered type may occur. -/
  specs : ∀ spec ∈ env.registry.specs, ∀ kind resolved,
    Read.ofSpec env.registry kind spec = .ok resolved → resolved ∈ resolutions
  /-- Values with layouts of their own are passed over by shapes that occur. -/
  hosts : ∀ host, .ext (some host) ∈ resolutions → Shape.ofHost host ∈ shapes

namespace World

variable {env : ReadEnv} (world : World env)

/-- The spot occurs. -/
def HasSpot : Spot → Prop
  | .declared type => type ∈ world.types
  | .entered type resolved => type ∈ world.types ∧ resolved ∈ world.resolutions

/-- The recorded value occurs. -/
structure HasRef (entry : RefEntry) : Prop where
  /-- It stands in the body. -/
  start : entry.start <:+ world.body
  /-- Its type occurs. -/
  type : entry.type ∈ world.types
  /-- What is known of it occurs. -/
  resolved : entry.resolved ∈ world.resolutions

/-- What the annotations of a value say occurs. -/
def HasEntry : Entry → Prop
  | .null => True
  | .ref entry => world.HasRef entry
  | .value type resolved => type ∈ world.types ∧ resolved ∈ world.resolutions

/-- Readers of data in the world. -/
def realm : Realm ReadState where
  Job := Job
  input := ReadState.input
  Within s t := s.names <+: t.names ∧ s.refs <+: t.refs
  refl _ := ⟨List.prefix_refl _, List.prefix_refl _⟩
  trans hst htu := ⟨hst.1.trans htu.1, hst.2.trans htu.2⟩
  Inside s := s.input <:+ world.body ∧ ∀ entry ∈ s.refs, world.HasRef entry
  Has
    | .read scope spot shape =>
      scope.depth ≤ env.config.maxDepth ∧ world.HasSpot spot ∧ shape ∈ world.shapes
    | .pass scope spot => scope.depth ≤ env.config.maxDepth ∧ world.HasSpot spot
    | .plain shape => shape ∈ world.shapes
  Stuck
    | .read scope spot shape, n, s => Unfinished (Read.datumWithin env n scope spot shape s)
    | .pass scope spot, n, s => Unfinished (Read.skipWithin env n scope spot s)
    | .plain shape, n, s => Unfinished (Take.plainWithin env.shapes n shape s.input)

/-- The plain readers in the world. -/
abbrev plainRealm : Realm (List UInt8) := Plain.realm env.shapes world.shapes world.body

end World

namespace Read

variable {α : Type} {r : Take α} {s t : ReadState} {a : α}

/-- A reader of bytes succeeds as a reader of data where it succeeds on the bytes. -/
theorem exists_of_take_ok (h : take r s = .ok a t) :
    ∃ rest, r s.input = .ok a rest ∧ t = { s with input := rest } := by
  unfold take at h
  cases hr : r s.input with
  | ok b rest =>
    rw [hr] at h
    cases h
    exact ⟨rest, rfl, rfl⟩
  | error e rest =>
    rw [hr] at h
    cases h

/-- A reader of bytes ends as a reader of data where it ends on the bytes. -/
theorem unfinished_take_iff : Unfinished (take r s) ↔ Unfinished (r s.input) := by
  unfold take
  cases r s.input with
  | ok b rest => exact ⟨nofun, nofun⟩
  | error e rest =>
    constructor
    · rintro ⟨u, hu⟩
      cases hu
      exact ⟨rest, rfl⟩
    · rintro ⟨u, hu⟩
      cases hu
      exact ⟨_, rfl⟩

end Read

namespace World

variable {env : ReadEnv} {world : World env} {α : Type} {bounds : Nat → Prop} {post : α → Prop}

/-- Where readers of bytes come to a shape, they come to its plain reading as readers of data. -/
theorem comes_take {R : Nat → Take α} {s : ReadState} {shape : Shape} {rest : List UInt8}
    (hs : world.realm.Inside s) (h : world.plainRealm.Comes bounds R s.input shape rest) :
    world.realm.Comes bounds (fun n => Read.take (R n)) s (.plain shape)
      { s with input := rest } where
  has := h.has
  inside := ⟨h.inside, hs.2⟩
  within := world.realm.refl s
  awaits n hn hstuck := Read.unfinished_take_iff.mpr (h.awaits n hn hstuck)
  again u hu hinput _ := by
    have hsame : u.input = s.input := hinput
    refine ⟨{ u with input := rest }, ⟨h.inside, hu.2⟩, rfl, world.realm.refl u, ?_⟩
    intro n hn hstuck
    refine Read.unfinished_take_iff.mpr ?_
    rw [hsame]
    exact h.awaits n hn hstuck

/-- Readers of bytes that are traced are traced as readers of data. -/
theorem traced_take {R : Nat → Take α} (h : world.plainRealm.Traced bounds R post) :
    world.realm.Traced bounds (fun n => Read.take (R n)) post where
  steady := by
    intro n m s hn hm hle hs hend
    have hbytes : ¬Unfinished (R n s.input) := fun hstuck =>
      hend (Read.unfinished_take_iff.mpr hstuck)
    rw [Read.take, Read.take, h.steady hn hm hle hs.1 hbytes]
  settles := by
    intro n s a t hn hs hok
    obtain ⟨rest, hrest, rfl⟩ := Read.exists_of_take_ok hok
    obtain ⟨ha, hsuffix, -⟩ := h.settles hn hs.1 hrest
    exact ⟨ha, ⟨hsuffix, hs.2⟩, world.realm.refl s⟩
  repeats := by
    intro n s a t u hn hs hok hu hinput hwithin
    obtain ⟨rest, hrest, rfl⟩ := Read.exists_of_take_ok hok
    have hsame : u.input = s.input := hinput
    refine ⟨{ u with input := rest }, ?_, rfl⟩
    rw [Read.take, hsame, hrest]
  waits := by
    intro n s hn hs hstuck
    rcases h.waits hn hs.1 (Read.unfinished_take_iff.mp hstuck) with
      hnever | ⟨shape, rest, hshape, hcomes⟩
    · exact .inl fun k hk => Read.unfinished_take_iff.mpr (hnever k hk)
    · exact .inr ⟨.plain shape, { s with input := rest }, hshape, comes_take hs hcomes⟩

/-- Recording a value is traced. -/
theorem traced_record {type : WireType} {resolved : Resolved} (htype : type ∈ world.types)
    (hresolved : resolved ∈ world.resolutions) :
    world.realm.Traced bounds (fun _ => Read.record type resolved) fun _ => True := by
  refine .const ?_ ?_
  · intro s a t hs hok
    cases hok
    refine ⟨trivial, ⟨hs.1, fun entry hentry => ?_⟩, List.prefix_refl _, List.prefix_append _ _⟩
    rcases List.mem_append.mp hentry with hold | hnew
    · exact hs.2 entry hold
    · rw [List.mem_singleton.mp hnew]
      exact ⟨hs.1, htype, hresolved⟩
  · intro s a t u _ hok _ hinput _
    cases hok
    exact ⟨_, rfl, hinput⟩

/-- Looking up a recorded value is traced. -/
theorem traced_reference (id : Nat) :
    world.realm.Traced bounds (fun _ => Read.reference id) world.HasRef := by
  refine .const ?_ ?_
  · intro s entry t hs hok
    unfold Read.reference at hok
    cases hentry : s.refs[id]? with
    | none =>
      rw [hentry] at hok
      cases hok
    | some found =>
      rw [hentry] at hok
      cases hok
      exact ⟨hs.2 entry (List.mem_of_getElem? hentry), hs, world.realm.refl _⟩
  · intro s entry t u _ hok _ hinput hwithin
    unfold Read.reference at hok ⊢
    cases hentry : s.refs[id]? with
    | none =>
      rw [hentry] at hok
      cases hok
    | some found =>
      rw [hentry] at hok
      cases hok
      have hagain : u.refs[id]? = some entry := getElem?_of_starts hwithin.2 hentry
      exact ⟨u, by rw [hagain], hinput⟩

/-- Reading a name is traced. -/
theorem traced_name (scheme : Name.Scheme) :
    world.realm.Traced bounds (fun _ => Read.name scheme) fun _ => True := by
  refine .const ?_ ?_
  · intro s name t hs hok
    rw [Read.name_eq] at hok
    split at hok
    next found after rest htake =>
      cases hok
      obtain ⟨added, rfl, -⟩ := Name.Table.exists_of_takeBy_ok htake
      have htraced : world.plainRealm.Traced (fun _ => True)
          (fun _ => Name.Table.takeBy s.names scheme) fun _ => True :=
        Plain.traced_name s.names scheme
      obtain ⟨-, hsuffix, -⟩ := htraced.settles (n := 0) trivial hs.1 htake
      exact ⟨trivial, ⟨hsuffix, hs.2⟩, List.prefix_append _ _, List.prefix_refl _⟩
    next => cases hok
  · intro s name t u _ hok _ hinput hwithin
    have hsame : u.input = s.input := hinput
    rw [Read.name_eq] at hok ⊢
    split at hok
    next found after rest htake =>
      cases hok
      obtain ⟨added, rfl, hagain⟩ := Name.Table.exists_of_takeBy_ok htake
      rw [hsame, hagain u.names hwithin.1]
      exact ⟨_, rfl, rfl⟩
    next => cases hok

/-- Reading a flag is traced. -/
theorem traced_flag (flagged : Bool) :
    world.realm.Traced bounds (fun _ => Read.flag flagged) fun _ => True := by
  cases flagged with
  | true => exact (traced_take Plain.traced_byte).bind fun _ _ => .ofExcept fun _ _ => trivial
  | false => exact .pure trivial

/-- Reading what follows the type id of a user type is traced. -/
theorem traced_userInfo (id : UInt32) (kind : Kind) :
    world.realm.Traced bounds (fun _ => Read.userInfo env id kind) (· ∈ world.resolutions) := by
  have hspec {e : Except Error TypeSpec} (he : ∀ spec, e = .ok spec → spec ∈ env.registry.specs) :
      world.realm.Traced bounds (fun _ => do
        let spec ← MonadExcept.ofExcept e
        MonadExcept.ofExcept (Read.ofSpec env.registry kind spec)) (· ∈ world.resolutions) :=
    (Realm.Traced.ofExcept he).bind fun spec hmem => .ofExcept fun resolved hresolved =>
      world.specs spec hmem kind resolved hresolved
  unfold Read.userInfo
  by_cases hrefers : kind.refersToSchema env.config.compatible
  · simp only [if_pos hrefers]
    refine (traced_take (Plain.traced_varint Varint.word32)).bind fun reference _ => ?_
    refine (Realm.Traced.ofExcept fun schema hschema => Read.mem_of_schemaAt hschema).bind ?_
    exact fun schema hmem => .pure (world.schemas schema hmem kind)
  · simp only [if_neg hrefers]
    by_cases hnamed : kind.isNamed
    · simp only [if_pos hnamed]
      refine (traced_name .space).bind fun space _ => (traced_name .type).bind fun name _ => ?_
      exact hspec fun spec => Registry.mem_of_ofName
    · simp only [if_neg hnamed]
      exact hspec fun spec => Registry.mem_of_ofTypeId

/-- Reading type information is traced. -/
theorem traced_typeInfo :
    world.realm.Traced bounds (fun _ => Read.typeInfo env) (· ∈ world.resolutions) := by
  unfold Read.typeInfo
  refine (traced_take (Plain.traced_varint Varint.word32)).bind fun id _ => ?_
  refine (Realm.Traced.ofExcept fun _ _ => trivial).bind fun kind _ => ?_
  have hrest : world.realm.Traced bounds
      (fun _ => if kind.isUser then Read.userInfo env (UInt32.ofNat id) kind
        else return .known kind) (· ∈ world.resolutions) := by
    by_cases huser : kind.isUser
    · simp only [if_pos huser]
      exact traced_userInfo _ kind
    · simp only [if_neg huser]
      exact .pure (world.known kind)
  by_cases hreadable : (!kind.isReadable) = true
  · simp only [if_pos hreadable]
    exact (Realm.Traced.throw _ fun _ => True).bind fun _ _ => hrest
  · simp only [if_neg hreadable]
    exact hrest

/-- Reading what stands between the flag of a value and its data is traced. -/
theorem traced_info (kind : Kind) :
    world.realm.Traced bounds (fun _ => Read.info env kind) (· ∈ world.resolutions) := by
  unfold Read.info
  by_cases huser : kind.isUser
  · simp only [if_pos huser]
    exact traced_typeInfo
  · simp only [if_neg huser]
    exact .pure (world.known kind)

/-- Reading the annotations of a value is traced. -/
theorem traced_enter (recording : Bool) {spot : Spot} (hspot : world.HasSpot spot) :
    world.realm.Traced bounds (fun _ => Read.enter env recording spot) world.HasEntry := by
  cases spot with
  | entered type resolved =>
    exact (Realm.Traced.ofExcept fun _ _ => trivial).bind fun _ _ => .pure hspot
  | declared type =>
    refine (Realm.Traced.ofExcept fun _ _ => trivial).bind fun kind _ => ?_
    refine (traced_flag _).bind fun flag _ => ?_
    cases flag with
    | null => exact .pure trivial
    | ref =>
      refine (traced_take (Plain.traced_varint Varint.word32)).bind fun id _ => ?_
      exact (traced_reference id).bind fun entry hentry => .pure hentry
    | notNull => exact (traced_info kind).bind fun resolved hresolved => .pure ⟨hspot, hresolved⟩
    | refValue =>
      refine (traced_info kind).bind fun resolved hresolved => ?_
      cases recording with
      | true => exact (traced_record hspot hresolved).bind fun _ _ => .pure ⟨hspot, hresolved⟩
      | false => exact .pure ⟨hspot, hresolved⟩

end World

end SchemaWire
