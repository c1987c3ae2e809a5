import SchemaWire.Proofs.Data.BackReference

/-!
# Readers that know what they ask for

A value with a layout of its own does not tell how many bytes it takes, so a reader takes what its
shape takes. And where schemas do not travel, a value that is read again enters the names that are
spelled out in it into the table once more. A careful reader does neither: it takes a value with a
layout of its own only for the type that has it, and it reads no value again that spells out names.
All readers are careful where no registered type has a layout of its own, if schemas travel or no
type is registered by name.
-/

namespace SchemaWire

namespace Shape

/-- The scalar type that the shape belongs to, if there is one. -/
def host? : Shape → Option HostType
  | .bool => some .bool
  | .int t => some (.int t)
  | .float32 => some .float32
  | .float64 => some .float64
  | .string => some .string
  | .str => some .str
  | .bytes => some .bytes
  | .char => some .char
  | .unit => some .unit
  | .user name => some (.user name)
  | _ => none

/-- A shape that belongs to a scalar type is the shape of that type. -/
theorem eq_ofHost_of_host? {shape : Shape} {host : HostType} (h : shape.host? = some host) :
    shape = .ofHost host := by
  cases shape <;> cases h <;> rfl

/-- Whether a shape, which stands for the other one, asks for a value by the layout that the value
has of its own, if it has one. Who passes over the value need not ask, and who allows for it to be
missing asks afterwards. -/
def asksOwn (shape own : Shape) : Resolved → Bool
  | .ext (some host) =>
    match own with
    | .option _ | .ignored => true
    | _ => shape.host? == some host
  | _ => true

end Shape

/-- Nothing is known of a layout of the value's own. -/
def Spot.Described (spot : Spot) : Prop :=
  ∀ type host, spot ≠ .entered type (.ext (some host))

namespace Read

/-- Read what the annotations of a value announce as `datumWithin` does, but neither take a value
with a layout of its own for something else nor come by names in a value that is read again. -/
def announcedCareful (env : ReadEnv) (fuel : Nat) (read : Scope → Spot → Shape → Read Datum)
    (scope : Scope) (shape own : Shape) : Entry → Read Datum
  | .null => MonadExcept.ofExcept (missing own)
  | .ref entry => do
    let names := (← get).names
    let value ← again entry fun spot =>
      datumWithin env fuel { scope with recording := false } spot own
    if (← get).names = names then return value else throw .rejected
  | .value type resolved =>
    if shape.asksOwn own resolved then
      content env fuel read (skipWithin env fuel) scope type resolved own
    else throw .rejected

/-- Read a value as `datumWithin` does, but carefully. -/
def datumCareful (env : ReadEnv) : Nat → Scope → Spot → Shape → Read Datum
  | 0, _, _, _ => throw .unfinished
  | fuel + 1, scope, spot, shape => do
    let own := env.shapes.resolve shape
    if own matches .refused then throw .rejected
    announcedCareful env fuel (datumCareful env fuel) scope shape own (← enter env scope.recording spot)

variable {env : ReadEnv} {fuel : Nat} {scope : Scope} {spot : Spot} {shape : Shape}
  {s t : ReadState} {v : Datum}

/-- Reading carefully by a shape that is not refused starts with the annotations. -/
theorem datumCareful_of_ne_refused (hshape : env.shapes.resolve shape ≠ .refused) (fuel : Nat)
    (scope : Scope) (spot : Spot) :
    datumCareful env (fuel + 1) scope spot shape = (do
      announcedCareful env fuel (datumCareful env fuel) scope shape (env.shapes.resolve shape)
        (← enter env scope.recording spot)) := by
  rw [datumCareful]
  generalize env.shapes.resolve shape = own at hshape
  cases own with
  | refused => exact absurd rfl hshape
  | _ => rfl

/-- Neither kind of reader takes anything by a shape that is refused. -/
theorem datumCareful_of_refused (hshape : env.shapes.resolve shape = .refused) :
    datumCareful env (fuel + 1) scope spot shape = datumWithin env (fuel + 1) scope spot shape := by
  rw [datumCareful, datumWithin, hshape]
  rfl

/-- A careful reader begins with the annotations. -/
theorem exists_of_datumCareful_ok (h : datumCareful env (fuel + 1) scope spot shape s = .ok v t) :
    ∃ entry u, enter env scope.recording spot s = .ok entry u ∧
      announcedCareful env fuel (datumCareful env fuel) scope shape (env.shapes.resolve shape) entry u =
        .ok v t := by
  by_cases hshape : env.shapes.resolve shape = .refused
  · rw [datumCareful_of_refused hshape] at h
    exact absurd hshape (ne_refused_of_datumWithin_ok h)
  · rw [datumCareful_of_ne_refused hshape] at h
    exact exists_of_bind_ok h

/-- A careful reader reads data that it asks for by a layout of their own where they have one. -/
theorem of_announcedCareful_value_ok {read : Scope → Spot → Shape → Read Datum} {own : Shape}
    {type : WireType} {resolved : Resolved}
    (h : announcedCareful env fuel read scope shape own (.value type resolved) s = .ok v t) :
    shape.asksOwn own resolved = true ∧
      content env fuel read (skipWithin env fuel) scope type resolved own s = .ok v t := by
  rw [announcedCareful] at h
  split at h
  next hasks => exact ⟨hasks, h⟩
  next => cases h

/-- Where a careful reader reads a value again, all stays as it was. -/
theorem eq_of_announcedCareful_ref_ok {read : Scope → Spot → Shape → Read Datum} {own : Shape}
    {entry : RefEntry}
    (h : announcedCareful env fuel read scope shape own (.ref entry) s = .ok v t) : t = s := by
  obtain ⟨start, u, hget, h⟩ := exists_of_bind_ok h
  cases hget
  obtain ⟨value, w, hagain, h⟩ := exists_of_bind_ok h
  obtain ⟨behind, x, hget, h⟩ := exists_of_bind_ok h
  cases hget
  split at h
  next hnames =>
    cases h
    obtain ⟨last, hread, rfl⟩ := exists_of_again_ok hagain
    have hunrecorded := Discipline.unrecorded.datumWithin env
      (Discipline.unrecorded.typeInfo fun _ => Discipline.unrecorded_name) fuel
      { scope with recording := false } (.entered entry.type entry.resolved) own nofun
    have hrefs : last.refs = s.refs := hunrecorded { s with input := entry.start } _ _ hread
    have hsame : last.names = s.names := hnames
    rw [hrefs, hsame]
  next => cases h

/-- A schema tells of a layout only if a registered type has it. -/
theorem exists_of_ofSchema_eq_ext {registry : Registry} {kind : Kind} {schema : Schema}
    {host : HostType} (h : ofSchema registry kind schema = .ext (some host)) :
    ∃ spec ∈ registry.specs, extHost? spec = some host := by
  unfold ofSchema at h
  split at h
  · cases h
  split at h
  · cases h
  dsimp only at h
  split at h
  next spec hspec =>
    refine ⟨spec, ?_, Resolved.ext.inj h⟩
    split at hspec
    · exact Registry.mem_of_ofName hspec
    · exact Registry.mem_of_ofTypeId hspec
  next => cases h

/-- A local type tells of a layout only if it has it. -/
theorem extHost?_of_ofSpec_ok {registry : Registry} {kind : Kind} {spec : TypeSpec}
    {host : HostType} (h : ofSpec registry kind spec = .ok (.ext (some host))) :
    extHost? spec = some host := by
  unfold ofSpec at h
  unfold extHost?
  split at h
  · split at h
    · obtain ⟨schema, -, h⟩ := exists_of_except_bind_ok h
      cases h
    · cases h
  · split at h <;> cases h
  next hrole =>
    split at h
    · rw [hrole]
      exact Resolved.ext.inj (Except.ok.inj h)
    · cases h
  · cases h

/-- Type information tells of a layout only if a registered type has it. -/
theorem exists_of_typeInfo_ok {s t : ReadState} {host : HostType}
    (h : typeInfo env s = .ok (.ext (some host)) t) :
    ∃ spec ∈ env.registry.specs, extHost? spec = some host := by
  obtain ⟨id, u, -, h⟩ := exists_of_bind_ok h
  obtain ⟨kind, w, -, h⟩ := exists_of_bind_ok h
  have hlast {e : Except Error TypeSpec} {s : ReadState}
      (he : ∀ spec, e = .ok spec → spec ∈ env.registry.specs)
      (h : (do
        let spec ← MonadExcept.ofExcept e
        MonadExcept.ofExcept (ofSpec env.registry kind spec) : Read Resolved) s =
          .ok (.ext (some host)) t) :
      ∃ spec ∈ env.registry.specs, extHost? spec = some host := by
    obtain ⟨spec, x, hspec, h⟩ := exists_of_bind_ok h
    exact ⟨spec, he spec (exists_of_ofExcept_ok hspec).1,
      extHost?_of_ofSpec_ok (exists_of_ofExcept_ok h).1⟩
  dsimp only at h
  split at h
  · cases h
  split at h
  · unfold userInfo at h
    split at h
    · obtain ⟨reference, x, -, h⟩ := exists_of_bind_ok h
      obtain ⟨schema, y, -, h⟩ := exists_of_bind_ok h
      injection h with hsame
      exact exists_of_ofSchema_eq_ext hsame
    split at h
    · obtain ⟨space, x, -, h⟩ := exists_of_bind_ok h
      obtain ⟨name, y, -, h⟩ := exists_of_bind_ok h
      exact hlast (fun spec => Registry.mem_of_ofName) h
    · exact hlast (fun spec => Registry.mem_of_ofTypeId) h
  · cases h

/-- Where no registered type has a layout of its own, annotations tell of none. -/
theorem described_of_enter_ok (hexts : ∀ spec ∈ env.registry.specs, extHost? spec = none)
    {recording : Bool} {spot : Spot} (hspot : spot.Described) {type : WireType} {resolved : Resolved}
    {s u : ReadState} (h : enter env recording spot s = .ok (.value type resolved) u) :
    (Spot.entered type resolved).Described := by
  rintro type host heq
  cases heq
  obtain ⟨kind, -, rfl | ⟨-, start, after, hinfo⟩⟩ := announced_of_enter_ok h
  · exact hspot _ _ rfl
  · unfold info at hinfo
    split at hinfo
    · obtain ⟨spec, hmem, hhost⟩ := exists_of_typeInfo_ok hinfo
      rw [hexts spec hmem] at hhost
      cases hhost
    · cases hinfo

/-- The relation of the readers that are the same, inside of the same scopes. -/
def sameTwins : DataTwins where
  Rel x y := x = y
  pure _ := rfl
  throw _ := rfl
  bind h hnext := by rw [h, funext hnext]
  Near scope other := other = scope
  take _ _ := rfl
  deeper maxDepth outer other h R S hnext := by
    subst h
    rw [funext fun inner => hnext inner inner rfl]

/-- Where reading a value again leaves everything as it was, a careful reader does the same. -/
theorem announcedCareful_ref (hinfo : Discipline.frozen.Holds (typeInfo env))
    (read : Scope → Spot → Shape → Read Datum) (own : Shape) (entry : RefEntry) :
    announcedCareful env fuel read scope shape own (.ref entry) = again entry fun spot =>
      datumWithin env fuel { scope with recording := false } spot own := by
  funext s
  have hget (s : ReadState) : (get : Read ReadState) s = .ok s s := rfl
  refine (bind_of_ok (hget s)).trans ?_
  cases hagain : again entry (fun spot =>
      datumWithin env fuel { scope with recording := false } spot own) s with
  | error e t => exact bind_of_error hagain
  | ok v t =>
    have hpasses : Passes (again entry fun spot =>
        datumWithin env fuel { scope with recording := false } spot own) (pure ()) := by
      rw [← datumAsking_self]
      exact again_passes hinfo _ scope entry own
    obtain ⟨_, hsame⟩ := hpasses s v t hagain
    cases hsame
    refine (bind_of_ok hagain).trans ((bind_of_ok (hget s)).trans ?_)
    rw [if_pos rfl]
    rfl

/-- All readers are careful where no registered type has a layout of its own, if schemas travel or
no type is registered by name. -/
theorem datumCareful_eq
    (hnames : env.config.compatible = true ∨ ∀ spec ∈ env.registry.specs, spec.isByName = false)
    (hexts : ∀ spec ∈ env.registry.specs, extHost? spec = none) (fuel : Nat) (scope : Scope)
    {spot : Spot} (hspot : spot.Described) (shape : Shape) :
    datumCareful env fuel scope spot shape = datumWithin env fuel scope spot shape := by
  induction fuel generalizing scope spot shape with
  | zero => rfl
  | succ fuel ih =>
    by_cases hshape : env.shapes.resolve shape = .refused
    · exact datumCareful_of_refused hshape
    rw [datumCareful_of_ne_refused hshape, datumWithin_of_ne_refused hshape]
    funext s
    cases henter : enter env scope.recording spot s with
    | error e u => rw [bind_of_error henter, bind_of_error henter]
    | ok entry u =>
      rw [bind_of_ok henter, bind_of_ok henter]
      cases entry with
      | null => rfl
      | ref entry => rw [announcedCareful_ref (Discipline.frozen_typeInfo hnames)]
      | value type resolved =>
        have hdescribed := described_of_enter_ok hexts hspot henter
        have hasks : shape.asksOwn (env.shapes.resolve shape) resolved = true := by
          cases resolved with
          | ext host =>
            cases host with
            | none => rfl
            | some host => exact absurd rfl (hdescribed type host)
          | _ => rfl
        have hdeclared (type : WireType) : (Spot.declared type).Described := nofun
        have hskip : ∀ inner other : Scope, other = inner → ∀ spot,
            skipWithin env fuel inner spot = skipWithin env fuel other spot := by
          rintro inner _ rfl spot
          rfl
        have hread : ∀ inner other : Scope, other = inner → ∀ type shape,
            datumCareful env fuel inner (.declared type) shape =
              datumWithin env fuel other (.declared type) shape := by
          rintro inner _ rfl type shape
          exact ih _ (hdeclared type) shape
        have hsame : content env fuel (datumCareful env fuel) (skipWithin env fuel) scope type resolved
            (env.shapes.resolve shape) = _ :=
          sameTwins.content (fun _ => rfl) hskip rfl hread type resolved (ih scope hdescribed) _
        dsimp only [announcedCareful]
        rw [if_pos hasks, hsame]

end Read

end SchemaWire
