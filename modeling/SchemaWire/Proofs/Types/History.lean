import SchemaWire.Proofs.Schema.Derive

/-!
# Histories of a registry

A registry starts with the builtins and is changed by one call after the other, where a call that
fails changes nothing. After a history, the types that were there are there still, except that they
may be tracked by now, and behind them are the user types that were registered. What is looked up
and is true of none of these is found as ever.
-/

namespace SchemaWire

namespace Registry

/-- A call that changes a registry. -/
inductive Change
  /-- Register a struct. -/
  | struct (host : HostType) (registration : Registration) (fields : List FieldDescriptor)
  /-- Register a struct by its own printed name. -/
  | structByLabel (host : HostType) (withSpace : Bool) (fields : List FieldDescriptor)
  /-- Register an enum. -/
  | enum (host : HostType) (registration : Registration)
  /-- Register a type with a layout of its own. -/
  | ext (host : HostType) (registration : Registration)
  /-- Let all values of a type be referred to. -/
  | track (host : HostType)
  deriving DecidableEq, Repr

namespace Change

/-- The registry that a call leads to, if it does not fail. -/
def apply (registry : Registry) : Change → Except Error Registry
  | .struct host registration fields => registry.registerStruct host registration fields
  | .structByLabel host withSpace fields =>
    registry.registerStruct host (registrationOf host withSpace) fields
  | .enum host registration => registry.registerEnum host registration
  | .ext host registration => registry.registerExt host registration
  | .track host => registry.track host

/-- The registry after a call, which stays as it is where the call fails. -/
def after (registry : Registry) (change : Change) : Registry :=
  match change.apply registry with
  | .ok next => next
  | .error _ => registry

/-- The type that a call registers. -/
def spec? : Change → Option TypeSpec
  | .struct host registration fields =>
    some ⟨some host, host.label, false, .struct registration fields⟩
  | .structByLabel host withSpace fields =>
    some ⟨some host, host.label, false, .struct (registrationOf host withSpace) fields⟩
  | .enum host registration => some ⟨some host, host.label, false, .enum registration⟩
  | .ext host registration => some ⟨some host, host.label, false, .ext registration⟩
  | .track _ => none

/-- Whether a call lets the values of a type be referred to. -/
def tracks (spec : TypeSpec) : Change → Bool
  | .track host => spec.host == some host
  | _ => false

end Change

/-- The registry after a history of calls. -/
def history (registry : Registry) (changes : List Change) : Registry :=
  changes.foldl Change.after registry

end Registry

/-- A type after a history of calls. -/
def TypeSpec.since (spec : TypeSpec) (changes : List Registry.Change) : TypeSpec :=
  { spec with tracked := spec.tracked || changes.any (Registry.Change.tracks spec) }

namespace TypeSpec

open Registry

variable {spec : TypeSpec} {changes : List Change}

/-- Tracking leaves what a type stands for alone. -/
@[simp]
theorem host_since : (spec.since changes).host = spec.host := rfl

/-- A type keeps its role. -/
@[simp]
theorem role_since : (spec.since changes).role = spec.role := rfl

/-- A type keeps its registration. -/
@[simp]
theorem registration?_since : (spec.since changes).registration? = spec.registration? := rfl

/-- A type that nobody asked to track stays as it is. -/
theorem since_eq_self (h : ∀ change ∈ changes, change.tracks spec = false) :
    spec.since changes = spec := by
  have hnone : changes.any (Change.tracks spec) = false :=
    List.any_eq_false.mpr fun change hchange => by simp [h change hchange]
  rw [since, hnone, Bool.or_false]

/-- Without a call a type stays as it is. -/
theorem since_nil : spec.since [] = spec := by
  rw [since, List.any_nil, Bool.or_false]

/-- A history is one call and a history after it. -/
theorem since_cons (change : Change) : spec.since (change :: changes) =
    (spec.since [change]).since changes := by
  have hsame (tracked : Bool) :
      Change.tracks ⟨spec.host, spec.label, tracked, spec.role⟩ = Change.tracks spec := by
    funext other
    cases other <;> rfl
  simp only [since, hsame, List.any_cons, List.any_nil, Bool.or_false, Bool.or_assoc]

end TypeSpec

namespace Registry

variable {registry next : Registry} {change : Change} {changes : List Change}

/-- Adding a user type puts it behind the others. -/
theorem specs_of_add_ok {host : HostType} {registration : Registration} {role : Role}
    (h : registry.add host registration role = .ok next) :
    next.specs = registry.specs ++ [⟨some host, host.label, false, role⟩] := by
  unfold add at h
  split at h
  · cases h
  next =>
    obtain ⟨u, -, h⟩ := exists_of_except_bind_ok h
    cases h
    rfl

/-- Registering a struct puts it behind the others. -/
theorem specs_of_registerStruct_ok {host : HostType} {registration : Registration}
    {fields : List FieldDescriptor}
    (h : registry.registerStruct host registration fields = .ok next) :
    next.specs = registry.specs ++ [⟨some host, host.label, false, .struct registration fields⟩] := by
  unfold registerStruct at h
  split at h
  next => cases h
  next => exact specs_of_add_ok h

/-- What a call that succeeds does. -/
theorem Change.specs_of_apply_ok (h : change.apply registry = .ok next) :
    next.specs = registry.specs.map (·.since [change]) ++ change.spec?.toList := by
  have hsame (hnone : ∀ spec, change.tracks spec = false) :
      registry.specs.map (·.since [change]) = registry.specs :=
    List.map_id'' (fun spec => TypeSpec.since_eq_self fun other hother => by
      rw [List.mem_singleton.mp hother]
      exact hnone spec) _
  cases change with
  | struct host registration fields =>
    rw [hsame fun _ => rfl]
    exact specs_of_registerStruct_ok h
  | structByLabel host withSpace fields =>
    rw [hsame fun _ => rfl]
    exact specs_of_registerStruct_ok h
  | enum host registration =>
    rw [hsame fun _ => rfl]
    exact specs_of_add_ok h
  | ext host registration =>
    rw [hsame fun _ => rfl]
    exact specs_of_add_ok h
  | track host =>
    simp only [Change.apply, Registry.track] at h
    split at h
    next =>
      cases h
      rw [spec?, Option.toList_none, List.append_nil]
      refine List.map_congr_left fun spec _ => ?_
      simp only [TypeSpec.since, List.any_cons, List.any_nil, Bool.or_false, tracks]
      split
      next hhost => rw [hhost, Bool.or_true]
      next hhost => rw [Bool.eq_false_of_not_eq_true hhost, Bool.or_false]
    next => cases h

/-- The builtins of a registry are those that it started with. -/
theorem Built.kind_mem (h : Built registry) : ∀ spec ∈ registry.specs, ∀ kind,
    spec.role = .builtin kind → kind ∈ scalarBuiltins.map Prod.snd ++ otherBuiltins := by
  have hadded {before after : List TypeSpec} {spec : TypeSpec}
      (ih : ∀ spec ∈ before, ∀ kind, spec.role = .builtin kind →
        kind ∈ scalarBuiltins.map Prod.snd ++ otherBuiltins)
      (hspecs : after = before ++ [spec]) (huser : ∀ kind, spec.role ≠ .builtin kind) :
      ∀ spec ∈ after, ∀ kind, spec.role = .builtin kind →
        kind ∈ scalarBuiltins.map Prod.snd ++ otherBuiltins := by
    intro other hother kind hrole
    rcases List.mem_append.mp (hspecs ▸ hother) with hold | hnew
    · exact ih other hold kind hrole
    · rw [List.mem_singleton.mp hnew] at hrole
      exact absurd hrole (huser kind)
  induction h with
  | standard =>
    have hall : ∀ spec ∈ Registry.standard.specs, spec.role ∈
        (scalarBuiltins.map Prod.snd ++ otherBuiltins).map Role.builtin := by
      decide
    intro spec hspec kind hrole
    obtain ⟨own, hown, hsame⟩ := List.mem_map.mp (hall spec hspec)
    cases hsame.trans hrole
    exact hown
  | struct _ hok ih => exact hadded ih (specs_of_registerStruct_ok hok) fun _ => nofun
  | enum _ hok ih => exact hadded ih (specs_of_add_ok hok) fun _ => nofun
  | ext _ hok ih => exact hadded ih (specs_of_add_ok hok) fun _ => nofun
  | @track before after host _ hok ih =>
    intro spec hspec kind hrole
    have happly : (Change.track host).apply before = .ok after := hok
    rw [Change.specs_of_apply_ok happly, Change.spec?, Option.toList_none, List.append_nil] at hspec
    obtain ⟨own, hown, rfl⟩ := List.mem_map.mp hspec
    exact ih own hown kind hrole

/-- A call that fails asks nothing of the types that are there. -/
theorem Change.since_of_apply_error {e : Error} (h : change.apply registry = .error e) :
    registry.specs.map (·.since [change]) = registry.specs := by
  refine (List.map_congr_left fun spec hspec => TypeSpec.since_eq_self fun other hother => ?_).trans
    (List.map_id _)
  rw [List.mem_singleton.mp hother]
  cases change with
  | struct host registration fields => rfl
  | structByLabel host withSpace fields => rfl
  | enum host registration => rfl
  | ext host registration => rfl
  | track host =>
    simp only [Change.apply, Registry.track] at h
    split at h
    next => cases h
    next hnone =>
      have hfind := List.find?_eq_none.mp (Option.not_isSome_iff_eq_none.mp hnone) spec hspec
      exact Bool.eq_false_of_not_eq_true hfind

/-- Only user types are registered. -/
theorem Change.isUser_of_spec? {spec : TypeSpec} (h : change.spec? = some spec) :
    spec.isUser = true := by
  cases change with
  | track host => cases h
  | struct host registration fields => cases h; rfl
  | structByLabel host withSpace fields => cases h; rfl
  | enum host registration => cases h; rfl
  | ext host registration => cases h; rfl

/-- After a call the types are those that were there, tracked if that was asked for, with user
types behind them. -/
theorem Change.exists_specs_after (registry : Registry) (change : Change) :
    ∃ added, (change.after registry).specs = registry.specs.map (·.since [change]) ++ added ∧
      ∀ spec ∈ added, spec.isUser = true := by
  rw [after]
  cases h : change.apply registry with
  | ok next =>
    refine ⟨change.spec?.toList, specs_of_apply_ok h, fun spec hspec => ?_⟩
    exact isUser_of_spec? (Option.mem_toList.mp hspec)
  | error e => exact ⟨[], by rw [since_of_apply_error h, List.append_nil],
      List.forall_mem_nil _⟩

/-- After a history the types are those that were there, tracked if that was asked for, with user
types behind them. -/
theorem exists_specs_history (registry : Registry) (changes : List Change) :
    ∃ added, (registry.history changes).specs = registry.specs.map (·.since changes) ++ added ∧
      ∀ spec ∈ added, spec.isUser = true := by
  induction changes generalizing registry with
  | nil =>
    refine ⟨[], ?_, List.forall_mem_nil _⟩
    rw [List.append_nil]
    exact (List.map_id'' (fun _ => TypeSpec.since_nil) _).symm
  | cons change rest ih =>
    obtain ⟨first, hfirst, husers⟩ := change.exists_specs_after registry
    obtain ⟨later, hlater, hothers⟩ := ih (change.after registry)
    refine ⟨first.map (·.since rest) ++ later, ?_, fun spec hspec => ?_⟩
    · calc (registry.history (change :: rest)).specs
          = (change.after registry).specs.map (·.since rest) ++ later := hlater
        _ = registry.specs.map (·.since (change :: rest)) ++ (first.map (·.since rest) ++ later) := by
          rw [hfirst, List.map_append, List.map_map, List.append_assoc]
          congr 1
          exact List.map_congr_left fun spec _ => (TypeSpec.since_cons change).symm
    · rcases List.mem_append.mp hspec with hold | hnew
      · obtain ⟨own, hown, rfl⟩ := List.mem_map.mp hold
        exact husers own hown
      · exact hothers spec hnew

/-- A call is a step in which a registry is built. -/
theorem Built.after (h : Built registry) (change : Change) : Built (change.after registry) := by
  rw [Change.after]
  cases happly : change.apply registry with
  | error e => exact h
  | ok next =>
    cases change with
    | struct host registration fields => exact h.struct happly
    | structByLabel host withSpace fields => exact h.struct happly
    | enum host registration => exact h.enum happly
    | ext host registration => exact h.ext happly
    | track host => exact h.track happly

/-- A registry with a history is built step by step. -/
theorem Built.history (h : Built registry) : Built (registry.history changes) := by
  induction changes generalizing registry with
  | nil => exact h
  | cons change rest ih => exact ih (h.after change)

/-- A type that was registered is there ever after. -/
theorem since_mem_history {front back : List Change} {spec : TypeSpec}
    (happly : change.apply (registry.history front) = .ok next) (hspec : change.spec? = some spec) :
    spec.since back ∈ (registry.history (front ++ change :: back)).specs := by
  have hnext : registry.history (front ++ change :: back) = next.history back := by
    rw [history, List.foldl_append, List.foldl_cons, Change.after]
    rw [history] at happly
    rw [happly]
    rfl
  obtain ⟨added, hadded, -⟩ := exists_specs_history next back
  have hmem : spec ∈ next.specs := by
    rw [Change.specs_of_apply_ok happly, hspec]
    exact List.mem_append_right _ List.mem_cons_self
  rw [hnext, hadded]
  exact List.mem_append_left _ (List.mem_map_of_mem hmem)

/-- What is true of a type whether it is tracked or not, and of no user type, is found where it was
before. -/
theorem find?_history {p : TypeSpec → Bool} (hp : ∀ spec, p (spec.since changes) = p spec)
    (husers : ∀ spec ∈ (registry.history changes).specs, spec.isUser = true → p spec = false) :
    (registry.history changes).specs.find? p = (registry.specs.find? p).map (·.since changes) := by
  obtain ⟨added, hspecs, hadded⟩ := exists_specs_history registry changes
  have hcomp : p ∘ (·.since changes) = p := funext hp
  have hnone : added.find? p = none := by
    refine List.find?_eq_none.mpr fun spec hspec => Bool.not_eq_true _ ▸ ?_
    exact husers spec (hspecs ▸ List.mem_append_right _ hspec) (hadded spec hspec)
  rw [hspecs, List.find?_append, List.find?_map, hcomp, hnone, Option.or_none]

/-- Builtins are found by their kinds as ever. -/
theorem builtin?_history (kind : Kind) : (registry.history changes).builtin? kind =
    (registry.builtin? kind).map (·.since changes) := by
  refine find?_history (fun _ => rfl) fun spec _ huser => ?_
  refine Bool.eq_false_iff.mpr fun hrole => ?_
  rw [TypeSpec.isUser, TypeSpec.registration?, eq_of_beq hrole] at huser
  cases huser

/-- A declared type resolves as ever, unless there is a user type that stands for it. -/
theorem resolve_history {type : FieldType}
    (husers : ∀ spec ∈ (registry.history changes).specs, spec.isUser = true →
      spec.host ≠ some type.host) :
    (registry.history changes).resolve type = (registry.resolve type).map (·.since changes) := by
  have hhost : (registry.history changes).ofHost? type.host =
      (registry.ofHost? type.host).map (·.since changes) :=
    find?_history (fun _ => rfl) fun spec hspec huser => beq_false_of_ne (husers spec hspec huser)
  have hfound : (registry.history changes).ofType? type =
      (registry.ofType? type).map (·.since changes) := by
    rw [ofType?_eq, ofType?_eq, hhost, Option.map_or]
    cases type.sort? with
    | none => rfl
    | some kind => exact congrArg _ (builtin?_history kind)
  rw [resolve_eq, resolve_eq, hfound]
  cases registry.ofType? type <;> rfl

/-- Type ids that are not those of user types lead where they did. -/
theorem ofTypeId_history {id : UInt32}
    (hid : ∀ kind, Kind.ofTypeId? id = some kind → kind.isUser = false) :
    (registry.history changes).ofTypeId id = (registry.ofTypeId id).map (·.since changes) := by
  rw [ofTypeId, ofTypeId, Lookups.ofTypeId, Lookups.ofTypeId]
  cases hkind : Kind.ofTypeId? id with
  | none => rfl
  | some kind =>
    simp only [hid kind hkind, Bool.not_false, if_true, lookups, builtin?_history]
    cases registry.builtin? kind <;> rfl

/-- A type id that leads to a user type is of a kind of its family that is not known by name, and
holds its number. -/
theorem exists_of_ofTypeId_ok {id : UInt32} {spec : TypeSpec} (h : registry.ofTypeId id = .ok spec)
    (huser : spec.isUser = true) :
    ∃ kind, Kind.ofTypeId? id = some kind ∧ kind.isNamed = false ∧ spec.isOfFamily kind = true ∧
      spec.registration? = some (.id (id.toNat / 256)) := by
  rw [ofTypeId, Lookups.ofTypeId] at h
  cases hkind : Kind.ofTypeId? id with
  | none => simp [hkind] at h
  | some kind =>
    simp only [hkind] at h
    refine ⟨kind, rfl, ?_⟩
    split at h
    · split at h
      next own hown =>
        cases h
        have hrole := List.find?_some hown
        rw [TypeSpec.isUser, TypeSpec.registration?, eq_of_beq hrole] at huser
        cases huser
      next => cases h
    · split at h
      · cases h
      next hnamed =>
        split at h
        next => cases h
        next own hown =>
          split at h
          next hfamily =>
            cases h
            have hregistration := List.find?_some hown
            exact ⟨Bool.eq_false_of_not_eq_true hnamed, hfamily, eq_of_beq hregistration⟩
          next => cases h

end Registry

end SchemaWire
