import SchemaWire.Proofs.Data.Contents

/-!
# What all readers of data keep to

A discipline is a property of readers that single steps have and that sequences have whose parts
have it. Reading a value by any shape, and passing over one, is made of such steps, so it has every
discipline. Some steps may be missing from a discipline: type information is made of names only where
schemas do not travel, and values are only recorded where they are not read again.
-/

namespace SchemaWire

namespace Read

/-- Read a value as `datumWithin` does, where the reader may turn to another shape at every value
that it comes to. Who wants to be told what follows may so allow for missing values anywhere. -/
def datumAsking (env : ReadEnv) (ask : Spot → Shape → Shape) :
    Nat → Scope → Spot → Shape → Read Datum
  | 0, _, _, _ => throw .unfinished
  | fuel + 1, scope, spot, shape => do
    let shape := env.shapes.resolve shape
    if shape matches .refused then throw .rejected
    match ← enter env scope.recording spot with
    | .null => MonadExcept.ofExcept (missing shape)
    | .ref entry =>
      again entry fun spot => datumAsking env ask fuel { scope with recording := false } spot shape
    | .value type resolved =>
      content env fuel (fun scope spot shape => datumAsking env ask fuel scope spot (ask spot shape))
        (skipWithin env fuel) scope type resolved shape

/-- A reader that keeps to its shapes reads by them. -/
theorem datumAsking_self (env : ReadEnv) (fuel : Nat) :
    datumAsking env (fun _ shape => shape) fuel = datumWithin env fuel := by
  induction fuel with
  | zero => rfl
  | succ fuel ih =>
    funext scope spot shape
    rw [datumWithin, ← ih]
    rfl

/-- A property of readers of data that holds of steps and of sequences of readers. -/
structure Discipline extends Steps ReadState where
  /-- Reading bytes has it. -/
  take {α : Type} {r : Take α} (h : r.Local) : Holds (Read.take r)
  /-- Finding that a value was recorded has it. -/
  recorded {α : Type} (id : Nat) (a : α) : Holds (Read.reference id >>= fun _ => Pure.pure a)
  /-- Reading a recorded value again has it if reading the value does. -/
  again (id : Nat) {read : Spot → Read Datum} (h : ∀ spot, Holds (read spot)) :
    Holds (Read.reference id >>= fun entry => Read.again entry read)

namespace Discipline

variable (d : Discipline)

/-- The relation of the readers that have a discipline, inside of scopes where values are recorded or
where they are not. -/
def twins (recording : Bool) : DataTwins :=
  .ofSteps d.toSteps (fun hlocal _ => d.take hlocal) recording

section Annotations

variable {env : ReadEnv}

/-- Reading type information has every discipline that reading names has, where names are read. -/
theorem typeInfo (hname : env.config.compatible = false → ∀ scheme, d.Holds (Read.name scheme)) :
    d.Holds (Read.typeInfo env) :=
  (d.twins false).typeInfo ((d.twins false).userInfo hname)

/-- Reading a flag has every discipline. -/
theorem flag (flagged : Bool) : d.Holds (Read.flag flagged) :=
  (d.twins false).flag flagged

/-- What begins with the annotations of a value has every discipline that reading type information
and recording values have, where values are recorded, and that it has whatever they say. -/
theorem enter_bind (hinfo : d.Holds (Read.typeInfo env)) {recording : Bool} {α : Type}
    {next : Entry → Read α}
    (hrecord : recording = true → ∀ type resolved, d.Holds (Read.record type resolved))
    (hnull : d.Holds (next .null))
    (href : ∀ id, d.Holds (Read.reference id >>= fun entry => next (.ref entry)))
    (hvalue : ∀ type resolved, d.Holds (next (.value type resolved))) (spot : Spot) :
    d.Holds (Read.enter env recording spot >>= next) := by
  cases spot with
  | entered type resolved =>
    rw [Read.enter, bind_assoc]
    exact d.bind (d.ofExcept _) fun _ => hvalue type resolved
  | declared type =>
    have hkind (kind : Kind) : d.Holds (Read.info env kind) := by
      unfold Read.info
      split
      · exact hinfo
      · exact d.pure _
    rw [Read.enter, bind_assoc]
    refine d.bind (d.ofExcept _) fun kind => ?_
    rw [bind_assoc]
    refine d.bind (d.flag _) fun flag => ?_
    cases flag with
    | null => exact hnull
    | ref =>
      simp only [Read.behindFlag, bind_assoc, pure_bind]
      exact d.bind (d.take (.varint _)) href
    | notNull =>
      simp only [Read.behindFlag, bind_assoc, pure_bind]
      exact d.bind (hkind kind) fun resolved => hvalue type resolved
    | refValue =>
      rw [Read.behindFlag, bind_assoc]
      refine d.bind (hkind kind) fun resolved => ?_
      cases recording with
      | true =>
        simp only [if_true, bind_assoc, pure_bind]
        exact d.bind (hrecord rfl type resolved) fun _ => hvalue type resolved
      | false => exact hvalue type resolved

end Annotations

section Contents

variable {env : ReadEnv} {skip : Scope → Spot → Read Unit} {scope : Scope}
  (hskip : ∀ inner : Scope, inner.recording = scope.recording → ∀ spot, d.Holds (skip inner spot))
  (fuel : Nat) (type : WireType) (resolved : Resolved)
include hskip

/-- Passing over the data of a value has the discipline of what stands inside of it. -/
theorem skipContent : d.Holds (Read.skipContent env fuel skip scope type resolved) := by
  let twins := d.twins scope.recording
  have hplain (shape : Shape) : twins.Rel (Read.take (Take.plainWithin env.shapes fuel shape))
      (Read.take (Take.plainWithin env.shapes fuel shape)) :=
    d.take (.plainWithin env.shapes fuel shape)
  have hself : ∀ inner inner', twins.Near inner inner' → ∀ spot,
      twins.Rel (skip inner spot) (skip inner' spot) :=
    fun inner _ hinner => hskip inner hinner
  have hscope : twins.Near scope scope := rfl
  exact twins.skipContent hplain hself hscope type resolved

/-- Reading the data of a value has the discipline of what stands inside of it. -/
theorem content {read : Scope → Spot → Shape → Read Datum}
    (hread : ∀ inner : Scope, inner.recording = scope.recording →
      ∀ spot shape, d.Holds (read inner spot shape)) (shape : Shape) :
    d.Holds (Read.content env fuel read skip scope type resolved shape) := by
  let twins := d.twins scope.recording
  have hplain (shape : Shape) : twins.Rel (Read.take (Take.plainWithin env.shapes fuel shape))
      (Read.take (Take.plainWithin env.shapes fuel shape)) :=
    d.take (.plainWithin env.shapes fuel shape)
  have hself : ∀ inner inner', twins.Near inner inner' → ∀ spot,
      twins.Rel (skip inner spot) (skip inner' spot) :=
    fun inner _ hinner => hskip inner hinner
  have hsame : ∀ inner inner', twins.Near inner inner' → ∀ type shape,
      twins.Rel (read inner (.declared type) shape) (read inner' (.declared type) shape) :=
    fun inner _ hinner type => hread inner hinner (.declared type)
  have hscope : twins.Near scope scope := rfl
  exact twins.content hplain hself hscope hsame type resolved (hread scope rfl _) shape

end Contents

section Values

variable (env : ReadEnv) (hinfo : d.Holds (Read.typeInfo env))
include hinfo

/-- Passing over a value has every discipline that reading type information and recording values
have, where values are recorded. -/
theorem skipWithin (fuel : Nat) (scope : Scope) (spot : Spot)
    (hrecord : scope.recording = true → ∀ type resolved, d.Holds (Read.record type resolved)) :
    d.Holds (Read.skipWithin env fuel scope spot) := by
  induction fuel generalizing scope spot with
  | zero => exact d.throw _
  | succ fuel ih =>
    refine d.enter_bind hinfo hrecord (d.pure ()) (d.recorded · ()) (fun type resolved => ?_) spot
    exact d.skipContent (fun inner hinner spot => ih inner spot (hinner ▸ hrecord)) fuel type resolved

/-- Reading a value has every discipline that reading type information and recording values have,
where values are recorded. -/
theorem datumAsking (ask : Spot → Shape → Shape) (fuel : Nat) (scope : Scope) (spot : Spot)
    (shape : Shape)
    (hrecord : scope.recording = true → ∀ type resolved, d.Holds (Read.record type resolved)) :
    d.Holds (Read.datumAsking env ask fuel scope spot shape) := by
  induction fuel generalizing scope spot shape with
  | zero => exact d.throw _
  | succ fuel ih =>
    have hentered : d.Holds (do
        match ← Read.enter env scope.recording spot with
        | .null => MonadExcept.ofExcept (Read.missing (env.shapes.resolve shape))
        | .ref entry =>
          Read.again entry fun spot =>
            Read.datumAsking env ask fuel { scope with recording := false } spot
              (env.shapes.resolve shape)
        | .value type resolved =>
          Read.content env fuel
            (fun scope spot shape => Read.datumAsking env ask fuel scope spot (ask spot shape))
            (Read.skipWithin env fuel) scope type resolved (env.shapes.resolve shape)) := by
      refine d.enter_bind hinfo hrecord (d.ofExcept _)
        (d.again · fun spot => ih { scope with recording := false } spot _ nofun)
        (fun type resolved => ?_) spot
      exact d.content
        (fun inner hinner spot => d.skipWithin env hinfo fuel inner spot (hinner ▸ hrecord)) fuel type
        resolved (fun inner hinner spot shape => ih inner spot _ (hinner ▸ hrecord)) _
    unfold Read.datumAsking
    dsimp only
    split
    · exact d.bind (d.throw _) fun _ => hentered
    · exact hentered

/-- Reading by a shape has every discipline that reading type information and recording values
have, where values are recorded. -/
theorem datumWithin (fuel : Nat) (scope : Scope) (spot : Spot) (shape : Shape)
    (hrecord : scope.recording = true → ∀ type resolved, d.Holds (Read.record type resolved)) :
    d.Holds (Read.datumWithin env fuel scope spot shape) :=
  Read.datumAsking_self env fuel ▸
    d.datumAsking env hinfo (fun _ shape => shape) fuel scope spot shape hrecord

end Values

end Discipline

end Read

end SchemaWire
