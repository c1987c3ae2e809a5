import SchemaWire.Engine
import SchemaWire.Proofs.Data.Write

/-!
# Nothing is told out of order

A writer of data fails because a type is not registered, because a value does not fit its place or
because a length does not fit its bits. It never fails because parts of a value were told of out of
order: nothing that it does could be at fault for that.
-/

namespace SchemaWire

section Checks

variable {α β : Type}

/-- The check does not fail for disorder. -/
def Orderly (check : Except Error α) : Prop :=
  ∀ e, check = .error e → e.isDisorder = false

namespace Orderly

/-- A check that succeeds does not fail. -/
theorem ok (a : α) : Orderly (.ok a) := nofun

/-- A check may fail for anything else. -/
theorem error {e : Error} (h : e.isDisorder = false) : Orderly (.error e : Except Error α) := by
  intro other heq
  cases heq
  exact h

/-- Checks in sequence are orderly if each of them is. -/
theorem bind {check : Except Error α} {next : α → Except Error β} (h : Orderly check)
    (hnext : ∀ a, Orderly (next a)) : Orderly (check >>= next) := by
  cases check with
  | ok a => exact hnext a
  | error e => exact .error (h e rfl)

/-- A condition may be checked in front. -/
theorem guarded {p : Prop} [Decidable p] {e : Error} (h : e.isDisorder = false)
    {next : PUnit → Except Error β} (hnext : Orderly (next ⟨⟩)) :
    Orderly (if p then throw e >>= next else next ⟨⟩) := by
  split
  · exact .error h
  · exact hnext

end Orderly

end Checks

namespace Name

/-- Characters without a code are turned down. -/
theorem Encoder.orderly_codes (encoder : Encoder) (code? : Char → Option Nat) (chars : List Char) :
    Orderly (encoder.codes code? chars) := by
  induction chars with
  | nil => exact .ok []
  | cons c rest ih =>
    rw [codes]
    split
    · exact .error rfl
    · exact ih.bind fun _ => .ok _

/-- Writing a name is orderly. -/
theorem Encoder.orderly_encode (encoder : Encoder) (name : String) :
    Orderly (encoder.encode name) := by
  cases encoder with
  | utf8 => exact .ok _
  | _ => exact (orderly_codes _ _ _).bind fun _ => .ok _

/-- Writing a name in a scheme is orderly. -/
theorem Scheme.orderly_encode (scheme : Scheme) (name : String) : Orderly (scheme.encode name) :=
  (Encoder.orderly_encode _ name).bind fun _ => .ok _

end Name

/-- A declared type is registered or not. -/
theorem Registry.orderly_resolve (registry : Registry) (type : FieldType) :
    Orderly (registry.resolve type) := by
  intro e h
  rw [Registry.eq_unregistered_of_resolve h]
  rfl

namespace WireType

/-- Finding a wire type is orderly. -/
theorem orderly_ofFieldType (registry : Registry) (compatible : Bool) (type : FieldType)
    (tracked : Bool) : Orderly (ofFieldType registry compatible type tracked) := by
  induction type generalizing tracked with
  | scalar host nullable => exact (registry.orderly_resolve _).bind fun _ => .ok _
  | list name element nullable ih | set name element nullable ih =>
    exact (registry.orderly_resolve _).bind fun _ => (ih false).bind fun _ => .ok _
  | map name key value nullable ihKey ihValue =>
    exact (registry.orderly_resolve _).bind fun _ => (ihKey false).bind fun _ =>
      (ihValue false).bind fun _ => .ok _

/-- A type id has a kind or not. -/
theorem orderly_kindOf (id : UInt32) : Orderly (kindOf id) := by
  unfold kindOf
  split
  · exact .ok _
  · exact .error rfl

mutual

/-- Writing the types nested in a type is orderly. -/
theorem orderly_encodeArgs : (type : WireType) → Orderly type.encodeArgs
  | ⟨id, _, _, args⟩ => by
    rw [encodeArgs]
    exact (orderly_kindOf id).bind fun _ => .guarded rfl (orderly_encodeNested args)

/-- Writing nested types is orderly. -/
theorem orderly_encodeNested : (types : List WireType) → Orderly (encodeNested types)
  | [] => by
    rw [encodeNested]
    exact .ok []
  | type :: rest => by
    rw [encodeNested]
    exact .guarded rfl ((orderly_encodeArgs type).bind fun _ =>
      (orderly_encodeNested rest).bind fun _ => .ok _)

end

end WireType

namespace Schema

/-- Describing fields is orderly. -/
theorem orderly_ofFields (registry : Registry) (compatible : Bool) (fields : List FieldDescriptor) :
    Orderly (ofFields registry compatible fields) := by
  induction fields with
  | nil => exact .ok []
  | cons field rest ih =>
    exact (WireType.orderly_ofFieldType _ _ _ _).bind fun _ => ih.bind fun _ => .ok _

/-- Describing a type is orderly. -/
theorem orderly_ofSpec (registry : Registry) (spec : TypeSpec) (compatible : Bool) :
    Orderly (ofSpec registry spec compatible) := by
  unfold ofSpec
  split
  · exact .error rfl
  · refine (orderly_ofFields registry compatible _).bind fun _ => ?_
    split
    · exact .ok _
    · exact .ok _

/-- Writing a namespace or type name is orderly. -/
theorem orderly_encodeName (scheme : Name.Scheme) (name : String) :
    Orderly (encodeName scheme name) :=
  (scheme.orderly_encode name).bind fun _ => .ok _

/-- Writing a field is orderly. -/
theorem orderly_encodeField (field : SchemaField) : Orderly (encodeField field) :=
  (Name.Scheme.field.orderly_encode field.name).bind fun _ =>
    .guarded rfl ((WireType.orderly_encodeArgs field.type).bind fun _ => .ok _)

/-- Writing fields is orderly. -/
theorem orderly_encodeFields (fields : List SchemaField) : Orderly (encodeFields fields) := by
  induction fields with
  | nil => exact .ok []
  | cons field rest ih => exact (orderly_encodeField field).bind fun _ => ih.bind fun _ => .ok _

/-- Writing how a type is registered is orderly. -/
theorem orderly_encodeIdentity (schema : Schema) : Orderly schema.encodeIdentity := by
  unfold encodeIdentity
  split
  · exact (orderly_encodeName _ _).bind fun _ => (orderly_encodeName _ _).bind fun _ => .ok _
  · exact .ok _

/-- Writing a schema is orderly. -/
theorem orderly_encode (schema : Schema) : Orderly schema.encode :=
  .bind (schema.orderly_encodeIdentity.bind fun _ =>
    (orderly_encodeFields schema.fields).bind fun _ => .ok _) fun _ => .ok _

end Schema

namespace Write

variable {α β : Type} {registry : Registry} {env : WriteEnv}

/-- The writer does not fail for disorder. -/
def Orderly (writer : Write α) : Prop :=
  ∀ before e after, writer before = .error e after → e.isDisorder = false

namespace Orderly

/-- A writer of nothing does not fail. -/
theorem pure (a : α) : Orderly (Pure.pure a : Write α) := nofun

/-- A writer may fail for anything else. -/
theorem throw {e : Error} (h : e.isDisorder = false) : Orderly (MonadExcept.throw e : Write α) := by
  intro before other after heq
  cases heq
  exact h

/-- Writers in sequence are orderly if each of them is. -/
theorem bind {writer : Write α} {next : α → Write β} (h : Orderly writer)
    (hnext : ∀ a, Orderly (next a)) : Orderly (writer >>= next) := by
  intro before e after herror
  obtain hfirst | ⟨a, between, -, hsecond⟩ := error_or_of_bind_error herror
  · exact h _ _ _ hfirst
  · exact hnext a _ _ _ hsecond

end Orderly

/-- Queueing the schema of a type is orderly. -/
theorem orderly_queueSchema (spec : TypeSpec) : Orderly (queueSchema registry spec) := by
  have hblob : SchemaWire.Orderly (registry.blob spec) :=
    (Schema.orderly_ofSpec registry spec true).bind Schema.orderly_encode
  intro before e after h
  rw [queueSchema, SchemaQueue.register_eq] at h
  cases hhost : spec.host with
  | none =>
    rw [hhost] at h
    cases h
    rfl
  | some host =>
    rw [hhost] at h
    cases hfound : before.queue.findIdx? fun queued => queued.host == host with
    | some place =>
      simp only [hfound] at h
      cases h
    | none =>
      cases hmade : registry.blob spec with
      | ok blob =>
        simp only [hfound, hmade] at h
        cases h
      | error other =>
        simp only [hfound, hmade] at h
        cases h
        exact hblob _ hmade

/-- Writing a name or a reference to it is orderly. -/
theorem orderly_name (scheme : Name.Scheme) (s : String) : Orderly (name scheme s) := by
  intro before e after h
  rw [name, Name.Table.write_eq] at h
  cases hencode : scheme.encode s with
  | error other =>
    rw [hencode] at h
    cases h
    exact scheme.orderly_encode s _ hencode
  | ok written =>
    rw [hencode] at h
    cases hfound : before.names.findIdx? (Name.Entry.of written.2 written.1).same with
    | some place =>
      simp only [hfound] at h
      cases h
    | none =>
      simp only [hfound] at h
      cases h

/-- Writing the type information of a type is orderly. -/
theorem orderly_typeInfo (compatible : Bool) (spec : TypeSpec) :
    Orderly (typeInfo registry compatible spec) := by
  unfold typeInfo
  split
  · exact (orderly_queueSchema spec).bind fun _ => .pure _
  · split
    · exact (orderly_name _ _).bind fun _ => (orderly_name _ _).bind fun _ => .pure _
    · exact .pure _

/-- Being orderly is a property that writers of data have. -/
theorem closed_orderly (env : WriteEnv) : Closed env fun writer => Orderly writer where
  pure := .pure
  throw := .throw
  bind := .bind
  typeInfo := fun _ => orderly_typeInfo _ _

end Write

/-- Writing a message is orderly. -/
theorem Engine.orderly_encode (engine : Engine) (declared : FieldType) (value : Datum) :
    Write.Orderly (engine.encode declared value) := by
  have hbody : Write.Orderly (engine.encodeBody declared value) :=
    engine.closed_encodeBody (Write.closed_orderly _) declared value
  have hset : Write.Orderly (set WriteTables.empty : Write PUnit) := nofun
  have hget : Write.Orderly (get : Write WriteTables) := nofun
  refine hset.bind fun _ => ?_
  dsimp only
  split
  · exact .pure _
  · refine hbody.bind fun body => ?_
    split
    · have hrest := fun header => hget.bind fun tables => Write.Orderly.pure (Message.patched
        (header ++ [0, 0, 0, 0] ++ body ++ SchemaQueue.encode tables.queue) header.length body.length)
      split
      · exact (Write.Orderly.throw rfl).bind fun _ => hrest _
      · exact hrest _
    · exact .pure _

end SchemaWire
