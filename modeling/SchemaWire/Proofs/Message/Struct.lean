import SchemaWire.Proofs.Message.RoundTrip

/-!
# Structs that are read for other parts

Where schemas travel, the reader of a struct follows the writer's fields, whatever parts it reads
them for. If it gives its parts the values of the fields that match, the message as a whole is
read as the struct that is assembled of these values.
-/

namespace SchemaWire

namespace Engine

/-- The writer has a struct with the given fields registered under one name, and the reader is asked
for another name. Both let schemas travel, and they agree on the given types. -/
structure Sends (writer reader : Engine) (hosts : HostType → Prop) (sent asked : String)
    (declared : List FieldDescriptor) : Prop extends writer.Matches reader hosts where
  /-- Schemas travel. -/
  travels : writer.config.compatible = true
  /-- The writer's struct is registered with its fields. -/
  registered : ∃ spec registration, writer.registry.resolve (.scalar (.user sent) false) = .ok spec ∧
    spec.role = .struct registration declared
  /-- The types of the fields are registered. -/
  derived : ∃ fields, Schema.ofFields writer.registry true declared = .ok fields
  /-- The reader's struct is registered. -/
  known : ∃ spec, reader.registry.resolve (.scalar (.user asked) false) = .ok spec

/-- Assemble the reader's struct from the writer's fields. -/
def evolved (title : String) (parts : List (Member Shape)) (content : List (String × Datum)) :
    Read Datum := do
  let fields ← MonadExcept.ofExcept
    (Member.assemble (Member.given (parts.map Member.name) content) parts 0)
  return .struct title fields

/-- With the given bound, whoever has the given schemas gives the parts the values of the fields that
match them. -/
def GivesParts (writer reader : Engine) (schemas : List Schema) (queue : SchemaQueue) (fuel : Nat)
    (declared : List FieldDescriptor) (parts : List (Member Shape))
    (content : List (String × Datum)) : Prop :=
  ∀ fields, Schema.ofFields writer.registry writer.config.compatible declared = .ok fields →
    (writer.peers reader schemas queue).Mirrors
      (Write.fields (writer.peers reader schemas queue).write 1 declared content)
      (Read.fields
        (fun type => Read.datumWithin (writer.peers reader schemas queue).read fuel ⟨1, true⟩
          (.declared type))
        (fun type => Read.skipWithin (writer.peers reader schemas queue).read fuel ⟨1, true⟩
          (.declared type))
        parts fields [])
      (Member.given (parts.map Member.name) content)

namespace Sends

variable {writer reader : Engine} {hosts : HostType → Prop} {sent asked : String}
  {declared : List FieldDescriptor} (h : writer.Sends reader hosts sent asked declared)
  {parts : List (Member Shape)} {content : List (String × Datum)} {title : String}
  (hshape : reader.shapes.resolve (.user asked) = .struct title parts) {fuel : Nat}
include h hshape

section Body

variable {schemas : List Schema} {queue : SchemaQueue}
  (hlinked : (writer.peers reader schemas queue).Linked)
  (hgives : writer.GivesParts reader schemas queue fuel declared parts content)
include hgives

section Data

variable {spec : TypeSpec} (hspec : writer.registry.resolve (.scalar (.user sent) false) = .ok spec)
  {before after : WriteTables} {data : List UInt8} {name : String}
  (hdata : Write.datum ⟨writer.config, writer.registry⟩ 0
    (.declared (.scalar (.user sent) false) false false) (.struct name content) before =
      .ok data after) (hqueue : after.queue <+: queue)
include hspec hdata hqueue

/-- Behind the annotations of a struct its reader finds the fields for its parts. -/
theorem leadsTo_datum {resolved : Resolved}
    (htold : (writer.peers reader schemas queue).Describes spec resolved) {wire : WireType}
    (hid : wire.id = spec.typeId writer.config.compatible) (hsound : before.Sound writer.registry) :
    (Read.datumWithin ⟨reader.config, reader.registry, reader.shapes, schemas⟩ (fuel + 1)
      ⟨0, true⟩ (.entered wire resolved) (.user asked)).LeadsTo before.names data
        (evolved title parts content) after.names := by
  let peers := writer.peers reader schemas queue
  obtain ⟨own, registration, hown, hrole⟩ := h.registered
  cases hspec.symm.trans hown
  obtain ⟨schema, rfl, hschema⟩ := htold.exists_schema hrole
  rw [Write.datum_of_struct hspec hrole] at hdata
  split at hdata
  · cases hdata
  next hdeep =>
  have hread := (hgives _ hschema).reads _ _ _ hsound hqueue hdata
  have hdeeper := Scope.deeper_of_le h.depth hdeep true
  have hkind := spec.kindOf_typeId writer.config.compatible
  rw [← hid] at hkind
  have henter : (Read.enter peers.read true (.entered wire (.struct schema))).Reads before.names []
      (.value wire (.struct schema)) before.names :=
    .ofExcept_bind hkind (.pure _)
  rw [Read.datumWithin, hshape]
  refine henter.leadsTo_trans ?_
  refine (Read.Reads.ofExcept hdeeper).leadsTo_trans ?_
  exact hread.leadsTo

include hlinked

/-- A struct with its type information leads its reader to its parts. -/
theorem leadsTo_decodeValue {info : List UInt8}
    (hinfo : Write.typeInfo writer.registry writer.config.compatible spec .empty = .ok info before)
    (label : String) (recorded : Bool) :
    (reader.decodeValue (fuel + 1) ⟨label, .scalar (.user asked) false, .user asked⟩ schemas
      recorded).LeadsTo [] (info ++ data) (evolved title parts content) after.names := by
  have hmem := Registry.mem_of_resolve hspec
  obtain ⟨own, registration, hown, hrole⟩ := h.registered
  cases hspec.symm.trans hown
  obtain ⟨fields, hfields⟩ := h.derived
  obtain ⟨resolved, htold, hmirrors⟩ :=
    hlinked.exists_mirrors_struct hmem h.travels hrole hfields
  have hdatum : Write.Keeps writer.registry (Write.datum ⟨writer.config, writer.registry⟩ 0
      (.declared (.scalar (.user sent) false) false false) (.struct name content)) :=
    Write.keeps_datum _ _ _
  have hprefix := (hdatum _ _ _ hdata).queue.trans hqueue
  have hread := hmirrors.reads _ _ _ WriteTables.sound_empty hprefix hinfo
  have hsound := (hmirrors.keeps _ _ _ hinfo).sound WriteTables.sound_empty
  obtain ⟨target, htarget⟩ := h.known
  have hderived : WireType.ofFieldType reader.registry reader.config.compatible
      (.scalar (.user asked) false) false =
        .ok ⟨target.typeId reader.config.compatible, false, false, []⟩ := by
    rw [WireType.ofFieldType, htarget]
    rfl
  let id := (spec.typeId writer.config.compatible).toNat
  have hid : (⟨UInt32.ofNat id, false, false, []⟩ : WireType).id =
      spec.typeId writer.config.compatible := UInt32.ofNat_toNat
  have hdata := h.leadsTo_datum hshape hgives hspec hdata hqueue htold hid hsound
  -- The type id is looked at before the type information is read as a whole.
  have hlt : id < 2 ^ 32 := UInt32.toNat_lt _
  obtain ⟨rest, rfl⟩ := Write.exists_of_typeInfo_ok hinfo
  rw [List.append_assoc]
  refine .peek (Varint.reads_take32 hlt) ?_
  rw [← List.append_assoc]
  refine hread.leadsTo.trans ((Read.Reads.ofExcept hderived).leadsTo_trans ?_)
  cases recorded with
  | true => exact (Read.reads_record _ _).leadsTo_trans hdata
  | false => exact hdata

end Data

include hlinked

/-- A body with the writer's struct is read as the struct with the reader's parts. -/
theorem exists_decodeBody_eq_evolved {name : String} {body : List UInt8} {after : WriteTables}
    (hbody : writer.encodeBody (.scalar (.user sent) false) (.struct name content) .empty =
      .ok body after) (hqueue : after.queue <+: queue) (label : String) :
    ∃ refs, reader.decodeBody (fuel + 1) ⟨label, .scalar (.user asked) false, .user asked⟩ schemas
      ⟨body, [], []⟩ = evolved title parts content ⟨[], after.names, refs⟩ := by
  obtain ⟨spec, info, between, data, recorded, refs, hspec, hinfo, hdata, hread⟩ :=
    exists_decodeBody_eq h.refMode hbody
  have hleads := h.leadsTo_decodeValue hshape hlinked hgives hspec hdata hqueue hinfo label recorded
  obtain ⟨refs', hvalue⟩ := hleads [] refs
  rw [List.append_nil] at hvalue
  refine ⟨refs', ?_⟩
  rw [hread]
  unfold evolved at hvalue ⊢
  cases hfields : Member.assemble (Member.given (parts.map Member.name) content) parts 0 with
  | ok fields =>
    rw [hfields] at hvalue
    exact bind_of_ok hvalue
  | error e =>
    rw [hfields] at hvalue
    exact bind_of_error hvalue

end Body

/-- A message with the writer's struct is read as the struct with the reader's parts, if its reader
gives the parts the values of the fields. -/
theorem exists_decodeWithin_eq_evolved {name : String} {before after : WriteTables}
    {message : Message}
    (hencode : writer.encode (.scalar (.user sent) false) (.struct name content) before =
      .ok message after)
    (hgives : ∀ schemas, (writer.peers reader schemas after.queue).Agree hosts →
      writer.GivesParts reader schemas after.queue fuel declared parts content)
    (label : String) (context : ReadContext) :
    ∃ kept, reader.decodeWithin (fuel + 1) ⟨label, .scalar (.user asked) false, .user asked⟩
        ⟨message.toList, context⟩ =
      match Member.assemble (Member.given (parts.map Member.name) content) parts 0 with
      | .ok fields => .ok (.struct title fields) ⟨[], kept⟩
      | .error e => .error e ⟨[], kept⟩ := by
  obtain ⟨frame, framed, hmessage, htake, hbody, hannounced⟩ := h.exists_frame_of_encode hencode rfl
  have hagree := h.agree hannounced
  obtain ⟨refs, hread⟩ := h.exists_decodeBody_eq_evolved hshape hagree.linked
    (hgives frame.schemas hagree) hbody (List.prefix_refl _) label
  rw [← List.append_nil framed] at htake hmessage
  refine ⟨⟨frame.schemas, after.names, refs⟩, ?_⟩
  rw [hmessage, decodeWithin, decodeWith_of_frame h.xlang htake, decodeFrame, hread, evolved]
  cases Member.assemble (Member.given (parts.map Member.name) content) parts 0 <;> rfl

end Sends

end Engine

end SchemaWire
