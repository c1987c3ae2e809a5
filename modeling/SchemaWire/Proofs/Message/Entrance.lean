import SchemaWire.Proofs.Data.Depth
import SchemaWire.Proofs.Data.Eventually
import SchemaWire.Proofs.Message.RoundTrip

/-!
# Coming to the value of a message

Whatever shape a reader asks for, it goes the same way through a message that is not null: past the
header, the flag and the type information, up to the data of the value. The writer of the message
may have had another limit than the writer that the reader matches.
-/

namespace SchemaWire

namespace Engine

/-- The same engine under another limit. -/
def limited (engine : Engine) (limit : Nat) : Engine :=
  { engine with config := { engine.config with maxDepth := limit } }

variable {writer reader : Engine} {hosts : HostType → Prop}

/-- Reading a message gives what it gives with some bound. -/
theorem decode_eq_ok_iff {target : Target} {reading left : Reading} {v : Datum} :
    reader.decode target reading = .ok v left ↔
      ∃ n, reader.decodeWithin n target reading = .ok v left := by
  constructor
  · intro h
    obtain ⟨n, hn⟩ := reader.exists_decodeWithin_eq target reading
    exact ⟨n, hn.trans h⟩
  · rintro ⟨n, hn⟩
    exact (decode_eq_of_ends (not_unfinished_of_ok hn)).trans hn

/-- Reading a message fails where it fails with some bound, but for want of a higher one. -/
theorem decode_eq_error {target : Target} {reading left : Reading} {n : Nat} {e : Error}
    (h : reader.decodeWithin n target reading = .error e left) (he : e ≠ .unfinished) :
    reader.decode target reading = .error e left := by
  refine (decode_eq_of_ends ?_).trans h
  rintro ⟨s, hs⟩
  cases h.symm.trans hs
  exact he rfl

/-- A value with which the input has to end is given where the value is, and nothing is left. -/
theorem toEnd_eq_ok_iff {x : Read Datum} {s t : ReadState} {v : Datum} :
    toEnd x s = .ok v t ↔ x s = .ok v t ∧ t.input = [] := by
  unfold toEnd
  cases hx : x s with
  | error e u =>
    rw [bind_of_error hx]
    exact ⟨nofun, fun h => nomatch h.1⟩
  | ok w u =>
    obtain ⟨input, table, refs⟩ := u
    rw [bind_of_ok hx]
    cases input with
    | nil =>
      constructor
      · intro h
        cases h
        exact ⟨rfl, rfl⟩
      · rintro ⟨h, -⟩
        cases h
        rfl
    | cons =>
      constructor
      · intro h
        cases h
      · rintro ⟨h, hinput⟩
        cases h
        cases hinput

/-- Reading up to the end goes on in the same way where reading does. -/
theorem toEnd_congr {x y : Read Datum} {s t : ReadState} (h : x s = y t) :
    toEnd x s = toEnd y t := by
  unfold toEnd
  cases hy : y t with
  | ok v u => rw [bind_of_ok (h.trans hy), bind_of_ok hy]
  | error e u => rw [bind_of_error (h.trans hy), bind_of_error hy]

/-- What is left at the end of a message with the given schemas. -/
def closing (schemas : List Schema) :
    EStateM.Result Error ReadState Datum → EStateM.Result Error Reading Datum
  | .ok v t => .ok v ⟨[], ⟨schemas, t.names, t.refs⟩⟩
  | .error e t => .error e ⟨[], ⟨schemas, t.names, t.refs⟩⟩

section GoesOn

variable {target : Target} {reading : Reading} {schemas : List Schema} {R : Nat → Read Datum}
  {start : ReadState} (h : ∀ n, reader.decodeWithin n target reading =
    closing schemas (toEnd (R n) start))
include h

/-- A message is read if what its reader goes on with is, and if nothing is left behind it. -/
theorem decode_eq_ok_iff_of_goesOn {w : Datum} {left : Reading} :
    reader.decode target reading = .ok w left ↔
      ∃ t, Read.Eventually R start w t ∧ t.input = [] ∧
        left = ⟨[], ⟨schemas, t.names, t.refs⟩⟩ := by
  rw [Engine.decode_eq_ok_iff]
  simp only [h]
  constructor
  · rintro ⟨n, hn⟩
    cases hend : toEnd (R n) start with
    | error e t =>
      rw [hend] at hn
      cases hn
    | ok w t =>
      obtain ⟨hread, hinput⟩ := toEnd_eq_ok_iff.mp hend
      rw [hend] at hn
      cases hn
      exact ⟨t, ⟨n, hread⟩, hinput, rfl⟩
  · rintro ⟨t, ⟨n, hn⟩, hinput, rfl⟩
    have hend := toEnd_eq_ok_iff.mpr ⟨hn, hinput⟩
    exact ⟨n, by rw [hend]; rfl⟩

/-- A message is not read if what its reader goes on with is not. -/
theorem exists_decode_error_of_goesOn {n : Nat} {e : Error} {t : ReadState}
    (hread : R n start = .error e t) (he : e ≠ .unfinished) :
    ∃ kept, reader.decode target reading = .error e ⟨[], kept⟩ := by
  have hend : toEnd (R n) start = .error e t := bind_of_error hread
  have hwithin := h n
  rw [hend] at hwithin
  exact ⟨_, decode_eq_error hwithin he⟩

end GoesOn

/-- What the reader of a message comes to behind the type information of its value. -/
structure Entrance (writer reader : Engine) (hosts : HostType → Prop) (free : Nat)
    (declared : FieldType) (v : Datum) (bytes : List UInt8) where
  /-- The schemas that the message brings along. -/
  schemas : List Schema
  /-- The tables of the writer in front of the data. -/
  before : WriteTables
  /-- The tables of the writer at the end. -/
  after : WriteTables
  /-- What the value is registered as. -/
  spec : TypeSpec
  /-- The type of the value. -/
  type : WireType
  /-- What the reader was told of the value. -/
  resolved : Resolved
  /-- The reader in front of the data. -/
  start : ReadState
  /-- The reader is told what the writer tells. -/
  concur : (writer.peers reader schemas after.queue).Concur hosts
  /-- The writer's tables are sound. -/
  sound : before.Sound writer.registry
  /-- The reader's names are the writer's. -/
  sameNames : start.names = before.names
  /-- What is left are the data. -/
  data : Write.datum (WriteEnv.limited ⟨writer.config, writer.registry⟩ free) 0
    (.declared declared false false) v before = .ok start.input after
  /-- The type is registered. -/
  registered : writer.registry.resolve declared = .ok spec
  /-- The wire type is derived. -/
  derived : WireType.ofFieldType writer.registry writer.config.compatible declared false = .ok type
  /-- The reader was told what the value is registered as. -/
  told : (writer.peers reader schemas after.queue).Describes spec resolved
  /-- The reader goes on with the data, and the message has to end with them. -/
  goesOn : ∀ fuel label shape context,
    reader.decodeWithin fuel ⟨label, declared, shape⟩ ⟨bytes, context⟩ =
      closing schemas (toEnd (Read.datumWithin
        ⟨reader.config, reader.registry, reader.shapes, schemas⟩ fuel ⟨0, true⟩
        (.entered type resolved) shape) start)

/-- Behind the type information of a top-level value its reader asks for the wire type of what is
expected, and goes on with the value. -/
theorem exists_decodeValue_eq {schemas : List Schema} {queue : SchemaQueue} {spec : TypeSpec}
    {resolved : Resolved}
    (h : (writer.peers reader schemas queue).Mirrors
      (Write.typeInfo writer.registry writer.config.compatible spec)
      (Read.typeInfo ⟨reader.config, reader.registry, reader.shapes, schemas⟩) resolved)
    {info : List UInt8} {between : WriteTables}
    (hinfo : Write.typeInfo writer.registry writer.config.compatible spec .empty = .ok info between)
    (hqueue : between.queue <+: queue) (data : List UInt8) (recorded : Bool)
    (refs : List RefEntry) :
    ∃ told, ∀ fuel target,
      reader.decodeValue fuel target schemas recorded ⟨info ++ data, [], refs⟩ =
        (do
          let declared ← MonadExcept.ofExcept
            (WireType.ofFieldType reader.registry reader.config.compatible target.declared false)
          let type :=
            { declared with id := UInt32.ofNat (spec.typeId writer.config.compatible).toNat }
          if recorded then Read.record type resolved
          Read.datumWithin ⟨reader.config, reader.registry, reader.shapes, schemas⟩ fuel ⟨0, true⟩
            (.entered type resolved) target.shape) ⟨data, between.names, told⟩ := by
  obtain ⟨told, hread⟩ := h.reads _ _ _ WriteTables.sound_empty hqueue hinfo data refs
  refine ⟨told, fun fuel target => ?_⟩
  -- The type id is looked at before the type information is read as a whole.
  have hlt : (spec.typeId writer.config.compatible).toNat < 2 ^ 32 := UInt32.toNat_lt _
  obtain ⟨rest, hrest⟩ := Write.exists_of_typeInfo_ok hinfo
  have hpeek : Read.peek Varint.take32 ⟨info ++ data, [], refs⟩ =
      .ok (spec.typeId writer.config.compatible).toNat ⟨info ++ data, [], refs⟩ := by
    rw [hrest, List.append_assoc]
    exact Read.peek_of_reads (Varint.reads_take32 hlt) _ _ _
  exact (bind_of_ok hpeek).trans (bind_of_ok hread)

/-- The reader of a message that is not null comes to the type information of the value, of which
the writer has said nothing before. -/
theorem Matches.exists_decodeWithin_eq (h : writer.Matches reader hosts) {declared : FieldType}
    {free : Nat} {v : Datum} {before after : WriteTables} {message : Message}
    (hencode : (writer.limited free).encode declared v before = .ok message after)
    (hvalue : (declared.nullable && v.isNull) = false) :
    ∃ schemas spec info between data recorded refs,
      (writer.config.compatible = true → writer.registry.Announces schemas after.queue) ∧
      writer.registry.resolve declared = .ok spec ∧
      Write.typeInfo writer.registry writer.config.compatible spec .empty = .ok info between ∧
      Write.datum (WriteEnv.limited ⟨writer.config, writer.registry⟩ free) 0
        (.declared declared false false) v between = .ok data after ∧
      ∀ fuel target context,
        reader.decodeWithin fuel target ⟨message.toList, context⟩ =
          closing schemas
            (toEnd (reader.decodeValue fuel target schemas recorded) ⟨info ++ data, [], refs⟩) := by
  -- A limit is of no account for the frame, so the reader may be taken to have the writer's.
  have hframes : (writer.limited free).Matches (reader.limited free) hosts :=
    { h with depth := Nat.le_refl _ }
  obtain ⟨frame, framed, hmessage, htake, hbody, hannounced⟩ :=
    hframes.exists_frame_of_encode hencode hvalue
  have htake : Frame.take reader.config framed = .ok frame [] := htake
  have hxlang : (writer.limited free).config.xlang = reader.config.xlang := h.xlang
  have hmode : reader.config.refMode = (writer.limited free).config.refMode := h.refMode
  rw [← List.append_nil framed] at htake hmessage
  obtain ⟨spec, info, between, data, recorded, refs, hresolve, hinfo, hdata, hbehind⟩ :=
    exists_decodeBody_eq hmode hbody
  refine ⟨frame.schemas, spec, info, between, data, recorded, refs, hannounced, hresolve, hinfo,
    hdata, fun fuel target context => ?_⟩
  cases hend : toEnd (reader.decodeValue fuel target frame.schemas recorded)
      ⟨info ++ data, [], refs⟩ <;>
    simp only [hmessage, decodeWithin, decodeWith_of_frame hxlang htake, decodeFrame, hbehind, hend,
      closing]

/-- The reader of a message that is not null comes to the data of the value, if it concurs with the
writer on every message and has a wire type for what is expected. -/
theorem Matches.exists_entrance_of_concur {known : HostType → Prop} (h : writer.Matches reader known)
    (hconcur : ∀ schemas queue,
      (writer.config.compatible = true → writer.registry.Announces schemas queue) →
        (writer.peers reader schemas queue).Concur hosts)
    {declared : FieldType} (hover : declared.Among hosts) {wire : WireType}
    (hwire : WireType.ofFieldType writer.registry writer.config.compatible declared false =
      .ok wire)
    (hderived : WireType.ofFieldType reader.registry reader.config.compatible declared false =
      .ok wire)
    {free : Nat} {v : Datum} {before after : WriteTables} {message : Message}
    (hencode : (writer.limited free).encode declared v before = .ok message after)
    (hvalue : (declared.nullable && v.isNull) = false) :
    Nonempty (Entrance writer reader hosts free declared v message.toList) := by
  obtain ⟨schemas, spec, info, between, data, recorded, refs, hannounced, hresolve, hinfo, hdata,
    hread⟩ := h.exists_decodeWithin_eq hencode hvalue
  have hagree := hconcur schemas after.queue hannounced
  obtain ⟨resolved, hdescribes, hmirrors⟩ :=
    hagree.exists_mirrors_typeInfo hover hresolve WriteTables.sound_empty hinfo
  have hkeeps : Write.Keeps writer.registry (Write.datum
      (WriteEnv.limited ⟨writer.config, writer.registry⟩ free) 0 (.declared declared false false) v) :=
    Write.keeps_datum _ _ _
  obtain ⟨told, hvalue⟩ := exists_decodeValue_eq hmirrors hinfo (hkeeps _ _ _ hdata).queue data
    recorded refs
  have htype := WireType.with_id_eq hresolve hwire
  let start : ReadState :=
    ⟨data, between.names, if recorded then told ++ [⟨data, wire, resolved⟩] else told⟩
  refine ⟨⟨schemas, between, after, spec, wire, resolved, start, hagree,
    (hmirrors.keeps _ _ _ hinfo).sound WriteTables.sound_empty, rfl, hdata, hresolve, hwire,
    hdescribes, fun fuel label shape context => (hread _ _ _).trans ?_⟩⟩
  refine congrArg (closing schemas) (toEnd_congr ((hvalue _ _).trans ?_))
  refine (ofExcept_bind_of_ok hderived _ _).trans ?_
  rw [htype]
  cases recorded <;> rfl

/-- The reader of a message that is not null comes to the data of the value. -/
theorem Matches.exists_entrance (h : writer.Matches reader hosts) {declared : FieldType}
    (hover : declared.Among hosts) {free : Nat} {v : Datum}
    {before after : WriteTables} {message : Message}
    (hencode : (writer.limited free).encode declared v before = .ok message after)
    (hvalue : (declared.nullable && v.isNull) = false) :
    Nonempty (Entrance writer reader hosts free declared v message.toList) := by
  have hagree : (writer.peers reader [] []).Agree hosts := h.agree fun _ => .nil
  obtain ⟨wire, hwire, hderived⟩ := exists_wireType hagree hover
  exact h.exists_entrance_of_concur (fun schemas queue hannounced => (h.agree hannounced).concur)
    hover hwire hderived hencode hvalue

namespace Entrance

variable {free : Nat} {declared : FieldType} {v : Datum} {bytes : List UInt8}
  (e : Entrance writer reader hosts free declared v bytes)

/-- What the reader relies on. -/
def env : ReadEnv := ⟨reader.config, reader.registry, reader.shapes, e.schemas⟩

/-- The kind of the value is known. -/
theorem exists_kind : ∃ kind, WireType.kindOf e.type.id = .ok kind := by
  obtain ⟨spec, -, hid, -⟩ := WireType.of_ofFieldType_ok e.derived
  exact ⟨_, hid ▸ spec.kindOf_typeId writer.config.compatible⟩

/-- The message is read as a shape if its data are, and nothing is left behind them. -/
theorem decode_eq_ok_iff (label : String) (shape : Shape) (context : ReadContext) {w : Datum}
    {left : Reading} :
    reader.decode ⟨label, declared, shape⟩ ⟨bytes, context⟩ = .ok w left ↔
      ∃ t, Read.Gives e.env ⟨0, true⟩ (.entered e.type e.resolved) shape e.start w t ∧
        t.input = [] ∧ left = ⟨[], ⟨e.schemas, t.names, t.refs⟩⟩ :=
  decode_eq_ok_iff_of_goesOn fun n => e.goesOn n label shape context

/-- The message is not read as a shape if its data are not. -/
theorem exists_decode_error (label : String) {shape : Shape} (context : ReadContext) {n : Nat}
    {error : Error} {t : ReadState}
    (hread : Read.datumWithin e.env n ⟨0, true⟩ (.entered e.type e.resolved) shape e.start =
      .error error t) (herror : error ≠ .unfinished) :
    ∃ kept, reader.decode ⟨label, declared, shape⟩ ⟨bytes, context⟩ = .error error ⟨[], kept⟩ :=
  exists_decode_error_of_goesOn (fun n => e.goesOn n label shape context) hread herror

end Entrance

end Engine

end SchemaWire
