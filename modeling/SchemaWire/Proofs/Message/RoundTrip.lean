import SchemaWire.Proofs.Data.RoundTrip
import SchemaWire.Proofs.Message.Limit
import SchemaWire.Proofs.Message.Stream

/-!
# Messages are read back

A message that was written is read back by the engine that wrote it and by every engine with
the same settings and the same types, whatever messages either of them handled before.
-/

namespace SchemaWire

namespace Peers

variable {peers : Peers} {hosts : HostType → Prop} {α β : Type}

/-- A reader may look first at what the written bytes start with. -/
theorem Mirrors.peek {writer : Write (List UInt8)} {front : List UInt8} {reader : Take α} {a : α}
    {next : α → Read β} {b : β} (hfront : Take.Reads reader front a)
    (hwriter : ∀ before bytes after, writer before = .ok bytes after → ∃ rest, bytes = front ++ rest)
    (h : peers.Mirrors writer (next a) b) :
    peers.Mirrors writer (Read.peek reader >>= next) b := by
  refine ⟨h.keeps, fun before bytes after hsound hqueue hok back refs => ?_⟩
  obtain ⟨rest, rfl⟩ := hwriter before bytes after hok
  obtain ⟨refs', hread⟩ := h.reads before _ after hsound hqueue hok back refs
  rw [List.append_assoc] at hread ⊢
  exact ⟨refs', (bind_of_ok (Read.peek_of_reads hfront _ _ _)).trans hread⟩

/-- The flag in front of the top-level value is read back. -/
theorem exists_mirrors_topFlag (peers : Peers) {config own : Config}
    (hmode : own.refMode = config.refMode) (spec : TypeSpec) :
    ∃ flag : RefFlag, (flag = .notNull ∨ flag = .refValue) ∧
      peers.Mirrors (pure ((Engine.topFlag config spec).toList.map RefFlag.toByte))
        (Engine.takeTopFlag own) flag := by
  unfold Engine.topFlag Engine.takeTopFlag
  rw [hmode]
  cases config.refMode with
  | none => exact ⟨.notNull, .inl rfl, .pure fun _ => .pure _⟩
  | nullOnly => exact ⟨.notNull, .inl rfl, mirrors_flag .notNull⟩
  | tracking =>
    cases spec.tracked with
    | false => exact ⟨.notNull, .inl rfl, mirrors_flag .notNull⟩
    | true => exact ⟨.refValue, .inr rfl, mirrors_flag .refValue⟩

namespace Concur

variable (h : peers.Concur hosts) {shape : Shape} {v : Datum} {spec : TypeSpec} {wire : WireType}
  {resolved : Resolved} {fuel : Nat}
include h

/-- The data of a top-level value that is not missing are read back. -/
theorem mirrors_data (hshape : shape.Declarable hosts) (hholds : shape.Holds peers.read.shapes v)
    (hv : shape.isOption = true → v ≠ .none) (hheight : v.height + 1 < fuel)
    (hopened : peers.Opened shape shape.declared spec wire resolved) :
    peers.Mirrors (Write.datum peers.write 0 (.declared shape.declared false false) v)
      (Read.datumWithin peers.read fuel ⟨0, true⟩ (.entered wire resolved) shape) v := by
  cases fuel with
  | zero => cases hheight
  | succ fuel =>
    have hbelow : v.height < fuel := Nat.lt_of_succ_lt_succ hheight
    have ih := h.follows fuel
    cases hflat : shape.isOption with
    | false =>
      exact (h.carries_entered ih hshape hflat hholds hbelow hopened 0 false true).read
    | true =>
      cases hshape with
      | @option element hcontent helement =>
        cases hholds with
        | none => exact absurd rfl (hv rfl)
        | some hheld =>
          obtain ⟨-, hregistered, hderived, htold⟩ := hopened
          have hinner : peers.Opened element (Shape.option element).declared spec wire resolved :=
            ⟨.inr rfl, hregistered, hderived, htold⟩
          have hcarries := h.carries_some ih helement hcontent hheld hbelow hinner 0 false true
          have henter := hinner.reads_enter true
          rw [Read.datumWithin_succ (.some hheld)]
          exact Mirrors.nil_bind henter hcarries.read
      | _ => cases hflat

end Concur

end Peers

namespace Engine

/-- A writer and a reader of one message with the given schemas, whose queue they come from. -/
def peers (writer reader : Engine) (schemas : List Schema) (queue : SchemaQueue) : Peers where
  write := ⟨writer.config, writer.registry⟩
  read := ⟨reader.config, reader.registry, reader.shapes, schemas⟩
  queue := queue

section Value

variable {writer reader : Engine} {schemas : List Schema} {queue : SchemaQueue}
  {hosts : HostType → Prop} {shape : Shape} {v : Datum}

/-- Writer and reader derive one wire type of a declared type. -/
theorem exists_wireType (h : (writer.peers reader schemas queue).Agree hosts)
    {declared : FieldType} (hover : declared.Among hosts) :
    ∃ wire,
      WireType.ofFieldType writer.registry writer.config.compatible declared false = .ok wire ∧
      WireType.ofFieldType reader.registry reader.config.compatible declared false = .ok wire := by
  have hcompatible : reader.config.compatible = writer.config.compatible := h.compatible
  obtain ⟨wire, hwire⟩ := WireType.exists_ofFieldType h.sameRoles h.written h.own hover
    writer.config.compatible false
  have hsame := WireType.ofFieldType_congr h.sameRoles h.written h.own hover
    writer.config.compatible false
  refine ⟨wire, hwire, ?_⟩
  rw [hcompatible]
  exact hsame.trans hwire

/-- The type information and the data of the top-level value are read back. -/
theorem mirrors_value (h : (writer.peers reader schemas queue).Agree hosts)
    (hshape : shape.Declarable hosts) (hholds : shape.Holds reader.shapes v)
    (hv : shape.isOption = true → v ≠ .none)
    {fuel : Nat} (hheight : v.height + 1 < fuel) {spec : TypeSpec}
    (hresolve : writer.registry.resolve shape.declared = .ok spec) (label : String)
    (recorded : Bool) :
    (writer.peers reader schemas queue).Mirrors
      (do
        let info ← Write.typeInfo writer.registry writer.config.compatible spec
        return info ++ (← Write.datum ⟨writer.config, writer.registry⟩ 0
          (.declared shape.declared false false) v))
      (reader.decodeValue fuel ⟨label, shape.declared, shape⟩ schemas recorded) v := by
  obtain ⟨own, hown, hunderstands⟩ := h.exists_understands hshape.among
  cases hresolve.symm.trans hown
  have hmem := Registry.mem_of_resolve hresolve
  obtain ⟨resolved, htold, hinfo⟩ := h.exists_mirrors_typeInfo_of_understands hmem hunderstands
  obtain ⟨wire, hwire, hderived⟩ := exists_wireType h hshape.among
  have htype := WireType.with_id_eq hresolve hwire
  have hopened : (writer.peers reader schemas queue).Opened shape shape.declared spec wire
      resolved :=
    ⟨.inl rfl, hresolve, ⟨false, hwire⟩, htold⟩
  have hdata := h.concur.mirrors_data hshape hholds hv hheight hopened
  have hid32 : (spec.typeId writer.config.compatible).toNat < 2 ^ 32 := UInt32.toNat_lt _
  refine Peers.Mirrors.peek (Varint.reads_take32 hid32) ?_ ?_
  · intro before bytes after hok
    obtain ⟨info, between, hwritten, hok⟩ := exists_of_bind_ok hok
    obtain ⟨data, last, -, hok⟩ := exists_of_bind_ok hok
    cases hok
    obtain ⟨rest, rfl⟩ := Write.exists_of_typeInfo_ok hwritten
    exact ⟨rest ++ data, List.append_assoc _ _ _⟩
  · refine hinfo.append (Peers.Mirrors.check hderived ?_)
    rw [htype]
    cases recorded with
    | true => exact Peers.Mirrors.nil_bind (fun _ => Read.reads_record wire resolved) hdata
    | false => exact hdata

/-- A body is a flag, type information and data. Behind the flag its reader goes on with the
value, whatever stands behind the body. -/
theorem exists_decodeBody_append_eq (hmode : reader.config.refMode = writer.config.refMode)
    {declared : FieldType} {body : List UInt8} {after : WriteTables}
    (hbody : writer.encodeBody declared v .empty = .ok body after) (back : List UInt8) :
    ∃ spec info between data recorded refs,
      writer.registry.resolve declared = .ok spec ∧
      Write.typeInfo writer.registry writer.config.compatible spec .empty = .ok info between ∧
      Write.datum ⟨writer.config, writer.registry⟩ 0 (.declared declared false false) v between =
        .ok data after ∧
      ∀ fuel target schemas, reader.decodeBody fuel target schemas ⟨body ++ back, [], []⟩ =
        toEnd (reader.decodeValue fuel target schemas recorded) ⟨info ++ data ++ back, [], refs⟩ := by
  obtain ⟨spec, start, hspec, hbody⟩ := exists_of_bind_ok hbody
  obtain ⟨hresolve, rfl⟩ := exists_of_ofExcept_ok hspec
  obtain ⟨info, between, hinfo, hbody⟩ := exists_of_bind_ok hbody
  obtain ⟨data, last, hdata, hbody⟩ := exists_of_bind_ok hbody
  cases hbody
  obtain ⟨flag, hflag, hread⟩ := (writer.peers reader [] []).exists_mirrors_topFlag hmode spec
  obtain ⟨refs, htop⟩ := hread.reads .empty _ .empty WriteTables.sound_empty List.nil_prefix rfl
    (info ++ data ++ back) []
  rw [← List.append_assoc, ← List.append_assoc] at htop
  rcases hflag with rfl | rfl
  · exact ⟨spec, info, between, data, false, refs, hresolve, hinfo, hdata,
      fun _ _ _ => bind_of_ok htop⟩
  · exact ⟨spec, info, between, data, true, refs, hresolve, hinfo, hdata,
      fun _ _ _ => bind_of_ok htop⟩

/-- The reader of a body goes on with the value. -/
theorem exists_decodeBody_eq (hmode : reader.config.refMode = writer.config.refMode)
    {declared : FieldType} {body : List UInt8} {after : WriteTables}
    (hbody : writer.encodeBody declared v .empty = .ok body after) :
    ∃ spec info between data recorded refs,
      writer.registry.resolve declared = .ok spec ∧
      Write.typeInfo writer.registry writer.config.compatible spec .empty = .ok info between ∧
      Write.datum ⟨writer.config, writer.registry⟩ 0 (.declared declared false false) v between =
        .ok data after ∧
      ∀ fuel target schemas, reader.decodeBody fuel target schemas ⟨body, [], []⟩ =
        toEnd (reader.decodeValue fuel target schemas recorded) ⟨info ++ data, [], refs⟩ := by
  have hbehind := exists_decodeBody_append_eq hmode hbody []
  simpa only [List.append_nil] using hbehind

/-- The value of a body is read back, and what stands behind the body is left. -/
theorem exists_decodeBody_append (h : (writer.peers reader schemas queue).Agree hosts)
    (hmode : reader.config.refMode = writer.config.refMode) (hshape : shape.Declarable hosts)
    (hholds : shape.Holds reader.shapes v) (hv : shape.isOption = true → v ≠ .none) {fuel : Nat}
    (hheight : v.height + 1 < fuel) {body : List UInt8} {after : WriteTables}
    (hbody : writer.encodeBody shape.declared v .empty = .ok body after)
    (hqueue : after.queue <+: queue) (label : String) (back : List UInt8) :
    ∃ table refs,
      reader.decodeBody fuel ⟨label, shape.declared, shape⟩ schemas ⟨body ++ back, [], []⟩ =
        toEnd (pure v) ⟨back, table, refs⟩ := by
  obtain ⟨spec, info, between, data, recorded, refs, hresolve, hinfo, hdata, hread⟩ :=
    exists_decodeBody_append_eq hmode hbody back
  have hmirrors := mirrors_value h hshape hholds hv hheight hresolve label recorded
  have hwritten : (do
      let info ← Write.typeInfo writer.registry writer.config.compatible spec
      return info ++ (← Write.datum ⟨writer.config, writer.registry⟩ 0
        (.declared shape.declared false false) v)) .empty = .ok (info ++ data) after :=
    (bind_of_ok hinfo).trans (bind_of_ok hdata)
  obtain ⟨refs', hok⟩ := hmirrors.reads _ _ _ WriteTables.sound_empty hqueue hwritten back refs
  exact ⟨after.names, refs', (hread _ _ _).trans (bind_of_ok hok)⟩

/-- A body is read back, and nothing is left of it. -/
theorem decodeBody_of_encodeBody (h : (writer.peers reader schemas queue).Agree hosts)
    (hmode : reader.config.refMode = writer.config.refMode) (hshape : shape.Declarable hosts)
    (hholds : shape.Holds reader.shapes v) (hv : shape.isOption = true → v ≠ .none) {fuel : Nat}
    (hheight : v.height + 1 < fuel) {body : List UInt8} {after : WriteTables}
    (hbody : writer.encodeBody shape.declared v .empty = .ok body after)
    (hqueue : after.queue <+: queue) (label : String) :
    ∃ table refs, reader.decodeBody fuel ⟨label, shape.declared, shape⟩ schemas ⟨body, [], []⟩ =
      .ok v ⟨[], table, refs⟩ := by
  obtain ⟨table, refs, hread⟩ :=
    exists_decodeBody_append h hmode hshape hholds hv hheight hbody hqueue label []
  rw [List.append_nil] at hread
  exact ⟨table, refs, hread⟩

end Value

/-- The reader has the settings of the writer, but may go deeper. Both registered the given types in
the same way, as what their shapes are to the reader. Collections need not be registered. -/
structure Matches (writer reader : Engine) (hosts : HostType → Prop) : Prop where
  /-- The cross-language setting is the same. -/
  xlang : writer.config.xlang = reader.config.xlang
  /-- Both or neither let schemas travel. -/
  compatible : reader.config.compatible = writer.config.compatible
  /-- The same stands in front of the top-level value. -/
  refMode : reader.config.refMode = writer.config.refMode
  /-- The reader goes at least as deep as the writer. -/
  depth : writer.config.maxDepth ≤ reader.config.maxDepth
  /-- The writer's types were registered one after the other. -/
  written : writer.registry.Built
  /-- The reader's types were registered one after the other. -/
  own : reader.registry.Built
  /-- The writer's registry is not too large. -/
  addressable : writer.registry.Addressable
  /-- The given types are registered alike. -/
  types : ∀ host, hosts host → writer.registry.Shares reader.registry reader.shapes hosts host

section Messages

variable {writer reader : Engine} {hosts : HostType → Prop} {shape : Shape} {v : Datum}

/-- Matching engines agree on a message whose schemas the reader knows. -/
theorem Matches.agree (h : writer.Matches reader hosts) {schemas : List Schema}
    {queue : SchemaQueue} (hannounced : writer.config.compatible = true →
      writer.registry.Announces schemas queue) : (writer.peers reader schemas queue).Agree hosts where
  compatible := h.compatible
  depth := h.depth
  written := h.written.wellFormed
  own := h.own.wellFormed
  addressable := h.addressable
  announced := hannounced
  types := h.types

/-- Behind the header of a message that is not null stands its frame. -/
theorem decodeWith_of_frame {config : Config} (hxlang : config.xlang = reader.config.xlang)
    {frame : Frame} {framed rest : List UInt8}
    (hframe : Frame.take reader.config (framed ++ rest) = .ok frame rest) (fuel : Frame → Nat)
    (target : Target) (context : ReadContext) :
    reader.decodeWith fuel target ⟨(Header.ofConfig config false).encode ++ (framed ++ rest), context⟩ =
      reader.decodeFrame (fuel frame) target frame ⟨rest, .empty⟩ := by
  have hheader := fromSource_of_reads (Header.reads_takeStreamed hxlang false) (framed ++ rest) .empty
  have htake : fromSource (Frame.take reader.config) ⟨framed ++ rest, .empty⟩ =
      .ok frame ⟨rest, .empty⟩ := by
    rw [fromSource, hframe]
  refine (bind_of_ok hheader).trans ?_
  exact bind_of_ok htake

/-- Behind the header of a message that is not null the reader finds the body and, where schemas
travel, those of the queue. -/
theorem Matches.exists_frame_of_encode (h : writer.Matches reader hosts) {declared : FieldType}
    {before after : WriteTables} {message : Message}
    (hencode : writer.encode declared v before = .ok message after)
    (hvalue : (declared.nullable && v.isNull) = false) :
    ∃ frame framed, message.toList = (Header.ofConfig writer.config false).encode ++ framed ∧
      Frame.take reader.config framed = .ok frame [] ∧
      writer.encodeBody declared v .empty = .ok frame.body after ∧
      (writer.config.compatible = true →
        writer.registry.Announces frame.schemas after.queue) := by
  rcases toList_of_encode hencode with ⟨hnull, -⟩ | ⟨-, body, hbody, hmessage⟩
  · rw [hvalue] at hnull
    cases hnull
  rw [hvalue] at hmessage
  cases hcompatible : writer.config.compatible with
  | false =>
    have hown : reader.config.compatible = false := h.compatible.trans hcompatible
    rw [hcompatible, if_neg Bool.false_ne_true] at hmessage
    refine ⟨⟨none, body, []⟩, body, hmessage, ?_, hbody, nofun⟩
    rw [Frame.take, hown]
    rfl
  | true =>
    have hown : reader.config.compatible = true := h.compatible.trans hcompatible
    rw [hcompatible, if_pos rfl] at hmessage
    obtain ⟨hlength, hmessage⟩ := hmessage
    have hsound := sound_of_encodeBody hbody
    obtain ⟨schemas, hannounces⟩ := hsound.exists_announces
    have hcount : after.queue.length < 2 ^ 32 := by
      have hqueue := hsound.length_queue_le
      have htypes := h.addressable.count
      omega
    have hframe := Frame.reads_take hown hlength (hannounces.holds h.addressable) hcount []
    rw [List.append_nil, hannounces.normalized] at hframe
    exact ⟨_, _, hmessage, hframe, hbody, fun _ => hannounces⟩

/-- A null message is read as what the expected shape has for it. -/
theorem Matches.decodeWith_of_null (h : writer.Matches reader hosts) {declared : FieldType}
    {before after : WriteTables} {message : Message}
    (hencode : writer.encode declared v before = .ok message after)
    (hnull : (declared.nullable && v.isNull) = true) {target : Target} {w : Datum}
    (hdefault : reader.nullValue target = .ok w) (fuel : Frame → Nat) (context : ReadContext) :
    reader.decodeWith fuel target ⟨message.toList, context⟩ = .ok w ⟨[], .empty⟩ := by
  rcases toList_of_encode hencode with ⟨-, hmessage⟩ | ⟨hother, -⟩
  · rw [hnull] at hmessage
    have hheader := fromSource_of_reads (Header.reads_takeStreamed h.xlang true) [] .empty
    rw [List.append_nil] at hheader
    rw [hmessage]
    refine (bind_of_ok hheader).trans ?_
    rw [if_pos (show (Header.ofConfig writer.config true).isNull = true from rfl), hdefault]
    rfl
  · rw [hnull] at hother
    cases hother

/-- A missing value is read back from its message. -/
theorem Matches.decodeWith_of_missing {known : HostType → Prop} (h : writer.Matches reader known)
    (hshape : shape.Declarable hosts) (hholds : shape.Holds reader.shapes v)
    {before after : WriteTables} {message : Message}
    (hencode : writer.encode shape.declared v before = .ok message after)
    (hvalue : (shape.declared.nullable && v.isNull) = true) (fuel : Frame → Nat) (label : String)
    (context : ReadContext) :
    reader.decodeWith fuel ⟨label, shape.declared, shape⟩ ⟨message.toList, context⟩ =
      .ok v ⟨[], .empty⟩ := by
  obtain ⟨hnullable, hnull⟩ := Bool.and_eq_true_iff.mp hvalue
  obtain ⟨content, rfl⟩ := Shape.exists_of_isOption (hshape.nullable_declared.symm.trans hnullable)
  have hv : v = .none := by
    cases hholds with
    | none => rfl
    | some hcontent => cases hnull
  have hdefault : reader.nullValue ⟨label, (Shape.option content).declared, .option content⟩ =
      .ok .none := by
    rw [nullValue, if_pos hnullable]
    rfl
  exact hv ▸ h.decodeWith_of_null hencode hvalue hdefault fuel context

/-- A message is read back with every bound that its body does not reach. -/
theorem Matches.decodeWith_of_encode (h : writer.Matches reader hosts) (hshape : shape.Declarable hosts)
    (hholds : shape.Holds reader.shapes v) {before after : WriteTables} {message : Message}
    (hencode : writer.encode shape.declared v before = .ok message after) {fuel : Frame → Nat}
    (hfuel : ∀ frame : Frame, writer.encodeBody shape.declared v .empty = .ok frame.body after →
      v.height + 1 < fuel frame) (label : String) (context : ReadContext) :
    ∃ kept, reader.decodeWith fuel ⟨label, shape.declared, shape⟩ ⟨message.toList, context⟩ =
      .ok v ⟨[], kept⟩ := by
  cases hvalue : shape.declared.nullable && v.isNull with
  | true => exact ⟨.empty, h.decodeWith_of_missing hshape hholds hencode hvalue fuel label context⟩
  | false =>
    obtain ⟨frame, framed, hmessage, htake, hbody, hannounced⟩ :=
      h.exists_frame_of_encode hencode hvalue
    have hagree := h.agree hannounced
    obtain ⟨table, refs, hread⟩ := decodeBody_of_encodeBody hagree h.refMode hshape hholds
      (hshape.ne_none hvalue) (hfuel frame hbody) hbody (List.prefix_refl _) label
    rw [← List.append_nil framed] at htake hmessage
    refine ⟨⟨frame.schemas, table, refs⟩, ?_⟩
    rw [hmessage, decodeWith_of_frame h.xlang htake, decodeFrame, hread]

end Messages

end Engine

/-- A message is read back by the engine that wrote it and by every matching one, whatever was
written or read before: its value is found again, and nothing is left of it. -/
theorem round_trip {writer reader : Engine} {hosts : HostType → Prop}
    (h : writer.Matches reader hosts) {shape : Shape} (hshape : shape.Declarable hosts) {v : Datum}
    (hholds : shape.Holds reader.shapes v) {before after : WriteTables} {message : Message}
    (hencode : writer.encode shape.declared v before = .ok message after) (label : String)
    (context : ReadContext) :
    ∃ kept, reader.decode ⟨label, shape.declared, shape⟩ ⟨message.toList, context⟩ =
      .ok v ⟨[], kept⟩ := by
  have hfuel : ∀ frame : Frame, writer.encodeBody shape.declared v .empty = .ok frame.body after →
      v.height + 1 < v.height + 2 := fun _ _ => Nat.lt_succ_self _
  obtain ⟨kept, hread⟩ := h.decodeWith_of_encode hshape hholds hencode hfuel label context
  have hends : ¬Unfinished (reader.decodeWithin (v.height + 2) ⟨label, shape.declared, shape⟩
      ⟨message.toList, context⟩) :=
    not_unfinished_of_ok hread
  exact ⟨kept, (Engine.decode_eq_of_ends hends).trans hread⟩

namespace Sample

/-- The fields of a tree. -/
def treeFields : List FieldDescriptor :=
  [⟨"m", .scalar (.int .int32) false, false⟩,
    ⟨"t", .list "twigs" (.scalar (.user "Tree") false) false, false⟩]

/-- A registry with trees, registered by a number. -/
def trees : Registry where
  specs := Registry.standard.specs ++
    [⟨some (.user "Tree"), "Tree", false, .struct (.id 3) treeFields⟩]

/-- An engine for trees, whose schemas travel. -/
def forester : Engine where
  config := ⟨true, true, .tracking, 5⟩
  registry := trees
  shapes := [("Tree", .struct "Tree" [⟨"m", false, .int .int32⟩,
    ⟨"t", false, .list "twigs" (.user "Tree")⟩])]

/-- A tree with the given mark and twigs. -/
def tree (mark : Int) (twigs : List Datum) : Datum :=
  .struct "Tree" [("m", .int .int32 mark), ("t", .seq true twigs)]

/-- A message with a tree that has one twig. -/
def grown : Message where
  segments := [[212, 98, 6, 6], [18, 0, 0, 0], [255, 144, 6, 3, 1, 0, 0, 0, 1, 255, 144, 6, 3, 2, 0,
    0, 0, 0, 1, 11, 144, 180, 96, 202, 253, 251, 95, 2, 144, 6, 64, 4, 48, 64, 21, 192, 24, 76]]

/-- The registry of trees is built by one registration. -/
theorem built_trees : trees.Built := by
  have hadded : Registry.standard.registerStruct (.user "Tree") (.id 3) treeFields =
      .ok trees := rfl
  exact .struct .standard hadded

/-- Trees with twigs are held where trees are. -/
theorem holds_tree {mark : Int} (hmark : IntType.int32.holds mark = true) {twigs : List Datum}
    (htwigs : ∀ twig ∈ twigs, (Shape.user "Tree").Holds forester.shapes twig) :
    (Shape.user "Tree").Holds forester.shapes (tree mark twigs) := by
  refine .user (.struct rfl fun part hpart => ?_)
  rcases List.mem_pair.mp hpart with rfl | rfl
  · exact .int hmark
  · exact .list htwigs (.inl rfl)

/-- The engine for trees matches itself. -/
theorem matches_forester :
    forester.Matches forester (· ∈ [HostType.user "Tree", .collection "twigs"]) where
  xlang := rfl
  compatible := rfl
  refMode := rfl
  depth := Nat.le_refl _
  written := built_trees
  own := built_trees
  addressable := by decide +kernel
  types := by
    intro host hhost
    rcases List.mem_pair.mp hhost with rfl | rfl
    · refine .inl ⟨_, _, rfl, rfl, rfl, .struct rfl fun member hmember => ?_, nofun⟩
      rcases List.mem_pair.mp hmember with rfl | rfl
      · exact .int .int32
      · exact .list (by decide) (.user (by decide))
    · exact .inr ⟨rfl, rfl, rfl⟩

end Sample

/-- A tree with a twig is written and read back. -/
theorem round_trip_tree :
    (∃ after, Sample.forester.encode (.scalar (.user "Tree") false)
        (Sample.tree 1 [Sample.tree 2 []]) .empty = .ok Sample.grown after) ∧
      ∃ kept, Sample.forester.decode ⟨"Tree", .scalar (.user "Tree") false, .user "Tree"⟩
        ⟨Sample.grown.toList, .empty⟩ = .ok (Sample.tree 1 [Sample.tree 2 []]) ⟨[], kept⟩ := by
  have hleaf : (Shape.user "Tree").Holds Sample.forester.shapes (Sample.tree 2 []) :=
    Sample.holds_tree rfl nofun
  have hholds : (Shape.user "Tree").Holds Sample.forester.shapes
      (Sample.tree 1 [Sample.tree 2 []]) :=
    Sample.holds_tree rfl (by simpa using hleaf)
  have hencode : ∃ after, Sample.forester.encode (.scalar (.user "Tree") false)
      (Sample.tree 1 [Sample.tree 2 []]) .empty = .ok Sample.grown after :=
    ⟨_, rfl⟩
  obtain ⟨after, hencode⟩ := hencode
  exact ⟨⟨after, hencode⟩,
    round_trip Sample.matches_forester (.user (by decide)) hholds hencode "Tree" .empty⟩

end SchemaWire
